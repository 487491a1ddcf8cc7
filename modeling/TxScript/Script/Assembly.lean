import TxScript.Json.Reading
import TxScript.Script.Builder

/-!
# Mnemonic text

A script can be given as words between white space: names of opcodes, and hexadecimal data for
everything else. A script also has a JSON form, which is its hexadecimal form as a string.
-/

namespace TxScript

namespace Text

/-- The characters with the property White_Space. -/
def isBlank (c : Char) : Bool :=
  let n := c.toNat
  decide ((9 ≤ n ∧ n ≤ 13) ∨ n = 0x20 ∨ n = 0x85 ∨ n = 0xa0 ∨ n = 0x1680
    ∨ (0x2000 ≤ n ∧ n ≤ 0x200a) ∨ n = 0x2028 ∨ n = 0x2029 ∨ n = 0x202f ∨ n = 0x205f
    ∨ n = 0x3000)

/-- Puts a character in front of the first of some words. -/
def extendFirst (c : Char) : List (List Char) → List (List Char)
  | [] => [[c]]
  | word :: words => (c :: word) :: words

/-- The pieces between blanks, empty ones included. -/
def pieces : List Char → List (List Char)
  | [] => [[]]
  | c :: rest => if isBlank c then [] :: pieces rest else extendFirst c (pieces rest)

/-- The words of a text. -/
def words (text : String) : List String :=
  ((pieces text.toList).filter (!·.isEmpty)).map String.ofList

end Text

namespace Script

/-- Appends what a word stands for. -/
def appendToken (s : Script) (token : String) : Except ScriptError Script :=
  match Opcode.ofName? token with
  | some op => s.append op
  | none =>
    match Hex.decode token with
    | .ok data => s.appendData data
    | .error _ => .error (.unknownToken token)

def appendTokens (s : Script) : List String → Except ScriptError Script
  | [] => .ok s
  | token :: rest =>
    match s.appendToken token with
    | .ok s => appendTokens s rest
    | .error e => .error e

def ofAsm (text : String) : Except ScriptError Script :=
  appendTokens empty (Text.words text)

def ofJsonText? (text : String) : Option Script := do
  let hex ← (← Json.parse? text).text?
  (ofHex hex).toOption

def toJsonText (s : Script) : String :=
  Json.quotePlain s.toHex

/-- The form shown while debugging. -/
def describe (s : Script) : String :=
  "Script(" ++ s.toHex ++ ")"

end Script

end TxScript
