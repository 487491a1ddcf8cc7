import TxScript.Bytes.Hex
import TxScript.Json.Value

/-!
# Reading JSON

The grammar of JSON over a list of characters. A reader gives the value at the front and the
characters behind it. Values nest, so their readers carry a bound on the nesting; the length of the
text is always enough.
-/

namespace TxScript.Json

def isSpace (c : Char) : Bool :=
  c = ' ' || c = '\n' || c = '\t' || c = '\r'

def skipSpace (cs : List Char) : List Char :=
  cs.dropWhile isSpace

def isDigit (c : Char) : Bool :=
  decide (48 ≤ c.toNat ∧ c.toNat ≤ 57)

/-- The item named by four hexadecimal digits. -/
def unitItem (a b c d : Char) : Option StringItem := do
  let unit := 0x1000 * (← Hex.digitValue? a) + 0x100 * (← Hex.digitValue? b)
    + 0x10 * (← Hex.digitValue? c) + (← Hex.digitValue? d)
  return if isHighHalf unit || isLowHalf unit then .half unit else .char (Char.ofNat unit)

def shortEscape? : Char → Option Char
  | '"' => some '"'
  | '\\' => some '\\'
  | '/' => some '/'
  | 'b' => some '\x08'
  | 'f' => some '\x0c'
  | 'n' => some '\n'
  | 'r' => some '\r'
  | 't' => some '\t'
  | _ => none

/-- The items of a string whose opening quote has been read, up to its closing quote. -/
def readItems : List Char → Option (List StringItem × List Char)
  | [] => none
  | '"' :: rest => some ([], rest)
  | '\\' :: 'u' :: a :: b :: c :: d :: rest => do
    let item ← unitItem a b c d
    let (items, after) ← readItems rest
    return (item :: items, after)
  | '\\' :: e :: rest => do
    let c ← shortEscape? e
    let (items, after) ← readItems rest
    return (.char c :: items, after)
  | c :: rest =>
    if c.toNat < 0x20 then none
    else do
      let (items, after) ← readItems rest
      return (.char c :: items, after)

def natural (digits : List Char) : Nat :=
  digits.foldl (fun n c => 10 * n + (c.toNat - 48)) 0

/-- Digits without a needless zero in front. -/
def readInteger (cs : List Char) : Option (Nat × List Char) :=
  match cs with
  | '0' :: rest => some (0, rest)
  | _ =>
    let digits := cs.takeWhile isDigit
    if digits.isEmpty then none else some (natural digits, cs.dropWhile isDigit)

/-- One digit or more. -/
def skipDigits (cs : List Char) : Option (List Char) :=
  if (cs.takeWhile isDigit).isEmpty then none else some (cs.dropWhile isDigit)

/-- A fraction, if there is one; the flag tells whether there was. -/
def readFraction : List Char → Option (Bool × List Char)
  | '.' :: rest => (skipDigits rest).map (true, ·)
  | cs => some (false, cs)

def skipSign : List Char → List Char
  | '+' :: rest => rest
  | '-' :: rest => rest
  | cs => cs

def readExponent : List Char → Option (Bool × List Char)
  | 'e' :: rest => (skipDigits (skipSign rest)).map (true, ·)
  | 'E' :: rest => (skipDigits (skipSign rest)).map (true, ·)
  | cs => some (false, cs)

def readNumber (cs : List Char) : Option (Value × List Char) := do
  let (negative, cs) := match cs with
    | '-' :: rest => (true, rest)
    | cs => (false, cs)
  let (n, cs) ← readInteger cs
  let (fraction, cs) ← readFraction cs
  let (exponent, cs) ← readExponent cs
  return (.number (if negative || fraction || exponent then none else some n), cs)

mutual

def readValue : (nesting : Nat) → List Char → Option (Value × List Char)
  | 0, _ => none
  | nesting + 1, cs =>
    match cs with
    | 'n' :: 'u' :: 'l' :: 'l' :: rest => some (.null, rest)
    | 't' :: 'r' :: 'u' :: 'e' :: rest => some (.bool true, rest)
    | 'f' :: 'a' :: 'l' :: 's' :: 'e' :: rest => some (.bool false, rest)
    | '"' :: rest => do
      let (items, after) ← readItems rest
      return (.string items, after)
    | '[' :: rest =>
      match skipSpace rest with
      | ']' :: after => some (.array [], after)
      | inner => do
        let (items, after) ← readArray nesting inner
        return (.array items, after)
    | '\x7b' :: rest =>
      match skipSpace rest with
      | '\x7d' :: after => some (.object [], after)
      | inner => do
        let (fields, after) ← readFields nesting inner
        return (.object fields, after)
    | _ => readNumber cs

/-- The items of an array from the first of them on, and the closing bracket. -/
def readArray : (nesting : Nat) → List Char → Option (List Value × List Char)
  | 0, _ => none
  | nesting + 1, cs => do
    let (v, after) ← readValue nesting cs
    match skipSpace after with
    | ']' :: rest => return ([v], rest)
    | ',' :: rest => do
      let (vs, after) ← readArray nesting (skipSpace rest)
      return (v :: vs, after)
    | _ => none

/-- The fields of an object from the first of them on, and the closing brace. -/
def readFields : (nesting : Nat) → List Char → Option (List (List StringItem × Value) × List Char)
  | 0, _ => none
  | nesting + 1, cs =>
    match cs with
    | '"' :: rest => do
      let (key, after) ← readItems rest
      match skipSpace after with
      | ':' :: rest => do
        let (v, after) ← readValue nesting (skipSpace rest)
        match skipSpace after with
        | '\x7d' :: rest => return ([(key, v)], rest)
        | ',' :: rest => do
          let (fields, after) ← readFields nesting (skipSpace rest)
          return ((key, v) :: fields, after)
        | _ => none
      | _ => none
    | _ => none

end

/-- The value of a whole text, with space allowed around it. -/
def parse? (text : String) : Option Value := do
  let cs := text.toList
  let (v, after) ← readValue (cs.length + 1) (skipSpace cs)
  if (skipSpace after).isEmpty then some v else none

end TxScript.Json
