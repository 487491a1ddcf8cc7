import TxScript.Machine.State

/-!
# Showing the stacks

A table with one line for each element, the top first, and a one-line form with all of the state.
-/

namespace TxScript.Machine

/-- Text in the middle of a field; a text that does not fit is left as it is. -/
def centered (width : Nat) (text : String) : String :=
  let blanks := width - text.length
  let left := blanks / 2
  "".pushn ' ' left ++ text ++ "".pushn ' ' (blanks - left)

/-- A short text for an element. -/
def describeElement (data : Bytes) : String :=
  let digits := Hex.encodeChars data
  match data with
  | [] => "NULL [FALSE/0]"
  | [0x01] => "0x01 [TRUE/1]"
  | _ =>
    if 20 < digits.length then
      String.ofList (digits.take 5) ++ ".." ++ String.ofList (digits.drop (digits.length - 5))
        ++ " [" ++ toString data.length ++ "bytes]"
    else "0x" ++ String.ofList digits

def elementLine (data : Bytes) : String :=
  "| " ++ centered 26 (describeElement data) ++ " |\n"

def ruleLine : String :=
  "".pushn '=' 30 ++ "\n"

namespace State

def table (s : State) : String :=
  let main := String.join (s.main.map elementLine) ++ ruleLine
  if s.alt.isEmpty then main
  else main ++ "altstack:\n" ++ String.join (s.alt.map elementLine) ++ ruleLine

end State

def listText (items : List String) : String :=
  "[" ++ ", ".intercalate items ++ "]"

def elementText (data : Bytes) : String :=
  listText (data.map fun b => toString b.toNat)

/-- All of the state on one line, from the bottom of each stack up. -/
def describeState (env : Env) (s : State) : String :=
  "ExecutionContext \x7b stack: " ++ listText (s.main.reverse.map elementText)
    ++ ", alt_stack: " ++ listText (s.alt.reverse.map elementText)
    ++ ", condition_stack: " ++ listText (s.branches.reverse.map toString)
    ++ ", op_count: " ++ toString s.opCount
    ++ ", block_timestamp: " ++ toString env.blockTime.toNat
    ++ ", signing: " ++ toString env.checker.isSome ++ " \x7d"

end TxScript.Machine
