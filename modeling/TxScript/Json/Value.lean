/-!
# JSON values

What a JSON text says, as far as this library asks: texts, natural numbers, truth values, lists and
objects with their fields in order.
-/

namespace TxScript.Json

/-- An item of a quoted string: a character, or an escape that names half of a surrogate pair. -/
inductive StringItem where
  | char (c : Char)
  | half (unit : Nat)
  deriving DecidableEq, Repr

inductive Value where
  | null
  | bool (value : Bool)
  /-- A number, with its value when it has neither sign nor fraction nor exponent. -/
  | number (natural : Option Nat)
  | string (items : List StringItem)
  | array (items : List Value)
  | object (fields : List (List StringItem × Value))

def isHighHalf (unit : Nat) : Bool :=
  decide (0xd800 ≤ unit ∧ unit < 0xdc00)

def isLowHalf (unit : Nat) : Bool :=
  decide (0xdc00 ≤ unit ∧ unit < 0xe000)

/-- The characters of a string, when every half of a pair has its other half next to it. -/
def characters? : List StringItem → Option (List Char)
  | [] => some []
  | .char c :: rest => (characters? rest).map (c :: ·)
  | .half high :: .half low :: rest =>
    if isHighHalf high && isLowHalf low then
      (characters? rest).map
        (Char.ofNat (0x10000 + 0x400 * (high - 0xd800) + (low - 0xdc00)) :: ·)
    else none
  | .half _ :: _ => none

def text? (items : List StringItem) : Option String :=
  (characters? items).map String.ofList

def Value.text? : Value → Option String
  | .string items => Json.text? items
  | _ => none

def Value.bool? : Value → Option Bool
  | .bool b => some b
  | _ => none

/-- A natural number below the bound. -/
def Value.naturalBelow? (bound : Nat) : Value → Option Nat
  | .number (some n) => if n < bound then some n else none
  | _ => none

/-- A string of characters that need no escape, between quotes. -/
def quotePlain (text : String) : String :=
  "\"" ++ text ++ "\""

end TxScript.Json
