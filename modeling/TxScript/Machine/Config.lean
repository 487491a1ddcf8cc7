import TxScript.Json.Reading

/-!
# Limits and switches

The limits under which scripts run. A configuration can be given as JSON: an object in which every
field may be left out, or the values in order of declaration, of which the last ones may be left
out. What is left out has its default; unknown fields are passed over and repeated ones refused.
-/

namespace TxScript.Machine

structure Config where
  /-- Largest script that runs at all, in bytes. -/
  maxScriptSize : Nat := 10000
  /-- Largest element that may be pushed, in bytes. -/
  maxElementSize : Nat := 520
  /-- Counted operations per script. -/
  maxOps : Nat := 201
  maxMultisigKeys : Nat := 20
  /-- Block time from which redeem scripts are evaluated. -/
  p2shActivation : UInt32 := 1333238400
  /-- Enables the string and arithmetic opcodes brought back in May 2018. -/
  monolith : Bool := true
  deriving DecidableEq, Repr

namespace Config

inductive Field where
  | maxScriptSize
  | maxElementSize
  | maxOps
  | maxMultisigKeys
  | p2shActivation
  | monolith
  deriving DecidableEq, Repr

/-- The fields in order of declaration. -/
def fields : List Field :=
  [.maxScriptSize, .maxElementSize, .maxOps, .maxMultisigKeys, .p2shActivation, .monolith]

def Field.name : Field → String
  | .maxScriptSize => "max_script_size"
  | .maxElementSize => "max_script_element_size"
  | .maxOps => "max_ops_per_script"
  | .maxMultisigKeys => "max_pub_keys_per_multisig"
  | .p2shActivation => "p2sh_activation_timestamp"
  | .monolith => "monolith_opcodes"

/-- Sets a field, when the value is one of its kind: sizes and counts have 64 bits, the block time
has 32. -/
def set? (c : Config) (field : Field) (value : Json.Value) : Option Config :=
  match field with
  | .maxScriptSize => (value.naturalBelow? (UInt64.size)).map fun n => { c with maxScriptSize := n }
  | .maxElementSize => (value.naturalBelow? (UInt64.size)).map fun n => { c with maxElementSize := n }
  | .maxOps => (value.naturalBelow? (UInt64.size)).map fun n => { c with maxOps := n }
  | .maxMultisigKeys =>
    (value.naturalBelow? (UInt64.size)).map fun n => { c with maxMultisigKeys := n }
  | .p2shActivation =>
    (value.naturalBelow? (UInt32.size)).map fun n => { c with p2shActivation := UInt32.ofNat n }
  | .monolith => value.bool?.map fun b => { c with monolith := b }

/-- Takes named fields into a configuration; `unset` holds those that have not been named yet. -/
def ofNamed (unset : List Field) (c : Config) :
    List (List Json.StringItem × Json.Value) → Option Config
  | [] => some c
  | (key, value) :: rest => do
    let name ← Json.text? key
    match fields.find? (·.name = name) with
    | none => ofNamed unset c rest
    | some field =>
      if field ∈ unset then
        let c ← c.set? field value
        ofNamed (unset.erase field) c rest
      else none

/-- Takes values in order of declaration into a configuration. -/
def ofListed (c : Config) : List Field → List Json.Value → Option Config
  | _, [] => some c
  | [], _ :: _ => none
  | field :: fields, value :: values => do
    let c ← c.set? field value
    ofListed c fields values

def ofJson? : Json.Value → Option Config
  | .object named => ofNamed fields {} named
  | .array listed => ofListed {} fields listed
  | _ => none

def ofJsonText? (text : String) : Option Config :=
  (Json.parse? text).bind ofJson?

def fieldText (c : Config) : Field → String
  | .maxScriptSize => toString c.maxScriptSize
  | .maxElementSize => toString c.maxElementSize
  | .maxOps => toString c.maxOps
  | .maxMultisigKeys => toString c.maxMultisigKeys
  | .p2shActivation => toString c.p2shActivation.toNat
  | .monolith => if c.monolith then "true" else "false"

def toJsonText (c : Config) : String :=
  let body := fields.map fun field => Json.quotePlain field.name ++ ":" ++ c.fieldText field
  "\x7b" ++ ",".intercalate body ++ "\x7d"

end Config

end TxScript.Machine
