import TxScript.Machine.State

/-!
# Looking at the stacks

Elements of the main stack by index, counted from the bottom, or from the top when negative; and
taking elements off.
-/

namespace TxScript.Machine.State

/-- How far below the top an index points. -/
def depthOf (s : State) (index : Int) : Except ExecError Nat :=
  let height : Int := s.main.length
  let at_ := if index < 0 then height + index else index
  if 0 ≤ at_ ∧ at_ < height then .ok (height - 1 - at_).toNat
  else .error (.missingItems (if index < 0 then index.natAbs else index.toNat + 1))

def data (s : State) (index : Int) : Except ExecError Bytes := do
  let depth ← s.depthOf index
  return s.main.getD depth []

/-- The element as an operand of arithmetic. -/
def number (s : State) (index : Int) : Except ExecError Int := do
  match Number.operand? (← s.data index) with
  | some n => return n
  | none => .error .numberTooWide

def bool (s : State) (index : Int) : Except ExecError Bool := do
  return Number.isTrue (← s.data index)

/-- Without the top of the main stack. -/
def dropTop (s : State) : State :=
  { s with main := s.main.drop 1 }

def popData (s : State) : Except ExecError (Bytes × State) := do
  return (← s.data (-1), s.dropTop)

def popNumber (s : State) : Except ExecError (Int × State) := do
  return (← s.number (-1), s.dropTop)

def popBool (s : State) : Except ExecError (Bool × State) := do
  return (← s.bool (-1), s.dropTop)

def popAlt (s : State) : Except ExecError (Bytes × State) :=
  match s.alt with
  | [] => .error (.missingAltItems 1)
  | top :: rest => .ok (top, { s with alt := rest })

def pushBool (b : Bool) (s : State) : State :=
  { s with main := Number.ofBool b :: s.main }

def pushNumber (n : Int) (s : State) : State :=
  { s with main := Number.encode n :: s.main }

def pushAlt (data : Bytes) (s : State) : State :=
  { s with alt := data :: s.alt }

/-- Exchanges two elements. -/
def swap (s : State) (i j : Int) : Except ExecError State := do
  let a ← s.depthOf i
  let b ← s.depthOf j
  let x := s.main.getD a []
  let y := s.main.getD b []
  return { s with main := (s.main.set a y).set b x }

def requireHeight (s : State) (needed : Nat) : Except ExecError Unit :=
  if s.main.length < needed then .error (.missingItems needed) else .ok ()

def requireAltHeight (s : State) (needed : Nat) : Except ExecError Unit :=
  if s.alt.length < needed then .error (.missingAltItems needed) else .ok ()

end TxScript.Machine.State
