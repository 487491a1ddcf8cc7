import TxScript.Proofs.Indexed.Number
import TxScript.Proofs.Machine.Frame

/-!
# Operations on the main stack by position

The operations on the main stack once more, each in its own steps on the row of the stack: what it
looks at first, where it reaches into the row, and what it has taken off when it fails. None of
them ever reaches outside of the row, and each gives what the operation on stacks gives.
-/

namespace TxScript.Indexed

open Machine

/-- A computation on the row of the main stack. -/
abbrev RowAction := Action (List Bytes) ExecError

/-! ## Access -/

def height : RowAction Nat := fun row => some (.ok row.length row)

def requireHeight (needed : Nat) : RowAction Unit := fun row =>
  if row.length < needed then some (.error (.missingItems needed) row) else some (.ok () row)

/-- Replaces the row. -/
def change (f : List Bytes → Option (List Bytes)) : RowAction Unit := fun row =>
  (f row).map (.ok ())

/-- The position that lies so many elements below the end of the row. -/
def fromTop (count : Nat) : RowAction Nat := fun row =>
  (diff? row.length count).map fun i => .ok i row

/-- The position that an index names, which counts from the end when it is negative. -/
def position (index : Int) : RowAction Nat := fun row =>
  let at_ := if index < 0 then row.length + index else index
  if 0 ≤ at_ ∧ at_ < row.length then some (.ok at_.toNat row)
  else some (.error (.missingItems (if index < 0 then index.natAbs else index.toNat + 1)) row)

/-- The element at a position. -/
def element (i : Nat) : RowAction Bytes := fun row => row[i]?.map fun a => .ok a row

def data (index : Int) : RowAction Bytes := do
  element (← position index)

/-- A number, if it is one that is no wider than allowed. -/
def requireNumber (n : Option Int) : RowAction Int :=
  match n with
  | some n => pure n
  | none => Action.fail .numberTooWide

/-- The element as an operand of arithmetic. -/
def number (index : Int) : RowAction Int := do
  let n ← decode? Number.operandWidth (← data index)
  requireNumber (n.map Number.clamp32)

def bool (index : Int) : RowAction Bool := do
  isTrue? (← data index)

def push (item : Bytes) : RowAction Unit := fun row => some (.ok () (row ++ [item]))

def pushNumber (n : Int) : RowAction Unit := push (Number.encode n)

/-- Takes the top off, if there is one. -/
def discard : RowAction Unit := fun row => some (.ok () row.dropLast)

def popData : RowAction Bytes := fun row =>
  match row.getLast? with
  | none => some (.error (.missingItems 1) row)
  | some top => some (.ok top row.dropLast)

def popNumber : RowAction Int := do
  let n ← number (-1)
  discard
  return n

def popBool : RowAction Bool := do
  let b ← bool (-1)
  discard
  return b

def swap (i j : Int) : RowAction Unit := do
  let i ← position i
  let j ← position j
  change fun row => Row.exchange? row i j

/-! ## What access gives -/

variable {stack below : Stack} {top : List Bytes} {a : Bytes} {α : Type}

theorem requireHeight_of_lt {needed : Nat} (h : stack.length < needed) :
    requireHeight needed stack.reverse = some (.error (.missingItems needed) stack.reverse) := by
  rw [requireHeight, if_pos (by simpa using h)]

theorem requireHeight_of_le {needed : Nat} (h : needed ≤ stack.length) :
    requireHeight needed stack.reverse = some (.ok () stack.reverse) := by
  rw [requireHeight, if_neg (by simpa using h)]

theorem fromTop_eq (top below : List Bytes) :
    fromTop top.length (top ++ below).reverse
      = some (.ok below.length (top ++ below).reverse) := by
  rw [fromTop, List.length_reverse, List.length_append, Nat.add_comm, diff?_add_right]
  rfl

theorem change_eq {f : List Bytes → Option (List Bytes)} {row row' : List Bytes}
    (h : f row = some row') : change f row = some (.ok () row') := by
  rw [change, h]
  rfl

/-- The index of an element with so many others above it. -/
theorem position_eq (top : List Bytes) (a : Bytes) (below : Stack) {index : Int}
    (h : index = -(top.length + 1 : Int)) :
    position index (top ++ a :: below).reverse
      = some (.ok below.length (top ++ a :: below).reverse) := by
  have hneg : index < 0 := by omega
  have hat : ((top ++ a :: below).reverse.length : Int) + index = below.length := by
    simp only [List.length_reverse, List.length_append, List.length_cons]
    omega
  have hin : (0 : Int) ≤ below.length ∧
      (below.length : Int) < (top ++ a :: below).reverse.length := by
    simp only [List.length_reverse, List.length_append, List.length_cons]
    omega
  simp only [position, hneg, if_true, hat, hin, and_self, Int.toNat_natCast]

theorem data_eq (top : List Bytes) (a : Bytes) (below : Stack) {index : Int}
    (h : index = -(top.length + 1 : Int)) :
    data index (top ++ a :: below).reverse = some (.ok a (top ++ a :: below).reverse) := by
  rw [data, Action.bind_of_ok (position_eq top a below h), element, Row.getElem?_top]
  rfl

theorem data_top (a : Bytes) (below : Stack) :
    data (-1) (a :: below).reverse = some (.ok a (a :: below).reverse) :=
  data_eq [] a below rfl

theorem data_second (a b : Bytes) (below : Stack) :
    data (-2) (a :: b :: below).reverse = some (.ok b (a :: b :: below).reverse) :=
  data_eq [a] b below rfl

theorem number_eq (top : List Bytes) (a : Bytes) (below : Stack) {index : Int}
    (h : index = -(top.length + 1 : Int)) :
    number index (top ++ a :: below).reverse
      = requireNumber (Number.operand? a) (top ++ a :: below).reverse := by
  rw [number, Action.bind_of_ok (data_eq top a below h), decode?_eq]
  rfl

/-- An element that is a number. -/
theorem number_of_some (top : List Bytes) {a : Bytes} (below : Stack) {index n : Int}
    (h : index = -(top.length + 1 : Int)) (hn : Number.operand? a = some n) :
    number index (top ++ a :: below).reverse = some (.ok n (top ++ a :: below).reverse) := by
  rw [number_eq top a below h, hn]
  rfl

theorem number_of_none (top : List Bytes) {a : Bytes} (below : Stack) {index : Int}
    (h : index = -(top.length + 1 : Int)) (hn : Number.operand? a = none) :
    number index (top ++ a :: below).reverse
      = some (.error .numberTooWide (top ++ a :: below).reverse) := by
  rw [number_eq top a below h, hn]
  rfl

theorem bool_eq (a : Bytes) (below : Stack) :
    bool (-1) (a :: below).reverse = some (.ok (Number.isTrue a) (a :: below).reverse) := by
  rw [bool, Action.bind_of_ok (data_top a below), isTrue?_eq]
  rfl

theorem push_eq (item : Bytes) (stack : Stack) :
    push item stack.reverse = some (.ok () (item :: stack).reverse) := by
  rw [push, List.reverse_cons]

theorem discard_eq (a : Bytes) (below : Stack) :
    discard (a :: below).reverse = some (.ok () below.reverse) := by
  rw [discard, List.reverse_cons, List.dropLast_concat]

theorem popData_eq (a : Bytes) (below : Stack) :
    popData (a :: below).reverse = some (.ok a below.reverse) := by
  rw [popData, List.reverse_cons, List.getLast?_concat, List.dropLast_concat]

/-- Taking a number off looks at it first. -/
theorem popNumber_of_some {a : Bytes} (below : Stack) {n : Int} (hn : Number.operand? a = some n) :
    popNumber (a :: below).reverse = some (.ok n below.reverse) :=
  (Action.bind_of_ok (number_of_some [] below rfl hn)).trans
    (Action.bind_of_ok (discard_eq a below))

theorem popNumber_of_none {a : Bytes} (below : Stack) (hn : Number.operand? a = none) :
    popNumber (a :: below).reverse = some (.error .numberTooWide (a :: below).reverse) :=
  Action.bind_of_error (number_of_none [] below rfl hn)

theorem popBool_eq (a : Bytes) (below : Stack) :
    popBool (a :: below).reverse = some (.ok (Number.isTrue a) below.reverse) :=
  (Action.bind_of_ok (bool_eq a below)).trans (Action.bind_of_ok (discard_eq a below))

/-! ## What it means to do the same -/

/-- The end of a computation on a stack as that of one on its row, which gives the value and leaves
the stack found in the result. -/
def ended {α β : Type} (value : α → β) (left : α → Stack) (r : Except StackFault α) :
    EStateM.Result ExecError (List Bytes) β :=
  match r with
  | .ok a => .ok (value a) (left a).reverse
  | .error fault => .error fault.error fault.left.reverse

theorem bind_of_ended {α β γ δ : Type} {value : α → β} {left : α → Stack} {value' : γ → δ}
    {left' : γ → Stack} {r : Except StackFault α} {p : RowAction β} {k : β → RowAction δ}
    {k' : α → Except StackFault γ} {row : List Bytes} (h : p row = some (ended value left r))
    (hk : ∀ a, r = .ok a → k (value a) (left a).reverse = some (ended value' left' (k' a))) :
    (p >>= k) row = some (ended value' left' (r >>= k')) := by
  cases r with
  | error fault => exact Action.bind_of_error h
  | ok a => exact (Action.bind_of_ok h).trans (hk a rfl)

/-- The end of an operation on a stack. -/
abbrev ending (r : Except StackFault Stack) : EStateM.Result ExecError (List Bytes) Unit :=
  ended (fun _ => ()) id r

/-- A computation on rows always has an end, and that of an operation on stacks. -/
def Does (p : RowAction Unit) (f : Stack → Except StackFault Stack) : Prop :=
  ∀ stack, p stack.reverse = some (ending (f stack))

theorem Does.bind {p q : RowAction Unit} {f g : Stack → Except StackFault Stack} (hp : Does p f)
    (hq : Does q g) : Does (do p; q) fun stack => f stack >>= g :=
  fun stack => bind_of_ended (hp stack) fun after _ => hq after

theorem short {needed : Nat} {body : RowAction α} (h : stack.length < needed) :
    (do requireHeight needed; body) stack.reverse
      = some (.error (.missingItems needed) stack.reverse) :=
  Action.bind_of_error (requireHeight_of_lt h)

theorem tall {needed : Nat} {body : RowAction α} (h : needed ≤ stack.length) :
    (do requireHeight needed; body) stack.reverse = body stack.reverse :=
  Action.bind_of_ok (requireHeight_of_le h)

/-! ## Moving elements -/

def drop (count : Nat) : RowAction Unit := do
  requireHeight count
  let kept ← fromTop count
  change fun row => Row.truncate? row kept

def dup (count : Nat) : RowAction Unit := do
  requireHeight count
  let start ← fromTop count
  change fun row => Row.copyBack? row start row.length

def twoOver : RowAction Unit := do
  requireHeight 4
  let start ← fromTop 4
  let stop ← fromTop 2
  change fun row => Row.copyBack? row start stop

def twoRot : RowAction Unit := do
  requireHeight 6
  let start ← fromTop 6
  change fun row => Row.rotate? row start 2

def twoSwap : RowAction Unit := do
  requireHeight 4
  let start ← fromTop 4
  change fun row => Row.rotate? row start 2

def ifDup : RowAction Unit := do
  requireHeight 1
  if ← bool (-1) then dup 1 else pure ()

def depth : RowAction Unit := do
  pushNumber (← height)

def nip : RowAction Unit := do
  requireHeight 2
  let i ← fromTop 2
  change fun row => (Row.remove? row i).map Prod.snd

/-- Copies the second element to the top. -/
def copySecond : RowAction Unit := do
  requireHeight 2
  push (← data (-2))

/-- The position of the element so many places below a number on top, which is taken off. -/
def takePosition (opcode : String) : RowAction Nat := do
  requireHeight 2
  let n ← popNumber
  if n < 0 then Action.fail (.negativeIndex opcode)
  else do
    requireHeight (n.toNat + 1)
    fromTop (n.toNat + 1)

def pick : RowAction Unit := do
  let i ← takePosition "OP_PICK"
  push (← element i)

def roll : RowAction Unit := do
  let i ← takePosition "OP_ROLL"
  change fun row => (Row.remove? row i).map fun r => r.2 ++ [r.1]

def rot : RowAction Unit := do
  requireHeight 3
  swap (-3) (-2)
  swap (-2) (-1)

def swapTop : RowAction Unit := do
  requireHeight 2
  swap (-2) (-1)

def tuck : RowAction Unit := do
  requireHeight 2
  let a ← data (-1)
  let i ← fromTop 2
  change fun row => Row.insert? row i a

variable {limit : Nat}

theorem exists_eq_append {count : Nat} (h : count ≤ stack.length) :
    ∃ top below : List Bytes, stack = top ++ below ∧ top.length = count :=
  ⟨stack.take count, stack.drop count, (List.take_append_drop count stack).symm, by simp [h]⟩

theorem drop_does (count : Nat) : Does (drop count) (StackOp.apply limit (.drop count)) := by
  intro stack
  by_cases h : count ≤ stack.length
  · obtain ⟨top, below, rfl, rfl⟩ := exists_eq_append h
    rw [drop, tall h, Action.bind_of_ok (fromTop_eq top below),
      change_eq (Row.truncate?_top top below)]
    simp [StackOp.apply, ended]
  · rw [drop, short (Nat.lt_of_not_le h), StackOp.apply, if_neg h]
    rfl

theorem dup_does (count : Nat) : Does (dup count) (StackOp.apply limit (.dup count)) := by
  intro stack
  by_cases h : count ≤ stack.length
  · obtain ⟨top, below, rfl, rfl⟩ := exists_eq_append h
    have hcopy : Row.copyBack? (top ++ below).reverse below.length (top ++ below).reverse.length
        = some (top ++ (top ++ below)).reverse := by
      rw [List.length_reverse, List.length_append, Nat.add_comm]
      exact Row.copyBack?_top [] below top
    rw [dup, tall h, Action.bind_of_ok (fromTop_eq top below), change_eq hcopy]
    simp [StackOp.apply, ended]
  · rw [dup, short (Nat.lt_of_not_le h), StackOp.apply, if_neg h]
    rfl

theorem twoOver_does : Does twoOver (StackOp.apply limit .twoOver) := by
  intro stack
  rcases stack with _ | ⟨x₄, _ | ⟨x₃, _ | ⟨x₂, _ | ⟨x₁, rest⟩⟩⟩⟩
  iterate 4 exact short (by simp)
  have hstart := fromTop_eq [x₄, x₃, x₂, x₁] rest
  have hstop := fromTop_eq [x₄, x₃] (x₂ :: x₁ :: rest)
  have hcopy := Row.copyBack?_top [x₄, x₃] rest [x₂, x₁]
  exact (tall (by simp)).trans ((Action.bind_of_ok hstart).trans
    ((Action.bind_of_ok hstop).trans (change_eq hcopy)))

theorem twoRot_does : Does twoRot (StackOp.apply limit .twoRot) := by
  intro stack
  rcases stack with _ | ⟨x₆, _ | ⟨x₅, _ | ⟨x₄, _ | ⟨x₃, _ | ⟨x₂, _ | ⟨x₁, rest⟩⟩⟩⟩⟩⟩
  iterate 6 exact short (by simp)
  have hstart := fromTop_eq [x₆, x₅, x₄, x₃, x₂, x₁] rest
  have hturn := Row.rotate?_top rest [x₂, x₁] [x₆, x₅, x₄, x₃]
  exact (tall (by simp)).trans ((Action.bind_of_ok hstart).trans (change_eq hturn))

theorem twoSwap_does : Does twoSwap (StackOp.apply limit .twoSwap) := by
  intro stack
  rcases stack with _ | ⟨x₄, _ | ⟨x₃, _ | ⟨x₂, _ | ⟨x₁, rest⟩⟩⟩⟩
  iterate 4 exact short (by simp)
  have hstart := fromTop_eq [x₄, x₃, x₂, x₁] rest
  have hturn := Row.rotate?_top rest [x₂, x₁] [x₄, x₃]
  exact (tall (by simp)).trans ((Action.bind_of_ok hstart).trans (change_eq hturn))

theorem ifDup_does : Does ifDup (StackOp.apply limit .ifDup) := by
  intro stack
  cases stack with
  | nil => exact short (by simp)
  | cons x rest =>
      rw [ifDup, tall (by simp), Action.bind_of_ok (bool_eq x rest)]
      cases h : Number.isTrue x with
      | true =>
          have hdup := @dup_does limit 1 (x :: rest)
          simpa [StackOp.apply, h] using hdup
      | false => simp [StackOp.apply, ended, h]; rfl

theorem depth_does : Does depth (StackOp.apply limit .depth) := by
  intro stack
  have hheight : height stack.reverse = some (.ok stack.length stack.reverse) := by
    rw [height, List.length_reverse]
  rw [depth, Action.bind_of_ok hheight]
  exact push_eq _ stack

theorem nip_does : Does nip (StackOp.apply limit .nip) := by
  intro stack
  rcases stack with _ | ⟨x₂, _ | ⟨x₁, rest⟩⟩
  iterate 2 exact short (by simp)
  have hi := fromTop_eq [x₂, x₁] rest
  have hremove : (Row.remove? (x₂ :: x₁ :: rest).reverse rest.length).map Prod.snd
      = some (x₂ :: rest).reverse := congrArg (Option.map Prod.snd) (Row.remove?_top [x₂] rest x₁)
  exact (tall (by simp)).trans ((Action.bind_of_ok hi).trans (change_eq hremove))

theorem copySecond_does : Does copySecond (StackOp.apply limit .over) := by
  intro stack
  rcases stack with _ | ⟨x₂, _ | ⟨x₁, rest⟩⟩
  iterate 2 exact short (by simp)
  exact (tall (by simp)).trans
    ((Action.bind_of_ok (data_second x₂ x₁ rest)).trans (push_eq x₁ (x₂ :: x₁ :: rest)))

theorem takePosition_eq (opcode : String) (stack : Stack) :
    takePosition opcode stack.reverse
      = match takeIndex opcode stack with
        | .ok (n, below) => some (.ok (below.length - (n + 1)) below.reverse)
        | .error fault => some (.error fault.error fault.left.reverse) := by
  rcases stack with _ | ⟨top, _ | ⟨x, rest⟩⟩
  iterate 2 exact short (by simp)
  rw [takePosition, tall (by simp), takeIndex]
  cases hn : Number.operand? top with
  | none => exact Action.bind_of_error (popNumber_of_none (x :: rest) hn)
  | some n =>
      rw [Action.bind_of_ok (popNumber_of_some (x :: rest) hn)]
      by_cases hneg : n < 0
      · simp only [hneg, if_true]
        rfl
      · by_cases hshort : (x :: rest).length < n.toNat + 1
        · simp only [hneg, hshort, if_true, if_false]
          exact short hshort
        · simp only [hneg, hshort, if_false]
          obtain ⟨above, below, hsplit, habove⟩ := exists_eq_append (Nat.le_of_not_lt hshort)
          have hfrom := fromTop_eq above below
          have hlength : (x :: rest).length - (n.toNat + 1) = below.length := by
            rw [hsplit, List.length_append, habove, Nat.add_sub_cancel_left]
          rw [← hsplit, habove] at hfrom
          rw [tall (Nat.le_of_not_lt hshort), hfrom, hlength]

/-- The position found is that of the element at the index. -/
theorem takePosition_of_ok {opcode : String} {n : Nat} {rest : Stack}
    (h : takeIndex opcode stack = .ok (n, rest)) :
    ∃ above a below, rest = above ++ a :: below ∧ above.length = n ∧
      takePosition opcode stack.reverse = some (.ok below.length rest.reverse) := by
  have hlt := lt_of_takeIndex h
  refine ⟨rest.take n, rest[n], rest.drop (n + 1), by simp, by simp [Nat.le_of_lt hlt], ?_⟩
  rw [takePosition_eq, h, List.length_drop]

theorem takePosition_of_error {opcode : String} {fault : StackFault}
    (h : takeIndex opcode stack = .error fault) :
    takePosition opcode stack.reverse = some (.error fault.error fault.left.reverse) := by
  rw [takePosition_eq, h]

theorem pick_does : Does pick (StackOp.apply limit .pick) := by
  intro stack
  show pick stack.reverse = some (ending (takeIndex "OP_PICK" stack >>= fun r =>
    pure (r.2.getD r.1 [] :: r.2)))
  cases h : takeIndex "OP_PICK" stack with
  | error fault => exact Action.bind_of_error (takePosition_of_error h)
  | ok r =>
      obtain ⟨above, a, below, hr, hn, hposition⟩ := takePosition_of_ok h
      have helement : element below.length r.2.reverse = some (.ok a r.2.reverse) := by
        rw [hr, element, Row.getElem?_top]
        rfl
      have hget : r.2.getD r.1 [] = a := by simp [hr, ← hn]
      rw [pick, Action.bind_of_ok hposition, Action.bind_of_ok helement, push_eq, ← hget]
      rfl

theorem roll_does : Does roll (StackOp.apply limit .roll) := by
  intro stack
  show roll stack.reverse = some (ending (takeIndex "OP_ROLL" stack >>= fun r =>
    pure (r.2.getD r.1 [] :: r.2.eraseIdx r.1)))
  cases h : takeIndex "OP_ROLL" stack with
  | error fault => exact Action.bind_of_error (takePosition_of_error h)
  | ok r =>
      obtain ⟨above, a, below, hr, hn, hposition⟩ := takePosition_of_ok h
      have hremove : (Row.remove? r.2.reverse below.length).map (fun r => r.2 ++ [r.1])
          = some (r.2.getD r.1 [] :: r.2.eraseIdx r.1).reverse := by
        rw [hr, Row.remove?_top, ← hn]
        simp [List.eraseIdx_append_of_length_le]
      rw [roll, Action.bind_of_ok hposition, change_eq hremove]
      rfl

theorem swap_eq {i j : Int} {a b : Nat} {row row' : List Bytes}
    (hi : position i row = some (.ok a row)) (hj : position j row = some (.ok b row))
    (h : Row.exchange? row a b = some row') : swap i j row = some (.ok () row') := by
  rw [swap, Action.bind_of_ok hi, Action.bind_of_ok hj, change_eq h]

/-- The top exchanged with the element below it. -/
theorem swap_top (a b : Bytes) (below : Stack) :
    swap (-2) (-1) (a :: b :: below).reverse = some (.ok () (b :: a :: below).reverse) :=
  swap_eq (position_eq [a] b below rfl) (position_eq [] a (b :: below) rfl)
    (Row.exchange?_top [] below a b)

theorem swap_second (a b c : Bytes) (below : Stack) :
    swap (-3) (-2) (a :: b :: c :: below).reverse = some (.ok () (a :: c :: b :: below).reverse) :=
  swap_eq (position_eq [a, b] c below rfl) (position_eq [a] b (c :: below) rfl)
    (Row.exchange?_top [a] below b c)

theorem rot_does : Does rot (StackOp.apply limit .rot) := by
  intro stack
  rcases stack with _ | ⟨x₃, _ | ⟨x₂, _ | ⟨x₁, rest⟩⟩⟩
  iterate 3 exact short (by simp)
  exact (tall (by simp)).trans ((Action.bind_of_ok (swap_second x₃ x₂ x₁ rest)).trans
    (swap_top x₃ x₁ (x₂ :: rest)))

theorem swapTop_does : Does swapTop (StackOp.apply limit .swap) := by
  intro stack
  rcases stack with _ | ⟨x₂, _ | ⟨x₁, rest⟩⟩
  iterate 2 exact short (by simp)
  exact (tall (by simp)).trans (swap_top x₂ x₁ rest)

theorem tuck_does : Does tuck (StackOp.apply limit .tuck) := by
  intro stack
  rcases stack with _ | ⟨x₂, _ | ⟨x₁, rest⟩⟩
  iterate 2 exact short (by simp)
  have hdata := data_top x₂ (x₁ :: rest)
  have hi := fromTop_eq [x₂, x₁] rest
  have hinsert := Row.insert?_top [x₂, x₁] rest x₂
  exact (tall (by simp)).trans ((Action.bind_of_ok hdata).trans
    ((Action.bind_of_ok hi).trans (change_eq hinsert)))

end TxScript.Indexed
