import Mathlib.Data.List.Basic
import TxScript.Machine.State

/-!
# Rows that are reached by position

In memory a stack is a row with its bottom in front, and data is a row of bytes. Elements and parts
of a row are named by positions and lengths. An access has a result only where it lies inside the
row, and a difference of lengths only where it is not negative; otherwise there is no next step.
Sums of lengths are exact, since no row is longer than an address can say.

What an access does at the top of a stack is said for the row `(top ++ below).reverse`, in which
the top begins at the height of what lies below it.
-/

namespace TxScript.Indexed

variable {α σ ε β : Type}

/-- A difference of lengths or positions. -/
def diff? (a b : Nat) : Option Nat :=
  if b ≤ a then some (a - b) else none

theorem diff?_of_le {a b : Nat} (h : b ≤ a) : diff? a b = some (a - b) :=
  if_pos h

@[simp] theorem diff?_add_right (a b : Nat) : diff? (a + b) b = some a := by
  rw [diff?_of_le (Nat.le_add_left b a), Nat.add_sub_cancel]

namespace Row

/-- The row in front of a position, and the row from there on. -/
def split? (row : List α) (position : Nat) : Option (List α × List α) :=
  if position ≤ row.length then some (row.take position, row.drop position) else none

/-- The part from a position up to another. -/
def slice? (row : List α) (start stop : Nat) : Option (List α) :=
  if start ≤ stop ∧ stop ≤ row.length then some ((row.take stop).drop start) else none

def truncate? (row : List α) (length : Nat) : Option (List α) :=
  if length ≤ row.length then some (row.take length) else none

def replace? (row : List α) (position : Nat) (a : α) : Option (List α) :=
  if position < row.length then some (row.set position a) else none

/-- Exchanges two elements. -/
def exchange? (row : List α) (i j : Nat) : Option (List α) := do
  let a ← row[i]?
  let b ← row[j]?
  return (row.set i b).set j a

/-- Takes an element out; those behind it move up. -/
def remove? (row : List α) (position : Nat) : Option (α × List α) := do
  let a ← row[position]?
  return (a, row.eraseIdx position)

def insert? (row : List α) (position : Nat) (a : α) : Option (List α) :=
  if position ≤ row.length then some (row.take position ++ a :: row.drop position) else none

/-- Appends a copy of a part of the row. -/
def copyBack? (row : List α) (start stop : Nat) : Option (List α) := do
  let part ← slice? row start stop
  return row ++ part

/-- Turns the row from a position on to the left. -/
def rotate? (row : List α) (start count : Nat) : Option (List α) := do
  let (below, turned) ← split? row start
  let (front, back) ← split? turned count
  return below ++ (back ++ front)

/-- Writes a part over as long a part of the row. -/
def overwrite? (row : List α) (start stop : Nat) (part : List α) : Option (List α) :=
  if start ≤ stop ∧ stop ≤ row.length ∧ part.length = stop - start then
    some (row.take start ++ part ++ row.drop stop)
  else none

/-- The last position of an element with a property. -/
def lastPosition? (p : α → Bool) : List α → Option Nat
  | [] => none
  | a :: row =>
    match lastPosition? p row with
    | some i => some (i + 1)
    | none => if p a then some 0 else none

theorem lastPosition?_eq_none {p : α → Bool} {row : List α} (h : lastPosition? p row = none) :
    ∀ a ∈ row, p a = false := by
  induction row with
  | nil => simp
  | cons b row ih =>
      unfold lastPosition? at h
      split at h
      · cases h
      · rename_i hrow
        split at h
        · cases h
        · rename_i hb
          simpa [hb] using ih hrow

theorem lastPosition?_eq_some {p : α → Bool} {row : List α} {i : Nat}
    (h : lastPosition? p row = some i) :
    ∃ front a back, row = front ++ a :: back ∧ front.length = i ∧ p a = true ∧
      ∀ b ∈ back, p b = false := by
  induction row generalizing i with
  | nil => cases h
  | cons b row ih =>
      unfold lastPosition? at h
      split at h
      · rename_i j hrow
        cases h
        obtain ⟨front, a, back, rfl, hlength, ha, hback⟩ := ih hrow
        exact ⟨b :: front, a, back, rfl, by rw [List.length_cons, hlength], ha, hback⟩
      · rename_i hrow
        split at h
        · rename_i hb
          cases h
          exact ⟨[], b, row, rfl, rfl, hb, lastPosition?_eq_none hrow⟩
        · cases h

/-- The part of so many elements from a position on. -/
theorem slice?_of_le {row : List α} {start count : Nat} (h : start + count ≤ row.length) :
    slice? row start (start + count) = some ((row.drop start).take count) := by
  rw [slice?, if_pos ⟨Nat.le_add_right start count, h⟩, List.drop_take, Nat.add_sub_cancel_left]

theorem slice?_of_lt {row : List α} {start stop : Nat} (h : row.length < stop) :
    slice? row start stop = none :=
  if_neg fun hin => Nat.not_le.2 h hin.2

/-! ## Copies into rows of one value -/

/-- A copy at the front. -/
theorem overwrite?_front {part : List α} {length : Nat} (h : part.length ≤ length) (a : α) :
    overwrite? (List.replicate length a) 0 part.length part
      = some (part ++ List.replicate (length - part.length) a) := by
  have hfits : 0 ≤ part.length ∧ part.length ≤ (List.replicate length a).length ∧
      part.length = part.length - 0 :=
    ⟨Nat.zero_le _, by rwa [List.length_replicate], rfl⟩
  rw [overwrite?, if_pos hfits, List.take_zero, List.nil_append, List.drop_replicate]

/-- A copy at the end. -/
theorem overwrite?_end {part : List α} {length : Nat} (h : part.length ≤ length) (a : α) :
    overwrite? (List.replicate length a) (length - part.length) length part
      = some (List.replicate (length - part.length) a ++ part) := by
  have hfits : length - part.length ≤ length ∧ length ≤ (List.replicate length a).length ∧
      part.length = length - (length - part.length) :=
    ⟨Nat.sub_le _ _, Nat.le_of_eq List.length_replicate.symm, (Nat.sub_sub_self h).symm⟩
  rw [overwrite?, if_pos hfits, List.take_replicate, List.drop_replicate, Nat.sub_self,
    List.replicate_zero, List.append_nil, Nat.min_eq_left (Nat.sub_le _ _)]

theorem overwrite?_whole {part : List α} {length : Nat} (h : part.length = length) (a : α) :
    overwrite? (List.replicate length a) 0 length part = some part := by
  subst h
  rw [overwrite?_front (Nat.le_refl _), Nat.sub_self, List.replicate_zero, List.append_nil]

/-! ## At the top of a stack -/

variable (top below : List α)

theorem split?_top :
    split? (top ++ below).reverse below.length = some (below.reverse, top.reverse) := by
  rw [split?, if_pos (by simp), List.reverse_append, List.take_left' (by simp),
    List.drop_left' (by simp)]

theorem truncate?_top : truncate? (top ++ below).reverse below.length = some below.reverse := by
  rw [truncate?, if_pos (by simp), List.reverse_append, List.take_left' (by simp)]

theorem getElem?_top (a : α) : (top ++ a :: below).reverse[below.length]? = some a := by
  rw [List.reverse_append, List.reverse_cons]
  simp

theorem remove?_top (a : α) :
    remove? (top ++ a :: below).reverse below.length = some (a, (top ++ below).reverse) := by
  rw [remove?, getElem?_top, List.reverse_append, List.reverse_cons, List.append_assoc,
    List.eraseIdx_append_of_length_le (by simp)]
  simp

theorem insert?_top (a : α) :
    insert? (top ++ below).reverse below.length a = some (top ++ a :: below).reverse := by
  rw [insert?, if_pos (by simp), List.reverse_append, List.take_left' (by simp),
    List.drop_left' (by simp)]
  simp

theorem replace?_top (a b : α) :
    replace? (top ++ a :: below).reverse below.length b = some (top ++ b :: below).reverse := by
  rw [replace?, if_pos (by simp), List.reverse_append, List.reverse_cons]
  simp

/-- Exchanges an element with the one above it. -/
theorem exchange?_top (a b : α) :
    exchange? (top ++ a :: b :: below).reverse below.length (below.length + 1)
      = some (top ++ b :: a :: below).reverse := by
  have hrow : (top ++ a :: b :: below).reverse = below.reverse ++ b :: a :: top.reverse := by
    simp
  have hb : (below.reverse ++ b :: a :: top.reverse)[below.length]? = some b := by simp
  have ha : (below.reverse ++ b :: a :: top.reverse)[below.length + 1]? = some a := by simp
  rw [exchange?, hrow, hb, ha]
  simp

theorem copyBack?_top (middle : List α) :
    copyBack? (top ++ (middle ++ below)).reverse below.length (below.length + middle.length)
      = some (middle ++ (top ++ (middle ++ below))).reverse := by
  have hslice : slice? (top ++ (middle ++ below)).reverse below.length
      (below.length + middle.length) = some middle.reverse := by
    rw [slice?, if_pos (by simp), List.reverse_append, List.take_left' (by simp),
      List.reverse_append, List.drop_left' (by simp)]
  rw [copyBack?, hslice]
  simp

theorem rotate?_top (front back : List α) :
    rotate? (back ++ front ++ below).reverse below.length front.length
      = some (front ++ back ++ below).reverse := by
  have hturned : split? (back ++ front).reverse front.length
      = some (front.reverse, back.reverse) := split?_top back front
  simp only [rotate?, split?_top, hturned, Option.bind_eq_bind, Option.bind_some]
  simp

end Row

/-! ## Computations without a next step -/

/-- A computation on a state. It gives a value or fails, and leaves a state either way, unless
there is no next step. -/
def Action (σ ε α : Type) : Type :=
  σ → Option (EStateM.Result ε σ α)

namespace Action

protected def bind (p : Action σ ε α) (k : α → Action σ ε β) : Action σ ε β := fun s =>
  match p s with
  | some (.ok a t) => k a t
  | some (.error e t) => some (.error e t)
  | none => none

instance : Monad (Action σ ε) where
  pure a := fun s => some (.ok a s)
  bind := Action.bind

/-- An access as a step. -/
instance : MonadLift Option (Action σ ε) where
  monadLift o := fun s => o.map fun a => .ok a s

def fail (e : ε) : Action σ ε α := fun s => some (.error e s)

/-- A result that is there already. -/
def ofExcept (r : Except ε α) : Action σ ε α :=
  match r with
  | .ok a => pure a
  | .error e => fail e

variable {p : Action σ ε α} {k : α → Action σ ε β} {s t : σ}

theorem bind_of_ok {a : α} (h : p s = some (.ok a t)) : (p >>= k) s = k a t := by
  show Action.bind p k s = k a t
  rw [Action.bind, h]

theorem bind_of_some {o : Option α} {a : α} (h : o = some a) :
    ((liftM o : Action σ ε α) >>= k) s = k a s :=
  bind_of_ok (by rw [h]; rfl)

theorem bind_of_error {e : ε} (h : p s = some (.error e t)) :
    (p >>= k) s = some (.error e t) := by
  show Action.bind p k s = some (.error e t)
  rw [Action.bind, h]

/-- A computation that gives what is there already goes on as that does. -/
theorem bind_of_ofExcept {r : Except ε α} (h : p s = ofExcept r s) :
    (p >>= k) s = (ofExcept r >>= k) s := by
  show Action.bind p k s = Action.bind (ofExcept r) k s
  rw [Action.bind, Action.bind, h]

theorem ofExcept_bind (r : Except ε α) (k : α → Except ε β) :
    (ofExcept (r >>= k) : Action σ ε β) = ofExcept r >>= fun a => ofExcept (k a) := by
  cases r <;> rfl

end Action

end TxScript.Indexed
