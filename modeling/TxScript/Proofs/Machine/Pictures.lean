import Mathlib.Data.List.Rotate
import TxScript.Proofs.Indexed.Run
import TxScript.Proofs.Machine.Spelling

/-!
# Stack pictures

The opcodes that move, copy or drop elements are known by their pictures: what they find at the top
and what they leave there, the deepest element first. An opcode that finds what its picture asks for
leaves everything below it alone, and one that does not fails. Five of the pictures turn a row of
elements round, so nothing is lost and as many turns as fit the row bring it back.
-/

namespace TxScript

/-! ## The pictures -/

/-- The opcodes that move, copy or drop elements. -/
inductive Shuffle where
  | toAlt
  | fromAlt
  | drop
  | twoDrop
  | dup
  | twoDup
  | threeDup
  | nip
  | over
  | tuck
  | swap
  | rot
  | twoOver
  | twoRot
  | twoSwap
  | ifDup
  | pick
  | roll
  deriving DecidableEq, Repr

/-- Elements at the top of both stacks, the deepest first. -/
structure Tops where
  main : List Bytes := []
  alt : List Bytes := []
  deriving DecidableEq, Repr

namespace Shuffle

def opcode : Shuffle → Opcode
  | .toAlt => ⟨0x6b⟩
  | .fromAlt => ⟨0x6c⟩
  | .twoDrop => ⟨0x6d⟩
  | .twoDup => ⟨0x6e⟩
  | .threeDup => ⟨0x6f⟩
  | .twoOver => ⟨0x70⟩
  | .twoRot => ⟨0x71⟩
  | .twoSwap => ⟨0x72⟩
  | .ifDup => ⟨0x73⟩
  | .drop => ⟨0x75⟩
  | .dup => ⟨0x76⟩
  | .nip => ⟨0x77⟩
  | .over => ⟨0x78⟩
  | .pick => ⟨0x79⟩
  | .roll => ⟨0x7a⟩
  | .rot => ⟨0x7b⟩
  | .swap => ⟨0x7c⟩
  | .tuck => ⟨0x7d⟩

/-- What an opcode finds at the top, and what it leaves there. -/
inductive Pictured : Shuffle → (found left : Tops) → Prop
  | toAlt (x : Bytes) : Pictured .toAlt { main := [x] } { alt := [x] }
  | fromAlt (x : Bytes) : Pictured .fromAlt { alt := [x] } { main := [x] }
  | drop (x : Bytes) : Pictured .drop { main := [x] } {}
  | twoDrop (x₁ x₂ : Bytes) : Pictured .twoDrop { main := [x₁, x₂] } {}
  | dup (x : Bytes) : Pictured .dup { main := [x] } { main := [x, x] }
  | twoDup (x₁ x₂ : Bytes) :
      Pictured .twoDup { main := [x₁, x₂] } { main := [x₁, x₂, x₁, x₂] }
  | threeDup (x₁ x₂ x₃ : Bytes) :
      Pictured .threeDup { main := [x₁, x₂, x₃] } { main := [x₁, x₂, x₃, x₁, x₂, x₃] }
  | nip (x₁ x₂ : Bytes) : Pictured .nip { main := [x₁, x₂] } { main := [x₂] }
  | over (x₁ x₂ : Bytes) : Pictured .over { main := [x₁, x₂] } { main := [x₁, x₂, x₁] }
  | tuck (x₁ x₂ : Bytes) : Pictured .tuck { main := [x₁, x₂] } { main := [x₂, x₁, x₂] }
  | swap (x₁ x₂ : Bytes) : Pictured .swap { main := [x₁, x₂] } { main := [x₂, x₁] }
  | rot (x₁ x₂ x₃ : Bytes) : Pictured .rot { main := [x₁, x₂, x₃] } { main := [x₂, x₃, x₁] }
  | twoOver (x₁ x₂ x₃ x₄ : Bytes) :
      Pictured .twoOver { main := [x₁, x₂, x₃, x₄] } { main := [x₁, x₂, x₃, x₄, x₁, x₂] }
  | twoRot (x₁ x₂ x₃ x₄ x₅ x₆ : Bytes) :
      Pictured .twoRot { main := [x₁, x₂, x₃, x₄, x₅, x₆] }
        { main := [x₃, x₄, x₅, x₆, x₁, x₂] }
  | twoSwap (x₁ x₂ x₃ x₄ : Bytes) :
      Pictured .twoSwap { main := [x₁, x₂, x₃, x₄] } { main := [x₃, x₄, x₁, x₂] }
  | ifDup_true (x : Bytes) (h : Number.isTrue x = true) :
      Pictured .ifDup { main := [x] } { main := [x, x] }
  | ifDup_false (x : Bytes) (h : Number.isTrue x = false) :
      Pictured .ifDup { main := [x] } { main := [x] }
  | pick (x : Bytes) (between : List Bytes) {index : Bytes}
      (h : Number.Spells index between.length) :
      Pictured .pick { main := x :: between ++ [index] } { main := x :: between ++ [x] }
  | roll (x : Bytes) (between : List Bytes) {index : Bytes}
      (h : Number.Spells index between.length) :
      Pictured .roll { main := x :: between ++ [index] } { main := between ++ [x] }

/-- The operands of an opcode are there; an index is less than the depth that is left when it has
been taken off. -/
def Finds (f : Shuffle) (s : Machine.State) : Prop :=
  match f with
  | .fromAlt => 1 ≤ s.alt.length
  | .toAlt | .drop | .dup | .ifDup => 1 ≤ s.main.length
  | .twoDrop | .twoDup | .nip | .over | .tuck | .swap => 2 ≤ s.main.length
  | .threeDup | .rot => 3 ≤ s.main.length
  | .twoOver | .twoSwap => 4 ≤ s.main.length
  | .twoRot => 6 ≤ s.main.length
  | .pick | .roll => ∃ index below, ∃ n : Nat,
      s.main = index :: below ∧ Number.Spells index n ∧ n < below.length

/-- The opcodes that turn the elements on top, so many of them by so many places. -/
inductive Turns : Shuffle → (width shift : Nat) → Prop
  | swap : Turns .swap 2 1
  | rot : Turns .rot 3 1
  | twoSwap : Turns .twoSwap 4 2
  | twoRot : Turns .twoRot 6 2

theorem Pictured.of_turns {f : Shuffle} {width shift : Nat} (h : f.Turns width shift)
    {row : List Bytes} (hrow : row.length = width) :
    f.Pictured { main := row } { main := row.rotate shift } := by
  cases h with
  | swap =>
      obtain ⟨x₁, x₂, rfl⟩ := List.length_eq_two.1 hrow
      exact .swap x₁ x₂
  | rot =>
      obtain ⟨x₁, x₂, x₃, rfl⟩ := List.length_eq_three.1 hrow
      exact .rot x₁ x₂ x₃
  | twoSwap =>
      obtain ⟨x₁, x₂, x₃, x₄, rfl⟩ := List.length_eq_four.1 hrow
      exact .twoSwap x₁ x₂ x₃ x₄
  | twoRot =>
      rcases row with _ | ⟨x₁, _ | ⟨x₂, _ | ⟨x₃, _ | ⟨x₄, _ | ⟨x₅, _ | ⟨x₆, _ | ⟨x₇, row⟩⟩⟩⟩⟩⟩⟩ <;>
        simp at hrow
      exact .twoRot x₁ x₂ x₃ x₄ x₅ x₆

/-- The index on top of a row turns it, by one place. -/
theorem Pictured.roll_rotate {index : Bytes} {row : List Bytes} {n : Nat}
    (hrow : row.length = n + 1) (h : Number.Spells index n) :
    Shuffle.roll.Pictured { main := row ++ [index] } { main := row.rotate 1 } := by
  cases row with
  | nil => cases hrow
  | cons x between =>
      obtain rfl : between.length = n := by simpa using hrow
      rw [List.rotate_cons_succ, List.rotate_zero]
      exact .roll x between h

/-! ## The operations of the opcodes -/

def operation : Shuffle → Operation
  | .toAlt => .toAlt
  | .fromAlt => .fromAlt
  | .drop => .stack (.drop 1)
  | .twoDrop => .stack (.drop 2)
  | .dup => .stack (.dup 1)
  | .twoDup => .stack (.dup 2)
  | .threeDup => .stack (.dup 3)
  | .nip => .stack .nip
  | .over => .stack .over
  | .tuck => .stack .tuck
  | .swap => .stack .swap
  | .rot => .stack .rot
  | .twoOver => .stack .twoOver
  | .twoRot => .stack .twoRot
  | .twoSwap => .stack .twoSwap
  | .ifDup => .stack .ifDup
  | .pick => .stack .pick
  | .roll => .stack .roll

theorem operation_opcode (f : Shuffle) : f.opcode.operation = f.operation := by
  cases f <;> decide

end Shuffle

namespace Machine

variable {env : Env} {s t : State} {f : Shuffle} {found left : Tops} {stack below : Stack}
  {opcode : String} {n : Nat}

/-- The state with some elements on top of both stacks. -/
def State.topped (s : State) (tops : Tops) : State :=
  { s with main := tops.main.reverse ++ s.main, alt := tops.alt.reverse ++ s.alt }

/-- An index is found where it is spelled on top of enough other elements. -/
theorem takeIndex_eq_ok :
    takeIndex opcode stack = .ok (n, below) ↔
      ∃ index, stack = index :: below ∧ Number.Spells index n ∧ n < below.length := by
  constructor
  · intro h
    have hlt := lt_of_takeIndex h
    obtain ⟨index, rfl⟩ := eq_cons_of_takeIndex h
    refine ⟨index, rfl, ?_, hlt⟩
    cases below with
    | nil => cases hlt
    | cons x rest =>
        unfold takeIndex at h
        cases hn : Number.operand? index with
        | none => simp [hn] at h
        | some m =>
            simp only [hn] at h
            split_ifs at h with hneg hshort
            · cases h
            · obtain ⟨rfl, -⟩ := Prod.mk.inj (Except.ok.inj h)
              rw [Int.toNat_of_nonneg (Int.not_lt.1 hneg)]
              exact Number.operand?_eq_some_iff.1 hn
  · rintro ⟨index, rfl, hindex, hlt⟩
    cases below with
    | nil => cases hlt
    | cons x rest =>
        have hneg : ¬ (n : Int) < 0 := by omega
        simp only [takeIndex, Number.operand?_eq_some_iff.2 hindex, if_neg hneg, Int.toNat_natCast,
          if_neg (Nat.not_lt.2 (Nat.succ_le_of_lt hlt))]

/-- The index below which so many elements lie is on top of them. -/
theorem takeIndex_between (x : Bytes) (between : List Bytes) {index : Bytes}
    (h : Number.Spells index between.length) :
    takeIndex opcode ((x :: between ++ [index]).reverse ++ below)
      = .ok (between.length, between.reverse ++ x :: below) := by
  refine takeIndex_eq_ok.2 ⟨index, by simp, h, ?_⟩
  rw [List.length_append, List.length_reverse, List.length_cons]
  omega

/-- An opcode turns what its picture finds into what it leaves, and leaves the rest alone. -/
theorem perform_of_pictured (h : f.Pictured found left) :
    perform env f.opcode (s.topped found) = .ok (s.topped left) := by
  rw [perform, f.operation_opcode]
  cases h with
  | ifDup_true x hx => simp [Shuffle.operation, State.topped, StackOp.apply, State.withMain, hx]
  | ifDup_false x hx => simp [Shuffle.operation, State.topped, StackOp.apply, State.withMain, hx]
  | @pick x between index hindex =>
      have htake : takeIndex "OP_PICK" ((x :: between ++ [index]).reverse ++ s.main) = _ :=
        takeIndex_between x between hindex
      simp only [Shuffle.operation, State.topped, StackOp.apply, htake]
      simp [State.withMain, bind, Except.bind, pure, Except.pure]
  | @roll x between index hindex =>
      have htake : takeIndex "OP_ROLL" ((x :: between ++ [index]).reverse ++ s.main) = _ :=
        takeIndex_between x between hindex
      simp only [Shuffle.operation, State.topped, StackOp.apply, htake]
      simp [State.withMain, bind, Except.bind, pure, Except.pure, List.eraseIdx_append_of_length_le]
  | drop | twoDrop | dup | twoDup | threeDup =>
      simp [Shuffle.operation, State.topped, StackOp.apply, State.withMain]
  | _ => rfl

/-- The elements on top, so many of them, and the state below them. -/
theorem exists_topped {count : Nat} (h : count ≤ s.main.length) :
    ∃ t row, s = State.topped t { main := row } ∧ row.length = count := by
  refine ⟨{ s with main := s.main.drop count }, (s.main.take count).reverse, ?_, ?_⟩
  · simp [State.topped]
  · rw [List.length_reverse, List.length_take, Nat.min_eq_left h]

/-- The element that an index names, with those between. -/
theorem exists_topped_index {index : Bytes} (hmain : s.main = index :: below)
    (h : n < below.length) :
    ∃ t x between, s = State.topped t { main := x :: between ++ [index] } ∧
      between.length = n := by
  refine ⟨{ s with main := below.drop (n + 1) }, below[n], (below.take n).reverse, ?_, ?_⟩
  · simp [State.topped, ← hmain]
  · rw [List.length_reverse, List.length_take, Nat.min_eq_left (Nat.le_of_lt h)]

/-- An opcode that finds its operands finds what its picture asks for. -/
theorem exists_pictured (h : f.Finds s) :
    ∃ t found left, s = State.topped t found ∧ f.Pictured found left := by
  have one (h : 1 ≤ s.main.length) : ∃ t x, s = State.topped t { main := [x] } := by
    obtain ⟨t, row, rfl, hrow⟩ := exists_topped h
    obtain ⟨x, rfl⟩ := List.length_eq_one_iff.1 hrow
    exact ⟨t, x, rfl⟩
  have two (h : 2 ≤ s.main.length) : ∃ t x₁ x₂, s = State.topped t { main := [x₁, x₂] } := by
    obtain ⟨t, row, rfl, hrow⟩ := exists_topped h
    obtain ⟨x₁, x₂, rfl⟩ := List.length_eq_two.1 hrow
    exact ⟨t, x₁, x₂, rfl⟩
  cases f with
  | toAlt =>
      obtain ⟨t, x, rfl⟩ := one h
      exact ⟨t, _, _, rfl, .toAlt x⟩
  | fromAlt =>
      rcases s with ⟨main, _ | ⟨x, alt⟩, branches, opCount⟩
      · cases h
      · exact ⟨⟨main, alt, branches, opCount⟩, _, _, rfl, .fromAlt x⟩
  | drop =>
      obtain ⟨t, x, rfl⟩ := one h
      exact ⟨t, _, _, rfl, .drop x⟩
  | dup =>
      obtain ⟨t, x, rfl⟩ := one h
      exact ⟨t, _, _, rfl, .dup x⟩
  | ifDup =>
      obtain ⟨t, x, rfl⟩ := one h
      cases hx : Number.isTrue x with
      | true => exact ⟨t, _, _, rfl, .ifDup_true x hx⟩
      | false => exact ⟨t, _, _, rfl, .ifDup_false x hx⟩
  | twoDrop =>
      obtain ⟨t, x₁, x₂, rfl⟩ := two h
      exact ⟨t, _, _, rfl, .twoDrop x₁ x₂⟩
  | twoDup =>
      obtain ⟨t, x₁, x₂, rfl⟩ := two h
      exact ⟨t, _, _, rfl, .twoDup x₁ x₂⟩
  | nip =>
      obtain ⟨t, x₁, x₂, rfl⟩ := two h
      exact ⟨t, _, _, rfl, .nip x₁ x₂⟩
  | «over» =>
      obtain ⟨t, x₁, x₂, rfl⟩ := two h
      exact ⟨t, _, _, rfl, .over x₁ x₂⟩
  | tuck =>
      obtain ⟨t, x₁, x₂, rfl⟩ := two h
      exact ⟨t, _, _, rfl, .tuck x₁ x₂⟩
  | threeDup =>
      obtain ⟨t, row, rfl, hrow⟩ := exists_topped h
      obtain ⟨x₁, x₂, x₃, rfl⟩ := List.length_eq_three.1 hrow
      exact ⟨t, _, _, rfl, .threeDup x₁ x₂ x₃⟩
  | twoOver =>
      obtain ⟨t, row, rfl, hrow⟩ := exists_topped h
      obtain ⟨x₁, x₂, x₃, x₄, rfl⟩ := List.length_eq_four.1 hrow
      exact ⟨t, _, _, rfl, .twoOver x₁ x₂ x₃ x₄⟩
  | swap =>
      obtain ⟨t, row, rfl, hrow⟩ := exists_topped h
      exact ⟨t, _, _, rfl, .of_turns .swap hrow⟩
  | rot =>
      obtain ⟨t, row, rfl, hrow⟩ := exists_topped h
      exact ⟨t, _, _, rfl, .of_turns .rot hrow⟩
  | twoSwap =>
      obtain ⟨t, row, rfl, hrow⟩ := exists_topped h
      exact ⟨t, _, _, rfl, .of_turns .twoSwap hrow⟩
  | twoRot =>
      obtain ⟨t, row, rfl, hrow⟩ := exists_topped h
      exact ⟨t, _, _, rfl, .of_turns .twoRot hrow⟩
  | pick =>
      obtain ⟨index, below, n, hmain, hindex, hlt⟩ := h
      obtain ⟨t, x, between, hs, rfl⟩ := exists_topped_index hmain hlt
      exact ⟨t, _, _, hs, .pick x between hindex⟩
  | roll =>
      obtain ⟨index, below, n, hmain, hindex, hlt⟩ := h
      obtain ⟨t, x, between, hs, rfl⟩ := exists_topped_index hmain hlt
      exact ⟨t, _, _, hs, .roll x between hindex⟩

/-! ## Missing operands -/

/-- An operation that asks for a height fails below it. -/
theorem perform_of_short {op : StackOp} {needed : Nat} {body : Indexed.RowAction Unit}
    (hop : f.operation = .stack op)
    (hdoes : Indexed.Does (do Indexed.requireHeight needed; body)
      (op.apply env.config.maxElementSize))
    (h : ¬ needed ≤ s.main.length) : ∃ halted, perform env f.opcode s = .error halted := by
  have hshort := (hdoes s.main).symm.trans (Indexed.short (Nat.lt_of_not_le h))
  rw [perform, f.operation_opcode, hop]
  show ∃ halted, s.withMain (op.apply env.config.maxElementSize s.main) = .error halted
  cases hr : op.apply env.config.maxElementSize s.main with
  | error fault => exact ⟨_, rfl⟩
  | ok main =>
      rw [hr] at hshort
      cases hshort

/-- An operation that asks for an index fails where there is none. -/
theorem perform_of_no_index {op : StackOp} {k : Nat × Stack → Except StackFault Stack}
    (hop : f.operation = .stack op)
    (happly : op.apply env.config.maxElementSize s.main = takeIndex opcode s.main >>= k)
    (h : ¬ ∃ index below, ∃ n : Nat,
      s.main = index :: below ∧ Number.Spells index n ∧ n < below.length) :
    ∃ halted, perform env f.opcode s = .error halted := by
  rw [perform, f.operation_opcode, hop]
  show ∃ halted, s.withMain (op.apply env.config.maxElementSize s.main) = .error halted
  rw [happly]
  cases htake : takeIndex opcode s.main with
  | error fault => exact ⟨_, rfl⟩
  | ok taken =>
      obtain ⟨index, hmain, hindex, hlt⟩ := takeIndex_eq_ok.1 htake
      exact absurd ⟨index, taken.2, taken.1, hmain, hindex, hlt⟩ h

theorem perform_of_not_finds (h : ¬ f.Finds s) :
    ∃ halted, perform env f.opcode s = .error halted := by
  cases f with
  | toAlt =>
      rcases s with ⟨_ | ⟨x, main⟩, alt, branches, opCount⟩
      · exact ⟨_, rfl⟩
      · exact absurd (Nat.le_add_left 1 main.length) h
  | fromAlt =>
      rcases s with ⟨main, _ | ⟨x, alt⟩, branches, opCount⟩
      · exact ⟨_, rfl⟩
      · exact absurd (Nat.le_add_left 1 alt.length) h
  | drop => exact perform_of_short rfl (Indexed.drop_does 1) h
  | dup => exact perform_of_short rfl (Indexed.dup_does 1) h
  | ifDup => exact perform_of_short rfl Indexed.ifDup_does h
  | twoDrop => exact perform_of_short rfl (Indexed.drop_does 2) h
  | twoDup => exact perform_of_short rfl (Indexed.dup_does 2) h
  | nip => exact perform_of_short rfl Indexed.nip_does h
  | «over» => exact perform_of_short rfl Indexed.copySecond_does h
  | tuck => exact perform_of_short rfl Indexed.tuck_does h
  | swap => exact perform_of_short rfl Indexed.swapTop_does h
  | threeDup => exact perform_of_short rfl (Indexed.dup_does 3) h
  | rot => exact perform_of_short rfl Indexed.rot_does h
  | twoOver => exact perform_of_short rfl Indexed.twoOver_does h
  | twoSwap => exact perform_of_short rfl Indexed.twoSwap_does h
  | twoRot => exact perform_of_short rfl Indexed.twoRot_does h
  | pick => exact perform_of_no_index rfl rfl h
  | roll => exact perform_of_no_index rfl rfl h

theorem finds_of_perform (h : perform env f.opcode s = .ok t) : f.Finds s := by
  by_contra hmissing
  obtain ⟨halted, herror⟩ := perform_of_not_finds hmissing
  cases h.symm.trans herror

/-! ## Turning a row -/

/-- Something done so many times over, as long as it succeeds. -/
def times (act : State → Outcome ExecError State) : (count : Nat) → State → Outcome ExecError State
  | 0, s => .ok s
  | count + 1, s => act s >>= times act count

/-- The turns of a row add up. -/
theorem times_rotate {act : State → Outcome ExecError State} {width shift : Nat}
    (hact : ∀ row, row.length = width →
      act (s.topped { main := row }) = .ok (s.topped { main := row.rotate shift }))
    (count : Nat) {row : List Bytes} (hrow : row.length = width) :
    times act count (s.topped { main := row })
      = .ok (s.topped { main := row.rotate (shift * count) }) := by
  induction count generalizing row with
  | zero => simp [times]
  | succ count ih =>
      have hturned : (row.rotate shift).length = width := by rw [List.length_rotate, hrow]
      rw [times, hact row hrow]
      show times act count (s.topped { main := row.rotate shift }) = _
      rw [ih hturned, List.rotate_rotate, Nat.mul_succ, Nat.add_comm]

/-- As many turns as fit a row bring it back. -/
theorem times_eq_self {act : State → Outcome ExecError State} {shift count : Nat}
    (hact : ∀ t row, row.length = shift * count →
      act (State.topped t { main := row }) = .ok (State.topped t { main := row.rotate shift }))
    (h : shift * count ≤ s.main.length) : times act count s = .ok s := by
  obtain ⟨t, row, rfl, hrow⟩ := exists_topped h
  rw [times_rotate (hact t) count hrow, ← hrow, List.rotate_length]

theorem times_of_turns {width shift count : Nat} (h : f.Turns width shift)
    (hwhole : width = shift * count) (hs : width ≤ s.main.length) :
    times (perform env f.opcode) count s = .ok s := by
  subst hwhole
  exact times_eq_self (fun _ _ hrow => perform_of_pictured (.of_turns h hrow)) hs

/-- An index pushed onto a row has the row turned by one place. -/
theorem perform_roll {index : Bytes} {row : List Bytes} (hindex : Number.Spells index n)
    (hrow : row.length = n + 1) :
    perform env Shuffle.roll.opcode
        { s.topped { main := row } with main := index :: (s.topped { main := row }).main }
      = .ok (s.topped { main := row.rotate 1 }) := by
  have hpushed : s.topped { main := row ++ [index] }
      = { s.topped { main := row } with main := index :: (s.topped { main := row }).main } := by
    simp [State.topped]
  rw [← hpushed]
  exact perform_of_pictured (.roll_rotate hrow hindex)

theorem times_roll {index : Bytes} (hindex : Number.Spells index n) (h : n < s.main.length) :
    times (fun t => perform env Shuffle.roll.opcode { t with main := index :: t.main }) (n + 1) s
      = .ok s := by
  have hact : ∀ t row, row.length = 1 * (n + 1) →
      perform env Shuffle.roll.opcode
          { State.topped t { main := row } with
            main := index :: (State.topped t { main := row }).main }
        = .ok (State.topped t { main := row.rotate 1 }) :=
    fun t row hrow => perform_roll hindex (by rw [hrow, Nat.one_mul])
  exact times_eq_self hact (by omega)

theorem perm_topped_rotate (row : List Bytes) (shift : Nat) :
    (s.topped { main := row.rotate shift }).main.Perm (s.topped { main := row }).main :=
  ((List.reverse_perm _).trans ((row.rotate_perm shift).trans row.reverse_perm.symm)).append_right
    s.main

/-- Nothing is lost or doubled when a row is turned. -/
theorem perm_of_turns {width shift : Nat} (h : f.Turns width shift) (hs : width ≤ s.main.length)
    (hok : perform env f.opcode s = .ok t) : t.main.Perm s.main := by
  obtain ⟨below, row, rfl, hrow⟩ := exists_topped hs
  rw [perform_of_pictured (.of_turns h hrow)] at hok
  cases hok
  exact perm_topped_rotate row shift

theorem perm_of_roll (hok : perform env Shuffle.roll.opcode s = .ok t) :
    t.main.Perm s.main.tail := by
  obtain ⟨index, below, n, hmain, hindex, hlt⟩ := finds_of_perform hok
  obtain ⟨u, row, hu, hrow⟩ := exists_topped (s := { s with main := below })
    (Nat.succ_le_of_lt hlt)
  have hs : s = { u.topped { main := row } with
      main := index :: (u.topped { main := row }).main } := by
    rw [← hu, ← hmain]
  rw [hs, perform_roll hindex hrow] at hok
  cases hok
  rw [hs]
  exact perm_topped_rotate row 1

/-! ## What the opcodes do -/

/-- An opcode does what its picture shows to any state that has what it asks for on top, and fails
in every other one. The opcodes that turn elements lose none of them, and bring all of them back
after a whole turn, as do the opcodes that move an element between the stacks. In its steps by
position none of them reaches outside of the stack. -/
theorem perform_shuffles (env : Env) (s : State) :
    (∀ f found left, Shuffle.Pictured f found left →
      perform env f.opcode (s.topped found) = .ok (s.topped left)) ∧
    (∀ f : Shuffle, f.Finds s →
      ∃ t found left, s = State.topped t found ∧ f.Pictured found left) ∧
    (∀ f : Shuffle, ¬ f.Finds s → ∃ halted, perform env f.opcode s = .error halted) ∧
    (∀ f ∈ [Shuffle.swap, .rot, .twoSwap, .twoRot], ∀ t,
      perform env f.opcode s = .ok t → t.main.Perm s.main) ∧
    (∀ t, perform env Shuffle.roll.opcode s = .ok t → t.main.Perm s.main.tail) ∧
    (Shuffle.swap.Finds s → times (perform env Shuffle.swap.opcode) 2 s = .ok s) ∧
    (Shuffle.twoSwap.Finds s → times (perform env Shuffle.twoSwap.opcode) 2 s = .ok s) ∧
    (Shuffle.rot.Finds s → times (perform env Shuffle.rot.opcode) 3 s = .ok s) ∧
    (Shuffle.twoRot.Finds s → times (perform env Shuffle.twoRot.opcode) 3 s = .ok s) ∧
    (∀ index (n : Nat), Number.Spells index n → n < s.main.length →
      times (fun t => perform env Shuffle.roll.opcode { t with main := index :: t.main }) (n + 1) s
        = .ok s) ∧
    (Shuffle.toAlt.Finds s →
      perform env Shuffle.toAlt.opcode s >>= perform env Shuffle.fromAlt.opcode = .ok s) ∧
    (∀ f : Shuffle, ∀ check, Indexed.perform env check f.opcode s
      = some (Indexed.result () (perform env f.opcode s))) ∧
    ∀ f : Shuffle, Admits env s f.opcode →
      step env s (.op f.opcode) = perform env f.opcode s.counted := by
  refine ⟨fun f found left => perform_of_pictured, fun f => exists_pictured,
    fun f => perform_of_not_finds, fun f hf t hok => ?_, fun t => perm_of_roll,
    times_of_turns .swap rfl, times_of_turns .twoSwap rfl, times_of_turns .rot rfl,
    times_of_turns .twoRot rfl,
    fun index n => times_roll, fun h => ?_, fun f check => ?_, fun f => step_of_admits⟩
  · have hfinds := finds_of_perform hok
    simp only [List.mem_cons, List.not_mem_nil, or_false] at hf
    rcases hf with rfl | rfl | rfl | rfl
    · exact perm_of_turns .swap hfinds hok
    · exact perm_of_turns .rot hfinds hok
    · exact perm_of_turns .twoSwap hfinds hok
    · exact perm_of_turns .twoRot hfinds hok
  · obtain ⟨t, row, rfl, hrow⟩ := exists_topped (s := s) h
    obtain ⟨x, rfl⟩ := List.length_eq_one_iff.1 hrow
    exact bind_eq_ok.2 ⟨_, perform_of_pictured (.toAlt x), perform_of_pictured (.fromAlt x)⟩
  · unfold Indexed.perform perform
    rw [f.operation_opcode]
    cases f with
    | toAlt | fromAlt => rfl
    | _ => exact Indexed.onMain_of_does (Indexed.apply_does _ _) s

/-- An index with a zero to spare moves the third element to the top, and the index after it reaches
below the bottom. Three turns with the same index restore the stack. -/
theorem perform_shuffles_roll :
    let index : Bytes := [0x02, 0x00]
    let s : State := { main := [[0x0c], [0x0b], [0x0a], [0x09]], alt := [[0x01]] }
    perform {} Shuffle.roll.opcode { s with main := index :: s.main }
        = .ok { s with main := [[0x0a], [0x0c], [0x0b], [0x09]] } ∧
      (∃ halted, perform {} Shuffle.roll.opcode { s with main := [0x04] :: s.main }
        = .error halted) ∧
      times (fun t => perform {} Shuffle.roll.opcode { t with main := index :: t.main }) 3 s
        = .ok s := by
  intro index s
  obtain ⟨hpictured, -⟩ := perform_shuffles {} { main := [[0x09]], alt := [[0x01]] }
  obtain ⟨-, -, hfails, -⟩ := perform_shuffles {} { s with main := [0x04] :: s.main }
  obtain ⟨-, -, -, -, -, -, -, -, -, hturns, -⟩ := perform_shuffles {} s
  refine ⟨hpictured .roll _ _ (.roll [0x0a] [[0x0b], [0x0c]] (by decide)),
    hfails .roll ?_, hturns index 2 (by decide) (by decide)⟩
  rintro ⟨_, _, n, ⟨⟩, hindex, hlt⟩
  have hn : (n : Int) = 4 := hindex.2.symm
  have hheight : n < 4 := hlt
  omega

end Machine

end TxScript
