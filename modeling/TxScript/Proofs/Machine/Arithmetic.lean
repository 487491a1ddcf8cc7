import Mathlib.Algebra.Order.Ring.Int
import TxScript.Proofs.Indexed.Run

/-!
# Arithmetic

The arithmetic opcodes replace the numbers on top of the stack by another one. They compute with
integers, so what they give is said without the width of any register, and no spelling of an operand
makes a difference. An opcode that has no result for what it finds leaves everything as it was.
-/

namespace TxScript

/-! ## What the opcodes compute -/

/-- The opcodes that replace numbers by a number. -/
inductive Arithmetic where
  | unary (op : UnaryOp)
  | binary (op : BinaryOp)
  | division (op : DivisionOp)
  | within
  deriving DecidableEq, Repr

/-- A quotient with its remainder, which is smaller than the divisor and has the sign of the
dividend. -/
structure DividesTowardZero (a b quotient remainder : Int) : Prop where
  eq : a = b * quotient + remainder
  lt : remainder.natAbs < b.natAbs
  sign : 0 ≤ a * remainder

/-- The number that stands for the truth of a statement. -/
def truth (p : Prop) [Decidable p] : Int :=
  if p then 1 else 0

namespace Arithmetic

def opcode : Arithmetic → Opcode
  | .unary .increment => ⟨0x8b⟩
  | .unary .decrement => ⟨0x8c⟩
  | .unary .negate => ⟨0x8f⟩
  | .unary .abs => ⟨0x90⟩
  | .unary .isZero => ⟨0x91⟩
  | .unary .isNotZero => ⟨0x92⟩
  | .binary .add => ⟨0x93⟩
  | .binary .sub => ⟨0x94⟩
  | .division .quotient => ⟨0x96⟩
  | .division .remainder => ⟨0x97⟩
  | .binary .boolAnd => ⟨0x9a⟩
  | .binary .boolOr => ⟨0x9b⟩
  | .binary .equal => ⟨0x9c⟩
  | .binary .notEqual => ⟨0x9e⟩
  | .binary .less => ⟨0x9f⟩
  | .binary .greater => ⟨0xa0⟩
  | .binary .lessOrEqual => ⟨0xa1⟩
  | .binary .greaterOrEqual => ⟨0xa2⟩
  | .binary .minimum => ⟨0xa3⟩
  | .binary .maximum => ⟨0xa4⟩
  | .within => ⟨0xa5⟩

/-- How many operands an opcode has. -/
def arity : Arithmetic → Nat
  | .unary _ => 1
  | .binary _ | .division _ => 2
  | .within => 3

/-- There are as many operands as the opcode has, and nothing is divided by zero. -/
structure Takes (f : Arithmetic) (operands : List Int) : Prop where
  length : operands.length = f.arity
  divisor : ∀ op, f = .division op → operands.getLast? ≠ some 0

/-- What an opcode gives for its operands, in the order in which they were pushed. -/
inductive Gives : Arithmetic → (operands : List Int) → (result : Int) → Prop
  | increment (a : Int) : Gives (.unary .increment) [a] (a + 1)
  | decrement (a : Int) : Gives (.unary .decrement) [a] (a - 1)
  | negate (a : Int) : Gives (.unary .negate) [a] (-a)
  | abs (a : Int) : Gives (.unary .abs) [a] a.natAbs
  | isZero (a : Int) : Gives (.unary .isZero) [a] (truth (a = 0))
  | isNotZero (a : Int) : Gives (.unary .isNotZero) [a] (truth (a ≠ 0))
  | add (a b : Int) : Gives (.binary .add) [a, b] (a + b)
  | sub (a b : Int) : Gives (.binary .sub) [a, b] (a - b)
  | quotient {a b q r : Int} (h : DividesTowardZero a b q r) :
      Gives (.division .quotient) [a, b] q
  | remainder {a b q r : Int} (h : DividesTowardZero a b q r) :
      Gives (.division .remainder) [a, b] r
  | boolAnd (a b : Int) : Gives (.binary .boolAnd) [a, b] (truth (a ≠ 0 ∧ b ≠ 0))
  | boolOr (a b : Int) : Gives (.binary .boolOr) [a, b] (truth (a ≠ 0 ∨ b ≠ 0))
  | equal (a b : Int) : Gives (.binary .equal) [a, b] (truth (a = b))
  | notEqual (a b : Int) : Gives (.binary .notEqual) [a, b] (truth (a ≠ b))
  | less (a b : Int) : Gives (.binary .less) [a, b] (truth (a < b))
  | greater (a b : Int) : Gives (.binary .greater) [a, b] (truth (a > b))
  | lessOrEqual (a b : Int) : Gives (.binary .lessOrEqual) [a, b] (truth (a ≤ b))
  | greaterOrEqual (a b : Int) : Gives (.binary .greaterOrEqual) [a, b] (truth (a ≥ b))
  | minimum (a b : Int) : Gives (.binary .minimum) [a, b] (min a b)
  | maximum (a b : Int) : Gives (.binary .maximum) [a, b] (max a b)
  | within (x lower upper : Int) :
      Gives .within [x, lower, upper] (truth (lower ≤ x ∧ x < upper))

/-! ## The operations of the opcodes -/

def stackOp : Arithmetic → StackOp
  | .unary op => .unary op
  | .binary op => .binary op
  | .division op => .division op
  | .within => .within

theorem operation_opcode (f : Arithmetic) : f.opcode.operation = .stack f.stackOp := by
  cases f with
  | unary op => cases op <;> decide
  | binary op => cases op <;> decide
  | division op => cases op <;> decide
  | within => decide

end Arithmetic

theorem dividesTowardZero_iff {a b q r : Int} :
    DividesTowardZero a b q r ↔ b ≠ 0 ∧ a.tdiv b = q ∧ a.tmod b = r := by
  constructor
  · intro h
    have hb : b ≠ 0 := by
      have hlt := h.lt
      omega
    have heq := h.eq
    have hlt := h.lt
    refine ⟨hb, ?_⟩
    rcases lt_trichotomy a 0 with ha | rfl | ha
    · have hr : r ≤ 0 := by
        by_contra hr
        have hneg := Int.mul_neg_of_neg_of_pos ha (Int.not_le.1 hr)
        have hsign := h.sign
        omega
      exact (Int.tdiv_tmod_unique' (Int.le_of_lt ha) hb).2 ⟨by omega, by omega, hr⟩
    · -- the divisor is too great for a multiple of it beside no quotient
      have hmul : (b * q).natAbs = r.natAbs := by omega
      have hq : q = 0 := by
        by_contra hq
        have hle : b.natAbs * 1 ≤ b.natAbs * q.natAbs := Nat.mul_le_mul_left _ (by omega)
        rw [Int.natAbs_mul] at hmul
        omega
      subst hq
      simp only [Int.mul_zero, Int.zero_add] at heq
      simp [← heq]
    · have hr : 0 ≤ r := by
        by_contra hr
        have hneg := Int.mul_neg_of_pos_of_neg ha (Int.not_le.1 hr)
        have hsign := h.sign
        omega
      exact (Int.tdiv_tmod_unique (Int.le_of_lt ha) hb).2 ⟨by omega, hr, by omega⟩
  · rintro ⟨hb, rfl, rfl⟩
    refine ⟨(Int.mul_tdiv_add_tmod a b).symm, ?_, ?_⟩
    · rw [Int.natAbs_tmod]
      exact Nat.mod_lt _ (by omega)
    · rcases Int.le_total 0 a with ha | ha
      · exact Int.mul_nonneg ha (Int.tmod_nonneg b ha)
      · have hneg := Int.tmod_nonneg b (Int.neg_nonneg_of_nonpos ha)
        rw [Int.neg_tmod] at hneg
        exact Int.mul_nonneg_of_nonpos_of_nonpos ha (by omega)

namespace Arithmetic.Gives

variable {numbers : List Int} {r : Int}

theorem unary_iff {op : UnaryOp} :
    Gives (.unary op) numbers r ↔ ∃ a, numbers = [a] ∧ op.eval a = r := by
  constructor
  · intro h
    cases h <;> exact ⟨_, rfl, rfl⟩
  · rintro ⟨a, rfl, rfl⟩
    cases op with
    | increment => exact .increment a
    | decrement => exact .decrement a
    | negate => exact .negate a
    | abs => exact .abs a
    | isZero => exact .isZero a
    | isNotZero => exact .isNotZero a

theorem binary_iff {op : BinaryOp} :
    Gives (.binary op) numbers r ↔ ∃ a b, numbers = [a, b] ∧ op.eval a b = r := by
  constructor
  · intro h
    cases h <;> exact ⟨_, _, rfl, rfl⟩
  · rintro ⟨a, b, rfl, rfl⟩
    cases op with
    | add => exact .add a b
    | sub => exact .sub a b
    | boolAnd => exact .boolAnd a b
    | boolOr => exact .boolOr a b
    | equal => exact .equal a b
    | notEqual => exact .notEqual a b
    | less => exact .less a b
    | greater => exact .greater a b
    | lessOrEqual => exact .lessOrEqual a b
    | greaterOrEqual => exact .greaterOrEqual a b
    | minimum => exact .minimum a b
    | maximum => exact .maximum a b

theorem division_iff {op : DivisionOp} :
    Gives (.division op) numbers r ↔ ∃ a b, numbers = [a, b] ∧ b ≠ 0 ∧ op.eval a b = r := by
  constructor
  · intro h
    cases h with
    | quotient h =>
        obtain ⟨hb, hq, -⟩ := dividesTowardZero_iff.1 h
        exact ⟨_, _, rfl, hb, hq⟩
    | remainder h =>
        obtain ⟨hb, -, hr⟩ := dividesTowardZero_iff.1 h
        exact ⟨_, _, rfl, hb, hr⟩
  · rintro ⟨a, b, rfl, hb, rfl⟩
    have h : DividesTowardZero a b (a.tdiv b) (a.tmod b) :=
      dividesTowardZero_iff.2 ⟨hb, rfl, rfl⟩
    cases op with
    | quotient => exact .quotient h
    | remainder => exact .remainder h

theorem within_iff :
    Gives .within numbers r ↔
      ∃ x lower upper, numbers = [x, lower, upper] ∧ truth (lower ≤ x ∧ x < upper) = r := by
  constructor
  · intro h
    cases h
    exact ⟨_, _, _, rfl, rfl⟩
  · rintro ⟨x, lower, upper, rfl, rfl⟩
    exact .within x lower upper

end Arithmetic.Gives

/-- An opcode gives something for exactly the operands that it takes. -/
theorem Arithmetic.takes_iff {f : Arithmetic} {numbers : List Int} :
    f.Takes numbers ↔ ∃ r, f.Gives numbers r := by
  constructor
  · rintro ⟨hlength, hdivisor⟩
    cases f with
    | unary op =>
        obtain ⟨a, rfl⟩ := List.length_eq_one_iff.1 hlength
        exact ⟨_, Gives.unary_iff.2 ⟨a, rfl, rfl⟩⟩
    | binary op =>
        obtain ⟨a, b, rfl⟩ := List.length_eq_two.1 hlength
        exact ⟨_, Gives.binary_iff.2 ⟨a, b, rfl, rfl⟩⟩
    | division op =>
        obtain ⟨a, b, rfl⟩ := List.length_eq_two.1 hlength
        have hb : b ≠ 0 := by simpa using hdivisor op rfl
        exact ⟨_, Gives.division_iff.2 ⟨a, b, rfl, hb, rfl⟩⟩
    | within =>
        obtain ⟨x, lower, upper, rfl⟩ := List.length_eq_three.1 hlength
        exact ⟨_, Gives.within_iff.2 ⟨x, lower, upper, rfl, rfl⟩⟩
  · rintro ⟨r, h⟩
    cases f with
    | unary op =>
        obtain ⟨a, rfl, -⟩ := Gives.unary_iff.1 h
        exact ⟨rfl, nofun⟩
    | binary op =>
        obtain ⟨a, b, rfl, -⟩ := Gives.binary_iff.1 h
        exact ⟨rfl, nofun⟩
    | division op =>
        obtain ⟨a, b, rfl, hb, -⟩ := Gives.division_iff.1 h
        exact ⟨rfl, fun _ _ => by simpa using hb⟩
    | within =>
        obtain ⟨x, lower, upper, rfl, -⟩ := Gives.within_iff.1 h
        exact ⟨rfl, nofun⟩

/-! ## What the opcodes do -/

namespace Machine

variable {env : Env} {s : State} {f : Arithmetic} {numbers : List Int} {below stack : Stack}
  {r : Int}

/-- The stack is the one below with some spellings of the numbers pushed onto it, one after
another. -/
def Carries : (numbers : List Int) → (below stack : Stack) → Prop
  | [], below, stack => stack = below
  | n :: rest, below, stack => ∃ x, Number.Spells x n ∧ Carries rest (x :: below) stack

theorem natAbs_le_of_gives (h : f.Gives numbers r) (hcarries : Carries numbers below stack) :
    r.natAbs ≤ 0x100000000 := by
  cases f with
  | unary op =>
      obtain ⟨a, rfl, rfl⟩ := Arithmetic.Gives.unary_iff.1 h
      obtain ⟨x, hx, -⟩ := hcarries
      exact Indexed.natAbs_unary_le op (Indexed.isOperand_of_spells hx)
  | binary op =>
      obtain ⟨a, b, rfl, rfl⟩ := Arithmetic.Gives.binary_iff.1 h
      obtain ⟨x, hx, y, hy, -⟩ := hcarries
      exact Indexed.natAbs_binary_le op (Indexed.isOperand_of_spells hx)
        (Indexed.isOperand_of_spells hy)
  | division op =>
      obtain ⟨a, b, rfl, -, rfl⟩ := Arithmetic.Gives.division_iff.1 h
      obtain ⟨x, hx, -⟩ := hcarries
      exact Indexed.natAbs_division_le op (Indexed.isOperand_of_spells hx) b
  | within =>
      obtain ⟨x, lower, upper, -, rfl⟩ := Arithmetic.Gives.within_iff.1 h
      unfold truth
      split <;> decide

theorem encode_truth (p : Prop) [Decidable p] :
    Number.encode (truth p) = Number.ofBool (decide p) := by
  by_cases hp : p
  · have hone : Number.encode 1 = [0x01] := Number.encode_value [0x01]
    simp [truth, Number.ofBool, hp, hone]
  · simp [truth, Number.ofBool, hp]

/-- Where an opcode gives a number for what is carried, its spelling takes the place of that. -/
theorem apply_of_gives (maxElementSize : Nat) (h : f.Gives numbers r)
    (hcarries : Carries numbers below stack) :
    f.stackOp.apply maxElementSize stack = .ok (Number.encode r :: below) := by
  cases f with
  | unary op =>
      obtain ⟨a, rfl, rfl⟩ := Arithmetic.Gives.unary_iff.1 h
      obtain ⟨x, hx, rfl⟩ := hcarries
      simp only [Arithmetic.stackOp, StackOp.apply, applyUnary, Number.operand?_eq_some_iff.2 hx]
  | binary op =>
      obtain ⟨a, b, rfl, rfl⟩ := Arithmetic.Gives.binary_iff.1 h
      obtain ⟨x, hx, y, hy, rfl⟩ := hcarries
      simp only [Arithmetic.stackOp, StackOp.apply, applyBinary, Number.operand?_eq_some_iff.2 hx,
        Number.operand?_eq_some_iff.2 hy]
  | division op =>
      obtain ⟨a, b, rfl, hb, rfl⟩ := Arithmetic.Gives.division_iff.1 h
      obtain ⟨x, hx, y, hy, rfl⟩ := hcarries
      simp only [Arithmetic.stackOp, StackOp.apply, applyDivision,
        Number.operand?_eq_some_iff.2 hx, Number.operand?_eq_some_iff.2 hy, if_neg hb]
  | within =>
      obtain ⟨n, lo, hi, rfl, rfl⟩ := Arithmetic.Gives.within_iff.1 h
      obtain ⟨x, hx, lower, hlower, upper, hupper, rfl⟩ := hcarries
      simp only [Arithmetic.stackOp, StackOp.apply, applyWithin, Number.operand?_eq_some_iff.2 hx,
        Number.operand?_eq_some_iff.2 hlower, Number.operand?_eq_some_iff.2 hupper, encode_truth]

/-- An opcode finds numbers for which it gives something, or it leaves the stack as it was. -/
theorem apply_cases (maxElementSize : Nat) (f : Arithmetic) (stack : Stack) :
    (∃ numbers below r, f.Gives numbers r ∧ Carries numbers below stack) ∨
      ∃ e, f.stackOp.apply maxElementSize stack = .error ⟨e, stack⟩ := by
  have hspells {x : Bytes} {n : Int} (h : Number.operand? x = some n) : Number.Spells x n :=
    Number.operand?_eq_some_iff.1 h
  cases f with
  | unary op =>
      rcases stack with _ | ⟨x, below⟩
      · exact .inr ⟨_, rfl⟩
      · simp only [Arithmetic.stackOp, StackOp.apply, applyUnary]
        cases hx : Number.operand? x with
        | none => exact .inr ⟨_, rfl⟩
        | some a =>
            exact .inl ⟨[a], below, _, Arithmetic.Gives.unary_iff.2 ⟨a, rfl, rfl⟩, x, hspells hx,
              rfl⟩
  | binary op =>
      rcases stack with _ | ⟨y, _ | ⟨x, below⟩⟩
      · exact .inr ⟨_, rfl⟩
      · exact .inr ⟨_, rfl⟩
      · simp only [Arithmetic.stackOp, StackOp.apply, applyBinary]
        cases hx : Number.operand? x with
        | none => exact .inr ⟨_, rfl⟩
        | some a =>
            cases hy : Number.operand? y with
            | none => exact .inr ⟨_, rfl⟩
            | some b =>
                exact .inl ⟨[a, b], below, _, Arithmetic.Gives.binary_iff.2 ⟨a, b, rfl, rfl⟩, x,
                  hspells hx, y, hspells hy, rfl⟩
  | division op =>
      rcases stack with _ | ⟨y, _ | ⟨x, below⟩⟩
      · exact .inr ⟨_, rfl⟩
      · exact .inr ⟨_, rfl⟩
      · simp only [Arithmetic.stackOp, StackOp.apply, applyDivision]
        cases hy : Number.operand? y with
        | none => exact .inr ⟨_, rfl⟩
        | some b =>
            by_cases hb : b = 0
            · exact .inr ⟨_, if_pos hb⟩
            · cases hx : Number.operand? x with
              | none => exact .inr ⟨_, if_neg hb⟩
              | some a =>
                  exact .inl ⟨[a, b], below, _,
                    Arithmetic.Gives.division_iff.2 ⟨a, b, rfl, hb, rfl⟩, x, hspells hx, y,
                    hspells hy, rfl⟩
  | within =>
      rcases stack with _ | ⟨upper, _ | ⟨lower, _ | ⟨x, below⟩⟩⟩
      · exact .inr ⟨_, rfl⟩
      · exact .inr ⟨_, rfl⟩
      · exact .inr ⟨_, rfl⟩
      · simp only [Arithmetic.stackOp, StackOp.apply, applyWithin]
        cases hx : Number.operand? x with
        | none => exact .inr ⟨_, rfl⟩
        | some n =>
            cases hlower : Number.operand? lower with
            | none => exact .inr ⟨_, rfl⟩
            | some lo =>
                cases hupper : Number.operand? upper with
                | none => exact .inr ⟨_, rfl⟩
                | some hi =>
                    exact .inl ⟨[n, lo, hi], below, _,
                      Arithmetic.Gives.within_iff.2 ⟨n, lo, hi, rfl, rfl⟩, x, hspells hx, lower,
                      hspells hlower, upper, hspells hupper, rfl⟩

theorem perform_opcode (env : Env) (f : Arithmetic) (s : State) :
    perform env f.opcode s = s.withMain (f.stackOp.apply env.config.maxElementSize s.main) := by
  unfold perform
  rw [f.operation_opcode]

theorem perform_of_gives (h : f.Gives numbers r) (hcarries : Carries numbers below s.main) :
    perform env f.opcode s = .ok { s with main := Number.encode r :: below } := by
  rw [perform_opcode, apply_of_gives _ h hcarries]
  rfl

/-- An opcode that does not find what it takes leaves everything as it was. -/
theorem perform_of_not_takes
    (h : ∀ numbers below, Carries numbers below s.main → ¬ f.Takes numbers) :
    ∃ e, perform env f.opcode s = .error ⟨e, s⟩ := by
  rcases apply_cases env.config.maxElementSize f s.main with hgives | ⟨e, hfails⟩
  · obtain ⟨numbers, below, r, hr, hcarries⟩ := hgives
    exact absurd (Arithmetic.takes_iff.2 ⟨r, hr⟩) (h numbers below hcarries)
  · exact ⟨e, by rw [perform_opcode, hfails]; rfl⟩

theorem state_of_perform_error {t : State} {halted : Halt ExecError}
    (h : perform env f.opcode t = .error halted) : halted.state = t := by
  rw [perform_opcode] at h
  rcases apply_cases env.config.maxElementSize f t.main with hgives | ⟨e, hfails⟩
  · obtain ⟨numbers, below, r, hr, hcarries⟩ := hgives
    rw [apply_of_gives _ hr hcarries] at h
    cases h
  · rw [hfails] at h
    cases h
    rfl

/-- An opcode of arithmetic that finds as many operands as it has, of four bytes at most and with no
division by zero, replaces them by the shortest spelling of the number that it gives for them. That
takes five bytes at most, and it is the same for all spellings of the operands. Whatever else the
opcode finds, it fails and leaves everything as it was. No operand is changed on its way into 32
bits, and in registers of 64 bits the opcode ends in the same way. Where the opcode runs, the chunk
does this after it is counted, and no chunk that fails changes more than the count. -/
theorem perform_arithmetic (env : Env) (s : State) (f : Arithmetic) :
    (∀ numbers below, f.Takes numbers → ∃ r, f.Gives numbers r ∧
      Number.value (Number.encode r) = r ∧
      (∀ bs, Number.value bs = r → (Number.encode r).length ≤ bs.length) ∧
      ∀ main, Carries numbers below main →
        perform env f.opcode { s with main := main }
            = .ok { s with main := Number.encode r :: below } ∧
          (Number.encode r).length ≤ 5) ∧
    ((∀ numbers below, Carries numbers below s.main → ¬ f.Takes numbers) →
      ∃ e, perform env f.opcode s = .error ⟨e, s⟩) ∧
    (∀ bs n, Number.Spells bs n →
      Number.decode? Number.operandWidth bs = some n ∧ Number.clamp32 n = n) ∧
    (∀ check, Indexed.perform env check f.opcode s
      = some (Indexed.result () (perform env f.opcode s))) ∧
    (Admits env s f.opcode → step env s (.op f.opcode) = perform env f.opcode s.counted) ∧
    ∀ halted, step env s (.op f.opcode) = .error halted → ∃ count, halted.state = s.plus count := by
  refine ⟨fun numbers below htakes => ?_, perform_of_not_takes, fun bs n h => ?_, fun check => ?_,
    step_of_admits, fun halted h => state_of_step_error (fun t e => state_of_perform_error) h⟩
  · obtain ⟨r, hr⟩ := Arithmetic.takes_iff.1 htakes
    refine ⟨r, hr, Number.value_encode r, fun bs h => Number.length_encode_le_of_value h,
      fun main hcarries => ⟨perform_of_gives hr hcarries, ?_⟩⟩
    have hlimit : LittleEndian.limit 5 = 0x10000000000 := rfl
    have hle := natAbs_le_of_gives hr hcarries
    exact Number.length_encode_le_of_half (by omega)
  · exact ⟨Number.decode?_operandWidth.2 h, Number.clamp32_of_spells h⟩
  · have hdoes := Indexed.onMain_of_does
      (Indexed.apply_does env.config.maxElementSize f.stackOp) s
    rw [perform_opcode, ← hdoes]
    unfold Indexed.perform
    rw [f.operation_opcode]

/-- A sum that needs a fifth byte, the remainder of a negative number, and a division by the other
spelling of zero. -/
theorem perform_arithmetic_at_the_edges :
    let sum : State := { main := [[0x01, 0x00], [0xff, 0xff, 0xff, 0x7f], [0x2a]] }
    let rest : State := { main := [[0x02], [0x07, 0x80]] }
    let zero : State := { main := [[0x80], [0x07]] }
    perform {} (Arithmetic.binary .add).opcode sum
        = .ok { sum with main := [[0x00, 0x00, 0x00, 0x80, 0x00], [0x2a]] } ∧
      perform {} (Arithmetic.division .remainder).opcode rest = .ok { rest with main := [[0x81]] } ∧
      ∃ e, perform {} (Arithmetic.division .quotient).opcode zero = .error ⟨e, zero⟩ := by
  intro sum rest zero
  refine ⟨?_, ?_, ?_⟩
  · obtain ⟨hgives, -⟩ := perform_arithmetic {} sum (.binary .add)
    obtain ⟨r, hr, -, -, hperform⟩ := hgives [0x7fffffff, 1] [[0x2a]] ⟨rfl, nofun⟩
    obtain ⟨hdone, -⟩ := hperform sum.main
      ⟨[0xff, 0xff, 0xff, 0x7f], by decide, [0x01, 0x00], by decide, rfl⟩
    have hencode : Number.encode r = [0x00, 0x00, 0x00, 0x80, 0x00] := by
      cases hr
      exact Number.encode_value [0x00, 0x00, 0x00, 0x80, 0x00]
    rwa [hencode] at hdone
  · obtain ⟨hgives, -⟩ := perform_arithmetic {} rest (.division .remainder)
    obtain ⟨r, hr, -, -, hperform⟩ := hgives [-7, 2] [] ⟨rfl, fun _ _ => by decide⟩
    obtain ⟨hdone, -⟩ := hperform rest.main ⟨[0x07, 0x80], by decide, [0x02], by decide, rfl⟩
    have hencode : Number.encode r = [0x81] := by
      obtain ⟨a, b, hnumbers, -, rfl⟩ := Arithmetic.Gives.division_iff.1 hr
      cases hnumbers
      exact Number.encode_value [0x81]
    rwa [hencode] at hdone
  · obtain ⟨-, hfails, -⟩ := perform_arithmetic {} zero (.division .quotient)
    refine hfails fun numbers below hcarries htakes => ?_
    obtain ⟨a, b, rfl⟩ := List.length_eq_two.1 htakes.length
    obtain ⟨x, -, y, hy, hstack⟩ := hcarries
    cases hstack
    have hb : b = 0 := hy.2.symm
    exact htakes.divisor .quotient rfl (by rw [hb]; rfl)

end Machine

end TxScript
