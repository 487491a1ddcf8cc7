import Mathlib.Data.FinEnum
import Mathlib.Data.List.Induction
import Mathlib.Data.List.TakeWhile
import Mathlib.Data.Nat.Bitwise
import TxScript.Machine.Number
import TxScript.Machine.StackOps
import TxScript.Proofs.Indexed.Row
import TxScript.Proofs.Machine.Spelling

/-!
# Script numbers in registers

Numbers are read into unsigned registers of 64 bits, byte by byte, and computed with in signed ones.
A shift by the width of a register or more, a result that does not fit, and a division by zero have
no next step. Numbers read from the stack are narrow enough that none of this comes up.
-/

namespace TxScript.Indexed

/-! ## Arithmetic -/

/-- The result of signed arithmetic. -/
def register? (n : Int) : Option Int :=
  if -0x8000000000000000 ≤ n ∧ n ≤ 0x7fffffffffffffff then some n else none

def unary? (op : UnaryOp) (a : Int) : Option Int :=
  register? (op.eval a)

def binary? (op : BinaryOp) (a b : Int) : Option Int :=
  register? (op.eval a b)

/-- The remainder is there only where the quotient is. -/
def division? (op : DivisionOp) (a b : Int) : Option Int :=
  if b = 0 then none else (register? (a.tdiv b)).map fun _ => op.eval a b

/-- The range of an operand. -/
def IsOperand (n : Int) : Prop :=
  -0x80000000 ≤ n ∧ n ≤ 0x7fffffff

theorem isOperand_clamp32 (n : Int) : IsOperand (Number.clamp32 n) := by
  unfold IsOperand Number.clamp32
  omega

theorem isOperand_of_operand? {bs : Bytes} {n : Int} (h : Number.operand? bs = some n) :
    IsOperand n := by
  obtain ⟨m, -, rfl⟩ := Option.map_eq_some_iff.1 h
  exact isOperand_clamp32 m

theorem isOperand_of_spells {bs : Bytes} {n : Int} (h : Number.Spells bs n) : IsOperand n :=
  isOperand_of_operand? (Number.operand?_eq_some_iff.2 h)

theorem register?_of_le {n : Int} (h : n.natAbs ≤ 0x100000000) : register? n = some n := by
  rw [register?, if_pos (by omega)]

/-! A result has at most one bit more than the operands. -/

theorem natAbs_unary_le (op : UnaryOp) {a : Int} (ha : IsOperand a) :
    (op.eval a).natAbs ≤ 0x100000000 := by
  obtain ⟨hl, hu⟩ := ha
  cases op <;> simp only [UnaryOp.eval] <;> try split
  all_goals omega

theorem natAbs_binary_le (op : BinaryOp) {a b : Int} (ha : IsOperand a) (hb : IsOperand b) :
    (op.eval a b).natAbs ≤ 0x100000000 := by
  obtain ⟨hal, hau⟩ := ha
  obtain ⟨hbl, hbu⟩ := hb
  cases op <;> simp only [BinaryOp.eval] <;> try split
  all_goals omega

/-- Neither the quotient nor the remainder is greater than the dividend. -/
theorem natAbs_division_le (op : DivisionOp) {a : Int} (ha : IsOperand a) (b : Int) :
    (op.eval a b).natAbs ≤ 0x100000000 := by
  have hdividend : a.natAbs ≤ 0x80000000 := by
    obtain ⟨hl, hu⟩ := ha
    omega
  have hresult : (op.eval a b).natAbs ≤ a.natAbs := by
    cases op with
    | quotient => exact Int.natAbs_tdiv_le_natAbs a b
    | remainder =>
        show (a.tmod b).natAbs ≤ a.natAbs
        rw [Int.natAbs_tmod]
        exact Nat.mod_le _ _
  omega

theorem unary?_of_operand (op : UnaryOp) {a : Int} (ha : IsOperand a) :
    unary? op a = some (op.eval a) :=
  register?_of_le (natAbs_unary_le op ha)

theorem binary?_of_operand (op : BinaryOp) {a b : Int} (ha : IsOperand a) (hb : IsOperand b) :
    binary? op a b = some (op.eval a b) :=
  register?_of_le (natAbs_binary_le op ha hb)

theorem division?_of_operand (op : DivisionOp) {a b : Int} (ha : IsOperand a) (hb : b ≠ 0) :
    division? op a b = some (op.eval a b) := by
  have hquotient : (a.tdiv b).natAbs ≤ 0x100000000 := natAbs_division_le .quotient ha b
  rw [division?, if_neg hb, register?_of_le hquotient]
  rfl

/-! ## Reading -/

/-- A shift to the left. -/
def shift? (a : UInt64) (count : Nat) : Option UInt64 :=
  if count < 64 then some (a <<< UInt64.ofNat count) else none

/-- Puts bytes into a register, the first at the given place. -/
def gather? : (place : Nat) → (held : UInt64) → Bytes → Option UInt64
  | _, held, [] => some held
  | place, held, b :: rest => do
    let digit ← shift? b.toUInt64 (8 * place)
    gather? (place + 1) (held ||| digit) rest

/-- A magnitude in a signed register, where the greatest number stands for all that do not fit. -/
def saturated (a : UInt64) : Int :=
  min a.toNat 0x7fffffffffffffff

def decode? (width : Nat) (bs : Bytes) : Option (Option Int) :=
  if width < bs.length ∨ Number.registerWidth < bs.length then some none
  else
    match bs.getLast? with
    | none => some (some 0)
    | some last => do
      let held ← gather? 0 0 bs
      if last &&& 0x80 = 0 then return some (saturated held)
      let top ← diff? bs.length 1
      let sign ← shift? 0x80 (8 * top)
      let n ← register? (-saturated (held &&& ~~~sign))
      return some n

theorem shift?_of_lt {a : UInt64} {count : Nat} (h : count < 64) :
    shift? a count = some (a <<< UInt64.ofNat count) :=
  if_pos h

/-- A byte at its place, in a register that is empty from there on. -/
theorem toNat_or_shifted {b : UInt8} {held : UInt64} {place : Nat} (hplace : place < 8)
    (hheld : held.toNat < 2 ^ (8 * place)) :
    (held ||| b.toUInt64 <<< UInt64.ofNat (8 * place)).toNat
      = held.toNat + 2 ^ (8 * place) * b.toNat := by
  have hcount : (UInt64.ofNat (8 * place)).toNat % 64 = 8 * place := by
    rw [UInt64.toNat_ofNat']
    omega
  have hroom : 2 ^ (8 * place) * 256 ≤ 2 ^ 64 := by
    have hpow : (2 : Nat) ^ (8 * place) * 2 ^ 8 = 2 ^ (8 * place + 8) := (Nat.pow_add 2 _ 8).symm
    have hle : (2 : Nat) ^ (8 * place + 8) ≤ 2 ^ 64 := Nat.pow_le_pow_right (by omega) (by omega)
    omega
  have hdigit : 2 ^ (8 * place) * b.toNat < 2 ^ 64 := by
    have hlt : 2 ^ (8 * place) * b.toNat < 2 ^ (8 * place) * 256 :=
      Nat.mul_lt_mul_of_pos_left b.toNat_lt (Nat.two_pow_pos _)
    omega
  rw [UInt64.toNat_or, UInt64.toNat_shiftLeft, UInt8.toNat_toUInt64, hcount, Nat.shiftLeft_eq,
    Nat.mul_comm, Nat.mod_eq_of_lt hdigit, Nat.or_comm, ← Nat.two_pow_add_eq_or_of_lt hheld,
    Nat.add_comm]

theorem gather?_eq {bs : Bytes} {place : Nat} {held : UInt64} (hfit : place + bs.length ≤ 8)
    (hheld : held.toNat < 2 ^ (8 * place)) :
    ∃ r, gather? place held bs = some r ∧
      r.toNat = held.toNat + 2 ^ (8 * place) * LittleEndian.decode bs := by
  induction bs generalizing place held with
  | nil => exact ⟨held, rfl, by simp [LittleEndian.decode]⟩
  | cons b rest ih =>
      rw [List.length_cons] at hfit
      have hnext := @toNat_or_shifted b held place (by omega) hheld
      have hpow : (2 : Nat) ^ (8 * (place + 1)) = 2 ^ (8 * place) * 256 := by
        rw [Nat.mul_add, Nat.pow_add]
      have hbound : (held ||| b.toUInt64 <<< UInt64.ofNat (8 * place)).toNat
          < 2 ^ (8 * (place + 1)) := by
        have hb : 2 ^ (8 * place) * (b.toNat + 1) ≤ 2 ^ (8 * place) * 256 :=
          Nat.mul_le_mul_left _ b.toNat_lt
        rw [hnext, hpow]
        rw [Nat.mul_add] at hb
        omega
      obtain ⟨r, hr, hvalue⟩ := ih (by omega) hbound
      refine ⟨r, ?_, ?_⟩
      · rw [gather?, shift?_of_lt (by omega)]
        exact hr
      · rw [hvalue, hnext, hpow, LittleEndian.decode, Nat.mul_add, Nat.mul_assoc, Nat.add_assoc]

/-- Clearing the top bit of a byte at its place. -/
theorem and_not_top {low b k : Nat} (hlow : low < 2 ^ k) (hb : b < 256) (hk : k + 8 ≤ 64) :
    (low + 2 ^ k * b) &&& (2 ^ 64 - 1 - 2 ^ (k + 7)) = low + 2 ^ k * (b &&& 0x7f) := by
  have hsign : 2 ^ (k + 7) < 2 ^ 64 := Nat.pow_lt_pow_right (by omega) (by omega)
  apply Nat.eq_of_testBit_eq
  intro i
  have hmask : (2 ^ 64 - 1 - 2 ^ (k + 7)).testBit i = (decide (i < 64) && !decide (k + 7 = i)) := by
    rw [Nat.sub_sub, Nat.add_comm 1, Nat.testBit_two_pow_sub_succ hsign, Nat.testBit_two_pow]
  have hseven : (0x7f : Nat).testBit (i - k) = decide (i - k < 7) :=
    Nat.testBit_two_pow_sub_one 7 (i - k)
  rw [Nat.testBit_and, hmask, Nat.add_comm low, Nat.add_comm low,
    Nat.testBit_two_pow_mul_add b hlow, Nat.testBit_two_pow_mul_add _ hlow]
  by_cases hi : i < k
  · simp only [hi, if_true]
    have h64 : i < 64 := by omega
    have hne : ¬ k + 7 = i := by omega
    simp [h64, hne]
  · simp only [hi, if_false, Nat.testBit_and, hseven]
    by_cases hbit : i - k < 8
    · have h64 : i < 64 := by omega
      have hiff : (¬ k + 7 = i) ↔ i - k < 7 := by omega
      simp [h64, ← hiff]
    · have hzero : b.testBit (i - k) = false := by
        apply Nat.testBit_lt_two_pow
        have hpow : 2 ^ 8 ≤ 2 ^ (i - k) := Nat.pow_le_pow_right (by omega) (by omega)
        omega
      simp [hzero]

/-! ## The number that bytes spell -/

theorem limit_eq (width : Nat) : LittleEndian.limit width = 2 ^ (8 * width) := by
  induction width with
  | zero => rfl
  | succ width ih => rw [LittleEndian.limit, ih, Nat.mul_add, Nat.pow_add, Nat.mul_comm]

set_option maxRecDepth 4000 in
theorem top_bit_iff (b : UInt8) : b &&& 0x80 = 0 ↔ ¬ 0x80 ≤ b := by
  revert b
  decide

set_option maxRecDepth 4000 in
theorem seven_bits_of_top_bit (b : UInt8) (h : b &&& 0x80 = 0) : b.toNat &&& 0x7f = b.toNat := by
  revert b
  decide

/-- The top bit of the last of some bytes, in a register that holds them. -/
theorem toNat_top_bit {place : Nat} (h : place < 8) :
    ((0x80 : UInt64) <<< UInt64.ofNat (8 * place)).toNat = 2 ^ (8 * place + 7) := by
  have hcount : (UInt64.ofNat (8 * place)).toNat % 64 = 8 * place := by
    rw [UInt64.toNat_ofNat']
    omega
  have hroom : (2 : Nat) ^ (8 * place + 7) < 2 ^ 64 := Nat.pow_lt_pow_right (by omega) (by omega)
  have htop : (0x80 : UInt64).toNat * 2 ^ (8 * place) = 2 ^ (8 * place + 7) := by
    rw [Nat.pow_add, Nat.mul_comm]
    rfl
  rw [UInt64.toNat_shiftLeft, hcount, Nat.shiftLeft_eq, htop, Nat.mod_eq_of_lt hroom]

theorem register?_neg_saturated (a : UInt64) : register? (-saturated a) = some (-saturated a) := by
  rw [register?, if_pos (by unfold saturated; omega)]

/-- Numbers of eight bytes and less fit the registers. -/
theorem decode?_eq (width : Nat) (bs : Bytes) :
    decode? width bs = some (Number.decode? width bs) := by
  unfold decode? Number.decode?
  by_cases hwide : width < bs.length ∨ Number.registerWidth < bs.length
  · rw [if_pos hwide, if_pos hwide]
  rw [if_neg hwide, if_neg hwide]
  have hlength : bs.length ≤ 8 := by
    unfold Number.registerWidth at hwide
    omega
  rcases List.eq_nil_or_concat bs with rfl | ⟨low, last, rfl⟩
  · rfl
  rw [List.concat_eq_append] at hlength ⊢
  obtain ⟨held, hgather, hheld⟩ := @gather?_eq (low ++ [last]) 0 0 (by omega) (by simp)
  have hlow : low.length < 8 := by
    rw [List.length_append, List.length_singleton] at hlength
    omega
  have hvalue : held.toNat = LittleEndian.decode low + 2 ^ (8 * low.length) * last.toNat := by
    rw [hheld, LittleEndian.decode_concat, limit_eq]
    simp
  simp only [List.getLast?_concat, hgather, Option.bind_eq_bind, Option.bind_some,
    Number.isNegative_concat]
  by_cases hlast : last &&& 0x80 = 0
  · have hmagnitude : Number.magnitude (low ++ [last]) = held.toNat := by
      rw [Number.magnitude_concat, limit_eq, hvalue, seven_bits_of_top_bit last hlast]
    simp only [hlast, if_true, (top_bit_iff last).1 hlast, hmagnitude, decide_false,
      Bool.false_eq_true, if_false]
    rfl
  · have hlt : LittleEndian.decode low < 2 ^ (8 * low.length) := by
      rw [← limit_eq]
      exact LittleEndian.decode_lt low
    have hmagnitude : Number.magnitude (low ++ [last])
        = (held &&& ~~~((0x80 : UInt64) <<< UInt64.ofNat (8 * low.length))).toNat := by
      rw [Number.magnitude_concat, limit_eq, UInt64.toNat_and, UInt64.toNat_not,
        toNat_top_bit hlow, hvalue]
      exact (and_not_top hlt last.toNat_lt (by omega)).symm
    have htop : (0x80 : UInt8) ≤ last := Decidable.not_not.1 fun h => hlast ((top_bit_iff last).2 h)
    simp only [hlast, if_false, htop, hmagnitude, List.length_append, List.length_singleton,
      diff?_add_right, Option.bind_some, @shift?_of_lt 0x80 (8 * low.length) (by omega),
      register?_neg_saturated, decide_true, if_true]
    rfl

/-- What is written for a number of a register is read back, unless the number is the least one,
whose spelling has nine bytes. Up to eight bytes are read for exactly the number that they spell, in
registers that hold every number on the way and never the greatest one in place of a greater, and
what is written for that number is the shortest of its spellings. More bytes are not read. -/
theorem decode?_inverts_encode :
    (∀ (n : Int) (width : Nat), -0x8000000000000000 < n → n ≤ 0x7fffffffffffffff →
      (Number.encode n).length ≤ width → Number.decode? width (Number.encode n) = some n) ∧
    (∀ (bs : Bytes) (width : Nat), bs.length ≤ width → bs.length ≤ 8 →
      Number.decode? width bs = some (Number.value bs) ∧
        Number.encode (Number.value bs) = Number.minimize bs ∧
        Number.magnitude bs ≤ 0x7fffffffffffffff) ∧
    (∀ (bs : Bytes) (width : Nat), width < bs.length ∨ 8 < bs.length →
      Number.decode? width bs = none) ∧
    (∀ (bs : Bytes) (width : Nat), decode? width bs = some (Number.decode? width bs)) ∧
    (Number.encode (-0x8000000000000000)).length = 9 ∧
    ∀ width, Number.decode? width (Number.encode (-0x8000000000000000)) = none := by
  have hleast : Number.encode (-0x8000000000000000)
      = [0x00, 0x00, 0x00, 0x00, 0x00, 0x00, 0x00, 0x80, 0x80] :=
    Number.encode_value [0x00, 0x00, 0x00, 0x00, 0x00, 0x00, 0x00, 0x80, 0x80]
  have htooWide (bs : Bytes) (width : Nat) (h : width < bs.length ∨ 8 < bs.length) :
      Number.decode? width bs = none := if_pos h
  refine ⟨fun n width hlow hhigh hlength => ?_, fun bs width hwidth hregister => ?_, htooWide,
    fun bs width => decode?_eq width bs, ?_, fun width => ?_⟩
  · have hhalf : 2 * n.natAbs < LittleEndian.limit Number.registerWidth := by
      have hlimit : LittleEndian.limit Number.registerWidth = 0x10000000000000000 := rfl
      omega
    have hregister := Number.length_encode_le_of_half hhalf
    exact Number.decode?_eq_some_iff.2 ⟨hlength, hregister, Number.value_encode n⟩
  · exact ⟨Number.decode?_eq_value hwidth hregister, Number.encode_value bs,
      Number.magnitude_le_of_registerWidth hregister⟩
  · rw [hleast]
    rfl
  · rw [hleast]
    exact htooWide _ width (.inr (by decide))

/-- The least number that is read back, a spelling with six bytes to spare, and one byte too many
for the width. -/
theorem decode?_inverts_encode_at_the_ends :
    let least : Int := -0x7fffffffffffffff
    let padded : Bytes := [0x05, 0x00, 0x00, 0x00, 0x00, 0x00, 0x00, 0x80]
    let wide : Bytes := [0x01, 0x00, 0x00]
    ((Number.encode least).length ≤ 8 ∧ Number.decode? 8 (Number.encode least) = some least) ∧
      (padded.length ≤ 8 ∧ Number.decode? 9 padded = some (-5) ∧
        Number.encode (-5) = Number.minimize padded) ∧
      2 < wide.length ∧ Number.decode? 2 wide = none := by
  intro least padded wide
  obtain ⟨hwritten, hread, hwide, -⟩ := decode?_inverts_encode
  have hlength : (Number.encode least).length ≤ 8 := by decide +kernel
  obtain ⟨hvalue, hencode, -⟩ := hread padded 9 (by decide) (by decide)
  exact ⟨⟨hlength, hwritten least 8 (by decide) (by decide) hlength⟩,
    ⟨by decide, hvalue, hencode⟩, by decide, hwide wide 2 (.inl (by decide))⟩

/-! ## Truth and shortest spellings -/

/-- The truth of a stack element. -/
def isTrue? (bs : Bytes) : Option Bool :=
  match Row.lastPosition? (· != 0) bs with
  | none => some false
  | some i => do
    let last ← diff? bs.length 1
    if i ≠ last then return true
    let b ← bs[i]?
    if b ≠ 0x80 then return true
    let low ← Row.slice? bs 0 i
    return !low.all (· == 0)

/-- The shortest spelling of the same number. -/
def minimize? (bs : Bytes) : Option Bytes :=
  match bs.getLast? with
  | none => some []
  | some last =>
    if last &&& 0x7f ≠ 0 then some bs
    else
      match Row.lastPosition? (· != 0) bs.dropLast with
      | none => some []
      | some i => do
        let out ← Row.slice? bs.dropLast 0 (i + 1)
        let top ← out[i]?
        if top &&& 0x80 ≠ 0 then return out ++ [last]
        else Row.replace? out i (top ||| last)

theorem slice?_front {α : Type} (front back : List α) :
    Row.slice? (front ++ back) 0 front.length = some front := by
  rw [Row.slice?, if_pos (by simp)]
  simp

set_option maxRecDepth 4000 in
theorem seven_bits_of_ne {b : UInt8} (hzero : (b != 0) = true) (hsign : b ≠ 0x80) :
    (b &&& 0x7f != 0) = true := by
  revert b
  decide

theorem isTrue?_eq (bs : Bytes) : isTrue? bs = some (Number.isTrue bs) := by
  unfold isTrue?
  cases h : Row.lastPosition? (· != 0) bs with
  | none =>
      have hzeros := Row.lastPosition?_eq_none h
      rcases List.eq_nil_or_concat bs with rfl | ⟨low, last, rfl⟩
      · rfl
      rw [List.concat_eq_append] at hzeros ⊢
      rw [Number.isTrue_concat]
      simp_all
  | some i =>
      obtain ⟨front, top, back, rfl, rfl, htop, hback⟩ := Row.lastPosition?_eq_some h
      rcases List.eq_nil_or_concat back with rfl | ⟨zeros, zero, rfl⟩
      · rw [Number.isTrue_concat]
        simp only [List.length_append, List.length_singleton, diff?_add_right,
          Option.bind_eq_bind, Option.bind_some, ne_eq, not_true_eq_false, if_false,
          List.getElem?_concat_length, slice?_front]
        by_cases hsign : top = 0x80
        · subst hsign
          rfl
        · rw [if_pos hsign, seven_bits_of_ne htop hsign]
          rfl
      · have hlength : (front ++ top :: (zeros ++ [zero])).length
            = front.length + zeros.length + 1 + 1 := by
          simp [Nat.add_assoc]
        have hne : front.length ≠ front.length + zeros.length + 1 := by omega
        have hsome : (front ++ top :: zeros).all (· == 0) = false := by
          rw [List.all_eq_false]
          exact ⟨top, by simp, by simpa using htop⟩
        have hconcat : front ++ top :: (zeros ++ [zero]) = (front ++ top :: zeros) ++ [zero] := by
          simp
        rw [List.concat_eq_append, hlength, diff?_add_right, hconcat, Number.isTrue_concat, hsome]
        simp [hne]

theorem minimize?_eq (bs : Bytes) : minimize? bs = some (Number.minimize bs) := by
  rcases List.eq_nil_or_concat bs with rfl | ⟨low, last, rfl⟩
  · rfl
  rw [List.concat_eq_append]
  unfold minimize? Number.minimize
  simp only [List.getLast?_concat, List.dropLast_concat, List.reverse_append,
    List.reverse_cons, List.reverse_nil, List.nil_append, List.singleton_append]
  by_cases hlast : last &&& 0x7f ≠ 0
  · rw [if_pos hlast, if_pos hlast]
  rw [if_neg hlast, if_neg hlast]
  cases h : Row.lastPosition? (· != 0) low with
  | none =>
      have hnil : low.reverse.dropWhile (· = 0) = [] := by
        simpa [List.dropWhile_eq_nil_iff] using Row.lastPosition?_eq_none h
      rw [hnil]
  | some i =>
      obtain ⟨front, top, back, rfl, rfl, htop, hback⟩ := Row.lastPosition?_eq_some h
      have hslice : Row.slice? (front ++ top :: back) 0 (front.length + 1)
          = some (front ++ [top]) := by
        have := slice?_front (front ++ [top]) back
        simpa using this
      rw [Number.dropWhile_zeros (by simpa using htop) (by simpa using hback)]
      simp only [hslice, Option.bind_eq_bind, Option.bind_some, List.getElem?_concat_length]
      by_cases hsign : top &&& 0x80 = 0
      · have hlow := (top_bit_iff top).1 hsign
        simp [hsign, hlow, Row.replace?]
      · have hhigh : 0x80 ≤ top := Decidable.not_not.1 fun hn => hsign ((top_bit_iff top).2 hn)
        simp [hsign, hhigh]

end TxScript.Indexed
