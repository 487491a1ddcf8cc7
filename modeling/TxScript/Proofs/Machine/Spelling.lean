import Mathlib.Data.FinEnum
import Mathlib.Data.List.Induction
import TxScript.Machine.Number

/-!
# Spellings of a number

A number can be spelled with zeros to spare in front of its sign, and zero with a sign of either
kind. Reading takes any spelling, writing chooses the shortest one, and `minimize` goes from the one
to the other without the number. `encode_value` says that this is no shortcut: what is left of a
spelling is what is written for its number.
-/

namespace TxScript.Number

variable {bs low : Bytes} {last top sign : UInt8} {negative : Bool} {n : Int} {width : Nat}

/-! ## The number that bytes spell -/

/-- The number that the bytes spell, whatever their length. -/
def value (bs : Bytes) : Int :=
  if isNegative bs then -(magnitude bs : Int) else magnitude bs

/-- Some spelling of a number, the shortest or not, that is short enough for an operand. -/
def Spells (bs : Bytes) (n : Int) : Prop :=
  bs.length ≤ operandWidth ∧ value bs = n

instance (bs : Bytes) (n : Int) : Decidable (Spells bs n) :=
  inferInstanceAs (Decidable (_ ∧ _))

theorem Spells.unique {bs : Bytes} {m n : Int} (hm : Spells bs m) (hn : Spells bs n) : m = n :=
  hm.2.symm.trans hn.2

@[simp] theorem isNegative_concat (low : Bytes) (last : UInt8) :
    isNegative (low ++ [last]) = decide (0x80 ≤ last) := by
  simp [isNegative]

theorem magnitude_concat (low : Bytes) (last : UInt8) :
    magnitude (low ++ [last])
      = LittleEndian.decode low + LittleEndian.limit low.length * (last.toNat &&& 0x7f) := by
  induction low with
  | nil => simp [magnitude, LittleEndian.decode, LittleEndian.limit]
  | cons b rest ih =>
      have hcons : magnitude (b :: (rest ++ [last]))
          = b.toNat + 256 * magnitude (rest ++ [last]) := by
        cases rest <;> rfl
      rw [List.cons_append, hcons, ih, LittleEndian.decode, List.length_cons, LittleEndian.limit,
        Nat.mul_add, Nat.mul_assoc, Nat.add_assoc]

/-- A last byte that holds a sign only. -/
theorem magnitude_of_sign (hsign : sign &&& 0x7f = 0) :
    magnitude (low ++ [sign]) = LittleEndian.decode low := by
  have hzero : sign.toNat &&& 0x7f = 0 := congrArg UInt8.toNat hsign
  rw [magnitude_concat, hzero, Nat.mul_zero, Nat.add_zero]

/-- A last byte that holds digits too. -/
theorem magnitude_eq_decode (low : Bytes) (last : UInt8) :
    magnitude (low ++ [last]) = LittleEndian.decode (low ++ [last &&& 0x7f]) := by
  rw [magnitude_concat, LittleEndian.decode_concat, UInt8.toNat_and]
  rfl

/-- The sign takes half of what the bytes could hold. -/
theorem magnitude_lt (h : bs.length ≤ width) : 2 * magnitude bs < LittleEndian.limit width := by
  refine Nat.lt_of_lt_of_le ?_ (LittleEndian.limit_le_limit h)
  rcases List.eq_nil_or_concat bs with rfl | ⟨low, last, rfl⟩
  · decide
  · have hlow := LittleEndian.decode_lt low
    have htop : last.toNat &&& 0x7f ≤ 0x7f := Nat.and_le_right
    have hplace : LittleEndian.limit low.length * (last.toNat &&& 0x7f)
        ≤ LittleEndian.limit low.length * 0x7f := Nat.mul_le_mul_left _ htop
    rw [List.concat_eq_append, magnitude_concat, List.length_append, List.length_singleton,
      LittleEndian.limit]
    omega

theorem natAbs_value (bs : Bytes) : (value bs).natAbs = magnitude bs := by
  unfold value
  split <;> omega

/-! ## Reading -/

/-- Eight bytes never spell more than the greatest number of a register. -/
theorem magnitude_le_of_registerWidth (h : bs.length ≤ registerWidth) :
    magnitude bs ≤ 0x7fffffffffffffff := by
  have hlimit : LittleEndian.limit registerWidth = 0x10000000000000000 := rfl
  have hlt := magnitude_lt h
  omega

theorem decode?_eq_value (hwidth : bs.length ≤ width) (hregister : bs.length ≤ registerWidth) :
    decode? width bs = some (value bs) := by
  have hle := magnitude_le_of_registerWidth hregister
  have hheld : min (magnitude bs : Int) 0x7fffffffffffffff = magnitude bs := by omega
  rw [decode?, if_neg (by omega), hheld]
  rfl

theorem decode?_eq_some_iff :
    decode? width bs = some n ↔ bs.length ≤ width ∧ bs.length ≤ registerWidth ∧ value bs = n := by
  by_cases hfits : width < bs.length ∨ registerWidth < bs.length
  · rw [decode?, if_pos hfits]
    simp only [reduceCtorEq, false_iff]
    omega
  · obtain ⟨hwidth, hregister⟩ := not_or.1 hfits
    rw [decode?_eq_value (Nat.not_lt.1 hwidth) (Nat.not_lt.1 hregister), Option.some_inj]
    simp [Nat.not_lt.1 hwidth, Nat.not_lt.1 hregister]

/-- Operands of every kind are narrower than a register. -/
theorem decode?_eq_some_iff_of_le (h : width ≤ registerWidth) :
    decode? width bs = some n ↔ bs.length ≤ width ∧ value bs = n := by
  rw [decode?_eq_some_iff]
  constructor
  · rintro ⟨hwidth, -, hvalue⟩
    exact ⟨hwidth, hvalue⟩
  · rintro ⟨hwidth, hvalue⟩
    exact ⟨hwidth, Nat.le_trans hwidth h, hvalue⟩

/-- The range of an operand is never short for so few bytes. -/
theorem clamp32_of_spells (h : Spells bs n) : clamp32 n = n := by
  have hlimit : LittleEndian.limit operandWidth = 0x100000000 := by decide
  have hlt := magnitude_lt h.1
  have hvalue := natAbs_value bs
  rw [h.2] at hvalue
  unfold clamp32
  omega

theorem decode?_operandWidth : decode? operandWidth bs = some n ↔ Spells bs n :=
  decode?_eq_some_iff_of_le (by decide)

theorem operand?_eq_some_iff : operand? bs = some n ↔ Spells bs n := by
  constructor
  · intro h
    obtain ⟨m, hread, rfl⟩ := Option.map_eq_some_iff.1 h
    have hspells := decode?_operandWidth.1 hread
    rwa [clamp32_of_spells hspells]
  · intro h
    rw [operand?, decode?_operandWidth.2 h, Option.map_some, clamp32_of_spells h]

/-! ## Digits -/

theorem digits_add {b : UInt8} {m : Nat} (h : b.toNat + 256 * m ≠ 0) :
    digits (b.toNat + 256 * m) = b :: digits m := by
  have hb := b.toNat_lt
  have hlow : UInt8.ofNat (b.toNat + 256 * m) = b := by
    apply UInt8.toNat_inj.1
    rw [UInt8.toNat_ofNat']
    omega
  have hhigh : (b.toNat + 256 * m) / 256 = m := by omega
  rw [digits, if_neg h, hlow, hhigh]

theorem decode_ne_zero (low : Bytes) (htop : top ≠ 0) :
    LittleEndian.decode (low ++ [top]) ≠ 0 := by
  have hpos : 0 < LittleEndian.limit low.length :=
    Nat.lt_of_le_of_lt (Nat.zero_le _) (LittleEndian.decode_lt low)
  have hmul : LittleEndian.limit low.length * top.toNat ≠ 0 :=
    Nat.mul_ne_zero (Nat.pos_iff_ne_zero.1 hpos) fun h => htop (UInt8.toNat_inj.1 h)
  rw [LittleEndian.decode_concat]
  omega

/-- Bytes that end in no zero are the digits of the number that they give. -/
theorem digits_decode (low : Bytes) (htop : top ≠ 0) :
    digits (LittleEndian.decode (low ++ [top])) = low ++ [top] := by
  have hne := decode_ne_zero low htop
  induction low with
  | nil =>
      rw [List.nil_append, LittleEndian.decode, LittleEndian.decode] at hne ⊢
      rw [digits_add hne, digits, if_pos rfl]
  | cons b rest ih =>
      rw [List.cons_append, LittleEndian.decode] at hne ⊢
      rw [digits_add hne, ih (decode_ne_zero rest htop)]

theorem decode_digits (n : Nat) : LittleEndian.decode (digits n) = n := by
  fun_induction digits n with
  | case1 => rfl
  | case2 n _ ih =>
      rw [LittleEndian.decode, ih, UInt8.toNat_ofNat']
      omega

/-- A number that is not zero has a last digit that is not zero. -/
theorem exists_digits {n : Nat} (h : n ≠ 0) : ∃ low top, digits n = low ++ [top] ∧ top ≠ 0 := by
  fun_induction digits n with
  | case1 => exact absurd rfl h
  | case2 n _ ih =>
      by_cases hmore : n / 256 = 0
      · refine ⟨[], UInt8.ofNat n, by rw [hmore, digits, if_pos rfl]; rfl, fun hzero => h ?_⟩
        have hlow := congrArg UInt8.toNat hzero
        rw [UInt8.toNat_ofNat'] at hlow
        simp at hlow
        omega
      · obtain ⟨low, top, hdigits, htop⟩ := ih hmore
        exact ⟨UInt8.ofNat n :: low, top, by rw [hdigits]; rfl, htop⟩

/-! ## Writing -/

theorem withSign_concat (negative : Bool) (low : Bytes) (top : UInt8) :
    withSign negative (low ++ [top]) = low ++ withSign negative [top] := by
  induction low with
  | nil => rfl
  | cons b rest ih =>
      have hcons : withSign negative (b :: (rest ++ [top]))
          = b :: withSign negative (rest ++ [top]) := by
        cases rest <;> rfl
      rw [List.cons_append, hcons, ih]
      rfl

/-- The sign in a byte of its own. -/
theorem withSign_of_high (low : Bytes) (htop : 0x80 ≤ top) :
    withSign negative (low ++ [top]) = low ++ [top] ++ [if negative then 0x80 else 0x00] := by
  rw [withSign_concat, withSign, if_pos htop, List.append_assoc]
  rfl

/-- The sign together with the last digit. -/
theorem withSign_of_low (low : Bytes) (htop : ¬ 0x80 ≤ top) :
    withSign negative (low ++ [top]) = low ++ [if negative then top ||| 0x80 else top] := by
  rw [withSign_concat, withSign, if_neg htop]

theorem seven_bits_of_low (negative : Bool) (htop : ¬ 0x80 ≤ top) :
    (if negative then top ||| 0x80 else top) &&& 0x7f = top := by
  revert negative top
  decide +kernel

theorem sign_of_low (negative : Bool) (htop : ¬ 0x80 ≤ top) :
    decide (0x80 ≤ if negative then top ||| 0x80 else top) = negative := by
  revert negative top
  decide +kernel

theorem magnitude_withSign (negative : Bool) (low : Bytes) (top : UInt8) :
    magnitude (withSign negative (low ++ [top])) = LittleEndian.decode (low ++ [top]) := by
  by_cases htop : 0x80 ≤ top
  · rw [withSign_of_high low htop, magnitude_of_sign (by cases negative <;> rfl)]
  · rw [withSign_of_low low htop, magnitude_eq_decode, seven_bits_of_low negative htop]

theorem isNegative_withSign (negative : Bool) (low : Bytes) (top : UInt8) :
    isNegative (withSign negative (low ++ [top])) = negative := by
  by_cases htop : 0x80 ≤ top
  · rw [withSign_of_high low htop, isNegative_concat]
    cases negative <;> decide
  · rw [withSign_of_low low htop, isNegative_concat, sign_of_low negative htop]

/-- What is written is read back. -/
theorem value_encode (n : Int) : value (encode n) = n := by
  by_cases hzero : n.natAbs = 0
  · rw [Int.natAbs_eq_zero.1 hzero, encode_zero]
    rfl
  · obtain ⟨low, top, hdigits, -⟩ := exists_digits hzero
    have hnumber : LittleEndian.decode (low ++ [top]) = n.natAbs := by rw [← hdigits, decode_digits]
    rw [encode, hdigits, value, isNegative_withSign, magnitude_withSign, hnumber]
    by_cases hneg : n < 0
    · rw [if_pos (decide_eq_true hneg)]
      omega
    · rw [if_neg (by simpa using hneg)]
      omega

/-- Half of what the bytes could hold is left for the digits. -/
theorem length_encode_le_of_half (h : 2 * n.natAbs < LittleEndian.limit width) :
    (encode n).length ≤ width := by
  by_cases hzero : n.natAbs = 0
  · rw [Int.natAbs_eq_zero.1 hzero, encode_zero]
    exact Nat.zero_le _
  · obtain ⟨low, top, hdigits, htop⟩ := exists_digits hzero
    have hnumber : LittleEndian.decode low + LittleEndian.limit low.length * top.toNat
        = n.natAbs := by rw [← LittleEndian.decode_concat, ← hdigits, decode_digits]
    rw [encode, hdigits]
    by_cases hhigh : 0x80 ≤ top
    · have hplace : LittleEndian.limit low.length * 0x80
          ≤ LittleEndian.limit low.length * top.toNat := Nat.mul_le_mul_left _ hhigh
      have hlt : low.length + 1 < width := by
        refine LittleEndian.lt_of_limit_lt_limit ?_
        rw [LittleEndian.limit]
        omega
      rw [withSign_of_high low hhigh]
      simp only [List.length_append, List.length_singleton]
      omega
    · have hpos : 0 < top.toNat := Nat.pos_of_ne_zero fun h => htop (UInt8.toNat_inj.1 h)
      have hplace : LittleEndian.limit low.length * 1
          ≤ LittleEndian.limit low.length * top.toNat := Nat.mul_le_mul_left _ hpos
      have hlt : low.length < width := LittleEndian.lt_of_limit_lt_limit (by omega)
      rw [withSign_of_low low hhigh, List.length_append]
      exact hlt

/-- Beside its digits a number takes one byte at most, for the sign. -/
theorem length_encode_le (h : n.natAbs < LittleEndian.limit width) :
    (encode n).length ≤ width + 1 := by
  refine length_encode_le_of_half ?_
  rw [LittleEndian.limit]
  omega

/-- Digits with a sign are what is written for the number with that sign. -/
theorem encode_signed {m : Nat} (h : m ≠ 0) (negative : Bool) :
    encode (if negative then -(m : Int) else m) = withSign negative (digits m) := by
  cases negative with
  | true =>
      have hneg : -(m : Int) < 0 := by omega
      rw [if_pos rfl, encode, Int.natAbs_neg, Int.natAbs_natCast, decide_eq_true hneg]
  | false =>
      have hpos : ¬ (m : Int) < 0 := by omega
      rw [if_neg Bool.false_ne_true, encode, Int.natAbs_natCast, decide_eq_false hpos]

/-! ## Shortest spellings -/

/-- No byte of the spelling can be spared: the last one holds digits, or it keeps the sign out of a
digit that has no bit left for it. -/
inductive IsShortest : Bytes → Prop
  | zero : IsShortest []
  | joined (low : Bytes) {last : UInt8} (hlast : last &&& 0x7f ≠ 0) : IsShortest (low ++ [last])
  | apart (low : Bytes) {top sign : UInt8} (htop : 0x80 ≤ top) (hsign : sign &&& 0x7f = 0) :
      IsShortest (low ++ [top] ++ [sign])

theorem seven_bits_lt (b : UInt8) : ¬ 0x80 ≤ b &&& 0x7f := by
  revert b
  decide +kernel

theorem join_seven_bits (b : UInt8) :
    (if decide (0x80 ≤ b) = true then (b &&& 0x7f) ||| 0x80 else b &&& 0x7f) = b := by
  revert b
  decide +kernel

theorem sign_eq (hsign : sign &&& 0x7f = 0) :
    (if decide (0x80 ≤ sign) = true then (0x80 : UInt8) else 0x00) = sign := by
  revert sign
  decide +kernel

theorem ne_zero_of_high (htop : 0x80 ≤ top) : top ≠ 0 := by
  rintro rfl
  exact absurd htop (by decide)

/-- A shortest spelling is what is written for its number. -/
theorem IsShortest.encode_value (h : IsShortest bs) : encode (value bs) = bs := by
  cases h with
  | zero => exact encode_zero
  | @joined low last hlast =>
      have hne := decode_ne_zero low hlast
      rw [value, magnitude_eq_decode, encode_signed hne, digits_decode low hlast,
        withSign_of_low low (seven_bits_lt last), isNegative_concat, join_seven_bits]
  | @apart low top sign htop hsign =>
      have htop' := ne_zero_of_high htop
      rw [value, magnitude_of_sign hsign, encode_signed (decode_ne_zero low htop'),
        digits_decode low htop', withSign_of_high low htop, isNegative_concat, sign_eq hsign]

/-- What is left of a spelling when all is taken off that can be spared. -/
inductive Shortens : (spelled left : Bytes) → Prop
  | empty : Shortens [] []
  | kept (low : Bytes) {last : UInt8} (hlast : last &&& 0x7f ≠ 0) :
      Shortens (low ++ [last]) (low ++ [last])
  | zero (count : Nat) {sign : UInt8} (hsign : sign &&& 0x7f = 0) :
      Shortens (List.replicate count 0 ++ [sign]) []
  | apart (low : Bytes) (count : Nat) {top sign : UInt8} (htop : 0x80 ≤ top)
      (hsign : sign &&& 0x7f = 0) :
      Shortens (low ++ [top] ++ List.replicate count 0 ++ [sign]) (low ++ [top] ++ [sign])
  | joined (low : Bytes) (count : Nat) {top sign : UInt8} (htop : top ≠ 0) (hlow : ¬ 0x80 ≤ top)
      (hsign : sign &&& 0x7f = 0) :
      Shortens (low ++ [top] ++ List.replicate count 0 ++ [sign]) (low ++ [top ||| sign])

/-- Bytes are all zero, or there is a last one that is not. -/
theorem zeros_or_last (bs : Bytes) :
    (∃ count, bs = List.replicate count 0) ∨
      ∃ low top count, top ≠ 0 ∧ bs = low ++ [top] ++ List.replicate count 0 := by
  induction bs using List.reverseRecOn with
  | nil => exact .inl ⟨0, rfl⟩
  | append_singleton rest b ih =>
      by_cases hb : b = 0
      · subst hb
        rcases ih with ⟨count, rfl⟩ | ⟨low, top, count, htop, rfl⟩
        · exact .inl ⟨count + 1, List.replicate_succ'.symm⟩
        · refine .inr ⟨low, top, count + 1, htop, ?_⟩
          rw [List.replicate_succ', List.append_assoc _ _ [0]]
      · exact .inr ⟨rest, b, 0, hb, by simp⟩

/-- The zeros behind the last byte that is not zero. -/
theorem dropWhile_zeros {front back : Bytes} (htop : top ≠ 0) (hback : ∀ b ∈ back, b = 0) :
    (front ++ top :: back).reverse.dropWhile (· = 0) = top :: front.reverse := by
  rw [List.reverse_append, List.reverse_cons, List.append_assoc,
    List.dropWhile_append_of_pos (by simpa using hback)]
  exact List.dropWhile_cons_of_neg (by simpa using htop)

theorem minimize_of_digits (low : Bytes) (hlast : last &&& 0x7f ≠ 0) :
    minimize (low ++ [last]) = low ++ [last] := by
  unfold minimize
  rw [List.reverse_append, List.reverse_singleton, List.singleton_append]
  simp only [if_pos hlast]

theorem minimize_of_zeros (count : Nat) (hsign : sign &&& 0x7f = 0) :
    minimize (List.replicate count 0 ++ [sign]) = [] := by
  have hnil : (List.replicate count (0 : UInt8)).reverse.dropWhile (· = 0) = [] := by simp
  unfold minimize
  rw [List.reverse_append, List.reverse_singleton, List.singleton_append]
  simp only [if_neg (not_not.2 hsign), hnil]

theorem minimize_of_top (low : Bytes) (count : Nat) (htop : top ≠ 0) (hsign : sign &&& 0x7f = 0) :
    minimize (low ++ [top] ++ List.replicate count 0 ++ [sign])
      = if 0x80 ≤ top then low ++ [top] ++ [sign] else low ++ [top ||| sign] := by
  have hzeros : (low ++ [top] ++ List.replicate count 0).reverse.dropWhile (· = 0)
      = top :: low.reverse := by
    rw [List.append_assoc, List.singleton_append]
    exact dropWhile_zeros htop fun b hb => List.eq_of_mem_replicate hb
  unfold minimize
  rw [List.reverse_append, List.reverse_singleton, List.singleton_append]
  simp only [if_neg (not_not.2 hsign), hzeros, List.reverse_cons, List.reverse_reverse]

theorem shortens_minimize (bs : Bytes) : Shortens bs (minimize bs) := by
  rcases List.eq_nil_or_concat bs with rfl | ⟨low, last, rfl⟩
  · exact .empty
  rw [List.concat_eq_append]
  by_cases hlast : last &&& 0x7f = 0
  · rcases zeros_or_last low with ⟨count, rfl⟩ | ⟨low, top, count, htop, rfl⟩
    · rw [minimize_of_zeros count hlast]
      exact .zero count hlast
    · rw [minimize_of_top low count htop hlast]
      by_cases hhigh : 0x80 ≤ top
      · rw [if_pos hhigh]
        exact .apart low count hhigh hlast
      · rw [if_neg hhigh]
        exact .joined low count htop hhigh hlast
  · rw [minimize_of_digits low hlast]
    exact .kept low hlast

theorem sign_cases (hsign : sign &&& 0x7f = 0) : sign = 0x00 ∨ sign = 0x80 := by
  revert sign
  decide +kernel

/-- Digits keep the bit free for the sign that joins them. -/
theorem joined_bits (hlow : ¬ 0x80 ≤ top) (hsign : sign &&& 0x7f = 0) :
    (top ||| sign) &&& 0x7f = top ∧ (0x80 ≤ top ||| sign ↔ 0x80 ≤ sign) := by
  rcases sign_cases hsign with rfl | rfl <;> revert top <;> decide +kernel

namespace Shortens

variable {left : Bytes}

theorem isShortest (h : Shortens bs left) : IsShortest left := by
  cases h with
  | empty => exact .zero
  | kept low hlast => exact .joined low hlast
  | zero => exact .zero
  | apart low _ htop hsign => exact .apart low htop hsign
  | joined low _ htop hlow hsign => exact .joined low (by rwa [(joined_bits hlow hsign).1])

theorem length_le (h : Shortens bs left) : left.length ≤ bs.length := by
  cases h <;> simp

theorem value_eq (h : Shortens bs left) : value left = value bs := by
  cases h with
  | empty => rfl
  | kept => rfl
  | zero count hsign =>
      rw [value, value, magnitude_of_sign hsign, LittleEndian.decode_zeros]
      simp [magnitude]
  | apart low count htop hsign =>
      rw [value, value, magnitude_of_sign hsign, magnitude_of_sign hsign,
        LittleEndian.decode_append_zeros, isNegative_concat, isNegative_concat]
  | joined low count htop hlow hsign =>
      obtain ⟨hdigits, hnegative⟩ := joined_bits hlow hsign
      rw [value, value, magnitude_eq_decode, hdigits, magnitude_of_sign hsign,
        LittleEndian.decode_append_zeros, isNegative_concat, isNegative_concat,
        decide_eq_decide.2 hnegative]

end Shortens

theorem value_minimize (bs : Bytes) : value (minimize bs) = value bs :=
  (shortens_minimize bs).value_eq

/-- What is left of a spelling is what is written for its number. -/
theorem encode_value (bs : Bytes) : encode (value bs) = minimize bs := by
  rw [← value_minimize, (shortens_minimize bs).isShortest.encode_value]

theorem minimize_eq_minimize_iff {cs : Bytes} :
    minimize bs = minimize cs ↔ value bs = value cs := by
  constructor
  · intro h
    rw [← value_minimize bs, h, value_minimize]
  · intro h
    rw [← encode_value, h, encode_value]

/-- No spelling of the same number is shorter. -/
theorem length_encode_le_of_value (h : value bs = n) : (encode n).length ≤ bs.length := by
  rw [← h, encode_value]
  exact (shortens_minimize bs).length_le

/-! ## Truth -/

theorem isTrue_concat (low : Bytes) (last : UInt8) :
    isTrue (low ++ [last]) = (last &&& 0x7f != 0 || !low.all (· == 0)) := by
  have hany : low.reverse.any (· != 0) = !low.all (· == 0) := by
    rw [List.any_reverse, List.not_all_eq_any_not]
    rfl
  simp only [isTrue, List.reverse_append, List.reverse_cons, List.reverse_nil, List.nil_append,
    List.singleton_append, hany]

theorem isTrue_of_zeros (count : Nat) (hsign : sign &&& 0x7f = 0) :
    isTrue (List.replicate count 0 ++ [sign]) = false := by
  simp [isTrue_concat, hsign]

/-- A digit that is not zero makes an element true, wherever it stands. -/
theorem isTrue_of_digit (low back : Bytes) (htop : top ≠ 0) (last : UInt8) :
    isTrue (low ++ [top] ++ back ++ [last]) = true := by
  rw [isTrue_concat]
  simp [htop]

theorem Shortens.isTrue_iff {left : Bytes} (h : Shortens bs left) :
    isTrue bs = true ↔ left ≠ [] := by
  cases h with
  | empty => simp [isTrue]
  | kept low hlast => simp [isTrue_concat, hlast]
  | zero count hsign => simp [isTrue_of_zeros count hsign]
  | apart low count htop hsign =>
      exact iff_of_true (isTrue_of_digit low _ (ne_zero_of_high htop) _) (by simp)
  | joined low count htop hlow hsign =>
      exact iff_of_true (isTrue_of_digit low _ htop _) (by simp)

theorem isTrue_iff_minimize : isTrue bs = true ↔ minimize bs ≠ [] :=
  (shortens_minimize bs).isTrue_iff

theorem encode_eq_nil_iff : encode n = [] ↔ n = 0 := by
  constructor
  · intro h
    rw [← value_encode n, h]
    rfl
  · rintro rfl
    exact encode_zero

theorem isTrue_iff_value : isTrue bs = true ↔ value bs ≠ 0 := by
  rw [isTrue_iff_minimize, ← encode_value, Ne, encode_eq_nil_iff]

/-- Spellings are reduced to one for each number, and no spelling of the number is shorter. The
truth of an element is that of its number, and of what it is reduced to. -/
theorem minimize_and_isTrue (bs cs : Bytes) :
    value (minimize bs) = value bs ∧
      (value cs = value bs → (minimize bs).length ≤ cs.length) ∧
      (minimize bs = minimize cs ↔ value bs = value cs) ∧
      minimize (minimize bs) = minimize bs ∧
      (isTrue bs = true ↔ value bs ≠ 0) ∧
      (isTrue bs = true ↔ minimize bs ≠ []) := by
  refine ⟨value_minimize bs, fun h => ?_, minimize_eq_minimize_iff, ?_, isTrue_iff_value,
    isTrue_iff_minimize⟩
  · rw [← encode_value]
    exact length_encode_le_of_value h
  · rw [minimize_eq_minimize_iff, value_minimize]

/-- A number whose last digit has no bit left for the sign, with one zero to spare and with two. -/
theorem minimize_and_isTrue_padded :
    let bs : Bytes := [0xff, 0x00, 0x80]
    let cs : Bytes := [0xff, 0x00, 0x00, 0x80]
    value cs = value bs ∧ (minimize bs).length ≤ cs.length ∧ minimize bs = minimize cs := by
  intro bs cs
  have hvalue : value cs = value bs := by decide
  obtain ⟨-, hlength, hsame, -⟩ := minimize_and_isTrue bs cs
  exact ⟨hvalue, hlength hvalue, hsame.2 hvalue.symm⟩

end TxScript.Number
