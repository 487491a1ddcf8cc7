import Mathlib.Data.List.DropRight
import Mathlib.Data.List.TakeWhile
import TxScript.Curve.Signature
import TxScript.Proofs.Curve.Ecdsa
import TxScript.Proofs.Results

/-!
# Reading a written signature

Reading is generous in what it passes over: zeros in front of the digits of an integer, bytes behind
the second one, and bytes behind the sequence. What is accepted is exactly what some such form of a
signature writes. The strict form is the one with no zeros but what a taken top bit asks for.
-/

namespace TxScript

namespace BigEndian

theorem decode_zero_cons (bs : Bytes) : decode (0 :: bs) = decode bs := by
  unfold decode
  rw [List.reverse_cons, LittleEndian.decode_append]
  simp [LittleEndian.decode]

theorem decode_dropWhile_zero (bs : Bytes) : decode (bs.dropWhile (· = 0)) = decode bs := by
  induction bs with
  | nil => rfl
  | cons b bs ih =>
      by_cases hb : b = 0
      · rw [List.dropWhile_cons_of_pos (by simpa using hb), ih, hb, decode_zero_cons]
      · rw [List.dropWhile_cons_of_neg (by simpa using hb)]

end BigEndian

/-- Zeros in front are dropped together with those that follow. -/
theorem dropWhile_zeros_append (zeros : Nat) (bs : Bytes) :
    (List.replicate zeros 0 ++ bs).dropWhile (· = 0) = bs.dropWhile (· = 0) :=
  List.dropWhile_append_of_pos fun b hb => by simpa using List.eq_of_mem_replicate hb

/-- What is dropped are zeros. -/
theorem exists_zeros_append (bs : Bytes) :
    ∃ zeros, bs = List.replicate zeros 0 ++ bs.dropWhile (· = 0) := by
  have hzeros : bs.takeWhile (· = 0) = List.replicate (bs.takeWhile (· = 0)).length 0 :=
    List.eq_replicate_iff.2 ⟨rfl, fun b hb => by simpa using List.mem_takeWhile_imp hb⟩
  exact ⟨_, by rw [← hzeros, List.takeWhile_append_dropWhile]⟩

namespace BigEndian

/-- A row of digits is a shorter one of the same number with zeros in front. -/
theorem eq_zeros_append {as bs : Bytes} (hle : as.length ≤ bs.length)
    (h : decode as = decode bs) : bs = List.replicate (bs.length - as.length) 0 ++ as := by
  let padded := List.replicate (bs.length - as.length) 0 ++ as
  have hlength : padded.length = bs.length := by
    simp only [padded, List.length_append, List.length_replicate]
    omega
  show bs = padded
  rw [← encode_decode bs, ← encode_decode padded, hlength, decode_zeros_append, h]

/-- Rows of digits of one number differ only in the zeros in front. -/
theorem dropWhile_eq_dropWhile {as bs : Bytes} (h : decode as = decode bs) :
    as.dropWhile (· = 0) = bs.dropWhile (· = 0) := by
  rcases Nat.le_total as.length bs.length with hle | hle
  · rw [eq_zeros_append hle h, dropWhile_zeros_append]
  · rw [eq_zeros_append hle h.symm, dropWhile_zeros_append]

end BigEndian

namespace Curve

theorem Scalar.decode_toBytes (a : Scalar) : BigEndian.decode a.toBytes = a.val := by
  have hwidth : groupOrder < LittleEndian.limit 32 := by decide
  exact BigEndian.decode_encode (by have := a.isLt; omega)

namespace Signature

variable {part : Part} {a : Scalar} {zeros : Nat} {data rest bs : Bytes} {sig : Signature}

/-! ## Digits -/

/-- The bytes of a scalar from the first that is not zero. -/
def digits (a : Scalar) : Bytes :=
  a.toBytes.dropWhile (· = 0)

theorem decode_digits (a : Scalar) : BigEndian.decode (digits a) = a.val := by
  unfold digits
  rw [BigEndian.decode_dropWhile_zero, Scalar.decode_toBytes]

theorem length_digits_le (a : Scalar) : (digits a).length ≤ 32 := by
  have hle : (digits a).length ≤ a.toBytes.length := List.length_dropWhile_le _ _
  rwa [Scalar.toBytes, BigEndian.length_encode] at hle

theorem digits_ne_nil (h : a ≠ 0) : digits a ≠ [] := by
  intro hnil
  have hval := decode_digits a
  rw [hnil] at hval
  exact h (Fin.ext hval.symm)

theorem dropWhile_digits (a : Scalar) : (digits a).dropWhile (· = 0) = digits a :=
  List.dropWhile_idempotent _ _

/-- There is but one row of digits without zeros in front. -/
theorem dropWhile_eq_digits (h : BigEndian.decode bs = a.val) :
    bs.dropWhile (· = 0) = digits a :=
  BigEndian.dropWhile_eq_dropWhile (h.trans a.decode_toBytes.symm)

/-! ## Integers -/

/-- A scalar as an integer with so many zeros in front of its digits. -/
def paddedInteger (zeros : Nat) (a : Scalar) : Bytes :=
  0x02 :: UInt8.ofNat (zeros + (digits a).length) :: (List.replicate zeros 0 ++ digits a)

theorem length_paddedInteger :
    (paddedInteger zeros a).length = zeros + (digits a).length + 2 := by
  simp [paddedInteger]

theorem readInteger_paddedInteger (ha : a ≠ 0) (hfits : zeros + (digits a).length ≤ 255) :
    readInteger part (paddedInteger zeros a ++ rest) = .ok (a.val, rest) := by
  have hpos := List.length_pos_of_ne_nil (digits_ne_nil ha)
  have hlength : (UInt8.ofNat (zeros + (digits a).length)).toNat
      = (List.replicate zeros 0 ++ digits a).length := by
    rw [UInt8.toNat_ofNat', Nat.mod_eq_of_lt (by omega), List.length_append, List.length_replicate]
  have hne : UInt8.ofNat (zeros + (digits a).length) ≠ 0 := by
    intro hz
    rw [hz, List.length_append] at hlength
    simp at hlength
    omega
  have hfits : ¬ ((List.replicate zeros 0 ++ digits a) ++ rest).length
      < (List.replicate zeros 0 ++ digits a).length := by
    rw [List.length_append]
    omega
  have hnarrow : ¬ 32 < (digits a).length := Nat.not_lt.2 (length_digits_le a)
  simp only [paddedInteger, List.cons_append, readInteger, ne_eq, not_true_eq_false, if_false,
    if_neg hne, hlength, if_neg hfits, List.take_left, List.drop_left, dropWhile_zeros_append,
    dropWhile_digits, if_neg hnarrow, decode_digits]

/-- An integer is read exactly where it stands, with some zeros in front of its digits. -/
theorem readInteger_eq_ok (ha : a ≠ 0) :
    readInteger part data = .ok (a.val, rest) ↔
      ∃ zeros, zeros + (digits a).length ≤ 255 ∧ data = paddedInteger zeros a ++ rest := by
  constructor
  · intro h
    unfold readInteger at h
    split at h
    · rename_i marker length behind
      split_ifs at h with hmarker hlength hover
      dsimp only at h
      split_ifs at h with hwide
      obtain ⟨hval, rfl⟩ := Prod.mk.inj (Except.ok.inj h)
      obtain ⟨zeros, hzeros⟩ := exists_zeros_append (behind.take length.toNat)
      have hdigits : (behind.take length.toNat).dropWhile (· = 0) = digits a := by
        rw [← dropWhile_eq_digits hval, List.dropWhile_idempotent]
      rw [hdigits] at hzeros
      have hcount : zeros + (digits a).length = length.toNat := by
        have := congrArg List.length hzeros
        simp only [List.length_take, List.length_append, List.length_replicate] at this
        omega
      have hsmall := length.toNat_lt
      refine ⟨zeros, by omega, ?_⟩
      rw [paddedInteger, hcount, UInt8.ofNat_toNat, ← hzeros, Decidable.not_not.1 hmarker]
      simp
    · cases h
  · intro h
    obtain ⟨zeros, hfits, rfl⟩ := h
    exact readInteger_paddedInteger ha hfits

theorem ofNats_parts (sig : Signature) : ofNats sig.r.val sig.s.val = .ok sig := by
  unfold ofNats
  rw [dif_pos sig.r.isLt, dif_pos sig.s.isLt, dif_pos sig.r_ne_zero, dif_pos sig.s_ne_zero]

theorem ofNats_eq_ok {r s : Nat} : ofNats r s = .ok sig ↔ r = sig.r.val ∧ s = sig.s.val := by
  constructor
  · intro h
    unfold ofNats at h
    split_ifs at h
    cases h
    exact ⟨rfl, rfl⟩
  · intro h
    obtain ⟨rfl, rfl⟩ := h
    exact ofNats_parts sig

/-! ## Forms -/

/-- What reading passes over in a written signature. -/
structure DerForm where
  /-- Zeros in front of the first integer. -/
  zerosR : Nat
  /-- Zeros in front of the second integer. -/
  zerosS : Nat
  /-- What stands behind the second integer in the sequence. -/
  inside : Bytes
  /-- What stands behind the sequence. -/
  behind : Bytes

namespace DerForm

variable {form : DerForm}

def body (form : DerForm) (sig : Signature) : Bytes :=
  paddedInteger form.zerosR sig.r ++ (paddedInteger form.zerosS sig.s ++ form.inside)

/-- The signature in this form. -/
def write (form : DerForm) (sig : Signature) : Bytes :=
  0x30 :: UInt8.ofNat (form.body sig).length :: (form.body sig ++ form.behind)

/-- The length of the sequence is one byte. -/
def Fits (form : DerForm) (sig : Signature) : Prop :=
  (form.body sig).length ≤ 255

theorem length_body : (form.body sig).length = form.zerosR + (digits sig.r).length
    + (form.zerosS + (digits sig.s).length) + form.inside.length + 4 := by
  unfold body
  rw [List.length_append, List.length_append, length_paddedInteger, length_paddedInteger]
  omega

/-- Neither integer is empty. -/
theorem six_le_length_body : 6 ≤ (form.body sig).length := by
  have hr := List.length_pos_of_ne_nil (digits_ne_nil sig.r_ne_zero)
  have hs := List.length_pos_of_ne_nil (digits_ne_nil sig.s_ne_zero)
  rw [length_body]
  omega

end DerForm

/-- What is read as a signature is exactly what some form of it writes. -/
theorem ofDer_eq_ok :
    ofDer bs = .ok sig ↔ ∃ form : DerForm, form.Fits sig ∧ bs = form.write sig := by
  constructor
  · intro h
    unfold ofDer at h
    split_ifs at h with hshort
    split at h
    · rename_i marker length behind
      split_ifs at h with hmarker hover
      obtain ⟨⟨r, afterR⟩, hr, h⟩ := bind_eq_ok.1 h
      obtain ⟨⟨s, inside⟩, hs, h⟩ := bind_eq_ok.1 h
      obtain ⟨rfl, rfl⟩ := ofNats_eq_ok.1 h
      obtain ⟨zerosR, -, hbody⟩ := (readInteger_eq_ok sig.r_ne_zero).1 hr
      obtain ⟨zerosS, -, rfl⟩ := (readInteger_eq_ok sig.s_ne_zero).1 hs
      let form : DerForm := ⟨zerosR, zerosS, inside, behind.drop length.toNat⟩
      have hbody : behind.take length.toNat = form.body sig := hbody
      have hlength : (form.body sig).length = length.toNat := by
        rw [← hbody, List.length_take]
        omega
      have hsmall := length.toNat_lt
      refine ⟨form, by unfold DerForm.Fits; omega, ?_⟩
      rw [DerForm.write, hlength, UInt8.ofNat_toNat, ← hbody, Decidable.not_not.1 hmarker]
      simp [form]
    · cases h
  · intro h
    obtain ⟨form, hfits, rfl⟩ := h
    unfold DerForm.Fits at hfits
    have hlong := @DerForm.six_le_length_body sig form
    have hbody := @DerForm.length_body sig form
    have hlength : (UInt8.ofNat (form.body sig).length).toNat = (form.body sig).length := by
      rw [UInt8.toNat_ofNat', Nat.mod_eq_of_lt (by omega)]
    have henough : ¬ (form.write sig).length < 8 := by
      simp only [DerForm.write, List.length_cons, List.length_append]
      omega
    have hwithin : ¬ (form.body sig ++ form.behind).length < (form.body sig).length := by
      rw [List.length_append]
      omega
    unfold ofDer
    rw [if_neg henough]
    simp only [DerForm.write, ne_eq, not_true_eq_false, if_false, hlength, if_neg hwithin,
      List.take_left]
    exact bind_eq_ok.2 ⟨_, readInteger_paddedInteger sig.r_ne_zero (by omega), bind_eq_ok.2
      ⟨_, readInteger_paddedInteger sig.s_ne_zero (by omega), ofNats_parts sig⟩⟩

/-! ## The strict form -/

/-- The digits as they are written, with a zero where the top bit is taken. -/
def integerBody (a : Scalar) : Bytes :=
  if 0x80 ≤ (digits a).headD 0 then 0x00 :: digits a else digits a

/-- How many zeros that makes. -/
def signZeros (a : Scalar) : Nat :=
  if 0x80 ≤ (digits a).headD 0 then 1 else 0

theorem integerBody_eq (a : Scalar) :
    integerBody a = List.replicate (signZeros a) 0 ++ digits a := by
  unfold integerBody signZeros
  split <;> rfl

theorem signZeros_le (a : Scalar) : signZeros a ≤ 1 := by
  unfold signZeros
  split <;> omega

theorem derInteger_eq (a : Scalar) : derInteger a = paddedInteger (signZeros a) a := by
  have hlength : (integerBody a).length = signZeros a + (digits a).length := by
    rw [integerBody_eq, List.length_append, List.length_replicate]
  show 0x02 :: UInt8.ofNat (integerBody a).length :: integerBody a = _
  rw [hlength, integerBody_eq]
  rfl

/-- The form that is written: nothing that could be left out. -/
def strictForm (sig : Signature) : DerForm :=
  ⟨signZeros sig.r, signZeros sig.s, [], []⟩

theorem toDer_eq (sig : Signature) :
    sig.toDer = (strictForm sig.normalized).write sig.normalized := by
  simp only [toDer, derInteger_eq, DerForm.write, DerForm.body, strictForm, List.append_nil]

theorem length_strictForm_le (sig : Signature) : ((strictForm sig).body sig).length ≤ 70 := by
  have hr := length_digits_le sig.r
  have hs := length_digits_le sig.s
  have hzeroR := signZeros_le sig.r
  have hzeroS := signZeros_le sig.s
  rw [DerForm.length_body]
  simp only [strictForm, List.length_nil]
  omega

theorem strictForm_fits (sig : Signature) : (strictForm sig).Fits sig :=
  Nat.le_trans (length_strictForm_le sig) (by decide)

theorem length_toDer_le (sig : Signature) : sig.toDer.length ≤ 72 := by
  have hbody := length_strictForm_le sig.normalized
  rw [toDer_eq, DerForm.write, List.length_cons, List.length_cons, List.length_append]
  simp only [strictForm, List.length_nil] at hbody ⊢
  omega

/-- What is read back is the signature in normal form. -/
theorem ofDer_toDer (sig : Signature) : ofDer sig.toDer = .ok sig.normalized :=
  ofDer_eq_ok.2 ⟨_, strictForm_fits sig.normalized, toDer_eq sig⟩

end Signature

end Curve

end TxScript
