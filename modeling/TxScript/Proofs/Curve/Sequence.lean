import TxScript.Proofs.Curve.Der
import TxScript.Proofs.Indexed.Der

/-!
# Sequences of two integers

What a written signature is, said without reading it: a sequence of a declared length that begins
with two integers, each behind a length of its own. Reading accepts exactly these, with both numbers
in the range of a signature, wherever the lengths come from and whatever else the bytes hold.
-/

namespace TxScript.Curve.Signature

variable {data rest bs : Bytes} {a : Scalar} {sig : Signature} {r s : Nat}

/-! ## The sequence -/

/-- An integer at the front of the data: a marker, a length that is not zero, and so many bytes of
the number, the most significant first. -/
inductive IntegerAt : (data : Bytes) → (n : Nat) → (rest : Bytes) → Prop
  | intro {length : UInt8} {value : Bytes} (rest : Bytes) (hne : length ≠ 0)
      (hlength : value.length = length.toNat) :
      IntegerAt (0x02 :: length :: (value ++ rest)) (BigEndian.decode value) rest

/-- A sequence of exactly the declared length that begins with two integers. More may stand behind
the second one, and behind the sequence. -/
inductive SequenceOf : (bs : Bytes) → (r s : Nat) → Prop
  | intro {length : UInt8} {body afterR inside : Bytes} {r s : Nat} (behind : Bytes)
      (hlength : body.length = length.toNat) (hr : IntegerAt body r afterR)
      (hs : IntegerAt afterR s inside) : SequenceOf (0x30 :: length :: (body ++ behind)) r s

/-- The bytes of a scalar are its digits with some zeros in front. -/
theorem exists_zeros_digits {value : Bytes} (h : BigEndian.decode value = a.val) :
    ∃ zeros, value = List.replicate zeros 0 ++ digits a := by
  obtain ⟨zeros, hzeros⟩ := exists_zeros_append value
  exact ⟨zeros, by rwa [dropWhile_eq_digits h] at hzeros⟩

theorem integerAt_iff (ha : a ≠ 0) :
    IntegerAt data a.val rest ↔
      ∃ zeros, zeros + (digits a).length ≤ 255 ∧ data = paddedInteger zeros a ++ rest := by
  constructor
  · intro h
    generalize hn : a.val = n at h
    obtain @⟨length, value, _, hne, hlength⟩ := h
    obtain ⟨zeros, rfl⟩ := exists_zeros_digits hn.symm
    have hsmall := length.toNat_lt
    rw [List.length_append, List.length_replicate] at hlength
    refine ⟨zeros, by omega, ?_⟩
    rw [paddedInteger, hlength, UInt8.ofNat_toNat]
    rfl
  · rintro ⟨zeros, hfits, rfl⟩
    have hpos := List.length_pos_of_ne_nil (digits_ne_nil ha)
    have hlength : (UInt8.ofNat (zeros + (digits a).length)).toNat = zeros + (digits a).length := by
      rw [UInt8.toNat_ofNat', Nat.mod_eq_of_lt (by omega)]
    have hvalue : BigEndian.decode (List.replicate zeros 0 ++ digits a) = a.val := by
      rw [BigEndian.decode_zeros_append, decode_digits]
    rw [← hvalue]
    refine .intro rest (fun hzero => ?_) ?_
    · rw [hzero] at hlength
      have hnone : 0 = zeros + (digits a).length := hlength
      omega
    · rw [hlength, List.length_append, List.length_replicate]

/-- Reading accepts exactly the sequences of both numbers. -/
theorem ofDer_eq_ok_iff_sequence : ofDer bs = .ok sig ↔ SequenceOf bs sig.r.val sig.s.val := by
  rw [ofDer_eq_ok]
  constructor
  · rintro ⟨form, hfits, rfl⟩
    unfold DerForm.Fits at hfits
    have hbody := @DerForm.length_body sig form
    have hlength : (form.body sig).length = (UInt8.ofNat (form.body sig).length).toNat := by
      rw [UInt8.toNat_ofNat', Nat.mod_eq_of_lt (by omega)]
    exact .intro form.behind hlength ((integerAt_iff sig.r_ne_zero).2 ⟨form.zerosR, by omega, rfl⟩)
      ((integerAt_iff sig.s_ne_zero).2 ⟨form.zerosS, by omega, rfl⟩)
  · intro h
    generalize hr : sig.r.val = r at h
    generalize hs : sig.s.val = s at h
    obtain @⟨length, body, afterR, inside, _, _, behind, hlength, hintegerR, hintegerS⟩ := h
    subst hr hs
    obtain ⟨zerosR, -, rfl⟩ := (integerAt_iff sig.r_ne_zero).1 hintegerR
    obtain ⟨zerosS, -, rfl⟩ := (integerAt_iff sig.s_ne_zero).1 hintegerS
    have hsmall := length.toNat_lt
    refine ⟨⟨zerosR, zerosS, inside, behind⟩, ?_, ?_⟩
    · show (paddedInteger zerosR sig.r ++ (paddedInteger zerosS sig.s ++ inside)).length ≤ 255
      omega
    · show _ = 0x30 :: UInt8.ofNat
        (paddedInteger zerosR sig.r ++ (paddedInteger zerosS sig.s ++ inside)).length :: _
      rw [hlength, UInt8.ofNat_toNat]
      rfl

/-- A signature is there exactly for two numbers of the range. -/
theorem exists_parts : (∃ sig : Signature, sig.r.val = r ∧ sig.s.val = s) ↔
    (1 ≤ r ∧ r < groupOrder) ∧ 1 ≤ s ∧ s < groupOrder := by
  constructor
  · rintro ⟨sig, rfl, rfl⟩
    have hr : sig.r.val ≠ 0 := fun h => sig.r_ne_zero (Fin.ext h)
    have hs : sig.s.val ≠ 0 := fun h => sig.s_ne_zero (Fin.ext h)
    exact ⟨⟨by omega, sig.r.isLt⟩, by omega, sig.s.isLt⟩
  · rintro ⟨⟨hr, hr'⟩, hs, hs'⟩
    have hne {n : Nat} (hn : 1 ≤ n) (hlt : n < groupOrder) : (⟨n, hlt⟩ : Scalar) ≠ 0 := fun h =>
      absurd (congrArg Fin.val h) (by show n ≠ 0; omega)
    exact ⟨⟨⟨r, hr'⟩, ⟨s, hs'⟩, hne hr hr', hne hs hs'⟩, rfl, rfl⟩

/-! ## What is written -/

theorem ofDer_toDer_append (sig : Signature) (behind : Bytes) :
    ofDer (sig.toDer ++ behind) = .ok sig.normalized := by
  refine ofDer_eq_ok.2 ⟨{ strictForm sig.normalized with behind := behind },
    strictForm_fits sig.normalized, ?_⟩
  rw [toDer_eq]
  simp [DerForm.write, DerForm.body, strictForm]

/-- The lesser of a second part and its negative is the one in the lower half. -/
theorem val_normalized_s (sig : Signature) :
    sig.normalized.s.val = min sig.s.val (groupOrder - sig.s.val) := by
  have hodd : groupOrder % 2 = 1 := by decide
  have hlt := sig.s.isLt
  unfold normalized isLowS
  by_cases hlow : sig.s.val ≤ groupOrder / 2
  · rw [if_pos (decide_eq_true hlow)]
    omega
  · rw [if_neg (by simpa using hlow)]
    show (0 - sig.s).val = _
    rw [val_zero_sub sig.s_ne_zero]
    omega

/-- A signature is read exactly where two integers in range stand in a sequence, whatever their
padding and whatever is behind them, and by position no step of the reading leaves the bytes. What
is written, with any bytes behind it, is read back with the lesser second part. -/
theorem ofDer_sequences (bs : Bytes) :
    (∀ sig, ofDer bs = .ok sig ↔ SequenceOf bs sig.r.val sig.s.val) ∧
    ((∃ sig, ofDer bs = .ok sig) ↔
      ∃ r s, SequenceOf bs r s ∧ (1 ≤ r ∧ r < groupOrder) ∧ 1 ≤ s ∧ s < groupOrder) ∧
    Indexed.ofDer? bs = some (ofDer bs) ∧
    ∀ sig : Signature, ∃ low, ofDer (sig.toDer ++ bs) = .ok low ∧ low.r = sig.r ∧
      low.s.val = min sig.s.val (groupOrder - sig.s.val) := by
  refine ⟨fun sig => ofDer_eq_ok_iff_sequence, ⟨?_, ?_⟩, Indexed.ofDer?_eq bs, fun sig =>
    ⟨sig.normalized, ofDer_toDer_append sig bs, sig.normalized_r, sig.val_normalized_s⟩⟩
  · rintro ⟨sig, h⟩
    exact ⟨_, _, ofDer_eq_ok_iff_sequence.1 h, exists_parts.1 ⟨sig, rfl, rfl⟩⟩
  · rintro ⟨r, s, h, hrange⟩
    obtain ⟨sig, rfl, rfl⟩ := exists_parts.2 hrange
    exact ⟨sig, ofDer_eq_ok_iff_sequence.2 h⟩

end TxScript.Curve.Signature
