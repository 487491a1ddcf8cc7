import TxScript.Proofs.Curve.PublicKey

/-!
# The written forms of public keys

A key has a short and a long form, and a third form is read: the tag 05 and the first coordinate
alone, for the point whose second coordinate is even. No other bytes are read. That form is not
written, so a key read from it is written back with the tag 02 in place of the 05.
-/

namespace TxScript.Curve

open scoped Fin.CommRing

theorem FieldElement.ofBytes?_eq_some {bs : Bytes} {a : FieldElement} (hlength : bs.length = 32) :
    ofBytes? bs = some a ↔ bs = a.toBytes := by
  constructor
  · intro h
    unfold ofBytes? at h
    dsimp only at h
    split at h
    · cases h
      rw [toBytes, ← hlength, BigEndian.encode_decode]
    · cases h
  · rintro rfl
    exact ofBytes?_toBytes a

namespace Point

/-- Minus seven is no cube, as its power to a third of p − 1 shows: no point lies on the axis. -/
theorem cubic_ne_zero (x : FieldElement) : cubic x ≠ 0 := by
  intro hzero
  have hcube : x ^ 3 = -7 := by
    unfold cubic at hzero
    linear_combination hzero
  have hx : x ≠ 0 := by
    rintro rfl
    exact absurd hcube (by decide)
  have hexp : 3 * ((fieldPrime - 1) / 3) = fieldPrime - 1 := by decide
  have hone : power (-7 : FieldElement) ((fieldPrime - 1) / 3) = 1 := by
    rw [power_eq_pow, ← hcube, ← pow_mul, hexp, pow_prime_sub_one prime_fieldPrime hx]
  have hnot : power (-7 : FieldElement) ((fieldPrime - 1) / 3) ≠ 1 := by decide +kernel
  exact hnot hone

/-- The coordinate and the parity name the one point that has them. -/
theorem ofX?_eq_some {x : FieldElement} {odd : Bool} {p : Point} :
    ofX? x odd = some p ↔
      ∃ y, p = affine x y ∧ OnCurve x y ∧ decide (y.val % 2 = 1) = odd := by
  constructor
  · intro h
    obtain ⟨y, rfl, hcurve⟩ := onCurve_of_ofX? h
    refine ⟨y, rfl, hcurve, ?_⟩
    obtain ⟨root, -, hpicked⟩ := Option.map_eq_some_iff.1 h
    have hy : (if decide (root.val % 2 = 1) = odd then root else 0 - root) = y := by
      injection hpicked
    split at hy
    · rename_i hodd
      rw [← hy, hodd]
    · rename_i hodd
      have hroot : root ≠ 0 := by
        rintro rfl
        rw [← hy] at hcurve
        exact cubic_ne_zero x (by simpa [OnCurve] using hcurve.symm)
      have hparity := FieldElement.odd_zero_sub hroot
      rw [← hy, decide_eq_decide.2 hparity, decide_not]
      exact Bool.not_eq.2 hodd
  · rintro ⟨y, rfl, hcurve, rfl⟩
    exact ofX?_onCurve hcurve

end Point

namespace PublicKey

variable {bs rest : Bytes} {tag : UInt8} {odd : Bool} {p : Point} {key : PublicKey}

/-- The tag that leaves the parity out. -/
def evenTag : UInt8 := 0x05

/-- The parity that a tag of the short forms stands for. -/
def parityOf? (tag : UInt8) : Option Bool :=
  if tag = 0x02 ∨ tag = evenTag then some false else if tag = 0x03 then some true else none

theorem parityOf?_eq_some :
    parityOf? tag = some odd ↔
      tag = (if odd then 0x03 else 0x02) ∨ tag = evenTag ∧ odd = false := by
  unfold parityOf? evenTag
  by_cases heven : tag = 0x02 ∨ tag = 0x05
  · rcases heven with rfl | rfl <;> cases odd <;> decide
  · rw [if_neg heven]
    rw [not_or] at heven
    by_cases hodd : tag = 0x03
    · subst hodd
      cases odd <;> decide
    · cases odd <;> simp [heven, hodd]

theorem readCompressed_eq_some (hlength : rest.length = 32) :
    readCompressed tag rest = some p ↔
      ∃ x y, p = .affine x y ∧ Point.OnCurve x y ∧ rest = x.toBytes ∧
        parityOf? tag = some (decide (y.val % 2 = 1)) := by
  have hread : readCompressed tag rest = (parityOf? tag).bind fun odd =>
      (FieldElement.ofBytes? rest).bind fun x => Point.ofX? x odd := by
    unfold readCompressed parityOf? evenTag
    split_ifs <;> rfl
  simp only [hread, Option.bind_eq_some_iff, FieldElement.ofBytes?_eq_some hlength,
    Point.ofX?_eq_some]
  constructor
  · rintro ⟨odd, htag, x, hx, y, hp, hcurve, rfl⟩
    exact ⟨x, y, hp, hcurve, hx, htag⟩
  · rintro ⟨x, y, hp, hcurve, hx, htag⟩
    exact ⟨_, htag, x, hx, y, hp, hcurve, rfl⟩

theorem readUncompressed_eq_some (hlength : rest.length = 64) :
    readUncompressed tag rest = some p ↔
      ∃ x y, p = .affine x y ∧ tag = 0x04 ∧ rest = x.toBytes ++ y.toBytes := by
  constructor
  · intro h
    unfold readUncompressed at h
    split at h
    · rename_i htag
      obtain ⟨x, hx, h⟩ := Option.bind_eq_some_iff.1 h
      obtain ⟨y, hy, h⟩ := Option.bind_eq_some_iff.1 h
      rw [FieldElement.ofBytes?_eq_some (by simp [hlength])] at hx hy
      cases h
      exact ⟨x, y, rfl, htag, by rw [← hx, ← hy, List.take_append_drop]⟩
    · cases h
  · rintro ⟨x, y, rfl, rfl, rfl⟩
    exact readUncompressed_append x y

/-- Bytes are read as a key exactly when they are the form that the key remembers, or, for an even
point, when they leave out that it is even. -/
theorem ofBytes_eq_ok :
    ofBytes bs = .ok key ↔
      bs = key.toBytes ∨
        key.compressed = true ∧ key.y.val % 2 = 0 ∧ bs = evenTag :: key.x.toBytes := by
  constructor
  · intro h
    unfold ofBytes at h
    split at h
    · cases h
    · rename_i tag rest
      split at h
      · rename_i hshort
        split at h
        · rename_i own hread
          cases h
          obtain ⟨p, hp, hown⟩ := Option.bind_eq_some_iff.1 hread
          obtain ⟨x, y, rfl, hcurve, rfl, htag⟩ := (readCompressed_eq_some hshort).1 hp
          obtain rfl : key = ⟨x, y, hcurve, true⟩ :=
            Option.some.inj (hown.symm.trans (ofPoint?_eq_some.2 ⟨rfl, rfl⟩))
          rcases parityOf?_eq_some.1 htag with rfl | ⟨rfl, heven⟩
          · exact .inl (by simp [toBytes, compressedBytes])
          · exact .inr ⟨rfl, by simpa using heven, rfl⟩
        · cases h
      · split at h
        · rename_i hlong
          split at h
          · rename_i own hread
            cases h
            obtain ⟨p, hp, hown⟩ := Option.bind_eq_some_iff.1 hread
            obtain ⟨x, y, rfl, rfl, rfl⟩ := (readUncompressed_eq_some hlong).1 hp
            rcases key with ⟨x', y', hcurve, own⟩
            obtain ⟨hpoint, rfl⟩ := ofPoint?_eq_some.1 hown
            cases hpoint
            exact .inl rfl
          · cases h
        · cases h
  · rintro (rfl | ⟨hcompressed, heven, rfl⟩)
    · exact ofBytes_toBytes key
    · rcases key with ⟨x, y, hcurve, compressed⟩
      obtain rfl : compressed = true := hcompressed
      have hread : readCompressed evenTag x.toBytes = some (.affine x y) := by
        rw [readCompressed_eq_some (FieldElement.length_toBytes x)]
        exact ⟨x, y, rfl, hcurve, rfl, parityOf?_eq_some.2 (.inr ⟨rfl, by simp [heven]⟩)⟩
      have hkey : ofPoint? true (.affine x y) = some ⟨x, y, hcurve, true⟩ :=
        ofPoint?_eq_some.2 ⟨rfl, rfl⟩
      simp only [ofBytes, FieldElement.length_toBytes, if_true, hread, Option.bind_some, hkey]

theorem head?_toBytes (key : PublicKey) : key.toBytes.head? ≠ some evenTag := by
  rcases key with ⟨x, y, hcurve, compressed⟩
  cases compressed with
  | false => simp [toBytes, uncompressedBytes, evenTag]
  | true =>
      by_cases hodd : y.val % 2 = 1
      · simp [toBytes, compressedBytes, hodd, evenTag]
      · simp [toBytes, compressedBytes, hodd, evenTag]

/-- A key that was read is written as the bytes that it was read from exactly when these do not
leave out the parity, and then it has their hash. If they do, the tag 02 is written in place of the
05. Either way the key is read back from what it is written as. -/
theorem toBytes_of_ofBytes (h : ofBytes bs = .ok key) :
    (key.toBytes = bs ↔ bs.head? ≠ some evenTag) ∧
    (bs.head? ≠ some evenTag → key.hash160 = Hash.hash160 bs) ∧
    (bs.head? = some evenTag → bs.length = 33 ∧ key.toBytes = 0x02 :: bs.tail) ∧
    ofBytes key.toBytes = .ok key := by
  have hagain : ofBytes key.toBytes = .ok key := ofBytes_toBytes key
  have hown : key.toBytes.head? ≠ some evenTag := head?_toBytes key
  rcases ofBytes_eq_ok.1 h with rfl | ⟨hcompressed, heven, rfl⟩
  · exact ⟨iff_of_true rfl hown, fun _ => rfl, fun htag => absurd htag hown, hagain⟩
  · have hwritten : key.toBytes = 0x02 :: key.x.toBytes := by
      rw [toBytes, if_pos hcompressed, compressedBytes]
      simp [heven]
    refine ⟨iff_of_false (fun hsame => ?_) (fun hne => hne rfl), fun hne => absurd rfl hne,
      fun _ => ⟨?_, hwritten⟩, hagain⟩
    · rw [hsame] at hown
      exact hown rfl
    · rw [List.length_cons, FieldElement.length_toBytes]

/-- A point whose second coordinate is odd, in its short form. -/
theorem toBytes_of_odd_key :
    let x : FieldElement :=
      ⟨0x7e000cc16c9a4d38cb1572b9dc34c1452626aa170b46150d0e806be1b42517f0, by decide⟩
    let y : FieldElement :=
      ⟨0x832c8a58f543128083ffb8632bae94dd5f3e1e89fad0a17f64ed8bbbb90b5753, by decide⟩
    let key : PublicKey := ⟨x, y, by decide +kernel, true⟩
    let bs : Bytes := 0x03 :: x.toBytes
    ofBytes bs = .ok key ∧ key.toBytes = bs ∧ key.hash160 = Hash.hash160 bs := by
  intro x y key bs
  have hread : ofBytes bs = .ok key := ofBytes_eq_ok.2 (.inl (by decide +kernel))
  have htag : bs.head? ≠ some evenTag := by decide
  obtain ⟨hwritten, hhash, -⟩ := toBytes_of_ofBytes hread
  exact ⟨hread, hwritten.2 htag, hhash htag⟩

/-- The generator is even. Read from the bytes that leave this out, it is neither written as they
are nor hashed as they are. -/
theorem toBytes_ne_of_generator_without_parity :
    let bs : Bytes :=
      [0x05, 0x79, 0xbe, 0x66, 0x7e, 0xf9, 0xdc, 0xbb, 0xac, 0x55, 0xa0, 0x62, 0x95, 0xce, 0x87,
        0x0b, 0x07, 0x02, 0x9b, 0xfc, 0xdb, 0x2d, 0xce, 0x28, 0xd9, 0x59, 0xf2, 0x81, 0x5b, 0x16,
        0xf8, 0x17, 0x98]
    let key : PublicKey := .generator
    ofBytes bs = .ok key ∧ key.toBytes ≠ bs ∧ key.hash160 ≠ Hash.hash160 bs := by
  intro bs key
  have hread : ofBytes bs = .ok key :=
    ofBytes_eq_ok.2 (.inr ⟨rfl, by decide, by decide +kernel⟩)
  exact ⟨hread, by decide +kernel, by decide +kernel⟩

end PublicKey

end TxScript.Curve
