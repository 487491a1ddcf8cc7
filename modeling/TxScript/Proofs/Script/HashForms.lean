import TxScript.Proofs.Script.Pushes
import TxScript.Script.Template

/-!
# Scripts that commit to a hash

Both forms are exact ones: they leave open which hash is committed to and nothing else, not even how
its length is spelled out. So the bytes alone tell whether they are read as such a script: there are
so many of them, and they begin and end as the form does.
-/

namespace TxScript

variable {n : Nat} {front back input data : Bytes} {hash : Digest 20} {s : Script}

theorem exists_eq_between_iff :
    (∃ middle : Digest n, input = front ++ (middle.bytes ++ back)) ↔
      input.length = front.length + n + back.length ∧ front <+: input ∧ back <:+ input := by
  constructor
  · rintro ⟨middle, rfl⟩
    refine ⟨?_, List.prefix_append _ _, front ++ middle.bytes, List.append_assoc _ _ _⟩
    rw [List.length_append, List.length_append, middle.length_bytes, Nat.add_assoc]
  · rintro ⟨hlength, ⟨rest, rfl⟩, hback⟩
    rw [List.length_append] at hlength
    -- With so many bytes in all, the back does not reach into the front.
    have hrest : back <:+ rest :=
      List.suffix_of_suffix_length_le hback (List.suffix_append front rest) (by omega)
    obtain ⟨middle, rfl⟩ := hrest
    rw [List.length_append] at hlength
    exact ⟨⟨middle, by omega⟩, rfl⟩

/-- A digest is short enough to be pushed by its length alone. -/
theorem Chunk.pushMinimal_digest (hash : Digest 20) :
    pushMinimal hash.bytes = .push .implicit hash.bytes := by
  rw [pushMinimal, hash.length_bytes]
  rfl

theorem Chunk.encode_pushDigest (hash : Digest 20) :
    (pushMinimal hash.bytes).encode = 0x14 :: hash.bytes := by
  rw [pushMinimal_digest, encode, hash.length_bytes]
  rfl

namespace Script

theorem chunks_payToPublicKeyHash (hash : Digest 20) :
    (payToPublicKeyHash hash).chunks =
      [.op .dup, .op .hash160, .push .implicit hash.bytes, .op .equalVerify, .op .checkSig] := by
  simp only [payToPublicKeyHash, Chunk.pushMinimal_digest]

theorem chunks_payToScriptHash (hash : Digest 20) :
    (payToScriptHash hash).chunks = [.op .hash160, .push .implicit hash.bytes, .op .equal] := by
  simp only [payToScriptHash, Chunk.pushMinimal_digest]

theorem bytes_payToPublicKeyHash (hash : Digest 20) :
    (payToPublicKeyHash hash).bytes = [0x76, 0xa9, 0x14] ++ (hash.bytes ++ [0x88, 0xac]) := by
  simp only [bytes, payToPublicKeyHash, encodeChunks_cons, Chunk.encode_pushDigest]
  rfl

theorem bytes_payToScriptHash (hash : Digest 20) :
    (payToScriptHash hash).bytes = [0xa9, 0x14] ++ (hash.bytes ++ [0x87]) := by
  simp only [bytes, payToScriptHash, encodeChunks_cons, Chunk.encode_pushDigest]
  rfl

theorem size_payToPublicKeyHash : (payToPublicKeyHash hash).size = 25 := by
  rw [size, bytes_payToPublicKeyHash]
  simp [hash.length_bytes]

theorem size_payToScriptHash : (payToScriptHash hash).size = 23 := by
  rw [size, bytes_payToScriptHash]
  simp [hash.length_bytes]

/-! ## The forms -/

theorem publicKeyHash?_eq_some :
    s.publicKeyHash? = some data ↔
      ∃ hash : Digest 20, hash.bytes = data ∧ s = payToPublicKeyHash hash := by
  constructor
  · intro hform
    obtain ⟨chunks, hcanonical⟩ := s
    unfold publicKeyHash? at hform
    dsimp only at hform
    split at hform
    · obtain ⟨⟨rfl, rfl, hlength, rfl, rfl⟩, ⟨⟩⟩ := Option.ite_none_right_eq_some.1 hform
      exact ⟨⟨data, hlength⟩, rfl, Script.ext (chunks_payToPublicKeyHash ⟨data, hlength⟩).symm⟩
    · cases hform
  · rintro ⟨hash, rfl, rfl⟩
    rw [publicKeyHash?, chunks_payToPublicKeyHash]
    exact if_pos ⟨rfl, rfl, hash.length_bytes, rfl, rfl⟩

theorem scriptHash?_eq_some :
    scriptHash? s.chunks = some data ↔
      ∃ hash : Digest 20, hash.bytes = data ∧ s = payToScriptHash hash := by
  constructor
  · intro hform
    obtain ⟨chunks, hcanonical⟩ := s
    unfold scriptHash? at hform
    dsimp only at hform
    split at hform
    · obtain ⟨⟨rfl, hlength, rfl⟩, ⟨⟩⟩ := Option.ite_none_right_eq_some.1 hform
      exact ⟨⟨data, hlength⟩, rfl, Script.ext (chunks_payToScriptHash ⟨data, hlength⟩).symm⟩
    · cases hform
  · rintro ⟨hash, rfl, rfl⟩
    rw [chunks_payToScriptHash]
    exact if_pos ⟨rfl, hash.length_bytes, rfl⟩

theorem isPayToPublicKeyHash_iff :
    s.isPayToPublicKeyHash = true ↔ ∃ hash : Digest 20, s = payToPublicKeyHash hash := by
  simp only [isPayToPublicKeyHash, Option.isSome_iff_exists, publicKeyHash?_eq_some]
  rw [exists_comm]
  simp only [exists_eq_left']

theorem isPayToScriptHash_iff :
    s.isPayToScriptHash = true ↔ ∃ hash : Digest 20, s = payToScriptHash hash := by
  simp only [isPayToScriptHash, Option.isSome_iff_exists, scriptHash?_eq_some]
  rw [exists_comm]
  simp only [exists_eq_left']

theorem isPayToScriptHash_payToScriptHash : (payToScriptHash hash).isPayToScriptHash = true :=
  isPayToScriptHash_iff.2 ⟨hash, rfl⟩

/-! ## The bytes that are read as such a form -/

/-- A form whose scripts are those of one builder is told from the bytes around the hash. -/
theorem exists_parse_iff_between {form : Script → Bool} {build : Digest n → Script}
    (hform : ∀ s, form s = true ↔ ∃ hash, s = build hash)
    (hbytes : ∀ hash, (build hash).bytes = front ++ (hash.bytes ++ back)) :
    (∃ s, parse input = .ok s ∧ form s = true) ↔
      input.length = front.length + n + back.length ∧ front <+: input ∧ back <:+ input := by
  rw [← exists_eq_between_iff]
  constructor
  · rintro ⟨s, hparse, hs⟩
    obtain ⟨hash, rfl⟩ := (hform s).1 hs
    exact ⟨hash, (bytes_of_parse hparse).symm.trans (hbytes hash)⟩
  · rintro ⟨hash, rfl⟩
    refine ⟨build hash, ?_, (hform _).2 ⟨hash, rfl⟩⟩
    rw [← hbytes]
    exact parse_bytes _

theorem exists_parse_payToPublicKeyHash_iff :
    (∃ s, parse input = .ok s ∧ s.isPayToPublicKeyHash = true) ↔
      input.length = 25 ∧ [0x76, 0xa9, 0x14] <+: input ∧ [0x88, 0xac] <:+ input :=
  exists_parse_iff_between (fun _ => isPayToPublicKeyHash_iff) bytes_payToPublicKeyHash

theorem exists_parse_payToScriptHash_iff :
    (∃ s, parse input = .ok s ∧ s.isPayToScriptHash = true) ↔
      input.length = 23 ∧ [0xa9, 0x14] <+: input ∧ [0x87] <:+ input :=
  exists_parse_iff_between (fun _ => isPayToScriptHash_iff) bytes_payToScriptHash

theorem publicKeyHash?_of_parse (hparse : parse input = .ok s)
    (hform : s.isPayToPublicKeyHash = true) :
    s.publicKeyHash? = some ((input.drop 3).take 20) := by
  obtain ⟨hash, rfl⟩ := isPayToPublicKeyHash_iff.1 hform
  have hinput := bytes_of_parse hparse
  rw [bytes_payToPublicKeyHash] at hinput
  have hdrop : input.drop 3 = hash.bytes ++ [0x88, 0xac] := by
    rw [← hinput]
    rfl
  rw [hdrop, List.take_left' hash.length_bytes]
  exact publicKeyHash?_eq_some.2 ⟨hash, rfl, rfl⟩

end Script

end TxScript
