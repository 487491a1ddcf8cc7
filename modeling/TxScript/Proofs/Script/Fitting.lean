import TxScript.Proofs.Script.Stored

/-!
# Chunks put together by hand

A push can be given an encoding that has no room for its data. It is then written in the most
compact encoding, by all that is said of its bytes: what they are, how many there are and which
opcode they start with. Such a row reads back with the encodings that were written.
-/

namespace TxScript

variable {c : Chunk} {cs : List Chunk}

theorem PushEncoding.fitted_of_lt {enc : PushEncoding} {length : Nat} (h : enc.capacity < length) :
    enc.fitted length = minimal length :=
  if_neg (Nat.not_le.2 h)

namespace Chunk

/-- The chunk with the encoding that it is written in. -/
def refit : Chunk → Chunk
  | op o => op o
  | push enc data => if data.length ≤ enc.capacity then push enc data else pushMinimal data

theorem encode_refit (c : Chunk) : c.refit.encode = c.encode := by
  cases c with
  | op o => rfl
  | push enc data =>
      by_cases hfits : data.length ≤ enc.capacity
      · rw [refit, if_pos hfits]
      · have hfallback := PushEncoding.fitted_of_lt (Nat.not_le.1 hfits)
        rw [refit, if_neg hfits, encode, hfallback, pushMinimal, encode,
          PushEncoding.fitted_minimal]

theorem head?_encode (c : Chunk) : c.encode.head? = some c.opcode.byte := by
  cases c with
  | op o => rfl
  | push enc data => rfl

/-- A chunk as it can be put together: an opcode that announces no data, or data that some encoding
has room for. -/
def Writable : Chunk → Prop
  | op o => Opcode.pushData4.byte < o.byte
  | push _ data => data.length ≤ 0xffffffff

instance (c : Chunk) : Decidable c.Writable :=
  match c with
  | op o => inferInstanceAs (Decidable (Opcode.pushData4.byte < o.byte))
  | push _ data => inferInstanceAs (Decidable (data.length ≤ 0xffffffff))

theorem canonical_refit (h : c.Writable) : c.refit.Canonical := by
  cases c with
  | op o => exact decide_eq_false (UInt8.not_le.2 h)
  | push enc data =>
      by_cases hfits : data.length ≤ enc.capacity
      · rw [refit, if_pos hfits]
        exact hfits
      · rw [refit, if_neg hfits]
        exact canonical_pushMinimal h

end Chunk

theorem encodeChunks_refit (cs : List Chunk) :
    encodeChunks (cs.map Chunk.refit) = encodeChunks cs := by
  simp only [encodeChunks, List.flatMap_map, Chunk.encode_refit]

theorem canonical_map_refit (h : ∀ c ∈ cs, c.Writable) : ∀ c ∈ cs.map Chunk.refit, c.Canonical :=
  List.forall_mem_map.2 fun c hc => Chunk.canonical_refit (h c hc)

theorem parse_encodeChunks_refit (h : ∀ c ∈ cs, c.Writable) :
    Script.parse (encodeChunks cs) = .ok ⟨cs.map Chunk.refit, canonical_map_refit h⟩ := by
  rw [← encodeChunks_refit]
  exact Script.parse_bytes ⟨_, _⟩

/-- The bytes of a chunk are as many as it says and start with the opcode that it says, also where
its encoding has no room for its data. A row of chunks makes a script whose bytes are theirs one
after another, and whose chunks are the given ones in the encodings that they are written in. -/
theorem ofChunks_of_writable :
    (∀ c : Chunk, c.encode.length = c.size ∧ c.encode.head? = some c.opcode.byte) ∧
    ∀ cs : List Chunk, (∀ c ∈ cs, c.Writable) →
      ∃ s : Script, Script.ofChunks cs = .ok s ∧ StoredScript.ofChunks cs = .ok s.stored ∧
        s.bytes = (cs.map Chunk.encode).flatten ∧ s.chunks = cs.map Chunk.refit := by
  refine ⟨fun c => ⟨c.length_encode, c.head?_encode⟩, fun cs h => ?_⟩
  have hread := parse_encodeChunks_refit h
  refine ⟨⟨_, canonical_map_refit h⟩, ?_, mapError_eq_ok.2 ?_, ?_, rfl⟩
  · rw [Script.ofChunks, hread]
  · rw [StoredScript.parse_eq, hread]
    rfl
  · rw [Script.bytes, encodeChunks_refit, encodeChunks, List.flatMap_def]

/-- Encodings that are one byte too small, one that is too large, and one for no data at all. -/
theorem ofChunks_of_small_and_large :
    let short : Bytes := List.replicate 76 7
    let long : Bytes := List.replicate 256 8
    let cs : List Chunk :=
      [.push .implicit short, .push .pushData1 long, .op .checkSig, .push .pushData4 [9],
        .push .pushData2 []]
    (∀ c ∈ cs, c.Writable) ∧
      ∃ s : Script, Script.ofChunks cs = .ok s ∧ StoredScript.ofChunks cs = .ok s.stored ∧
        s.chunks = [.push .pushData1 short, .push .pushData2 long, .op .checkSig,
          .push .pushData4 [9], .push .pushData2 []] ∧
        s.bytes = (cs.map Chunk.encode).flatten ∧
        (cs.map Chunk.encode).flatten = 0x4c :: 76 :: short ++ 0x4d :: 0 :: 1 :: long
          ++ [0xac, 0x4e, 1, 0, 0, 0, 9, 0x4d, 0, 0] := by
  intro short long cs
  have hcs : ∀ c ∈ cs, c.Writable := by decide +kernel
  obtain ⟨s, hplain, hstored, hbytes, hchunks⟩ := ofChunks_of_writable.2 cs hcs
  have hrefit : cs.map Chunk.refit = [.push .pushData1 short, .push .pushData2 long,
      .op .checkSig, .push .pushData4 [9], .push .pushData2 []] := by decide +kernel
  exact ⟨hcs, s, hplain, hstored, hchunks.trans hrefit, hbytes, by decide +kernel⟩

end TxScript
