import TxScript.Script.Parsing

/-!
# Canonical rows of chunks

A chunk is canonical when it is an opcode above the pushes, or a push whose encoding has room for
its data; the encoding need not be the most compact one. Bytes split into chunks exactly when they
are the bytes of a canonical row, and then they are those of no other canonical row.
-/

namespace TxScript

variable {cs other : List Chunk} {input : Bytes}

theorem parseChunks_encodeChunks (h : ∀ c ∈ cs, c.Canonical) :
    parseChunks (encodeChunks cs) = .ok cs :=
  parseChunksAt_encodeChunks 0 h

theorem encodeChunks_of_parseChunks (h : parseChunks input = .ok cs) :
    encodeChunks cs = input ∧ ∀ c ∈ cs, c.Canonical :=
  encodeChunks_of_parseChunksAt h

theorem parseChunks_eq_ok :
    parseChunks input = .ok cs ↔ encodeChunks cs = input ∧ ∀ c ∈ cs, c.Canonical := by
  refine ⟨encodeChunks_of_parseChunks, fun h => ?_⟩
  obtain ⟨hbytes, hcanonical⟩ := h
  rw [← hbytes]
  exact parseChunks_encodeChunks hcanonical

/-- Reading back takes the bytes of two rows to the rows themselves. -/
theorem encodeChunks_inj (hcs : ∀ c ∈ cs, c.Canonical) (hother : ∀ c ∈ other, c.Canonical)
    (h : encodeChunks cs = encodeChunks other) : cs = other := by
  have hread : parseChunks (encodeChunks cs) = .ok cs := parseChunks_encodeChunks hcs
  rw [h, parseChunks_encodeChunks hother] at hread
  exact (Except.ok.inj hread).symm

/-- Bytes are read as a row of chunks exactly when they are the bytes of that row and all of its
chunks are canonical, whatever encodings its pushes have. No two canonical rows have the same
bytes. -/
theorem parseChunks_eq_ok_iff_canonical (input : Bytes) (cs : List Chunk) :
    (parseChunks input = .ok cs ↔ encodeChunks cs = input ∧ ∀ c ∈ cs, c.Canonical) ∧
    ∀ other : List Chunk, (∀ c ∈ cs, c.Canonical) → (∀ c ∈ other, c.Canonical) →
      encodeChunks cs = encodeChunks other → cs = other :=
  ⟨parseChunks_eq_ok, fun _ => encodeChunks_inj⟩

/-- A row in which all encodings occur, none of them the most compact one but for the empty push. -/
theorem parseChunks_mixed_encodings :
    let cs : List Chunk :=
      [.push .pushData2 [7], .push .implicit [], .op .codeSeparator, .push .pushData4 [],
        .push .pushData1 [0xab, 0x4c]]
    let input : Bytes :=
      [0x4d, 1, 0, 7, 0, 0xab, 0x4e, 0, 0, 0, 0, 0x4c, 2, 0xab, 0x4c]
    (encodeChunks cs = input ∧ ∀ c ∈ cs, c.Canonical) ∧ parseChunks input = .ok cs ∧
      ∀ other : List Chunk, (∀ c ∈ other, c.Canonical) → encodeChunks other = input →
        other = cs := by
  intro cs input
  have hcs : encodeChunks cs = input ∧ ∀ c ∈ cs, c.Canonical := by decide +kernel
  obtain ⟨hread, honly⟩ := parseChunks_eq_ok_iff_canonical input cs
  refine ⟨hcs, hread.2 hcs, fun other hother hbytes => ?_⟩
  exact (honly other hcs.2 hother (hcs.1.trans hbytes.symm)).symm

end TxScript
