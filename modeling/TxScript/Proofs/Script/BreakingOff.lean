import TxScript.Proofs.Indexed.Parsing
import TxScript.Proofs.Script.Canonical

/-!
# Scripts that break off

Bytes that are no script end inside of a chunk, either in its length field or in the data that it
announces. What stands in front of that chunk is a script, and more bytes would complete the chunk.
So the only thing that can be wrong with bytes is that some are missing at their end.
-/

namespace TxScript

/-- The ways in which bytes end inside of the chunk that they begin with. -/
inductive BreaksOff : ChunkFault → Bytes → Prop
  /-- There is less than a whole length field. -/
  | field (enc : PushEncoding) (field : Bytes) (h : field.length < enc.lengthWidth) :
    BreaksOff .truncated ((enc.opcode 0).byte :: field)
  /-- There is less data than the header announces. -/
  | data (enc : PushEncoding) (length : Nat) (data : Bytes) (hfits : length ≤ enc.capacity)
    (h : data.length < length) :
    BreaksOff (.pushOutOfBounds length) (enc.header length ++ data)

/-- Bytes that are a script at first, and then begin with a chunk that breaks off. -/
structure BreaksAt (input front back : Bytes) (fault : ChunkFault) : Prop where
  split : input = front ++ back
  readable : ∃ cs, parseChunks front = .ok cs
  breaksOff : BreaksOff fault back

variable {offset length : Nat} {byte : UInt8} {input front back front' back' rest : Bytes}
  {cs : List Chunk} {e : ParseError} {fault fault' : ChunkFault} {enc : PushEncoding}

/-! ## One chunk -/

theorem Chunk.readPush_eq_error :
    readPush enc length input = .error fault ↔
      input.length < length ∧ fault = .pushOutOfBounds length := by
  unfold readPush
  by_cases hfits : length ≤ input.length
  · rw [if_pos hfits]
    simp only [reduceCtorEq, false_iff, not_and]
    omega
  · rw [if_neg hfits]
    simp only [Except.error.injEq, Nat.lt_of_not_le hfits, true_and]
    exact eq_comm

theorem breaksOff_of_read (h : Chunk.read byte rest = .error fault) :
    BreaksOff fault (byte :: rest) := by
  by_cases hpush : Opcode.isPush ⟨byte⟩ = true
  · obtain ⟨hopcode, hsmall⟩ := PushEncoding.opcode_ofByte (by simpa [Opcode.isPush] using hpush)
    by_cases himplicit : PushEncoding.ofByte byte = .implicit
    · rw [himplicit] at hopcode hsmall
      rw [Chunk.read, if_pos hpush, himplicit] at h
      obtain ⟨hshort, rfl⟩ := Chunk.readPush_eq_error.1 h
      have hbreaks := BreaksOff.data .implicit byte.toNat rest (hsmall rfl) hshort
      rwa [PushEncoding.header, hopcode] at hbreaks
    · rw [Indexed.read_of_field hpush himplicit] at h
      generalize PushEncoding.ofByte byte = enc at *
      rw [PushEncoding.opcode_eq_of_ne himplicit byte.toNat 0] at hopcode
      by_cases hfield : enc.lengthWidth ≤ rest.length
      · rw [if_pos hfield] at h
        obtain ⟨hshort, rfl⟩ := Chunk.readPush_eq_error.1 h
        have hlength : (rest.take enc.lengthWidth).length = enc.lengthWidth := by
          rw [List.length_take, Nat.min_eq_left hfield]
        have hlimit := LittleEndian.decode_lt (rest.take enc.lengthWidth)
        have hspelled := LittleEndian.encode_decode (rest.take enc.lengthWidth)
        rw [hlength] at hlimit hspelled
        have hbreaks := BreaksOff.data enc _ _ (PushEncoding.le_capacity_of_lt himplicit hlimit)
          hshort
        rwa [PushEncoding.header, hspelled, PushEncoding.opcode_eq_of_ne himplicit _ 0, hopcode,
          List.cons_append, List.take_append_drop] at hbreaks
      · rw [if_neg hfield] at h
        cases h
        have hbreaks := BreaksOff.field enc rest (Nat.lt_of_not_le hfield)
        rwa [hopcode] at hbreaks
  · rw [Chunk.read, if_neg hpush] at h
    cases h

theorem exists_read_of_breaksOff (h : BreaksOff fault back) :
    ∃ byte rest, back = byte :: rest ∧ Chunk.read byte rest = .error fault := by
  cases h with
  | field enc field hshort =>
      refine ⟨_, field, rfl, ?_⟩
      have hfield : ¬ enc.lengthWidth ≤ field.length := Nat.not_le.2 hshort
      cases enc with
      | implicit => exact absurd (Nat.zero_le _) hfield
      | pushData1 | pushData2 | pushData4 => exact if_neg hfield
  | data enc length data hfits hshort =>
      obtain ⟨byte, tail, hbytes, hread⟩ := Chunk.read_header hfits data
      exact ⟨byte, tail, hbytes, hread.trans (Chunk.readPush_eq_error.2 ⟨hshort, rfl⟩)⟩

/-! ## Rows of chunks -/

/-- Reading goes on behind a canonical row with what follows it. -/
theorem parseChunksAt_append (h : ∀ c ∈ cs, c.Canonical) :
    parseChunksAt offset (encodeChunks cs ++ rest)
      = (parseChunksAt (offset + (encodeChunks cs).length) rest).map (cs ++ ·) := by
  induction cs generalizing offset with
  | nil =>
      show parseChunksAt offset rest = (parseChunksAt offset rest).map id
      cases parseChunksAt offset rest <;> rfl
  | cons c cs ih =>
      obtain ⟨hc, hcs⟩ := List.forall_mem_cons.1 h
      obtain ⟨byte, tail, hbytes, hread⟩ := Chunk.read_append hc (encodeChunks cs ++ rest)
      rw [encodeChunks_cons, List.append_assoc, hbytes, Indexed.parseChunksAt_of_ok hread,
        ih hcs, List.length_append, Chunk.length_encode, Nat.add_assoc]
      cases parseChunksAt _ rest <;> rfl

theorem exists_of_parseChunksAt_error (h : parseChunksAt offset input = .error e) :
    ∃ cs back, (∀ c ∈ cs, c.Canonical) ∧ input = encodeChunks cs ++ back ∧
      offset + (encodeChunks cs).length = e.offset ∧ BreaksOff e.fault back := by
  fun_induction parseChunksAt offset input with
  | case1 => cases h
  | case2 offset byte rest fault hread =>
      cases h
      exact ⟨[], byte :: rest, by simp, rfl, rfl, breaksOff_of_read hread⟩
  | case3 offset byte rest c after hread _ e' hafter ih =>
      cases h
      obtain ⟨cs, back, hcs, rfl, hoffset, hbreaks⟩ := ih hafter
      obtain ⟨hc, hbytes⟩ := Chunk.encode_of_read hread
      refine ⟨c :: cs, back, List.forall_mem_cons.2 ⟨hc, hcs⟩, ?_, ?_, hbreaks⟩
      · rw [encodeChunks_cons, List.append_assoc, hbytes]
      · rw [← hoffset, encodeChunks_cons, List.length_append, Chunk.length_encode, Nat.add_assoc]
  | case4 => cases h

theorem parseChunks_of_breaksAt (h : BreaksAt input front back fault) :
    parseChunks input = .error ⟨front.length, fault⟩ := by
  obtain ⟨cs, hread⟩ := h.readable
  obtain ⟨rfl, hcs⟩ := encodeChunks_of_parseChunks hread
  obtain ⟨byte, rest, rfl, hfault⟩ := exists_read_of_breaksOff h.breaksOff
  rw [h.split, parseChunks, parseChunksAt_append hcs, Indexed.parseChunksAt_of_error hfault,
    Nat.zero_add]
  rfl

theorem parseChunks_eq_error :
    parseChunks input = .error e ↔
      ∃ front back, BreaksAt input front back e.fault ∧ front.length = e.offset := by
  constructor
  · intro h
    obtain ⟨cs, back, hcs, hinput, hoffset, hbreaks⟩ := exists_of_parseChunksAt_error h
    exact ⟨encodeChunks cs, back, ⟨hinput, ⟨cs, parseChunks_encodeChunks hcs⟩, hbreaks⟩,
      (Nat.zero_add _).symm.trans hoffset⟩
  · intro h
    obtain ⟨front, back, hbreaks, hoffset⟩ := h
    rw [parseChunks_of_breaksAt hbreaks, hoffset]

/-! ## What is missing -/

/-- A chunk that breaks off is the beginning of a whole one. -/
theorem BreaksOff.exists_completed (h : BreaksOff fault back) :
    ∃ (more : Bytes) (c : Chunk), c.Canonical ∧ back ++ more = c.encode := by
  cases h with
  | field enc field hshort =>
      have hne : enc ≠ .implicit := by
        rintro rfl
        exact absurd hshort (Nat.not_lt_zero _)
      let whole := field ++ List.replicate (enc.lengthWidth - field.length) 0
      let data : Bytes := List.replicate (LittleEndian.decode whole) 0
      have hwhole : whole.length = enc.lengthWidth := by
        rw [List.length_append, List.length_replicate]
        omega
      have hspelled := LittleEndian.encode_decode whole
      have hlimit := LittleEndian.decode_lt whole
      rw [hwhole] at hspelled hlimit
      have hdata : data.length = LittleEndian.decode whole := List.length_replicate
      have hfits : data.length ≤ enc.capacity := by
        rw [hdata]
        exact PushEncoding.le_capacity_of_lt hne hlimit
      refine ⟨List.replicate (enc.lengthWidth - field.length) 0 ++ data, .push enc data, hfits, ?_⟩
      rw [Chunk.encode, PushEncoding.fitted_of_le hfits, PushEncoding.header, hdata, hspelled,
        PushEncoding.opcode_eq_of_ne hne (LittleEndian.decode whole) 0]
      simp [whole]
  | data enc length data hfits hshort =>
      let whole := data ++ List.replicate (length - data.length) 0
      have hwhole : whole.length = length := by
        rw [List.length_append, List.length_replicate]
        omega
      have hcanonical : whole.length ≤ enc.capacity := hwhole ▸ hfits
      refine ⟨List.replicate (length - data.length) 0, .push enc whole, hcanonical, ?_⟩
      rw [Chunk.encode, PushEncoding.fitted_of_le hcanonical, hwhole, List.append_assoc]

theorem exists_parseChunks_append (input : Bytes) :
    ∃ (more : Bytes) (cs : List Chunk), parseChunks (input ++ more) = .ok cs := by
  cases hread : parseChunks input with
  | ok cs => exact ⟨[], cs, by rw [List.append_nil, hread]⟩
  | error e =>
      obtain ⟨front, back, hbreaks, -⟩ := parseChunks_eq_error.1 hread
      obtain ⟨cs, hfront⟩ := hbreaks.readable
      obtain ⟨rfl, hcs⟩ := encodeChunks_of_parseChunks hfront
      obtain ⟨more, c, hc, hmore⟩ := hbreaks.breaksOff.exists_completed
      have hrow : ∀ c' ∈ cs ++ [c], c'.Canonical :=
        List.forall_mem_append.2 ⟨hcs, List.forall_mem_singleton.2 hc⟩
      refine ⟨more, cs ++ [c], ?_⟩
      rw [hbreaks.split, List.append_assoc, hmore, ← parseChunks_encodeChunks hrow,
        encodeChunks_append, encodeChunks_cons, encodeChunks_nil, List.append_nil]

/-- Bytes are refused exactly when a script is followed by a chunk that breaks off, and what is
reported is where that chunk begins, and how it breaks off. There is no other such place in the
bytes. No bytes are beyond help: some more make any bytes a script. -/
theorem parseChunks_eq_error_iff_breaksAt (input : Bytes) :
    (∀ e : ParseError, parseChunks input = .error e ↔
      ∃ front back, BreaksAt input front back e.fault ∧ front.length = e.offset) ∧
    (∀ front back fault front' back' fault', BreaksAt input front back fault →
      BreaksAt input front' back' fault' → front = front' ∧ back = back' ∧ fault = fault') ∧
    ∃ (more : Bytes) (cs : List Chunk), parseChunks (input ++ more) = .ok cs := by
  refine ⟨fun e => parseChunks_eq_error, ?_, exists_parseChunks_append input⟩
  intro front back fault front' back' fault' h h'
  have hsame := (parseChunks_of_breaksAt h).symm.trans (parseChunks_of_breaksAt h')
  simp only [Except.error.injEq, ParseError.mk.injEq] at hsame
  obtain ⟨hlength, hfault⟩ := hsame
  obtain ⟨hfront, hback⟩ := List.append_inj (h.split.symm.trans h'.split) hlength
  exact ⟨hfront, hback, hfault⟩

/-- Behind a push that is announced in a longer way than needed, a length field of four bytes is cut
at every place, and then the data that it announces. -/
theorem parseChunks_cut_length_field :
    let front : Bytes := [0x4d, 2, 0, 0x4e, 0x05, 0x76]
    let breaks : List (Bytes × ChunkFault) :=
      [([0x4e], .truncated), ([0x4e, 3], .truncated), ([0x4e, 3, 0, 0], .truncated),
        ([0x4e, 3, 0, 0, 0], .pushOutOfBounds 3), ([0x4e, 3, 0, 0, 0, 7, 7], .pushOutOfBounds 3)]
    (∀ b ∈ breaks, BreaksAt (front ++ b.1) front b.1 b.2 ∧
      parseChunks (front ++ b.1) = .error ⟨6, b.2⟩) ∧
    ∀ b ∈ breaks, ∀ front' back' fault', BreaksAt (front ++ b.1) front' back' fault' →
      front' = front ∧ fault' = b.2 := by
  intro front breaks
  have hfront : ∃ cs, parseChunks front = .ok cs :=
    ⟨[.push .pushData2 [0x4e, 0x05], .op .dup], parseChunks_eq_ok.2 (by decide)⟩
  have hbreaks : ∀ b ∈ breaks, BreaksAt (front ++ b.1) front b.1 b.2 := by
    simp only [breaks, List.forall_mem_cons]
    refine ⟨?_, ?_, ?_, ?_, ?_, nofun⟩
    · exact ⟨rfl, hfront, .field .pushData4 [] (by decide)⟩
    · exact ⟨rfl, hfront, .field .pushData4 [3] (by decide)⟩
    · exact ⟨rfl, hfront, .field .pushData4 [3, 0, 0] (by decide)⟩
    · exact ⟨rfl, hfront, .data .pushData4 3 [] (by decide) (by decide)⟩
    · exact ⟨rfl, hfront, .data .pushData4 3 [7, 7] (by decide) (by decide)⟩
  refine ⟨fun b hb => ⟨hbreaks b hb, ?_⟩, fun b hb front' back' fault' h => ?_⟩
  · exact ((parseChunks_eq_error_iff_breaksAt (front ++ b.1)).1 ⟨6, b.2⟩).2
      ⟨front, b.1, hbreaks b hb, rfl⟩
  · obtain ⟨hsame, -, hfault⟩ :=
      (parseChunks_eq_error_iff_breaksAt (front ++ b.1)).2.1 _ _ _ _ _ _ h (hbreaks b hb)
    exact ⟨hsame, hfault⟩

end TxScript
