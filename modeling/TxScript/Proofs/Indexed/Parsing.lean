import TxScript.Proofs.Indexed.Row
import TxScript.Script.Basic

/-!
# Chunks by position

A script is split into chunks by a position that moves over its bytes. A length field is copied into
a register of eight bytes. The position never leaves the bytes, and what is found is what reading
off the front finds.
-/

namespace TxScript.Indexed

/-- The number in a length field, if the field is complete. -/
def readLength? (bytes : Bytes) (pos width : Nat) : Option (Option Nat) :=
  match Row.slice? bytes pos (pos + width) with
  | none => some none
  | some field => do
    let register ← Row.overwrite? (List.replicate 8 0) 0 width field
    return some (LittleEndian.decode register)

/-- A push of the announced length, and the position behind it. -/
def readPush? (bytes : Bytes) (encoding : PushEncoding) (length pos : Nat) :
    Option (Except ChunkFault (Chunk × Nat)) :=
  if pos + length ≤ bytes.length then do
    let data ← Row.slice? bytes pos (pos + length)
    return .ok (.push encoding data, pos + length)
  else some (.error (.pushOutOfBounds length))

/-- The chunk at a position, and the position behind it. -/
def readChunk? (bytes : Bytes) (pos : Nat) : Option (Except ChunkFault (Chunk × Nat)) := do
  let byte ← bytes[pos]?
  if Opcode.isPush ⟨byte⟩ then
    let encoding := PushEncoding.ofByte byte
    if encoding = .implicit then readPush? bytes .implicit byte.toNat (pos + 1)
    else do
      let length ← readLength? bytes (pos + 1) encoding.lengthWidth
      match length with
      | none => return .error .truncated
      | some length => readPush? bytes encoding length (pos + 1 + encoding.lengthWidth)
  else return .ok (.op ⟨byte⟩, pos + 1)

theorem readLength?_eq {bytes : Bytes} {pos width : Nat} (hwidth : width ≤ 8)
    (hpos : pos ≤ bytes.length) :
    readLength? bytes pos width
      = some (if width ≤ (bytes.drop pos).length then
          some (LittleEndian.decode ((bytes.drop pos).take width)) else none) := by
  unfold readLength?
  rw [List.length_drop]
  by_cases h : width ≤ bytes.length - pos
  · have hlength : ((bytes.drop pos).take width).length = width := by
      rw [List.length_take, List.length_drop]
      omega
    rw [if_pos h, Row.slice?_of_le (by omega)]
    dsimp only
    have hfront := Row.overwrite?_front (Nat.le_trans (Nat.le_of_eq hlength) hwidth) (0 : UInt8)
    rw [hlength] at hfront
    rw [hfront, Option.bind_eq_bind, Option.bind_some, LittleEndian.decode_append_zeros]
    rfl
  · rw [if_neg h, Row.slice?_of_lt (by omega)]

/-- What reading at a position finds, from what reading off the front finds there. -/
def located (bytes : Bytes) (r : Except ChunkFault (Chunk × Bytes)) :
    Except ChunkFault (Chunk × Nat) :=
  r.map fun found => (found.1, bytes.length - found.2.length)

theorem readPush?_eq {bytes : Bytes} {encoding : PushEncoding} {length pos : Nat}
    (hpos : pos ≤ bytes.length) :
    readPush? bytes encoding length pos
      = some (located bytes (Chunk.readPush encoding length (bytes.drop pos))) := by
  unfold readPush? Chunk.readPush
  rw [List.length_drop]
  by_cases h : length ≤ bytes.length - pos
  · have hstop : pos + length ≤ bytes.length := by omega
    have hbehind : bytes.length - ((bytes.drop pos).drop length).length = pos + length := by
      simp only [List.length_drop]
      omega
    rw [if_pos h, if_pos hstop, Row.slice?_of_le hstop, located, ← hbehind]
    rfl
  · rw [if_neg h, if_neg (by omega)]
    rfl

theorem lengthWidth_le (encoding : PushEncoding) : encoding.lengthWidth ≤ 8 := by
  cases encoding <;> decide

/-- A push with a length field. -/
theorem read_of_field {byte : UInt8} (hpush : Opcode.isPush ⟨byte⟩ = true)
    (hfield : PushEncoding.ofByte byte ≠ .implicit) (rest : Bytes) :
    Chunk.read byte rest
      = if (PushEncoding.ofByte byte).lengthWidth ≤ rest.length then
          Chunk.readPush (PushEncoding.ofByte byte)
            (LittleEndian.decode (rest.take (PushEncoding.ofByte byte).lengthWidth))
            (rest.drop (PushEncoding.ofByte byte).lengthWidth)
        else .error .truncated := by
  rw [Chunk.read, if_pos hpush]
  generalize PushEncoding.ofByte byte = encoding at *
  cases encoding with
  | implicit => exact absurd rfl hfield
  | _ => rfl

theorem readChunk?_eq {bytes : Bytes} {pos : Nat} (hpos : pos < bytes.length) :
    readChunk? bytes pos
      = some (located bytes (Chunk.read bytes[pos] (bytes.drop (pos + 1)))) := by
  rw [readChunk?, List.getElem?_eq_getElem hpos, Option.bind_eq_bind, Option.bind_some]
  generalize bytes[pos] = byte
  by_cases hpush : Opcode.isPush ⟨byte⟩ = true
  · rw [if_pos hpush]
    dsimp only
    by_cases himplicit : PushEncoding.ofByte byte = .implicit
    · rw [if_pos himplicit, Chunk.read, if_pos hpush, himplicit]
      exact readPush?_eq hpos
    · rw [if_neg himplicit, readLength?_eq (lengthWidth_le _) hpos,
        read_of_field hpush himplicit]
      by_cases hfield : (PushEncoding.ofByte byte).lengthWidth ≤ (bytes.drop (pos + 1)).length
      · rw [if_pos hfield, if_pos hfield, List.drop_drop]
        rw [List.length_drop] at hfield
        exact readPush?_eq (by omega)
      · rw [if_neg hfield, if_neg hfield]
        rfl
  · have hbehind : bytes.length - (bytes.drop (pos + 1)).length = pos + 1 := by
      rw [List.length_drop]
      omega
    rw [if_neg hpush, Chunk.read, if_neg hpush]
    exact congrArg (fun next => some (Except.ok (Chunk.op ⟨byte⟩, next))) hbehind.symm

/-- The position moves on by the size of the chunk that is found, and stays inside the bytes. -/
theorem readChunk?_of_ok {bytes : Bytes} {pos : Nat} {c : Chunk} {after : Bytes}
    (hpos : pos < bytes.length)
    (h : Chunk.read bytes[pos] (bytes.drop (pos + 1)) = .ok (c, after)) :
    readChunk? bytes pos = some (.ok (c, pos + c.size)) ∧ pos + c.size ≤ bytes.length ∧
      after = bytes.drop (pos + c.size) := by
  obtain ⟨-, hbytes⟩ := Chunk.encode_of_read h
  rw [← List.drop_eq_getElem_cons hpos] at hbytes
  have hlength := congrArg List.length hbytes
  rw [List.length_append, Chunk.length_encode, List.length_drop] at hlength
  have hnext : bytes.length - after.length = pos + c.size := by omega
  refine ⟨?_, by omega, ?_⟩
  · rw [readChunk?_eq hpos, h, ← hnext]
    rfl
  · rw [← List.drop_drop, ← hbytes, List.drop_left' (Chunk.length_encode c)]

theorem lt_of_readChunk? {bytes : Bytes} {pos next : Nat} {c : Chunk}
    (hpos : pos < bytes.length) (h : readChunk? bytes pos = some (.ok (c, next))) :
    pos < next := by
  cases hread : Chunk.read bytes[pos] (bytes.drop (pos + 1)) with
  | error fault =>
      rw [readChunk?_eq hpos, hread] at h
      cases h
  | ok found =>
      rw [(readChunk?_of_ok hpos hread).1] at h
      cases h
      have hsize := found.1.size_pos
      omega

/-- The chunks from a position on. -/
def parseFrom? (bytes : Bytes) (pos : Nat) : Option (Except ParseError (List Chunk)) :=
  if hpos : pos < bytes.length then
    match h : readChunk? bytes pos with
    | none => none
    | some (.error fault) => some (.error ⟨pos, fault⟩)
    | some (.ok (c, next)) =>
      have : pos < next := lt_of_readChunk? hpos h
      (parseFrom? bytes next).map fun r => r.map (c :: ·)
  else some (.ok [])
  termination_by bytes.length - pos

theorem parseChunksAt_of_error {offset : Nat} {byte : UInt8} {rest : Bytes} {fault : ChunkFault}
    (h : Chunk.read byte rest = .error fault) :
    parseChunksAt offset (byte :: rest) = .error ⟨offset, fault⟩ := by
  rw [parseChunksAt]
  split
  · rename_i e
    rw [h] at e
    cases e
    rfl
  · rename_i e
    rw [h] at e
    cases e

theorem parseChunksAt_of_ok {offset : Nat} {byte : UInt8} {rest after : Bytes} {c : Chunk}
    (h : Chunk.read byte rest = .ok (c, after)) :
    parseChunksAt offset (byte :: rest)
      = (parseChunksAt (offset + c.size) after).map (c :: ·) := by
  rw [parseChunksAt]
  split
  · rename_i e
    rw [h] at e
    cases e
  · rename_i e
    rw [h] at e
    cases e
    cases parseChunksAt (offset + c.size) after <;> rfl

theorem parseFrom?_of_error {bytes : Bytes} {pos : Nat} {fault : ChunkFault}
    (hpos : pos < bytes.length) (h : readChunk? bytes pos = some (.error fault)) :
    parseFrom? bytes pos = some (.error ⟨pos, fault⟩) := by
  rw [parseFrom?, dif_pos hpos]
  split
  · rename_i e
    rw [h] at e
    cases e
  · rename_i e
    rw [h] at e
    cases e
    rfl
  · rename_i e
    rw [h] at e
    cases e

theorem parseFrom?_of_ok {bytes : Bytes} {pos next : Nat} {c : Chunk}
    (hpos : pos < bytes.length) (h : readChunk? bytes pos = some (.ok (c, next))) :
    parseFrom? bytes pos = (parseFrom? bytes next).map fun r => r.map (c :: ·) := by
  rw [parseFrom?, dif_pos hpos]
  split
  · rename_i e
    rw [h] at e
    cases e
  · rename_i e
    rw [h] at e
    cases e
  · rename_i e
    rw [h] at e
    cases e
    rfl

theorem parseFrom?_eq {bytes : Bytes} {pos : Nat} (hpos : pos ≤ bytes.length) :
    parseFrom? bytes pos = some (parseChunksAt pos (bytes.drop pos)) := by
  induction hcount : bytes.length - pos using Nat.strongRecOn generalizing pos with
  | ind count ih =>
    by_cases hmore : pos < bytes.length
    · rw [List.drop_eq_getElem_cons hmore]
      cases hread : Chunk.read bytes[pos] (bytes.drop (pos + 1)) with
      | error fault =>
          have hfound : readChunk? bytes pos = some (.error fault) := by
            rw [readChunk?_eq hmore, hread]
            rfl
          rw [parseFrom?_of_error hmore hfound, parseChunksAt_of_error hread]
      | ok found =>
          obtain ⟨hfound, hnext, hafter⟩ := readChunk?_of_ok hmore hread
          have hsize := found.1.size_pos
          have hrest := ih (bytes.length - (pos + found.1.size)) (by omega) hnext rfl
          rw [parseFrom?_of_ok hmore hfound, hrest, parseChunksAt_of_ok hread, hafter]
          rfl
    · rw [parseFrom?, dif_neg hmore, List.drop_eq_nil_of_le (Nat.le_of_not_lt hmore), parseChunksAt]

theorem canonical_of_parseFrom? {bytes : Bytes} {chunks : List Chunk}
    (h : parseFrom? bytes 0 = some (.ok chunks)) : ∀ c ∈ chunks, c.Canonical := by
  rw [parseFrom?_eq (Nat.zero_le _), Option.some.injEq] at h
  exact (encodeChunks_of_parseChunksAt h).2

/-- The script that the bytes spell. -/
def parse? (bytes : Bytes) : Option (Except ParseError Script) :=
  match h : parseFrom? bytes 0 with
  | none => none
  | some (.error e) => some (.error e)
  | some (.ok chunks) => some (.ok ⟨chunks, canonical_of_parseFrom? h⟩)

theorem parse?_eq (bytes : Bytes) : parse? bytes = some (Script.parse bytes) := by
  have hfrom : parseFrom? bytes 0 = some (parseChunks bytes) := by
    rw [parseFrom?_eq (Nat.zero_le _), List.drop_zero, parseChunks]
  unfold parse? Script.parse
  split <;> split <;> simp_all

end TxScript.Indexed
