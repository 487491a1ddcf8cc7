import TxScript.Script.Chunk

/-!
# Reading chunks

Bytes are split into chunks from the front. A byte up to 4e starts a push, every other byte is an
opcode; nothing else is checked. A script that ends inside a chunk is refused with the offset of
that chunk. Canonical chunks read back from their bytes, and whatever is read is canonical and has
the bytes that it was read from.
-/

namespace TxScript

/-- How the bytes end inside a chunk. -/
inductive ChunkFault where
  /-- The length field is not complete. -/
  | truncated
  /-- Fewer bytes are left than the push announces. -/
  | pushOutOfBounds (length : Nat)
  deriving DecidableEq, Repr

structure ParseError where
  offset : Nat
  fault : ChunkFault
  deriving DecidableEq, Repr

def ParseError.message (e : ParseError) : String :=
  match e.fault with
  | .truncated => "script truncated at offset " ++ toString e.offset
  | .pushOutOfBounds length =>
    "push of " ++ toString length ++ " bytes at offset " ++ toString e.offset
      ++ " runs past the end of the script"

namespace Chunk

/-- A push of the announced length, and what follows it. -/
def readPush (enc : PushEncoding) (length : Nat) (input : Bytes) :
    Except ChunkFault (Chunk × Bytes) :=
  if length ≤ input.length then .ok (.push enc (input.take length), input.drop length)
  else .error (.pushOutOfBounds length)

/-- The chunk that starts with the given byte, and what follows it. -/
def read (byte : UInt8) (rest : Bytes) : Except ChunkFault (Chunk × Bytes) :=
  if Opcode.isPush ⟨byte⟩ then
    match PushEncoding.ofByte byte with
    | .implicit => readPush .implicit byte.toNat rest
    | enc =>
      if enc.lengthWidth ≤ rest.length then
        readPush enc (LittleEndian.decode (rest.take enc.lengthWidth)) (rest.drop enc.lengthWidth)
      else .error .truncated
  else .ok (.op ⟨byte⟩, rest)

theorem length_readPush_le {enc : PushEncoding} {length : Nat} {input : Bytes} {c : Chunk}
    {after : Bytes} (h : readPush enc length input = .ok (c, after)) :
    after.length ≤ input.length := by
  unfold readPush at h
  split at h
  · cases h
    simp
  · cases h

theorem length_read_le {byte : UInt8} {rest : Bytes} {c : Chunk} {after : Bytes}
    (h : read byte rest = .ok (c, after)) : after.length ≤ rest.length := by
  unfold read at h
  split at h
  · split at h
    · exact length_readPush_le h
    · split at h
      · exact Nat.le_trans (length_readPush_le h) (by simp)
      · cases h
  · cases h
    exact Nat.le_refl _

theorem readPush_append {enc : PushEncoding} (data rest : Bytes) :
    readPush enc data.length (data ++ rest) = .ok (.push enc data, rest) := by
  simp [readPush]

/-- Behind a complete header comes the data that it announces, if there is as much. -/
theorem read_header {enc : PushEncoding} {length : Nat} (h : length ≤ enc.capacity)
    (rest : Bytes) :
    ∃ byte tail, enc.header length ++ rest = byte :: tail ∧
      read byte tail = readPush enc length rest := by
  refine ⟨(enc.opcode length).byte, LittleEndian.encode enc.lengthWidth length ++ rest, rfl, ?_⟩
  cases enc with
  | implicit =>
    have hd : length ≤ 75 := h
    have hb : (UInt8.ofNat length).toNat = length := by simp; omega
    have hle : UInt8.ofNat length ≤ 0x4b := by
      rw [UInt8.le_iff_toNat_le, hb]; exact hd
    have hp : Opcode.isPush ⟨UInt8.ofNat length⟩ = true := by
      simp only [Opcode.isPush, decide_eq_true_eq]
      exact UInt8.le_trans hle (by decide)
    have hne : ∀ b : UInt8, 0x4b < b → UInt8.ofNat length ≠ b := by
      intro b hb e
      subst e
      exact absurd hle (UInt8.not_le.2 hb)
    have ho : PushEncoding.ofByte (UInt8.ofNat length) = .implicit := by
      simp [PushEncoding.ofByte, Opcode.pushData1, Opcode.pushData2, Opcode.pushData4,
        hne 0x4c (by decide), hne 0x4d (by decide), hne 0x4e (by decide)]
    simp only [read, PushEncoding.opcode, hp, ho, if_true, hb, PushEncoding.lengthWidth,
      LittleEndian.encode, List.nil_append]
  | _ =>
    simp [read, PushEncoding.opcode, Opcode.isPush, PushEncoding.ofByte, Opcode.pushData1,
      Opcode.pushData2, Opcode.pushData4, PushEncoding.lengthWidth]
    rw [LittleEndian.decode_encode (Nat.lt_of_le_of_lt h (by decide))]

/-- A canonical chunk reads back from the front of any bytes. -/
theorem read_append {c : Chunk} (h : c.Canonical) (rest : Bytes) :
    ∃ byte tail, c.encode ++ rest = byte :: tail ∧ read byte tail = .ok (c, rest) := by
  cases c with
  | op o =>
    refine ⟨o.byte, rest, rfl, ?_⟩
    have ho : o.isPush = false := h
    simp [read, ho]
  | push enc data =>
    have hd : data.length ≤ enc.capacity := h
    obtain ⟨byte, tail, hb, hr⟩ := read_header hd (data ++ rest)
    refine ⟨byte, tail, ?_, ?_⟩
    · rw [← hb, encode, PushEncoding.fitted_of_le hd, List.append_assoc]
    · rw [hr]
      exact readPush_append data rest

theorem encode_of_readPush {enc : PushEncoding} {length : Nat} {input : Bytes} {c : Chunk}
    {after : Bytes} (hl : length ≤ enc.capacity) (h : readPush enc length input = .ok (c, after)) :
    c.Canonical ∧ c.encode ++ after = enc.header length ++ input := by
  unfold readPush at h
  split at h
  · rename_i hle
    cases h
    have hlen : (input.take length).length = length := by simp [hle]
    refine ⟨by simpa [Canonical, hlen] using hl, ?_⟩
    simp only [encode, hlen, PushEncoding.fitted_of_le hl, List.append_assoc, List.take_append_drop]
  · cases h

/-- What is read off the front is canonical, and its bytes are those that were taken. -/
theorem encode_of_read {byte : UInt8} {rest : Bytes} {c : Chunk} {after : Bytes}
    (h : read byte rest = .ok (c, after)) : c.Canonical ∧ c.encode ++ after = byte :: rest := by
  unfold read at h
  split at h
  · rename_i hp
    obtain ⟨hopcode, hsmall⟩ := PushEncoding.opcode_ofByte (by simpa [Opcode.isPush] using hp)
    split at h
    · rename_i he
      rw [he] at hopcode hsmall
      obtain ⟨hc, hb⟩ := encode_of_readPush (hsmall rfl) h
      exact ⟨hc, by rw [hb, PushEncoding.header, hopcode]; rfl⟩
    · split at h
      · rename_i he hw
        generalize PushEncoding.ofByte byte = enc at *
        have hlen : (rest.take enc.lengthWidth).length = enc.lengthWidth := by
          rw [List.length_take, Nat.min_eq_left hw]
        have hlt := LittleEndian.decode_lt (rest.take enc.lengthWidth)
        have hed := LittleEndian.encode_decode (rest.take enc.lengthWidth)
        rw [hlen] at hlt hed
        obtain ⟨hc, hb⟩ := encode_of_readPush (PushEncoding.le_capacity_of_lt he hlt) h
        refine ⟨hc, ?_⟩
        rw [hb, PushEncoding.header, hed, PushEncoding.opcode_eq_of_ne he _ byte.toNat, hopcode]
        simp
      · cases h
  · rename_i hp
    cases h
    exact ⟨by simpa [Canonical] using hp, rfl⟩

end Chunk

/-- The chunks of bytes that start at the given offset of a script. -/
def parseChunksAt (offset : Nat) (input : Bytes) : Except ParseError (List Chunk) :=
  match input with
  | [] => .ok []
  | byte :: rest =>
    match h : Chunk.read byte rest with
    | .error fault => .error ⟨offset, fault⟩
    | .ok (c, after) =>
      have : after.length ≤ rest.length := Chunk.length_read_le h
      match parseChunksAt (offset + c.size) after with
      | .error e => .error e
      | .ok cs => .ok (c :: cs)
  termination_by input.length

def parseChunks (input : Bytes) : Except ParseError (List Chunk) :=
  parseChunksAt 0 input

theorem parseChunksAt_encodeChunks (offset : Nat) {cs : List Chunk} (h : ∀ c ∈ cs, c.Canonical) :
    parseChunksAt offset (encodeChunks cs) = .ok cs := by
  induction cs generalizing offset with
  | nil => simp [parseChunksAt]
  | cons c cs ih =>
    obtain ⟨byte, tail, hb, hr⟩ := Chunk.read_append (h c (by simp)) (encodeChunks cs)
    rw [encodeChunks_cons, hb, parseChunksAt]
    split
    · rename_i e
      rw [hr] at e
      cases e
    · rename_i e
      rw [hr] at e
      cases e
      rw [ih _ fun c hc => h c (by simp [hc])]

theorem encodeChunks_of_parseChunksAt {offset : Nat} {input : Bytes} {cs : List Chunk}
    (h : parseChunksAt offset input = .ok cs) :
    encodeChunks cs = input ∧ ∀ c ∈ cs, c.Canonical := by
  fun_induction parseChunksAt offset input generalizing cs with
  | case1 => cases h; simp
  | case2 => cases h
  | case3 => cases h
  | case4 offset byte rest c after hr hle cs' hp ih =>
    cases h
    obtain ⟨hc, hb⟩ := Chunk.encode_of_read hr
    obtain ⟨he, hall⟩ := ih hp
    exact ⟨by rw [encodeChunks_cons, he, hb], by simpa [hc] using hall⟩

end TxScript
