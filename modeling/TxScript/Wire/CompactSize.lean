import TxScript.Wire.Reader

/-!
# Compact sizes

The number in front of every list and every variable-length field. It takes one, three, five or
nine bytes; the longer forms start with a marker byte. The writer picks the shortest form and the
reader takes any.
-/

namespace TxScript.CompactSize

/-- Number of bytes of the shortest form. -/
def size (n : Nat) : Nat :=
  if n < 0xfd then 1
  else if n < 0x10000 then 3
  else if n < 0x100000000 then 5
  else 9

def encode (n : Nat) : Bytes :=
  if n < 0xfd then [UInt8.ofNat n]
  else if n < 0x10000 then 0xfd :: LittleEndian.encode 2 n
  else if n < 0x100000000 then 0xfe :: LittleEndian.encode 4 n
  else 0xff :: LittleEndian.encode 8 n

/-- A marker that announces more bytes than are left stays taken when the read fails. -/
def read : Reader Wire.ReadError Nat := do
  let marker ← Wire.u8
  if marker = 0xff then Wire.number 8
  else if marker = 0xfe then Wire.number 4
  else if marker = 0xfd then Wire.number 2
  else return marker.toNat

/-- The number at the front of a byte string, and how many bytes it takes there. -/
def decode (bs : Bytes) : Except Wire.ReadError (Nat × Nat) :=
  match read bs with
  | .ok n rest => .ok (n, bs.length - rest.length)
  | .error e _ => .error e

theorem length_encode (n : Nat) : (encode n).length = size n := by
  unfold encode size
  split
  · rfl
  · split
    · simp
    · split <;> simp

/-- The shortest form reads back, whatever follows it. -/
theorem read_append {n : Nat} (h : n < UInt64.size) (rest : Bytes) :
    read (encode n ++ rest) = .ok n rest := by
  unfold encode
  split
  · rename_i hn
    have h1 : UInt8.ofNat n ≠ 0xff ∧ UInt8.ofNat n ≠ 0xfe ∧ UInt8.ofNat n ≠ 0xfd := by
      refine ⟨?_, ?_, ?_⟩ <;> intro e <;> have := congrArg UInt8.toNat e <;> simp at this <;> omega
    simp [read, bind, EStateM.bind, Wire.u8_cons, h1, pure, EStateM.pure]
    omega
  · split
    · rename_i hn
      simp [read, bind, EStateM.bind, Wire.u8_cons]
      exact Wire.number_append (Nat.lt_of_lt_of_le hn (by decide)) rest
    · split
      · rename_i hn
        simp [read, bind, EStateM.bind, Wire.u8_cons]
        exact Wire.number_append (Nat.lt_of_lt_of_le hn (by decide)) rest
      · simp [read, bind, EStateM.bind, Wire.u8_cons]
        exact Wire.number_append (Nat.lt_of_lt_of_le h (by decide)) rest

end TxScript.CompactSize

namespace TxScript.Wire

/-- A byte string behind its length. When only the payload is missing, the length stays taken. -/
def varBytes : Reader ReadError Bytes := do
  let count ← CompactSize.read
  take count

def encodeVarBytes (bs : Bytes) : Bytes :=
  CompactSize.encode bs.length ++ bs

theorem varBytes_append {bs : Bytes} (h : bs.length < UInt64.size) (rest : Bytes) :
    varBytes (encodeVarBytes bs ++ rest) = .ok bs rest := by
  simp [varBytes, encodeVarBytes, bind, EStateM.bind, CompactSize.read_append h, take_append rfl]

end TxScript.Wire
