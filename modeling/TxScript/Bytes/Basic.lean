/-!
# Byte strings and fixed-width numbers

Byte strings are lists, so that concatenation and recursion are those of lists. Numbers of a fixed
width are written and read in little-endian and in big-endian order; `decode_encode` and
`encode_decode` say that the two directions undo each other within the width.
-/

namespace TxScript

abbrev Bytes := List UInt8

namespace LittleEndian

/-- The low `width` base-256 digits of a number, least significant first. -/
def encode : (width n : Nat) → Bytes
  | 0, _ => []
  | width + 1, n => UInt8.ofNat n :: encode width (n / 256)

def decode : Bytes → Nat
  | [] => 0
  | b :: rest => b.toNat + 256 * decode rest

/-- The least number that does not fit into the width. -/
def limit : (width : Nat) → Nat
  | 0 => 1
  | width + 1 => 256 * limit width

@[simp] theorem length_encode (width n : Nat) : (encode width n).length = width := by
  induction width generalizing n with
  | zero => rfl
  | succ width ih => simp [encode, ih]

theorem decode_encode {width n : Nat} (h : n < limit width) : decode (encode width n) = n := by
  induction width generalizing n with
  | zero =>
    have h0 : n = 0 := Nat.lt_one_iff.1 h
    simp [encode, decode, h0]
  | succ width ih =>
    have hq : n / 256 < limit width := Nat.div_lt_of_lt_mul h
    simp only [encode, decode, ih hq, UInt8.toNat_ofNat']
    omega

theorem encode_inj {width m n : Nat} (hm : m < limit width) (hn : n < limit width)
    (h : encode width m = encode width n) : m = n := by
  rw [← decode_encode hm, ← decode_encode hn, h]

theorem decode_lt (bs : Bytes) : decode bs < limit bs.length := by
  induction bs with
  | nil => exact Nat.one_pos
  | cons b rest ih =>
    have hb := b.toNat_lt
    simp only [decode, List.length_cons, limit]
    omega

theorem encode_decode (bs : Bytes) : encode bs.length (decode bs) = bs := by
  induction bs with
  | nil => rfl
  | cons b rest ih =>
    have hb := b.toNat_lt
    have hq : (b.toNat + 256 * decode rest) / 256 = decode rest := by omega
    have hd : UInt8.ofNat (b.toNat + 256 * decode rest) = b := by
      apply UInt8.toNat_inj.1
      simp only [UInt8.toNat_ofNat']
      omega
    simp [encode, decode, hq, hd, ih]

theorem decode_append (as bs : Bytes) :
    decode (as ++ bs) = decode as + limit as.length * decode bs := by
  induction as with
  | nil => simp [decode, limit]
  | cons a rest ih =>
    simp only [List.cons_append, decode, ih, List.length_cons, limit, Nat.mul_add, Nat.add_assoc,
      Nat.mul_assoc]

theorem decode_concat (low : Bytes) (top : UInt8) :
    decode (low ++ [top]) = decode low + limit low.length * top.toNat := by
  simp [decode_append, decode]

theorem decode_zeros (count : Nat) : decode (List.replicate count 0) = 0 := by
  induction count with
  | zero => rfl
  | succ count ih => simp [List.replicate_succ, decode, ih]

/-- Zeros above the digits of a number. -/
theorem decode_append_zeros (digits : Bytes) (count : Nat) :
    decode (digits ++ List.replicate count 0) = decode digits := by
  rw [decode_append, decode_zeros, Nat.mul_zero, Nat.add_zero]

theorem limit_le_limit {a b : Nat} (h : a ≤ b) : limit a ≤ limit b := by
  induction h with
  | refl => exact Nat.le_refl _
  | step _ ih =>
    rw [limit]
    omega

theorem lt_of_limit_lt_limit {a b : Nat} (h : limit a < limit b) : a < b :=
  Nat.lt_of_not_le fun hle => Nat.not_lt.2 (limit_le_limit hle) h

end LittleEndian

namespace BigEndian

/-- The low `width` base-256 digits of a number, most significant first. -/
def encode (width n : Nat) : Bytes :=
  (LittleEndian.encode width n).reverse

def decode (bs : Bytes) : Nat :=
  LittleEndian.decode bs.reverse

@[simp] theorem length_encode (width n : Nat) : (encode width n).length = width := by
  simp [encode]

theorem decode_encode {width n : Nat} (h : n < LittleEndian.limit width) :
    decode (encode width n) = n := by
  simp [encode, decode, LittleEndian.decode_encode h]

theorem encode_decode (bs : Bytes) : encode bs.length (decode bs) = bs := by
  have h := LittleEndian.encode_decode bs.reverse
  rw [List.length_reverse] at h
  simp [encode, decode, h]

theorem decode_zeros_append (digits : Bytes) (count : Nat) :
    decode (List.replicate count 0 ++ digits) = decode digits := by
  rw [decode, List.reverse_append, List.reverse_replicate, LittleEndian.decode_append_zeros, decode]

end BigEndian

end TxScript
