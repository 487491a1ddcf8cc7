import TxScript.Proofs.Wire.Streaming

/-!
# Forms of a compact size

A compact size can be written in any of four forms that has room for it. The reader takes every
form, and what it takes is the number in some form; the writer picks the shortest one, and only that
form is as short. Fixed fields have one form, so what is taken is what is written, and where fewer
bytes are left, none of them are taken.
-/

namespace TxScript

/-! ## Fixed fields -/

namespace Wire

variable {count width n : Nat} {bs input rest : Bytes}

theorem take_eq_ok : take count input = .ok bs rest ↔ bs.length = count ∧ input = bs ++ rest := by
  constructor
  · intro h
    unfold take at h
    split at h
    · rename_i hcount
      cases h
      exact ⟨List.length_take_of_le hcount, (List.take_append_drop count input).symm⟩
    · cases h
  · rintro ⟨hlength, rfl⟩
    exact take_append hlength rest

theorem number_eq_ok :
    number width input = .ok n rest ↔
      n < LittleEndian.limit width ∧ input = LittleEndian.encode width n ++ rest := by
  constructor
  · intro h
    obtain ⟨bs, htake, rfl⟩ := Reader.bind_pure_eq_ok.1 h
    obtain ⟨rfl, rfl⟩ := take_eq_ok.1 htake
    exact ⟨LittleEndian.decode_lt bs, by rw [LittleEndian.encode_decode]⟩
  · rintro ⟨hn, rfl⟩
    exact number_append hn rest

theorem u8_eq_ok {b : UInt8} : u8 input = .ok b rest ↔ input = b :: rest := by
  constructor
  · intro h
    obtain ⟨n, hnumber, rfl⟩ := Reader.bind_pure_eq_ok.1 h
    obtain ⟨hn, rfl⟩ := number_eq_ok.1 hnumber
    rfl
  · rintro rfl
    exact u8_cons b rest

theorem u16_eq_ok {value : UInt16} :
    u16 input = .ok value rest ↔ input = LittleEndian.encode 2 value.toNat ++ rest := by
  constructor
  · intro h
    obtain ⟨n, hnumber, rfl⟩ := Reader.bind_pure_eq_ok.1 h
    obtain ⟨hn, rfl⟩ := number_eq_ok.1 hnumber
    rw [UInt16.toNat_ofNat_of_lt' hn]
  · rintro rfl
    exact Reader.bind_pure_eq_ok.2
      ⟨value.toNat, number_append value.toNat_lt rest, UInt16.ofNat_toNat⟩

theorem u32_eq_ok {value : UInt32} :
    u32 input = .ok value rest ↔ input = LittleEndian.encode 4 value.toNat ++ rest := by
  constructor
  · intro h
    obtain ⟨n, hnumber, rfl⟩ := Reader.bind_pure_eq_ok.1 h
    obtain ⟨hn, rfl⟩ := number_eq_ok.1 hnumber
    rw [UInt32.toNat_ofNat_of_lt' hn]
  · rintro rfl
    exact u32_append value rest

theorem u64_eq_ok {value : UInt64} :
    u64 input = .ok value rest ↔ input = LittleEndian.encode 8 value.toNat ++ rest := by
  constructor
  · intro h
    obtain ⟨n, hnumber, rfl⟩ := Reader.bind_pure_eq_ok.1 h
    obtain ⟨hn, rfl⟩ := number_eq_ok.1 hnumber
    rw [UInt64.toNat_ofNat_of_lt' hn]
  · rintro rfl
    exact u64_append value rest

variable {e : ReadError}

theorem take_eq_error : take count input = .error e rest ↔ input.length < count ∧ rest = input := by
  by_cases h : input.length < count
  · cases e
    rw [take_of_lt h]
    simp [h, eq_comm]
  · have hok : take count input = .ok (input.take count) (input.drop count) :=
      if_pos (Nat.le_of_not_lt h)
    simp [hok, h]

theorem number_eq_error :
    number width input = .error e rest ↔ input.length < width ∧ rest = input :=
  Reader.bind_pure_eq_error.trans take_eq_error

theorem u8_eq_error : u8 input = .error e rest ↔ input.length < 1 ∧ rest = input :=
  Reader.bind_pure_eq_error.trans number_eq_error

end Wire

/-! ## Compact sizes -/

namespace CompactSize

/-- The forms by what stands in them: a byte alone, or so many bytes behind a marker. -/
inductive Form where
  | alone
  | two
  | four
  | eight
  deriving DecidableEq, Repr

namespace Form

/-- The least number for which the form has no room. -/
def limit : Form → Nat
  | .alone => 0xfd
  | .two => 0x10000
  | .four => 0x100000000
  | .eight => UInt64.size

/-- Number of bytes, with the marker. -/
def size : Form → Nat
  | .alone => 1
  | .two => 3
  | .four => 5
  | .eight => 9

def encode : Form → Nat → Bytes
  | .alone, n => [UInt8.ofNat n]
  | .two, n => 0xfd :: LittleEndian.encode 2 n
  | .four, n => 0xfe :: LittleEndian.encode 4 n
  | .eight, n => 0xff :: LittleEndian.encode 8 n

/-- The form that the writer picks. -/
def shortest (n : Nat) : Form :=
  if n < 0xfd then .alone
  else if n < 0x10000 then .two
  else if n < 0x100000000 then .four
  else .eight

variable {form other : Form} {n : Nat}

@[simp] theorem length_encode (form : Form) (n : Nat) : (form.encode n).length = form.size := by
  cases form <;> simp [encode, size]

theorem encode_shortest (n : Nat) : (shortest n).encode n = CompactSize.encode n := by
  unfold shortest CompactSize.encode
  split
  · rfl
  · split
    · rfl
    · split <;> rfl

theorem eq_of_size_eq (h : form.size = other.size) : form = other := by
  cases form <;> cases other <;> simp [size] at h ⊢

/-- A form with room is no shorter than the one that the writer picks. -/
theorem size_shortest_le (h : n < form.limit) : (shortest n).size ≤ form.size := by
  by_cases hone : n < 0xfd
  · cases form <;> simp [shortest, hone, size]
  by_cases htwo : n < 0x10000
  · cases form with
    | alone => exact absurd h hone
    | _ => simp [shortest, hone, htwo, size]
  by_cases hfour : n < 0x100000000
  · cases form with
    | alone => exact absurd h hone
    | two => exact absurd h htwo
    | _ => simp [shortest, hone, htwo, hfour, size]
  · cases form with
    | alone => exact absurd h hone
    | two => exact absurd h htwo
    | four => exact absurd h hfour
    | eight => simp [shortest, hone, htwo, hfour, size]

theorem limit_le (form : Form) : form.limit ≤ UInt64.size := by
  cases form <;> decide

end Form

variable {n : Nat} {form : Form} {input rest : Bytes}

theorem read_of_marker {marker : UInt8} :
    read (marker :: rest) =
      (if marker = 0xff then Wire.number 8
        else if marker = 0xfe then Wire.number 4
        else if marker = 0xfd then Wire.number 2
        else pure marker.toNat) rest :=
  Reader.bind_of_ok (Wire.u8_cons marker rest)

/-- The reader takes the number in every form with room for it. -/
theorem read_form (h : n < form.limit) (rest : Bytes) :
    read (form.encode n ++ rest) = .ok n rest := by
  cases form with
  | alone =>
      have h : n < 0xfd := h
      have hbyte : (UInt8.ofNat n).toNat = n := by
        rw [UInt8.toNat_ofNat']
        omega
      have hne : ∀ marker : UInt8, 0xfd ≤ marker.toNat → UInt8.ofNat n ≠ marker := by
        rintro marker hmarker rfl
        omega
      have hread : read (UInt8.ofNat n :: rest) = .ok (UInt8.ofNat n).toNat rest := by
        rw [read_of_marker, if_neg (hne 0xff (by decide)), if_neg (hne 0xfe (by decide)),
          if_neg (hne 0xfd (by decide))]
        rfl
      rwa [hbyte] at hread
  | two => exact read_of_marker.trans (Wire.number_append h rest)
  | four => exact read_of_marker.trans (Wire.number_append h rest)
  | eight => exact read_of_marker.trans (Wire.number_append h rest)

/-- What the reader takes is the number in a form with room for it. -/
theorem read_eq_ok :
    read input = .ok n rest ↔ ∃ form : Form, n < form.limit ∧ input = form.encode n ++ rest := by
  constructor
  · intro h
    obtain ⟨marker, middle, hmarker, hread⟩ := Reader.bind_eq_ok.1 h
    obtain rfl := Wire.u8_eq_ok.1 hmarker
    split at hread
    · rename_i hff
      obtain ⟨hn, rfl⟩ := Wire.number_eq_ok.1 hread
      exact ⟨.eight, hn, by rw [hff]; rfl⟩
    · split at hread
      · rename_i hfe
        obtain ⟨hn, rfl⟩ := Wire.number_eq_ok.1 hread
        exact ⟨.four, hn, by rw [hfe]; rfl⟩
      · split at hread
        · rename_i hfd
          obtain ⟨hn, rfl⟩ := Wire.number_eq_ok.1 hread
          exact ⟨.two, hn, by rw [hfd]; rfl⟩
        · rename_i hff hfe hfd
          cases hread
          have hlt := marker.toNat_lt
          simp only [← UInt8.toNat_inj, UInt8.reduceToNat] at hff hfe hfd
          refine ⟨.alone, ?_, ?_⟩
          · show marker.toNat < 0xfd
            omega
          · show marker :: rest = UInt8.ofNat marker.toNat :: rest
            rw [UInt8.ofNat_toNat]
  · rintro ⟨form, hn, rfl⟩
    exact read_form hn rest

/-- Where one of two begins and the other does too, they are one number in one form. -/
theorem Form.encode_append_inj {other : Form} {m : Nat} {left : Bytes} (hn : n < form.limit)
    (hm : m < other.limit) (h : form.encode n ++ rest = other.encode m ++ left) :
    form = other ∧ n = m ∧ rest = left := by
  -- Reading gives the numbers and what is left; the forms are then told apart by their lengths.
  have hread : read (form.encode n ++ rest) = .ok n rest := read_form hn rest
  rw [h, read_form hm left] at hread
  injection hread with hnumber hrest
  subst hnumber hrest
  have hlength := congrArg List.length (List.append_cancel_right h)
  rw [length_encode, length_encode] at hlength
  exact ⟨eq_of_size_eq hlength, rfl, rfl⟩

end CompactSize

theorem Wire.varBytes_eq_ok {bs input rest : Bytes} :
    varBytes input = .ok bs rest ↔
      ∃ form : CompactSize.Form, bs.length < form.limit ∧
        input = form.encode bs.length ++ (bs ++ rest) := by
  constructor
  · intro h
    obtain ⟨count, middle, hcount, htake⟩ := Reader.bind_eq_ok.1 h
    obtain ⟨form, hform, rfl⟩ := CompactSize.read_eq_ok.1 hcount
    obtain ⟨rfl, rfl⟩ := take_eq_ok.1 htake
    exact ⟨form, hform, rfl⟩
  · rintro ⟨form, hform, rfl⟩
    exact (Reader.bind_of_ok (CompactSize.read_form hform _)).trans (take_append rfl rest)

end TxScript
