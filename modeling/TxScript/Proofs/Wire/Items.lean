import TxScript.Proofs.Wire.Announced
import TxScript.Wire.Item

/-!
# Items of all kinds, written and read

What spells an item is said apart from the reader: an item of a fixed width is its little-endian
digits, a compact size any of its forms, and a byte string stands behind any form of its length. A
read that succeeds has taken a spelling of what it gives and nothing else. The writer appends one
spelling after another, so reading the same kinds in the same order gives the items back.
-/

namespace TxScript.Wire

open CompactSize (Form)

/-- The bytes from which an item is read. -/
inductive Item.SpelledBy : Item → Bytes → Prop
  | u8 (v : UInt8) : SpelledBy (.u8 v) [v]
  | u16 (v : UInt16) : SpelledBy (.u16 v) (LittleEndian.encode 2 v.toNat)
  | u32 (v : UInt32) : SpelledBy (.u32 v) (LittleEndian.encode 4 v.toNat)
  | u64 (v : UInt64) : SpelledBy (.u64 v) (LittleEndian.encode 8 v.toNat)
  | compactSize (form : Form) (v : UInt64) (h : v.toNat < form.limit) :
    SpelledBy (.compactSize v) (form.encode v.toNat)
  | bytes (data : Bytes) : SpelledBy (.bytes data) data
  | varBytes (form : Form) (data : Bytes) (h : data.length < form.limit) :
    SpelledBy (.varBytes data) (form.encode data.length ++ data)

variable {item : Item} {kind : Kind} {part input rest : Bytes}

/-! ## One item -/

theorem Item.SpelledBy.read (h : item.SpelledBy part) (rest : Bytes) :
    item.kind.read (part ++ rest) = .ok item rest := by
  cases h with
  | u8 v => exact Reader.bind_of_ok (u8_cons v rest)
  | u16 v => exact Reader.bind_of_ok (u16_eq_ok.2 rfl)
  | u32 v => exact Reader.bind_of_ok (u32_append v rest)
  | u64 v => exact Reader.bind_of_ok (u64_append v rest)
  | compactSize form v h =>
      exact Reader.bind_pure_eq_ok.2 ⟨v.toNat, CompactSize.read_form h rest, by rw [UInt64.ofNat_toNat]⟩
  | bytes data => exact Reader.bind_of_ok (take_append rfl rest)
  | varBytes form data h =>
      exact Reader.bind_of_ok (varBytes_eq_ok.2 ⟨form, h, List.append_assoc _ _ _⟩)

theorem Kind.spelledBy_of_read (h : kind.read input = .ok item rest) :
    item.kind = kind ∧ ∃ part, item.SpelledBy part ∧ input = part ++ rest := by
  cases kind with
  | u8 =>
      obtain ⟨v, hread, rfl⟩ := Reader.bind_pure_eq_ok.1 h
      exact ⟨rfl, _, .u8 v, u8_eq_ok.1 hread⟩
  | u16 =>
      obtain ⟨v, hread, rfl⟩ := Reader.bind_pure_eq_ok.1 h
      exact ⟨rfl, _, .u16 v, u16_eq_ok.1 hread⟩
  | u32 =>
      obtain ⟨v, hread, rfl⟩ := Reader.bind_pure_eq_ok.1 h
      exact ⟨rfl, _, .u32 v, u32_eq_ok.1 hread⟩
  | u64 =>
      obtain ⟨v, hread, rfl⟩ := Reader.bind_pure_eq_ok.1 h
      exact ⟨rfl, _, .u64 v, u64_eq_ok.1 hread⟩
  | compactSize =>
      obtain ⟨n, hread, rfl⟩ := Reader.bind_pure_eq_ok.1 h
      obtain ⟨form, hform, rfl⟩ := CompactSize.read_eq_ok.1 hread
      have hn : (UInt64.ofNat n).toNat = n :=
        UInt64.toNat_ofNat_of_lt' (Nat.lt_of_lt_of_le hform form.limit_le)
      have hspelled := Item.SpelledBy.compactSize form (UInt64.ofNat n) (by rwa [hn])
      rw [hn] at hspelled
      exact ⟨rfl, _, hspelled, rfl⟩
  | bytes count =>
      obtain ⟨data, hread, rfl⟩ := Reader.bind_pure_eq_ok.1 h
      obtain ⟨rfl, rfl⟩ := take_eq_ok.1 hread
      exact ⟨rfl, _, .bytes data, rfl⟩
  | varBytes =>
      obtain ⟨data, hread, rfl⟩ := Reader.bind_pure_eq_ok.1 h
      obtain ⟨form, hform, rfl⟩ := varBytes_eq_ok.1 hread
      exact ⟨rfl, _, .varBytes form data hform, (List.append_assoc _ _ _).symm⟩

/-! ## The writer -/

/-- A byte string that is written behind its length has one that the wire can say. -/
def Item.Fits : Item → Prop
  | .varBytes data => data.length < UInt64.size
  | _ => True

instance : (item : Item) → Decidable item.Fits
  | .varBytes data => inferInstanceAs (Decidable (data.length < UInt64.size))
  | .u8 _ | .u16 _ | .u32 _ | .u64 _ | .compactSize _ | .bytes _ => isTrue trivial

theorem Item.write_eq (held : Bytes) (item : Item) : item.write held = held ++ item.encode := by
  cases item with
  | varBytes data => exact List.append_assoc _ _ _
  | _ => rfl

theorem foldl_write (items : List Item) (held : Bytes) :
    items.foldl Item.write held = held ++ encodeAll items := by
  induction items generalizing held with
  | nil => exact (List.append_nil held).symm
  | cons item items ih =>
      rw [List.foldl_cons, ih, Item.write_eq, List.append_assoc, encodeAll, encodeAll,
        List.flatMap_cons]

theorem written_eq (items : List Item) : written items = encodeAll items :=
  foldl_write items []

/-- What is written for an item spells it. -/
theorem Item.Fits.spelledBy (h : item.Fits) : item.SpelledBy item.encode := by
  cases item with
  | u8 v =>
      have hdigit : LittleEndian.encode 1 v.toNat = [v] := by simp [LittleEndian.encode]
      rw [Item.encode, hdigit]
      exact .u8 v
  | u16 v => exact .u16 v
  | u32 v => exact .u32 v
  | u64 v => exact .u64 v
  | compactSize v =>
      rw [Item.encode, ← Form.encode_shortest]
      exact .compactSize _ v (Form.lt_limit_shortest v.toNat_lt)
  | bytes data => exact .bytes data
  | varBytes data =>
      rw [Item.encode, encodeVarBytes, ← Form.encode_shortest]
      exact .varBytes _ data (Form.lt_limit_shortest h)

/-! ## Items one after another -/

theorem readAll_encodeAll {items : List Item} (h : ∀ item ∈ items, item.Fits) (rest : Bytes) :
    readAll (items.map Item.kind) (encodeAll items ++ rest) = .ok items rest := by
  induction items with
  | nil => rfl
  | cons item items ih =>
      have hfirst := (h item List.mem_cons_self).spelledBy.read (encodeAll items ++ rest)
      have hbehind := ih fun other hother => h other (List.mem_cons_of_mem item hother)
      rw [encodeAll, List.flatMap_cons, List.append_assoc]
      exact (Reader.bind_of_ok hfirst).trans (Reader.bind_of_ok hbehind)

/-- Items that were written one after another are read back by their kinds in the same order,
whatever follows them, and that is left. After the first of the reads, what the other items were
written as is left, and what follows it. -/
theorem readAll_of_written {items : List Item} (h : ∀ item ∈ items, item.Fits) (rest : Bytes) :
    readAll (items.map Item.kind) (written items ++ rest) = .ok items rest ∧
      ∀ front back, items = front ++ back →
        readAll (front.map Item.kind) (written items ++ rest) =
          .ok front (written back ++ rest) := by
  rw [written_eq]
  refine ⟨readAll_encodeAll h rest, ?_⟩
  rintro front back rfl
  rw [written_eq, encodeAll, List.flatMap_append, List.append_assoc]
  exact readAll_encodeAll (fun item hitem => h item (List.mem_append_left back hitem)) _

/-- A byte string that is one byte too long for a length without a marker, between other items. -/
theorem readAll_of_written_long_string :
    let data : Bytes := List.replicate 0xfd 7
    let items : List Item :=
      [.u8 0x42, .varBytes data, .bytes [1, 2, 3], .compactSize 0xffffffff, .u64 5]
    (∀ item ∈ items, item.Fits) ∧
      (written items).length = 1 + (3 + 0xfd) + 3 + 5 + 8 ∧
      readAll [.u8, .varBytes, .bytes 3, .compactSize, .u64] (written items ++ [0xaa]) =
        .ok items [0xaa] ∧
      readAll [.u8, .varBytes] (written items ++ [0xaa]) =
        .ok [.u8 0x42, .varBytes data]
          (written [.bytes [1, 2, 3], .compactSize 0xffffffff, .u64 5] ++ [0xaa]) := by
  intro data items
  have hfits : ∀ item ∈ items, item.Fits := by decide +kernel
  obtain ⟨hread, hfront⟩ := readAll_of_written hfits [0xaa]
  exact ⟨hfits, by decide +kernel, hread, hfront [.u8 0x42, .varBytes data] _ rfl⟩

end TxScript.Wire
