import TxScript.Proofs.Wire.Forms

/-!
# What the first byte of a compact size announces

The first byte says how many bytes a compact size has. Where fewer are there, it is not read, and
its first byte is the only one that is taken; where as many are there, it is. So a number is read
from each of its forms and from nothing else. Among these the writer's is the shortest, and no
other is as short.
-/

namespace TxScript

namespace CompactSize

variable {n used : Nat} {form : Form} {first : UInt8} {input rest bs : Bytes} {e : Wire.ReadError}

/-! ## The first byte -/

/-- How many bytes a compact size has that begins with this one. -/
def announced (first : UInt8) : Nat :=
  if first = 0xff then 9
  else if first = 0xfe then 5
  else if first = 0xfd then 3
  else 1

/-- The bytes end before the compact size does that they begin with. -/
def CutShort : Bytes → Prop
  | [] => True
  | first :: rest => rest.length + 1 < announced first

theorem cutShort_iff :
    CutShort bs ↔ bs = [] ∨ ∃ first ∈ bs.head?, bs.length < announced first := by
  cases bs <;> simp [CutShort]

/-- A reader that fails has taken the first byte if there is one, and never another. -/
theorem read_eq_error : read input = .error e rest ↔ CutShort input ∧ rest = input.tail := by
  cases input with
  | nil =>
      have hnil : read [] = .error .endOfData [] := rfl
      cases e
      simp [hnil, CutShort, eq_comm]
  | cons first tail =>
      have hnumber (width : Nat) :
          Wire.number width tail = .error e rest ↔ tail.length + 1 < width + 1 ∧ rest = tail := by
        rw [Wire.number_eq_error, Nat.add_lt_add_iff_right]
      rw [read_of_marker, List.tail_cons, CutShort, announced]
      by_cases hff : first = 0xff
      · rw [if_pos hff, if_pos hff]
        exact hnumber 8
      by_cases hfe : first = 0xfe
      · rw [if_neg hff, if_neg hff, if_pos hfe, if_pos hfe]
        exact hnumber 4
      by_cases hfd : first = 0xfd
      · rw [if_neg hff, if_neg hff, if_neg hfe, if_neg hfe, if_pos hfd, if_pos hfd]
        exact hnumber 2
      · rw [if_neg hff, if_neg hff, if_neg hfe, if_neg hfe, if_neg hfd, if_neg hfd]
        constructor
        · intro h
          cases h
        · rintro ⟨hcut, -⟩
          omega

/-! ## The number at the front -/

theorem decode_eq_error : decode bs = .error e ↔ CutShort bs := by
  unfold decode
  cases h : read bs with
  | ok n rest =>
      have hne : ¬ CutShort bs := fun hcut => by
        have hfails : read bs = .error .endOfData bs.tail := read_eq_error.2 ⟨hcut, rfl⟩
        rw [hfails] at h
        cases h
      simp [hne]
  | error cause rest =>
      cases e
      cases cause
      simp [(read_eq_error.1 h).1]

theorem decode_eq_ok :
    decode bs = .ok (n, used) ↔
      ∃ form : Form, ∃ rest, n < form.limit ∧ used = form.size ∧ bs = form.encode n ++ rest := by
  unfold decode
  constructor
  · cases h : read bs with
    | error cause rest =>
        intro hdecode
        cases hdecode
    | ok m rest =>
        intro hdecode
        cases hdecode
        obtain ⟨form, hform, rfl⟩ := read_eq_ok.1 h
        exact ⟨form, rest, hform, by simp, rfl⟩
  · rintro ⟨form, rest, hform, rfl, rfl⟩
    rw [read_form hform rest]
    simp

/-- What is read as a number takes as many bytes as one of its forms, and is that form. -/
theorem exists_form_of_decode (h : decode bs = .ok (n, used)) :
    ∃ form : Form, n < form.limit ∧ used = form.size ∧ used ≤ bs.length ∧
      bs.take used = form.encode n := by
  obtain ⟨form, rest, hform, rfl, rfl⟩ := decode_eq_ok.1 h
  have hlength := form.length_encode n
  exact ⟨form, hform, rfl, by simp, List.take_left' hlength⟩

namespace Form

theorem size_shortest (n : Nat) : (shortest n).size = CompactSize.size n := by
  rw [← length_encode (shortest n) n, encode_shortest, CompactSize.length_encode]

theorem lt_limit_shortest (h : n < UInt64.size) : n < (shortest n).limit := by
  unfold shortest
  split
  · assumption
  · split
    · assumption
    · split <;> assumption

theorem size_le_size (h : n < form.limit) : CompactSize.size n ≤ form.size :=
  size_shortest n ▸ size_shortest_le h

/-- Only the form that the writer picks has its size. -/
theorem size_eq_size_iff : form.size = CompactSize.size n ↔ form.encode n = CompactSize.encode n := by
  rw [← size_shortest, ← encode_shortest]
  constructor
  · intro h
    rw [eq_of_size_eq h]
  · intro h
    simpa using congrArg List.length h

end Form

/-- A number is read back from its written form in front of anything. Bytes are not read exactly
where they end before the compact size does that their first byte announces; where they are read,
the number takes no fewer bytes than the writer takes for it, and as many only when they are what
the writer writes. So that is the shortest of all spellings of a number, and the only one. -/
theorem decode_and_encode_shortest :
    (∀ (v : UInt64) (rest : Bytes),
      decode (encode v.toNat ++ rest) = .ok (v.toNat, size v.toNat) ∧
        (encode v.toNat).length = size v.toNat) ∧
    (∀ bs : Bytes,
      (∃ e, decode bs = .error e) ↔ bs = [] ∨ ∃ first ∈ bs.head?, bs.length < announced first) ∧
    (∀ (bs : Bytes) n used, decode bs = .ok (n, used) →
      n < UInt64.size ∧ size n ≤ used ∧ used ≤ bs.length ∧
        (used = size n ↔ bs.take used = encode n)) ∧
    ∀ (bs : Bytes) n, decode bs = .ok (n, bs.length) → bs ≠ encode n →
      (encode n).length < bs.length := by
  have hread {bs : Bytes} {n used : Nat} (h : decode bs = .ok (n, used)) :
      n < UInt64.size ∧ size n ≤ used ∧ used ≤ bs.length ∧
        (used = size n ↔ bs.take used = encode n) := by
    obtain ⟨form, hform, rfl, hinside, htake⟩ := exists_form_of_decode h
    rw [htake]
    exact ⟨Nat.lt_of_lt_of_le hform form.limit_le, Form.size_le_size hform, hinside,
      Form.size_eq_size_iff⟩
  refine ⟨fun v rest => ⟨?_, length_encode _⟩, fun bs => ?_, fun _ _ _ => hread, fun bs n h hne => ?_⟩
  · rw [← Form.encode_shortest]
    exact decode_eq_ok.2 ⟨.shortest v.toNat, rest, Form.lt_limit_shortest v.toNat_lt,
      (Form.size_shortest _).symm, rfl⟩
  · rw [← cutShort_iff]
    exact ⟨fun ⟨_, h⟩ => decode_eq_error.1 h, fun h => ⟨.endOfData, decode_eq_error.2 h⟩⟩
  · obtain ⟨-, hsize, -, hiff⟩ := hread h
    rw [List.take_length] at hiff
    rw [length_encode]
    exact Nat.lt_of_le_of_ne hsize fun heq => hne (hiff.1 heq.symm)

/-- The greatest number that needs no marker, behind a marker. -/
theorem decode_and_encode_shortest_padded :
    let padded : Bytes := [0xfd, 0xfc, 0x00]
    decode (encode 0x10000 ++ [0xaa]) = .ok (0x10000, 5) ∧
      (∃ e, decode [0xfe, 0x00, 0x00, 0x01] = .error e) ∧
      decode padded = .ok (0xfc, padded.length) ∧ padded ≠ encode 0xfc ∧
      size 0xfc ≤ padded.length ∧
      (padded.length = size 0xfc ↔ padded.take padded.length = encode 0xfc) ∧
      (encode 0xfc).length < padded.length := by
  intro padded
  obtain ⟨hwritten, hcut, hread, hshorter⟩ := decode_and_encode_shortest
  have hpadded : decode padded = .ok (0xfc, padded.length) := rfl
  obtain ⟨-, hsize, -, hiff⟩ := hread padded 0xfc padded.length hpadded
  have hne : padded ≠ encode 0xfc := by decide
  exact ⟨(hwritten 0x10000 [0xaa]).1, (hcut _).2 (.inr ⟨0xfe, rfl, by decide⟩), hpadded, hne, hsize,
    hiff, hshorter padded 0xfc hpadded hne⟩

end CompactSize

end TxScript
