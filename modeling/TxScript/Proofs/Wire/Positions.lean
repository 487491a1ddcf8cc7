import TxScript.Proofs.Wire.Items

/-!
# Reads that go on after a failure

A read that fails ends no sequence of reads: the next one goes on from where it stopped. A failing
read of a fixed width takes nothing. Reads that begin with a compact size have no way back, so what
they leave depends on where the bytes end: nothing is taken where no byte is left, the first byte
where the size is not there in full, and the whole size where only the payload is not.
-/

namespace TxScript.Wire

open CompactSize (Form CutShort announced)

/-- How many bytes a read takes that always takes as many. -/
def Kind.width? : Kind → Option Nat
  | .u8 => some 1
  | .u16 => some 2
  | .u32 => some 4
  | .u64 => some 8
  | .bytes count => some count
  | .compactSize | .varBytes => none

/-- The ways in which a read fails on what is left, and how many bytes of it are taken then. -/
inductive Kind.FailsOn : Kind → Bytes → Nat → Prop
  /-- There are fewer bytes than the fixed width. -/
  | short {kind : Kind} {width : Nat} {left : Bytes} (hwidth : kind.width? = some width)
    (h : left.length < width) : FailsOn kind left 0
  /-- There is no first byte of a compact size. -/
  | exhausted {kind : Kind} (hkind : kind.width? = none) : FailsOn kind [] 0
  /-- There is less than the first byte of a compact size announces. -/
  | size {kind : Kind} {first : UInt8} {rest : Bytes} (hkind : kind.width? = none)
    (h : rest.length + 1 < announced first) : FailsOn kind (first :: rest) 1
  /-- There are fewer bytes behind the length of a byte string than it says. -/
  | payload {form : Form} {count : Nat} {rest : Bytes} (hcount : count < form.limit)
    (h : rest.length < count) : FailsOn .varBytes (form.encode count ++ rest) form.size

variable {kind : Kind} {item : Item} {input left rest : Bytes} {taken : Nat} {e : ReadError}

/-! ## One read that fails -/

theorem Kind.FailsOn.taken_le (h : kind.FailsOn left taken) : taken ≤ left.length := by
  cases h with
  | short hwidth h => exact Nat.zero_le _
  | exhausted hkind => exact Nat.zero_le _
  | size hkind h => exact Nat.succ_le_succ (Nat.zero_le _)
  | payload hcount h => simp

/-- Where the compact size that the bytes begin with is not there, its first byte is taken. -/
theorem Kind.failsOn_of_cutShort (hkind : kind.width? = none) (h : CutShort left) :
    ∃ taken, kind.FailsOn left taken ∧ left.tail = left.drop taken := by
  cases left with
  | nil => exact ⟨0, .exhausted hkind, rfl⟩
  | cons first rest => exact ⟨1, .size hkind h, rfl⟩

theorem varBytes_eq_error :
    varBytes input = .error e rest ↔
      (CutShort input ∧ rest = input.tail) ∨
        ∃ form : Form, ∃ count, count < form.limit ∧ rest.length < count ∧
          input = form.encode count ++ rest := by
  unfold varBytes
  rw [Reader.bind_eq_error, CompactSize.read_eq_error]
  refine or_congr_right ⟨?_, ?_⟩
  · rintro ⟨count, middle, hsize, htake⟩
    obtain ⟨form, hform, rfl⟩ := CompactSize.read_eq_ok.1 hsize
    obtain ⟨hshort, rfl⟩ := take_eq_error.1 htake
    exact ⟨form, count, hform, hshort, rfl⟩
  · rintro ⟨form, count, hform, hshort, rfl⟩
    exact ⟨count, rest, CompactSize.read_form hform rest, take_eq_error.2 ⟨hshort, rfl⟩⟩

theorem Kind.failsOn_of_read (h : kind.read input = .error e rest) :
    ∃ taken, kind.FailsOn input taken ∧ rest = input.drop taken := by
  -- the reads of fixed width are all short, and leave what was there
  have hshort {width : Nat} (hwidth : kind.width? = some width)
      (hread : input.length < width ∧ rest = input) :
      ∃ taken, kind.FailsOn input taken ∧ rest = input.drop taken :=
    ⟨0, .short hwidth hread.1, hread.2⟩
  cases kind with
  | u8 => exact hshort rfl (u8_eq_error.1 (Reader.bind_pure_eq_error.1 h))
  | u16 | u32 | u64 =>
      have hnumber := Reader.bind_pure_eq_error.1 (Reader.bind_pure_eq_error.1 h)
      exact hshort rfl (number_eq_error.1 hnumber)
  | bytes count => exact hshort rfl (take_eq_error.1 (Reader.bind_pure_eq_error.1 h))
  | compactSize =>
      obtain ⟨hcut, rfl⟩ := CompactSize.read_eq_error.1 (Reader.bind_pure_eq_error.1 h)
      exact failsOn_of_cutShort rfl hcut
  | varBytes =>
      obtain ⟨hcut, rfl⟩ | ⟨form, count, hform, hpayload, rfl⟩ :=
        varBytes_eq_error.1 (Reader.bind_pure_eq_error.1 h)
      · exact failsOn_of_cutShort rfl hcut
      · exact ⟨form.size, .payload hform hpayload,
          (List.drop_left' (form.length_encode count)).symm⟩

/-! ## One read by position -/

/-- What a read at a position gives, and the position behind it. -/
inductive Kind.Moves (bytes : Bytes) (pos : Nat) (kind : Kind) : Except ReadError Item → Nat → Prop
  | spelled {item : Item} {next : Nat} (hkind : item.kind = kind) (hpos : pos ≤ next)
    (h : item.SpelledBy ((bytes.take next).drop pos)) : Moves bytes pos kind (.ok item) next
  | fails {taken : Nat} (h : kind.FailsOn (bytes.drop pos) taken) :
    Moves bytes pos kind (.error .endOfData) (pos + taken)

variable {bytes : Bytes} {pos : Nat}

theorem Kind.moves_of_read (kind : Kind) (hpos : pos ≤ bytes.length) :
    ∃ result next, kind.read.attempt (bytes.drop pos) = .ok result (bytes.drop next) ∧
      next ≤ bytes.length ∧ kind.Moves bytes pos result next := by
  unfold Reader.attempt
  cases h : kind.read (bytes.drop pos) with
  | ok item rest =>
      obtain ⟨hkind, part, hspelled, hsplit⟩ := spelledBy_of_read h
      have hinside : pos + part.length ≤ bytes.length := by
        have hlength := congrArg List.length hsplit
        simp only [List.length_drop, List.length_append] at hlength
        omega
      have hpart : (bytes.take (pos + part.length)).drop pos = part := by
        rw [List.drop_take, Nat.add_sub_cancel_left, hsplit, List.take_left' rfl]
      have hrest : bytes.drop (pos + part.length) = rest := by
        rw [← List.drop_drop, hsplit, List.drop_left' rfl]
      refine ⟨.ok item, pos + part.length, by rw [hrest], hinside,
        .spelled hkind (Nat.le_add_right _ _) ?_⟩
      rwa [hpart]
  | error e rest =>
      cases e
      obtain ⟨taken, hfails, rfl⟩ := failsOn_of_read h
      have htaken := hfails.taken_le
      rw [List.length_drop] at htaken
      exact ⟨.error .endOfData, pos + taken, by rw [List.drop_drop], by omega, .fails hfails⟩

/-! ## Reads one after another -/

/-- The reads move from one position to another, each from where the last one stopped. -/
inductive Passes (bytes : Bytes) :
    Nat → List Kind → List (Except ReadError Item × Nat) → Nat → Prop
  | nil (pos : Nat) : Passes bytes pos [] [] pos
  | cons {pos next last : Nat} {kind : Kind} {kinds : List Kind} {result : Except ReadError Item}
    {steps : List (Except ReadError Item × Nat)} (inside : next ≤ bytes.length)
    (first : kind.Moves bytes pos result next) (later : Passes bytes next kinds steps last) :
    Passes bytes pos (kind :: kinds) ((result, bytes.length - next) :: steps) last

theorem passes_of_readEach (kinds : List Kind) (hpos : pos ≤ bytes.length) :
    ∃ steps last, readEach kinds (bytes.drop pos) = .ok steps (bytes.drop last) ∧
      last ≤ bytes.length ∧ Passes bytes pos kinds steps last := by
  induction kinds generalizing pos with
  | nil => exact ⟨[], pos, rfl, hpos, .nil pos⟩
  | cons kind kinds ih =>
      obtain ⟨result, next, hfirst, hnext, hmoves⟩ := kind.moves_of_read hpos
      obtain ⟨steps, last, hlater, hlast, hpasses⟩ := ih hnext
      refine ⟨(result, bytes.length - next) :: steps, last, ?_, hlast, .cons hnext hmoves hpasses⟩
      have hleft : (Reader.remaining : Reader ReadError Nat) (bytes.drop next) =
          .ok (bytes.length - next) (bytes.drop next) := by
        rw [Reader.remaining, List.length_drop]
      rw [readEach, Reader.bind_of_ok hfirst, Reader.bind_of_ok hleft, Reader.bind_of_ok hlater]
      rfl

end TxScript.Wire
