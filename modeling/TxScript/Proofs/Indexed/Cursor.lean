import TxScript.Proofs.Indexed.Row
import TxScript.Proofs.Wire.Forms

/-!
# Reading by position

A cursor holds the bytes and the position of the next one. Every read slices the bytes at the
cursor, once it knows that they reach far enough, and copies what has a fixed width into an array of
that width. Positions and lengths are addresses. Where there is a greatest address, a sum of two is
checked before it is used, and so is a length that was read, which can be greater than any address.
Bytes that are there have addresses, so the checks refuse nothing that could be read: a reader with
a cursor reads what the reader that takes bytes off the front reads, and it never leaves the bytes.
-/

namespace TxScript.Indexed

open Wire (ReadError)

variable {α β ε ε' : Type} {bound : Option Nat} {n : Nat}

/-! ## Addresses -/

/-- The number is not above the greatest address. Without a greatest one every number is an
address. -/
def IsAddress (bound : Option Nat) (n : Nat) : Prop :=
  ∀ top ∈ bound, n ≤ top

instance (bound : Option Nat) (n : Nat) : Decidable (IsAddress bound n) :=
  inferInstanceAs (Decidable (∀ top ∈ bound, n ≤ top))

theorem isAddress_none (n : Nat) : IsAddress none n :=
  fun _ htop => nomatch htop

theorem isAddress_some {top : Nat} (h : n ≤ top) : IsAddress (some top) n := by
  rintro _ ⟨⟩
  exact h

theorem IsAddress.of_le {m : Nat} (h : IsAddress bound n) (hle : m ≤ n) : IsAddress bound m :=
  fun top htop => Nat.le_trans hle (h top htop)

/-- The number as an address, if it is one. -/
def address? (bound : Option Nat) (n : Nat) : Option Nat :=
  if IsAddress bound n then some n else none

theorem address?_of_isAddress (h : IsAddress bound n) : address? bound n = some n :=
  if_pos h

theorem address?_of_not_isAddress (h : ¬ IsAddress bound n) : address? bound n = none :=
  if_neg h

/-! ## Reading -/

structure Cursor where
  bytes : Bytes
  pos : Nat

namespace Cursor

/-- How many bytes are left. -/
def remaining : Action Cursor ε Nat := fun c =>
  (diff? c.bytes.length c.pos).map fun n => .ok n c

def mapError (f : ε → ε') (p : Action Cursor ε α) : Action Cursor ε' α := fun c =>
  match p c with
  | some (.ok a c) => some (.ok a c)
  | some (.error e c) => some (.error (f e) c)
  | none => none

/-- The read with its failure as a result. -/
def attempt (p : Action Cursor ε α) : Action Cursor ε (Except ε α) := fun c =>
  match p c with
  | some (.ok a c) => some (.ok (.ok a) c)
  | some (.error e c) => some (.ok (.error e) c)
  | none => none

def repeated (p : Action Cursor ε α) : (count : Nat) → Action Cursor ε (List α)
  | 0 => pure []
  | count + 1 => do
    let a ← p
    let rest ← repeated p count
    return a :: rest

variable (bound : Option Nat)

/-- Takes `count` bytes, or none of them when fewer are left. -/
def take (count : Nat) : Action Cursor ReadError Bytes := fun c =>
  match address? bound (c.pos + count) with
  | none => some (.error .endOfData c)
  | some stop =>
    if c.bytes.length < stop then some (.error .endOfData c)
    else (Row.slice? c.bytes c.pos stop).map fun part => .ok part { c with pos := stop }

/-- As many bytes as the array has. -/
def array (width : Nat) : Action Cursor ReadError Bytes := do
  let bs ← take bound width
  Row.overwrite? (List.replicate width 0) 0 width bs

def number (width : Nat) : Action Cursor ReadError Nat := do
  let bs ← array bound width
  return LittleEndian.decode bs

def u8 : Action Cursor ReadError UInt8 := do
  let bs ← take bound 1
  bs[0]?

def u16 : Action Cursor ReadError UInt16 := do
  let n ← number bound 2
  return UInt16.ofNat n

def u32 : Action Cursor ReadError UInt32 := do
  let n ← number bound 4
  return UInt32.ofNat n

def u64 : Action Cursor ReadError UInt64 := do
  let n ← number bound 8
  return UInt64.ofNat n

def compactSize : Action Cursor ReadError Nat := do
  let marker ← u8 bound
  if marker = 0xff then number bound 8
  else if marker = 0xfe then number bound 4
  else if marker = 0xfd then number bound 2
  else return marker.toNat

def varBytes : Action Cursor ReadError Bytes := do
  let length ← compactSize bound
  match address? bound length with
  | none => Action.fail .endOfData
  | some count => take bound count

/-! ## Slices and copies -/

variable {bound} {count : Nat} {c : Cursor}

theorem take_of_le (haddress : IsAddress bound (c.pos + count))
    (hinside : c.pos + count ≤ c.bytes.length) :
    take bound count c =
      some (.ok ((c.bytes.drop c.pos).take count) { c with pos := c.pos + count }) := by
  rw [take, address?_of_isAddress haddress]
  dsimp only
  rw [if_neg (Nat.not_lt.2 hinside), Row.slice?_of_le hinside]
  rfl

/-- The sum is no address, or the bytes do not reach so far. -/
theorem take_of_refused
    (h : ¬ (IsAddress bound (c.pos + count) ∧ c.pos + count ≤ c.bytes.length)) :
    take bound count c = some (.error .endOfData c) := by
  unfold take
  by_cases haddress : IsAddress bound (c.pos + count)
  · rw [address?_of_isAddress haddress]
    exact if_pos (Nat.lt_of_not_le fun hinside => h ⟨haddress, hinside⟩)
  · rw [address?_of_not_isAddress haddress]

/-- What is copied into an array has its width, and fills it. -/
theorem array_eq_take (bound : Option Nat) (width : Nat) : array bound width = take bound width := by
  funext c
  unfold array
  by_cases h : IsAddress bound (c.pos + width) ∧ c.pos + width ≤ c.bytes.length
  · have htake := take_of_le h.1 h.2
    have hlength : ((c.bytes.drop c.pos).take width).length = width := by
      rw [List.length_take, List.length_drop]
      omega
    rw [Action.bind_of_ok htake, Row.overwrite?_whole hlength, htake]
    rfl
  · have htake := take_of_refused h
    exact (Action.bind_of_error htake).trans htake.symm

end Cursor

/-! ## The same reads -/

/-- A read that ends with so many bytes unread ends with a cursor in front of these. -/
inductive Leaves (bytes : Bytes) :
    EStateM.Result ε Bytes α → Option (EStateM.Result ε Cursor α) → Prop
  | ok {a : α} {next : Nat} (inside : next ≤ bytes.length) :
      Leaves bytes (.ok a (bytes.drop next)) (some (.ok a ⟨bytes, next⟩))
  | error {e : ε} {next : Nat} (inside : next ≤ bytes.length) :
      Leaves bytes (.error e (bytes.drop next)) (some (.error e ⟨bytes, next⟩))

/-- Where the first read ends, inside of the bytes, the second one starts. -/
theorem Leaves.bind {bytes : Bytes} {p : Action Cursor ε α} {r : Reader ε α} {input : Bytes}
    {c : Cursor} {k : α → Action Cursor ε β} {k' : α → Reader ε β}
    (h : Leaves bytes (r input) (p c))
    (hk : ∀ a next, r input = .ok a (bytes.drop next) → next ≤ bytes.length →
      Leaves bytes (k' a (bytes.drop next)) (k a ⟨bytes, next⟩)) :
    Leaves bytes ((r >>= k') input) ((p >>= k) c) := by
  show Leaves bytes (EStateM.bind r k' input) (Action.bind p k c)
  unfold EStateM.bind Action.bind
  generalize r input = read, p c = done at h hk
  cases h with
  | ok hnext => exact hk _ _ rfl hnext
  | error hnext => exact .error hnext

/-- Where bytes are left behind a position, that is where the cursor stands. -/
theorem Leaves.eq_of_ok {bytes : Bytes} {a : α} {last : Nat}
    {done : Option (EStateM.Result ε Cursor α)} (hlast : last ≤ bytes.length)
    (h : Leaves bytes (.ok a (bytes.drop last)) done) : done = some (.ok a ⟨bytes, last⟩) := by
  generalize hread : EStateM.Result.ok a (bytes.drop last) = read at h
  cases h with
  | error hnext => cases hread
  | @ok b next hnext =>
      injection hread with hvalue hleft
      have hlength := congrArg List.length hleft
      rw [List.length_drop, List.length_drop] at hlength
      have hpos : last = next := by omega
      rw [hvalue, hpos]

/-- A computation with a cursor reads what a reader takes off the front, wherever it stands in bytes
that have addresses. -/
def Reads (bound : Option Nat) (p : Action Cursor ε α) (r : Reader ε α) : Prop :=
  ∀ bytes pos, IsAddress bound bytes.length → pos ≤ bytes.length →
    Leaves bytes (r (bytes.drop pos)) (p ⟨bytes, pos⟩)

namespace Reads

variable {p : Action Cursor ε α} {r : Reader ε α}

theorem pure (a : α) : Reads (ε := ε) bound (Pure.pure a) (Pure.pure a) :=
  fun _ _ _ hpos => .ok hpos

theorem bind {k : α → Action Cursor ε β} {k' : α → Reader ε β} (hp : Reads bound p r)
    (hk : ∀ a, Reads bound (k a) (k' a)) : Reads bound (p >>= k) (r >>= k') :=
  fun bytes pos hbytes hpos =>
    (hp bytes pos hbytes hpos).bind fun a next _ hnext => hk a bytes next hbytes hnext

theorem mapError (f : ε → ε') (h : Reads bound p r) :
    Reads bound (Cursor.mapError f p) (r.mapError f) := by
  intro bytes pos hbytes hpos
  have h := h bytes pos hbytes hpos
  unfold Cursor.mapError Reader.mapError
  generalize r (bytes.drop pos) = read, p ⟨bytes, pos⟩ = done at h
  cases h with
  | ok hnext => exact .ok hnext
  | error hnext => exact .error hnext

theorem attempt (h : Reads bound p r) : Reads bound (Cursor.attempt p) r.attempt := by
  intro bytes pos hbytes hpos
  have h := h bytes pos hbytes hpos
  unfold Cursor.attempt Reader.attempt
  generalize r (bytes.drop pos) = read, p ⟨bytes, pos⟩ = done at h
  cases h with
  | ok hnext => exact .ok hnext
  | error hnext => exact .ok hnext

theorem repeated (h : Reads bound p r) (count : Nat) :
    Reads bound (Cursor.repeated p count) (r.repeated count) := by
  induction count with
  | zero => exact .pure []
  | succ count ih => exact h.bind fun a => ih.bind fun rest => .pure (a :: rest)

theorem remaining : Reads (ε := ε) bound Cursor.remaining Reader.remaining := by
  intro bytes pos hbytes hpos
  rw [Reader.remaining, Cursor.remaining, diff?_of_le hpos, List.length_drop]
  exact .ok hpos

theorem take (count : Nat) : Reads bound (Cursor.take bound count) (Wire.take count) := by
  intro bytes pos hbytes hpos
  unfold Wire.take
  rw [List.length_drop]
  by_cases h : pos + count ≤ bytes.length
  · rw [Cursor.take_of_le (hbytes.of_le h) h, if_pos (by omega), List.drop_drop]
    exact .ok h
  · rw [Cursor.take_of_refused fun hin => h hin.2, if_neg (by omega)]
    exact .error hpos

/-- Of what was taken the length is known. -/
theorem take_bind {count : Nat} {k : Bytes → Action Cursor ReadError α}
    {k' : Bytes → Reader ReadError α}
    (hk : ∀ bs, bs.length = count → Reads bound (k bs) (k' bs)) :
    Reads bound (Cursor.take bound count >>= k) (Wire.take count >>= k') :=
  fun bytes pos hbytes hpos =>
    (take count bytes pos hbytes hpos).bind fun bs next hread hnext =>
      hk bs (Wire.take_eq_ok.1 hread).1 bytes next hbytes hnext

theorem number (width : Nat) : Reads bound (Cursor.number bound width) (Wire.number width) := by
  unfold Cursor.number
  rw [Cursor.array_eq_take]
  exact (take width).bind fun bs => .pure (LittleEndian.decode bs)

/-- One byte, looked up in a slice of that length. -/
theorem u8 : Reads bound (Cursor.u8 bound) Wire.u8 := by
  unfold Cursor.u8 Wire.u8 Wire.number
  rw [bind_assoc]
  refine take_bind fun bs hlength => ?_
  obtain ⟨b, rfl⟩ := List.length_eq_one_iff.1 hlength
  have hbyte : UInt8.ofNat (LittleEndian.decode [b]) = b := by
    simp [LittleEndian.decode]
  rw [pure_bind, hbyte]
  exact pure b

theorem u16 : Reads bound (Cursor.u16 bound) Wire.u16 :=
  (number 2).bind fun n => .pure (UInt16.ofNat n)

theorem u32 : Reads bound (Cursor.u32 bound) Wire.u32 :=
  (number 4).bind fun n => .pure (UInt32.ofNat n)

theorem u64 : Reads bound (Cursor.u64 bound) Wire.u64 :=
  (number 8).bind fun n => .pure (UInt64.ofNat n)

theorem compactSize : Reads bound (Cursor.compactSize bound) CompactSize.read := by
  refine u8.bind fun marker => ?_
  split
  · exact number 8
  · split
    · exact number 4
    · split
      · exact number 2
      · exact .pure marker.toNat

/-- A length that is no address is greater than the number of bytes that are left. -/
theorem varBytes : Reads bound (Cursor.varBytes bound) Wire.varBytes := by
  refine compactSize.bind fun length => ?_
  by_cases h : IsAddress bound length
  · rw [address?_of_isAddress h]
    exact take length
  · rw [address?_of_not_isAddress h]
    intro bytes pos hbytes hpos
    have hlong : bytes.length < length :=
      Nat.lt_of_not_le fun hle => h (hbytes.of_le hle)
    have hread : Wire.take length (bytes.drop pos) = .error .endOfData (bytes.drop pos) :=
      Wire.take_of_lt (by rw [List.length_drop]; omega)
    rw [hread]
    exact .error hpos

end Reads

end TxScript.Indexed
