import TxScript.Wire.CompactSize

/-!
# Reading from a stream

A reader streams when it looks at nothing behind the bytes that it takes: given more bytes, it reads
the same and leaves the additional ones behind. All plain reads do, and so does every chain of
reads. What takes up all of some bytes is therefore not read from only the first of them.
-/

namespace TxScript

namespace Reader

variable {ε ε' α β : Type} {r : Reader ε α} {k : α → Reader ε β} {input rest : Bytes}

/-! ## Chains of reads -/

theorem bind_of_ok {a : α} (h : r input = .ok a rest) : (r >>= k) input = k a rest := by
  simp [bind, EStateM.bind, h]

theorem bind_of_error {e : ε} (h : r input = .error e rest) :
    (r >>= k) input = .error e rest := by
  simp [bind, EStateM.bind, h]

theorem bind_eq_ok {b : β} :
    (r >>= k) input = .ok b rest ↔
      ∃ a middle, r input = .ok a middle ∧ k a middle = .ok b rest := by
  cases h : r input with
  | ok a middle => simp [bind_of_ok h, and_assoc]
  | error e middle => simp [bind_of_error h]

theorem bind_eq_error {e : ε} :
    (r >>= k) input = .error e rest ↔
      r input = .error e rest ∨ ∃ a middle, r input = .ok a middle ∧ k a middle = .error e rest := by
  cases h : r input with
  | ok a middle => simp [bind_of_ok h, and_assoc]
  | error e' middle => simp [bind_of_error h]

/-- Where only the value is put into another form, the read ends as it did. -/
theorem bind_pure_eq_ok {f : α → β} {b : β} :
    (r >>= fun a => pure (f a)) input = .ok b rest ↔ ∃ a, r input = .ok a rest ∧ f a = b := by
  constructor
  · intro h
    obtain ⟨a, middle, hread, hpure⟩ := bind_eq_ok.1 h
    cases hpure
    exact ⟨a, hread, rfl⟩
  · rintro ⟨a, hread, rfl⟩
    exact bind_of_ok hread

theorem bind_pure_eq_error {f : α → β} {e : ε} :
    (r >>= fun a => pure (f a)) input = .error e rest ↔ r input = .error e rest := by
  constructor
  · intro h
    obtain hread | ⟨a, middle, -, hpure⟩ := bind_eq_error.1 h
    · exact hread
    · cases hpure
  · exact bind_of_error

/-- A counted row is read back when each of its members is. -/
theorem repeated_append {encode : α → Bytes} {as : List α}
    (h : ∀ a ∈ as, ∀ rest, r (encode a ++ rest) = .ok a rest) (rest : Bytes) :
    r.repeated as.length (as.flatMap encode ++ rest) = .ok as rest := by
  induction as with
  | nil => rfl
  | cons a as ih =>
      have hfirst := h a List.mem_cons_self (as.flatMap encode ++ rest)
      have hrest := ih fun b hb => h b (List.mem_cons_of_mem a hb)
      rw [List.flatMap_cons, List.append_assoc]
      show (r >>= fun a => r.repeated as.length >>= fun rest => pure (a :: rest)) _ = _
      rw [bind_of_ok hfirst, bind_of_ok hrest]
      rfl

/-! ## Streaming -/

/-- The reader takes the same from longer bytes, and leaves what they have more. -/
structure Streams (r : Reader ε α) : Prop where
  append : ∀ {input rest a}, r input = .ok a rest → ∀ more, r (input ++ more) = .ok a (rest ++ more)

namespace Streams

theorem pure (a : α) : Streams (ε := ε) (Pure.pure a) where
  append h more := by
    cases h
    rfl

theorem bind (h : Streams r) (hk : ∀ a, Streams (k a)) : Streams (r >>= k) where
  append hread more := by
    obtain ⟨a, middle, hfirst, hsecond⟩ := bind_eq_ok.1 hread
    rw [bind_of_ok (h.append hfirst more)]
    exact (hk a).append hsecond more

theorem mapError (f : ε → ε') (h : Streams r) : Streams (r.mapError f) where
  append {input rest a} hread more := by
    unfold Reader.mapError at hread ⊢
    cases hr : r input with
    | error e left => simp [hr] at hread
    | ok b left =>
        rw [hr] at hread
        cases hread
        rw [h.append hr more]

/-- Where all of the bytes are taken, the first of them are not enough. -/
theorem error_of_cut (h : Streams r) {whole cut : Bytes} {a : α} (hwhole : r whole = .ok a [])
    (hcut : cut <+: whole) (hne : cut ≠ whole) : ∃ e left, r cut = .error e left := by
  obtain ⟨more, rfl⟩ := hcut
  cases hread : r cut with
  | error e left => exact ⟨e, left, rfl⟩
  | ok b left =>
      -- the reader would leave all that was cut off
      rw [h.append hread more] at hwhole
      injection hwhole with _ hleft
      have hmore : more = [] := (List.append_eq_nil_iff.1 hleft).2
      exact absurd (by rw [hmore, List.append_nil]) hne

end Streams

end Reader

/-! ## Plain reads -/

namespace Wire

open Reader (Streams)

theorem u32_append (n : UInt32) (rest : Bytes) :
    u32 (LittleEndian.encode 4 n.toNat ++ rest) = .ok n rest := by
  have h : number 4 (LittleEndian.encode 4 n.toNat ++ rest) = .ok n.toNat rest :=
    number_append n.toNat_lt rest
  unfold u32
  rw [Reader.bind_of_ok h]
  simp [pure, EStateM.pure]

theorem u64_append (n : UInt64) (rest : Bytes) :
    u64 (LittleEndian.encode 8 n.toNat ++ rest) = .ok n rest := by
  have h : number 8 (LittleEndian.encode 8 n.toNat ++ rest) = .ok n.toNat rest :=
    number_append n.toNat_lt rest
  unfold u64
  rw [Reader.bind_of_ok h]
  simp [pure, EStateM.pure]

theorem take_streams (count : Nat) : Streams (take count) where
  append {input rest bs} h more := by
    unfold take at h ⊢
    by_cases hcount : count ≤ input.length
    · have hmore : count ≤ (input ++ more).length := by
        rw [List.length_append]
        omega
      rw [if_pos hcount] at h
      cases h
      rw [if_pos hmore, List.take_append_of_le_length hcount, List.drop_append_of_le_length hcount]
    · rw [if_neg hcount] at h
      cases h

theorem number_streams (width : Nat) : Streams (number width) :=
  (take_streams width).bind fun bs => .pure (LittleEndian.decode bs)

theorem u8_streams : Streams u8 :=
  (number_streams 1).bind fun n => .pure (UInt8.ofNat n)

theorem u32_streams : Streams u32 :=
  (number_streams 4).bind fun n => .pure (UInt32.ofNat n)

theorem u64_streams : Streams u64 :=
  (number_streams 8).bind fun n => .pure (UInt64.ofNat n)

theorem compactSize_streams : Streams CompactSize.read := by
  refine u8_streams.bind fun marker => ?_
  split
  · exact number_streams 8
  · split
    · exact number_streams 4
    · split
      · exact number_streams 2
      · exact .pure marker.toNat

theorem varBytes_streams : Streams varBytes :=
  compactSize_streams.bind take_streams

end Wire

end TxScript
