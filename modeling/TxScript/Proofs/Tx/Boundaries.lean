import TxScript.Proofs.Tx.Reading

/-!
# Where a transaction ends

No length stands in front of a transaction. Its own counts say where it ends, so it is read off the
front of a stream, and alone it takes neither more bytes nor fewer. A transaction is read field
after field: each takes what it needs and looks at nothing behind it, and where the bytes end too
early, the error is that of the field in which they do.
-/

namespace TxScript

open Reader (Streams)

/-- Reads of fields one after another. -/
structure ReadsFields {α : Type} (r : Reader TxReadError α) : Prop extends Streams r where
  error : ∀ {input rest e}, r input = .error e rest → ∃ part, e = .field part .endOfData

namespace ReadsFields

variable {α β : Type} {r : Reader TxReadError α} {k : α → Reader TxReadError β}

theorem pure (a : α) : ReadsFields (Pure.pure a) where
  toStreams := .pure a
  error h := by cases h

theorem bind (h : ReadsFields r) (hk : ∀ a, ReadsFields (k a)) : ReadsFields (r >>= k) where
  toStreams := h.toStreams.bind fun a => (hk a).toStreams
  error hread := by
    obtain hfirst | ⟨a, middle, -, hsecond⟩ := Reader.bind_eq_error.1 hread
    · exact h.error hfirst
    · exact (hk a).error hsecond

theorem repeated (h : ReadsFields r) (count : Nat) : ReadsFields (r.repeated count) := by
  induction count with
  | zero => exact .pure []
  | succ count ih => exact h.bind fun a => ih.bind fun rest => .pure (a :: rest)

end ReadsFields

theorem TxField.readsFields {α : Type} {r : Reader Wire.ReadError α} (field : TxField)
    (h : Streams r) : ReadsFields (field.read r) where
  toStreams := h.mapError (TxReadError.field field)
  error {input rest e} hread := by
    unfold TxField.read Reader.mapError at hread
    cases hr : r input with
    | ok a left => simp [hr] at hread
    | error cause left =>
        rw [hr] at hread
        cases hread
        cases cause
        exact ⟨field, rfl⟩

theorem TxId.read_streams : Streams TxId.read where
  append {input rest id} hread more := by
    unfold TxId.read at hread ⊢
    cases htake : Wire.take 32 input with
    | error e left => simp [htake] at hread
    | ok bs left =>
        rw [(Wire.take_streams 32).append htake more]
        rw [htake] at hread
        cases hdigest : (Digest.ofBytes? bs : Option (Digest 32)) with
        | none => simp [hdigest] at hread
        | some digest =>
            simp only [hdigest] at hread ⊢
            cases hread
            rfl

theorem Outpoint.read_fields : ReadsFields Outpoint.read :=
  (TxField.outpointHash.readsFields TxId.read_streams).bind fun txid =>
    (TxField.outpointIndex.readsFields Wire.u32_streams).bind fun index => .pure (Outpoint.mk txid index)

theorem Input.read_fields : ReadsFields Input.read :=
  Outpoint.read_fields.bind fun outpoint =>
    (TxField.unlockingScript.readsFields Wire.varBytes_streams).bind fun script =>
      (TxField.sequence.readsFields Wire.u32_streams).bind fun sequence =>
        .pure (Input.mk outpoint script sequence)

theorem Output.read_fields : ReadsFields Output.read :=
  (TxField.value.readsFields Wire.u64_streams).bind fun value =>
    (TxField.lockingScript.readsFields Wire.varBytes_streams).bind fun script =>
      .pure (Output.mk value script)

namespace Transaction

theorem read_fields : ReadsFields Transaction.read :=
  (TxField.version.readsFields Wire.u32_streams).bind fun version =>
    (TxField.inputCount.readsFields Wire.compactSize_streams).bind fun inputCount =>
      (Input.read_fields.repeated inputCount).bind fun inputs =>
        (TxField.outputCount.readsFields Wire.compactSize_streams).bind fun outputCount =>
          (Output.read_fields.repeated outputCount).bind fun outputs =>
            (TxField.lockTime.readsFields Wire.u32_streams).bind fun lockTime =>
              .pure (Transaction.mk version inputs outputs lockTime)

variable {tx other : Transaction} {rest cut : Bytes}

theorem ofBytes_encode (h : tx.Fits) : ofBytes tx.encode = .ok tx := by
  have hread := read_append h []
  rw [List.append_nil] at hread
  simp [ofBytes, hread]

theorem ofBytes_append (h : tx.Fits) (hrest : rest ≠ []) :
    ofBytes (tx.encode ++ rest) = .error (.trailing rest.length) := by
  simp [ofBytes, read_append h rest, hrest]

theorem ofBytes_cut (h : tx.Fits) (hcut : cut <+: tx.encode) (hne : cut ≠ tx.encode) :
    ∃ part, ofBytes cut = .error (.field part .endOfData) := by
  have hwhole := read_append h []
  rw [List.append_nil] at hwhole
  obtain ⟨e, left, hread⟩ := read_fields.error_of_cut hwhole hcut hne
  obtain ⟨part, rfl⟩ := read_fields.error hread
  exact ⟨part, by simp [ofBytes, hread]⟩

theorem eq_of_encode_begins (h : tx.Fits) (hother : other.Fits)
    (hbegins : tx.encode <+: other.encode) : tx = other := by
  obtain ⟨rest, happend⟩ := hbegins
  exact (encode_append_inj h hother (happend.trans (List.append_nil _).symm)).1

/-- The bytes of a transaction are read back as it, in front of anything. Alone they are read
neither with more bytes behind them nor when cut short, and no other transaction begins with them. -/
theorem encode_delimits (h : tx.Fits) :
    (∀ rest, read (tx.encode ++ rest) = .ok tx rest) ∧
      ofBytes tx.encode = .ok tx ∧
      (∀ rest, rest ≠ [] → ofBytes (tx.encode ++ rest) = .error (.trailing rest.length)) ∧
      (∀ cut, cut <+: tx.encode → cut ≠ tx.encode →
        ∃ part, ofBytes cut = .error (.field part .endOfData)) ∧
      ∀ other : Transaction, other.Fits → (tx.encode <+: other.encode ↔ tx = other) := by
  refine ⟨read_append h, ofBytes_encode h, fun _ => ofBytes_append h, fun _ => ofBytes_cut h,
    fun other hother => ⟨eq_of_encode_begins h hother, ?_⟩⟩
  rintro rfl
  exact List.prefix_rfl

/-- Neither of the two scripts can be read: each ends in the length of a push. -/
def brokenScripts : Transaction where
  version := 2
  inputs := [⟨.null, [0x51, 0x4d, 0x01], 0⟩]
  outputs := [⟨5000, [0x4c]⟩]
  lockTime := 0

theorem encode_delimits_brokenScripts :
    brokenScripts.Fits ∧
      (∀ i ∈ brokenScripts.inputs, (Script.parse i.script).toOption = none) ∧
      (∀ o ∈ brokenScripts.outputs, o.parseScript.toOption = none) ∧
      ofBytes brokenScripts.encode = .ok brokenScripts ∧
      ofBytes (brokenScripts.encode ++ [0x00]) = .error (.trailing 1) ∧
      ∃ part, ofBytes (brokenScripts.encode.take 44) = .error (.field part .endOfData) := by
  have hfits : brokenScripts.Fits := by decide
  obtain ⟨-, hwhole, hlonger, hcut, -⟩ := encode_delimits hfits
  exact ⟨hfits, by decide +kernel, by decide +kernel, hwhole, hlonger [0x00] (by decide),
    hcut _ (List.take_prefix 44 _) (by decide)⟩

end Transaction

end TxScript
