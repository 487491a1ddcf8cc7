import TxScript.Tx.Reading
import TxScript.Proofs.Wire.Streaming

/-!
# Transactions read back

A transaction is read off the front of its bytes, whatever follows them, as long as its counts and
the lengths of its scripts fit the wire. Its bytes therefore determine it, and so do they with
anything behind them.
-/

namespace TxScript

/-! ## Single fields -/

theorem TxField.read_of_ok {α : Type} {r : Reader Wire.ReadError α} {input rest : Bytes} {a : α}
    (field : TxField) (h : r input = .ok a rest) : field.read r input = .ok a rest := by
  simp [read, Reader.mapError, h]

theorem TxId.read_append (id : TxId) (rest : Bytes) :
    TxId.read (id.bytes ++ rest) = .ok id rest := by
  unfold TxId.read
  rw [Wire.take_append id.length_bytes]
  simp only [TxId.bytes, Digest.ofBytes?_bytes]

/-! ## Inputs and outputs -/

theorem Outpoint.read_append (o : Outpoint) (rest : Bytes) :
    Outpoint.read (o.encode ++ rest) = .ok o rest := by
  unfold Outpoint.encode Outpoint.read
  rw [List.append_assoc]
  rw [Reader.bind_of_ok (TxField.outpointHash.read_of_ok (o.txid.read_append _)),
    Reader.bind_of_ok (TxField.outpointIndex.read_of_ok (Wire.u32_append o.index rest))]
  rfl

/-- The unlocking script has a length that the wire can say. -/
def Input.Fits (i : Input) : Prop :=
  i.script.length < UInt64.size

instance (i : Input) : Decidable i.Fits :=
  inferInstanceAs (Decidable (i.script.length < UInt64.size))

theorem Input.read_append {i : Input} (h : i.Fits) (rest : Bytes) :
    Input.read (i.encode ++ rest) = .ok i rest := by
  unfold Input.encode Input.read
  rw [List.append_assoc, List.append_assoc]
  rw [Reader.bind_of_ok (i.outpoint.read_append _),
    Reader.bind_of_ok (TxField.unlockingScript.read_of_ok (Wire.varBytes_append h _)),
    Reader.bind_of_ok (TxField.sequence.read_of_ok (Wire.u32_append i.sequence rest))]
  rfl

/-- The locking script has a length that the wire can say. -/
def Output.Fits (o : Output) : Prop :=
  o.script.length < UInt64.size

instance (o : Output) : Decidable o.Fits :=
  inferInstanceAs (Decidable (o.script.length < UInt64.size))

theorem Output.read_append {o : Output} (h : o.Fits) (rest : Bytes) :
    Output.read (o.encode ++ rest) = .ok o rest := by
  unfold Output.encode Output.read
  rw [List.append_assoc]
  rw [Reader.bind_of_ok (TxField.value.read_of_ok (Wire.u64_append o.value _)),
    Reader.bind_of_ok (TxField.lockingScript.read_of_ok (Wire.varBytes_append h rest))]
  rfl

/-! ## Transactions -/

namespace Transaction

/-- The counts and the lengths of all scripts fit the wire. They do for all that a machine with
addresses of 64 bits can hold. -/
structure Fits (tx : Transaction) : Prop where
  inputCount : tx.inputs.length < UInt64.size
  outputCount : tx.outputs.length < UInt64.size
  inputs : ∀ i ∈ tx.inputs, i.Fits
  outputs : ∀ o ∈ tx.outputs, o.Fits

theorem fits_iff {tx : Transaction} :
    tx.Fits ↔ tx.inputs.length < UInt64.size ∧ tx.outputs.length < UInt64.size ∧
      (∀ i ∈ tx.inputs, i.Fits) ∧ ∀ o ∈ tx.outputs, o.Fits :=
  ⟨fun h => ⟨h.inputCount, h.outputCount, h.inputs, h.outputs⟩,
    fun ⟨inputCount, outputCount, inputs, outputs⟩ => ⟨inputCount, outputCount, inputs, outputs⟩⟩

instance (tx : Transaction) : Decidable tx.Fits :=
  decidable_of_iff _ fits_iff.symm

theorem read_append {tx : Transaction} (h : tx.Fits) (rest : Bytes) :
    read (tx.encode ++ rest) = .ok tx rest := by
  have hinputs := Reader.repeated_append fun i hi => Input.read_append (h.inputs i hi)
  have houtputs := Reader.repeated_append fun o ho => Output.read_append (h.outputs o ho)
  unfold encode read
  simp only [List.append_assoc]
  rw [Reader.bind_of_ok (TxField.version.read_of_ok (Wire.u32_append tx.version _)),
    Reader.bind_of_ok (TxField.inputCount.read_of_ok (CompactSize.read_append h.inputCount _)),
    Reader.bind_of_ok (hinputs _),
    Reader.bind_of_ok (TxField.outputCount.read_of_ok (CompactSize.read_append h.outputCount _)),
    Reader.bind_of_ok (houtputs _),
    Reader.bind_of_ok (TxField.lockTime.read_of_ok (Wire.u32_append tx.lockTime rest))]
  rfl

/-- No transaction has bytes that begin with those of another, and so they also part what follows
them from them. -/
theorem encode_append_inj {a b : Transaction} (ha : a.Fits) (hb : b.Fits) {as bs : Bytes}
    (h : a.encode ++ as = b.encode ++ bs) : a = b ∧ as = bs := by
  have hread : read (a.encode ++ as) = read (b.encode ++ bs) := congrArg read h
  rw [read_append ha, read_append hb] at hread
  injection hread with htx hrest
  exact ⟨htx, hrest⟩

end Transaction

end TxScript
