import TxScript.Proofs.Indexed.Cursor
import TxScript.Tx.Reading

/-!
# Reading transactions by position

Every field of a transaction is read with a cursor, and the failure says which field it was. A
reader with a cursor reads what the reader that takes bytes off the front reads.
-/

namespace TxScript.Indexed

variable {α ε : Type} {bound : Option Nat}

namespace Cursor

/-! ## Reading -/

/-- A plain read of one field. -/
def field (part : TxField) (p : Action Cursor Wire.ReadError α) : Action Cursor TxReadError α :=
  mapError (.field part) p

/-- A row of so many members; room is made for no more of them than there are bytes left. -/
def row (p : Action Cursor ε α) (count : Nat) : Action Cursor ε (List α) := do
  let _room ← remaining
  repeated p count

variable (bound : Option Nat)

def txid : Action Cursor Wire.ReadError TxId := do
  let bs ← array bound 32
  let digest ← Digest.ofBytes? bs
  return ⟨digest⟩

def outpoint : Action Cursor TxReadError Outpoint := do
  let txid ← field .outpointHash (txid bound)
  let index ← field .outpointIndex (u32 bound)
  return ⟨txid, index⟩

def input : Action Cursor TxReadError Input := do
  let outpoint ← outpoint bound
  let script ← field .unlockingScript (varBytes bound)
  let sequence ← field .sequence (u32 bound)
  return ⟨outpoint, script, sequence⟩

def output : Action Cursor TxReadError Output := do
  let value ← field .value (u64 bound)
  let script ← field .lockingScript (varBytes bound)
  return ⟨value, script⟩

def transaction : Action Cursor TxReadError Transaction := do
  let version ← field .version (u32 bound)
  let inputCount ← field .inputCount (compactSize bound)
  let inputs ← row (input bound) inputCount
  let outputCount ← field .outputCount (compactSize bound)
  let outputs ← row (output bound) outputCount
  let lockTime ← field .lockTime (u32 bound)
  return ⟨version, inputs, outputs, lockTime⟩

end Cursor

/-- The transaction that takes up all of the bytes. -/
def transaction? (bytes : Bytes) : Option (Except TxReadError Transaction) :=
  match Cursor.transaction none ⟨bytes, 0⟩ with
  | some (.ok tx c) =>
    (diff? c.bytes.length c.pos).map fun left =>
      if left ≠ 0 then .error (.trailing left) else .ok tx
  | some (.error e _) => some (.error e)
  | none => none

/-! ## The same reads -/

namespace Reads

/-- The room that is made does not show. -/
theorem row {p : Action Cursor ε α} {r : Reader ε α} (h : Reads bound p r) (count : Nat) :
    Reads bound (Cursor.row p count) (r.repeated count) := by
  show Reads bound (Cursor.row p count) (Reader.remaining >>= fun _ => r.repeated count)
  exact remaining.bind fun _room => h.repeated count

theorem field (part : TxField) {p : Action Cursor Wire.ReadError α} {r : Reader Wire.ReadError α}
    (h : Reads bound p r) : Reads bound (Cursor.field part p) (part.read r) :=
  h.mapError (TxReadError.field part)

theorem txid : Reads bound (Cursor.txid bound) TxId.read := by
  intro bytes pos hbytes hpos
  have h : Leaves bytes _ (Cursor.take bound 32 ⟨bytes, pos⟩) := take 32 bytes pos hbytes hpos
  unfold Cursor.txid TxId.read
  rw [Cursor.array_eq_take]
  generalize hread : Wire.take 32 (bytes.drop pos) = read,
    htake : Cursor.take bound 32 ⟨bytes, pos⟩ = done at h
  cases h with
  | error hnext =>
      rw [Action.bind_of_error htake]
      exact .error hnext
  | @ok bs next hnext =>
      obtain ⟨hlength, -⟩ := Wire.take_eq_ok.1 hread
      have hdigest : Digest.ofBytes? bs = some ⟨bs, hlength⟩ := dif_pos hlength
      rw [Action.bind_of_ok htake, Action.bind_of_some hdigest]
      dsimp only
      rw [hdigest]
      exact .ok hnext

theorem outpoint : Reads bound (Cursor.outpoint bound) Outpoint.read :=
  (txid.field .outpointHash).bind fun id =>
    (u32.field .outpointIndex).bind fun index => .pure (Outpoint.mk id index)

theorem input : Reads bound (Cursor.input bound) Input.read :=
  outpoint.bind fun outpoint =>
    (varBytes.field .unlockingScript).bind fun script =>
      (u32.field .sequence).bind fun sequence => .pure (Input.mk outpoint script sequence)

theorem output : Reads bound (Cursor.output bound) Output.read :=
  (u64.field .value).bind fun value =>
    (varBytes.field .lockingScript).bind fun script => .pure (Output.mk value script)

theorem transaction : Reads bound (Cursor.transaction bound) Transaction.read :=
  (u32.field .version).bind fun version =>
    (compactSize.field .inputCount).bind fun inputCount =>
      (input.row inputCount).bind fun inputs =>
        (compactSize.field .outputCount).bind fun outputCount =>
          (output.row outputCount).bind fun outputs =>
            (u32.field .lockTime).bind fun lockTime =>
              .pure (Transaction.mk version inputs outputs lockTime)

end Reads

theorem transaction?_eq (bytes : Bytes) :
    transaction? bytes = some (Transaction.ofBytes bytes) := by
  have h := Reads.transaction bytes 0 (isAddress_none bytes.length) (Nat.zero_le _)
  rw [List.drop_zero] at h
  unfold transaction? Transaction.ofBytes
  generalize Transaction.read bytes = read, Cursor.transaction none ⟨bytes, 0⟩ = done at h
  cases h with
  | error hnext => rfl
  | @ok tx next hnext =>
      dsimp only
      rw [diff?_of_le hnext]
      simp only [Option.map_some, ite_not, List.isEmpty_iff_length_eq_zero, List.length_drop]

end TxScript.Indexed
