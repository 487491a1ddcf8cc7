import TxScript.Tx.Spend

/-!
# No digest reads an unlocking script

Both digests are the same for a transaction and for the one without its unlocking scripts. What a
signature covers is therefore fixed before any input is signed.
-/

namespace TxScript

variable {tx : Transaction} {utxo : Output} {index : Nat} {t : HashType}

def Input.withoutScript (i : Input) : Input :=
  { i with script := [] }

/-- The transaction as it is before any input is signed. -/
def Transaction.withoutScripts (tx : Transaction) : Transaction :=
  { tx with inputs := tx.inputs.map Input.withoutScript }

namespace Transaction

@[simp] theorem length_inputs_withoutScripts (tx : Transaction) :
    tx.withoutScripts.inputs.length = tx.inputs.length := by
  simp [withoutScripts]

@[simp] theorem outputs_withoutScripts (tx : Transaction) :
    tx.withoutScripts.outputs = tx.outputs := rfl

theorem getElem?_inputs_withoutScripts (tx : Transaction) (index : Nat) :
    tx.withoutScripts.inputs[index]? = tx.inputs[index]?.map Input.withoutScript := by
  simp [withoutScripts]

end Transaction

namespace ForkIdDigest

theorem hashPrevouts_withoutScripts (tx : Transaction) :
    hashPrevouts tx.withoutScripts = hashPrevouts tx := by
  unfold hashPrevouts Transaction.withoutScripts
  rw [List.flatMap_map]
  rfl

theorem hashSequence_withoutScripts (tx : Transaction) :
    hashSequence tx.withoutScripts = hashSequence tx := by
  unfold hashSequence Transaction.withoutScripts
  rw [List.flatMap_map]
  rfl

theorem message_withoutScripts (tx : Transaction) (utxo : Output) (signed : Nat) (input : Input)
    (t : HashType) (coverage : Coverage) :
    message tx.withoutScripts utxo signed input.withoutScript t coverage =
      message tx utxo signed input t coverage := by
  unfold message coveredPrevouts coveredSequence
  rw [hashPrevouts_withoutScripts, hashSequence_withoutScripts]
  rfl

theorem preimage_withoutScripts (tx : Transaction) (utxo : Output) (signed : Nat) (t : HashType) :
    preimage tx.withoutScripts utxo signed t = preimage tx utxo signed t := by
  unfold preimage
  cases t.validate with
  | error e => rfl
  | ok coverage =>
      rw [Transaction.getElem?_inputs_withoutScripts, Transaction.length_inputs_withoutScripts]
      cases tx.inputs[signed]? with
      | none => rfl
      | some input =>
          simp [bind, Except.bind, pure, Except.pure, message_withoutScripts]

theorem digest_withoutScripts (tx : Transaction) (utxo : Output) (signed : Nat) (t : HashType) :
    digest tx.withoutScripts utxo signed t = digest tx utxo signed t := by
  unfold digest
  rw [preimage_withoutScripts]

/-- A defined coverage and an input to sign are all that the digest asks for. -/
theorem digest_isOk {coverage : Coverage} (hcoverage : t.coverage? = some coverage)
    (hindex : index < tx.inputs.length) : ∃ d, digest tx utxo index t = .ok d := by
  simp [digest, preimage, HashType.validate, hcoverage, List.getElem?_eq_getElem hindex, bind,
    Except.bind, pure, Except.pure]

end ForkIdDigest

namespace OriginalDigest

theorem coveredInputs_withoutScripts (tx : Transaction) (coverage : Coverage)
    (anyoneCanPay : Bool) (code : Bytes) (signed : Nat) :
    coveredInputs tx.withoutScripts coverage anyoneCanPay code signed =
      coveredInputs tx coverage anyoneCanPay code signed := by
  have hcovered : tx.withoutScripts.inputs.mapIdx (coverInput coverage code signed) =
      tx.inputs.mapIdx (coverInput coverage code signed) := by
    apply List.ext_getElem?
    intro i
    rw [List.getElem?_mapIdx, List.getElem?_mapIdx, Transaction.getElem?_inputs_withoutScripts,
      Option.map_map]
    rfl
  unfold coveredInputs
  rw [hcovered]

theorem digest_withoutScripts (tx : Transaction) (utxo : Output) (signed : Nat) (t : HashType) :
    digest tx.withoutScripts utxo signed t = digest tx utxo signed t := by
  have htarget (coverage : Coverage) :
      hasTarget tx.withoutScripts signed coverage = hasTarget tx signed coverage := by
    unfold hasTarget
    rw [Transaction.length_inputs_withoutScripts, Transaction.outputs_withoutScripts]
  have hmessage (coverage : Coverage) :
      message tx.withoutScripts utxo signed t coverage = message tx utxo signed t coverage := by
    unfold message trimmed
    rw [coveredInputs_withoutScripts]
    rfl
  unfold digest
  simp only [htarget, hmessage]

theorem digest_isOk {coverage : Coverage} (hcoverage : t.coverage? = some coverage) :
    ∃ d, digest tx utxo index t = .ok d := by
  unfold digest HashType.validate
  rw [hcoverage]
  by_cases htarget : hasTarget tx index coverage = true
  · simp [htarget, bind, Except.bind, pure, Except.pure]
  · simp [htarget, bind, Except.bind, pure, Except.pure]

end OriginalDigest

namespace Transaction

theorem signatureDigest_withoutScripts (tx : Transaction) (utxo : Output) (index : Nat)
    (t : HashType) :
    tx.withoutScripts.signatureDigest utxo index t = tx.signatureDigest utxo index t := by
  unfold signatureDigest
  rw [ForkIdDigest.digest_withoutScripts, OriginalDigest.digest_withoutScripts]

theorem signatureDigest_isOk (utxo : Output) {coverage : Coverage}
    (hcoverage : t.coverage? = some coverage) (hindex : index < tx.inputs.length) :
    ∃ d, tx.signatureDigest utxo index t = .ok d := by
  unfold signatureDigest
  split
  · exact ForkIdDigest.digest_isOk hcoverage hindex
  · exact OriginalDigest.digest_isOk hcoverage

end Transaction

end TxScript
