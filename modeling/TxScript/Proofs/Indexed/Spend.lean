import TxScript.Proofs.Indexed.Der
import TxScript.Proofs.Indexed.Reading
import TxScript.Proofs.Indexed.Run
import TxScript.Tx.Spend

/-!
# Spending by position

From the bytes of a transaction to the verdict on one of its inputs, with everything that reaches
into rows and bytes on the way: the reader, the parser, the machine, the encoding of signatures and
the digest that they sign. Hashes and the curve are taken as they are. The default limits keep the
count of operations far below what its counter holds, so for a transaction nothing has to be
assumed.
-/

namespace TxScript.Indexed

open Machine

/-! ## Digests -/

/-- The locking script without its code separators; one that cannot be read counts as empty. -/
def scriptCode? (locking : Bytes) : Option Bytes :=
  (parse? locking).map fun r =>
    match r with
    | .ok s => (s.withoutOpcode .codeSeparator).bytes
    | .error _ => []

/-- The outputs as the signature sees them; a single one is named by the position of the input. -/
def coveredOutputs? (tx : Transaction) (coverage : Coverage) (signed : Nat) :
    Option (List Output) :=
  match coverage with
  | .all => some tx.outputs
  | .none => some []
  | .single => do
    let own ← tx.outputs[signed]?
    return List.replicate signed .blank ++ [own]

def originalDigest? (tx : Transaction) (utxo : Output) (signed : Nat) (t : HashType) :
    Option (Except SignatureError (Digest 32)) :=
  match t.validate with
  | .error e => some (.error e)
  | .ok coverage =>
    if OriginalDigest.hasTarget tx signed coverage then do
      let code ← scriptCode? utxo.script
      let outputs ← coveredOutputs? tx coverage signed
      let inputs := OriginalDigest.coveredInputs tx coverage t.anyoneCanPay code signed
      let trimmed := { tx with inputs := inputs, outputs := outputs }
      return .ok (Hash.sha256d (trimmed.encode ++ t.encode))
    else some (.ok OriginalDigest.one)

/-- The digest of the fork looks at nothing that may be missing. -/
def signatureDigest? (tx : Transaction) (utxo : Output) (index : Nat) (t : HashType) :
    Option (Except SignatureError (Digest 32)) :=
  if t.hasForkId then some (ForkIdDigest.digest tx utxo index t)
  else originalDigest? tx utxo index t

theorem scriptCode?_eq (locking : Bytes) :
    scriptCode? locking = some (OriginalDigest.scriptCode locking) := by
  rw [scriptCode?, parse?_eq, OriginalDigest.scriptCode]
  cases Script.parse locking <;> rfl

/-- An output beside the signed input is what single coverage asks for first. -/
theorem coveredOutputs?_eq {tx : Transaction} {coverage : Coverage} {signed : Nat}
    (h : OriginalDigest.hasTarget tx signed coverage = true) :
    coveredOutputs? tx coverage signed
      = some (OriginalDigest.coveredOutputs tx coverage signed) := by
  cases coverage with
  | all | none => rfl
  | single =>
      have hin : signed < tx.outputs.length := by
        simp only [OriginalDigest.hasTarget, ne_eq, not_true, decide_false, Bool.false_or,
          Bool.and_eq_true, decide_eq_true_eq] at h
        exact h.2
      rw [coveredOutputs?, OriginalDigest.coveredOutputs, List.getElem?_eq_getElem hin,
        List.drop_eq_getElem_cons hin]
      rfl

theorem originalDigest?_eq (tx : Transaction) (utxo : Output) (signed : Nat) (t : HashType) :
    originalDigest? tx utxo signed t = some (OriginalDigest.digest tx utxo signed t) := by
  unfold originalDigest? OriginalDigest.digest
  cases t.validate with
  | error e => rfl
  | ok coverage =>
      show _ = some (if OriginalDigest.hasTarget tx signed coverage then _ else _)
      dsimp only
      by_cases h : OriginalDigest.hasTarget tx signed coverage = true
      · rw [if_pos h, if_pos h, scriptCode?_eq, coveredOutputs?_eq h]
        rfl
      · rw [if_neg h, if_neg h]
        rfl

theorem signatureDigest?_eq (tx : Transaction) (utxo : Output) (index : Nat) (t : HashType) :
    signatureDigest? tx utxo index t = some (tx.signatureDigest utxo index t) := by
  unfold signatureDigest? Transaction.signatureDigest
  split
  · rfl
  · exact originalDigest?_eq tx utxo index t

/-! ## Signatures -/

/-- Whether a signature, which ends in its hash type, is one of the key over the input. -/
def checkSignature? (spend : Spend) : Check := fun signature key =>
  match signature.getLast? with
  | none => some (.error .emptySignature)
  | some last => do
    match ← ofDer? signature.dropLast with
    | .error e => return .error (.invalidSignature e.message)
    | .ok sig =>
      match Curve.PublicKey.ofBytes key with
      | .error e => return .error (.invalidPublicKey e.message)
      | .ok key =>
        match ← signatureDigest? spend.tx spend.utxo spend.index ⟨last⟩ with
        | .error e => return .error e
        | .ok digest => return .ok (key.verify digest sig)

theorem checkSignature?_eq (spend : Spend) (signature key : Bytes) :
    checkSignature? spend signature key = some (spend.checkSignature signature key) := by
  unfold checkSignature? Spend.checkSignature
  cases signature.getLast? with
  | none => rfl
  | some last =>
      simp only [ofDer?_eq, signatureDigest?_eq, Option.bind_eq_bind, Option.bind_some]
      cases Curve.Signature.ofDer signature.dropLast with
      | error e => rfl
      | ok sig =>
          cases Curve.PublicKey.ofBytes key with
          | error e => rfl
          | ok key =>
              show _ = some (spend.tx.signatureDigest spend.utxo spend.index ⟨last⟩ >>= _)
              cases spend.tx.signatureDigest spend.utxo spend.index ⟨last⟩ <;> rfl

theorem checkSignature?_answers {spend : Spend} {env : Env}
    (h : env.checker = some spend.checker) : Answers (checkSignature? spend) env := by
  intro checker hchecker signature key
  rw [h] at hchecker
  cases hchecker
  exact checkSignature?_eq spend signature key

/-! ## Transactions -/

/-- The verdict at the end of a run, without the state that is left. -/
def verdict (r : EStateM.Result VerifyError State Bool) : Except VerifyError Bool :=
  match r with
  | .ok b _ => .ok b
  | .error e _ => .error e

/-- Whether the spend is authorized as of the given time. -/
def verifySpend? (spend : Spend) (blockTime : UInt32) : Option (Except VerifyError Bool) := do
  let input ← spend.tx.inputs[spend.index]?
  match ← parse? input.script with
  | .error e => return .error (.parse e)
  | .ok unlock =>
    match ← parse? spend.utxo.script with
    | .error e => return .error (.parse e)
    | .ok lock =>
      (verify (spend.env blockTime) (checkSignature? spend) lock unlock {}).map verdict

/-- Whether an input of a transaction may spend an output. -/
def verifyInput? (tx : Transaction) (index : Nat) (utxo : Output) (blockTime : UInt32) :
    Option (Except VerifyError Bool) :=
  match Spend.of tx utxo index with
  | .ok spend => verifySpend? spend blockTime
  | .error _ => some (.error (.inputIndexOutOfRange index tx.inputs.length))

/-- The same for a transaction in bytes. -/
def verifyBytes? (bytes : Bytes) (index : Nat) (utxo : Output) (blockTime : UInt32) :
    Option (Except TxReadError (Except VerifyError Bool)) := do
  match ← transaction? bytes with
  | .error e => return .error e
  | .ok tx => return .ok (← verifyInput? tx index utxo blockTime)

theorem fewOps_spend (spend : Spend) (blockTime : UInt32) (lock unlock : Script) :
    FewOps (spend.env blockTime) lock unlock {} :=
  have hmost : 201 + (20 + 1) < UInt64.size := by decide
  .of_limits hmost (Nat.zero_le _)

theorem verifySpend?_eq (spend : Spend) (blockTime : UInt32) :
    verifySpend? spend blockTime = some ((spend.verify blockTime).map fun _ => true) := by
  have hinput : spend.tx.inputs[spend.index]? = some spend.input :=
    List.getElem?_eq_getElem spend.index_lt
  unfold verifySpend? Spend.verify Output.parseScript
  simp only [hinput, parse?_eq, Option.bind_eq_bind, Option.bind_some]
  cases Script.parse spend.input.script with
  | error e => rfl
  | ok unlock =>
      cases Script.parse spend.utxo.script with
      | error e => rfl
      | ok lock =>
          have hanswers : Answers (checkSignature? spend) (spend.env blockTime) :=
            checkSignature?_answers rfl
          have hrun := verify_eq hanswers (fewOps_spend spend blockTime lock unlock)
          simp only [hrun, Except.mapError, bind, Except.bind]
          cases Machine.verify (spend.env blockTime) lock unlock {} <;> rfl

theorem verifyInput?_eq (tx : Transaction) (index : Nat) (utxo : Output) (blockTime : UInt32) :
    verifyInput? tx index utxo blockTime
      = some ((tx.verifyInput index utxo blockTime).map fun _ => true) := by
  unfold verifyInput? Transaction.verifyInput
  cases Spend.of tx utxo index with
  | error e => rfl
  | ok spend => exact verifySpend?_eq spend blockTime

theorem verifyBytes?_eq (bytes : Bytes) (index : Nat) (utxo : Output) (blockTime : UInt32) :
    verifyBytes? bytes index utxo blockTime
      = some ((Transaction.ofBytes bytes).map fun tx =>
          (tx.verifyInput index utxo blockTime).map fun _ => true) := by
  rw [verifyBytes?, transaction?_eq]
  cases Transaction.ofBytes bytes with
  | error e => rfl
  | ok tx =>
      simp only [verifyInput?_eq, Option.bind_eq_bind, Option.bind_some]
      rfl

/-- Nothing that a verification reaches for is missing: it has a next step until it ends, for a
transaction in bytes, for an input whatever the limits are, and for any other answers to what the
scripts ask. It ends with true or with a failure, as the machine on stacks does. -/
theorem verification_ends :
    (∀ (bytes : Bytes) (index : Nat) (utxo : Output) (blockTime : UInt32),
      verifyBytes? bytes index utxo blockTime
        = some ((Transaction.ofBytes bytes).map fun tx =>
            (tx.verifyInput index utxo blockTime).map fun _ => true)) ∧
    (∀ (spend : Spend) (env : Env) (lock unlock : Script) (s : State),
      env.checker = some spend.checker → FewOps env lock unlock s →
      verify env (checkSignature? spend) lock unlock s
        = some (result true (Machine.verify env lock unlock s))) ∧
    ∀ (env : Env) (check : Check) (lock unlock : Script) (s : State),
      Answers check env → FewOps env lock unlock s →
      verify env check lock unlock s = some (result true (Machine.verify env lock unlock s)) := by
  refine ⟨verifyBytes?_eq, ?_, ?_⟩
  · intro spend env lock unlock s hchecker hfew
    exact verify_eq (checkSignature?_answers hchecker) hfew
  · intro env check lock unlock s hcheck hfew
    exact verify_eq hcheck hfew

/-- An input whose signature is empty, under a limit that is reached; and one of two keys that
signed, where the walk over the keys passes the first of them. -/
theorem verification_ends_empty_and_one_of_two :
    let spend : Spend := ⟨⟨2, [.unsigned .null], [.blank], 0⟩, .blank, 0, by decide⟩
    let strict : Env := { config := { maxOps := 1 }, checker := some spend.checker }
    let signed : Env := { checker := some ⟨fun _ key => .ok (key == [3]), 0, 2, 0⟩ }
    let check : Check := fun _ key => some (.ok (key == [3]))
    let unlock : Script := { chunks := [.pushMinimal [], .pushMinimal [9]] }
    let one : Script := { chunks := [.op .checkSig] }
    let row : Script :=
      { chunks := [.op ⟨0x51⟩, .pushMinimal [2], .pushMinimal [3], .op ⟨0x52⟩,
          .op .checkMultisig] }
    (FewOps strict one unlock {} ∧
      verify strict (checkSignature? spend) one unlock {}
        = some (.error (.execution (.signature .emptySignature)) { opCount := 1 })) ∧
    Answers check signed ∧ FewOps signed row unlock {} ∧
      verify signed check row unlock {} = some (.ok true { main := [[1]], opCount := 3 }) := by
  intro spend strict signed check unlock one row
  have hstrict : FewOps strict one unlock {} := .of_limits (by decide) (Nat.zero_le _)
  have hsigned : FewOps signed row unlock {} := .of_limits (by decide) (Nat.zero_le _)
  have hanswers : Answers check signed := by
    intro checker hchecker signature key
    cases hchecker
    rfl
  have hfail : Machine.verify strict one unlock {}
      = .error ⟨.execution (.signature .emptySignature), { opCount := 1 }⟩ := by rfl
  have hpass : Machine.verify signed row unlock {} = .ok { main := [[1]], opCount := 3 } :=
    eq_ok_of_toOption (by decide +kernel)
  refine ⟨⟨hstrict, ?_⟩, hanswers, hsigned, ?_⟩
  · rw [verification_ends.2.1 spend strict one unlock {} rfl hstrict, hfail]
    rfl
  · rw [verification_ends.2.2 signed check row unlock {} hanswers hsigned, hpass]
    rfl

end TxScript.Indexed
