import TxScript.Proofs.Indexed.DataOps
import TxScript.Proofs.Machine.Counting
import TxScript.Proofs.Machine.Matching

/-!
# Checks of signatures and lock times by position

The check of a row of signatures walks with two cursors over the rows of signatures and of keys. It
goes on only while no fewer keys than signatures are left, which is what keeps both cursors inside.
How one signature is checked is a parameter, for that has steps of its own.
-/

namespace TxScript.Indexed

open Machine

/-- How one signature is checked against one key. -/
abbrev Check := (signature key : Bytes) → Option (Except SignatureError Bool)

/-- The check always has a result, and that of the checker in the surroundings. -/
def Answers (check : Check) (env : Env) : Prop :=
  ∀ checker, env.checker = some checker →
    ∀ signature key, check signature key = some (checker.check signature key)

/-! ## Signatures against keys -/

/-- Walks over the keys from one position on, and over the signatures from another. A signature that
cannot be read is a wrong one. -/
def matchFrom? (check : Check) (signatures keys : List Bytes) (sig key : Nat) : Option Bool :=
  if sig < signatures.length then
    if hkey : key < keys.length then do
      let signature ← signatures[sig]?
      let valid ← check signature keys[key]
      let next := if valid.toOption.getD false then sig + 1 else sig
      let keysLeft ← diff? keys.length (key + 1)
      let signaturesLeft ← diff? signatures.length next
      if keysLeft < signaturesLeft then return false
      else matchFrom? check signatures keys next (key + 1)
    else none
  else some true
  termination_by keys.length - key

theorem matchSignatures_of_lt {valid : Bytes → Bytes → Bool} {signatures keys : List Bytes}
    (h : keys.length < signatures.length) : matchSignatures valid signatures keys = false := by
  rw [Bool.eq_false_iff]
  intro hmatch
  obtain ⟨chosen, hbelong, hsub⟩ := matchSignatures_iff_sublist.1 hmatch
  have hlength := hbelong.length_eq
  have hle := hsub.length_le
  omega

theorem holds_eq {checker : Checker} (signature key : Bytes) :
    checker.holds signature key = (checker.check signature key).toOption.getD false := by
  unfold Checker.holds
  cases checker.check signature key <;> rfl

/-- The signature to try on the next key. -/
def nextSignature (answer : Except SignatureError Bool) (sig : Nat) : Nat :=
  if answer.toOption.getD false then sig + 1 else sig

theorem nextSignature_le {signatures : List Bytes} {sig : Nat} (h : sig < signatures.length)
    (answer : Except SignatureError Bool) : nextSignature answer sig ≤ signatures.length := by
  unfold nextSignature
  split
  · exact h
  · exact Nat.le_of_lt h

/-- As long as both cursors are inside, so are both differences. -/
theorem matchFrom?_step {check : Check} {signatures keys : List Bytes} {sig key : Nat}
    (hsig : sig < signatures.length) (hkey : key < keys.length) :
    matchFrom? check signatures keys sig key =
      (check signatures[sig] keys[key]).bind fun answer =>
        if keys.length - (key + 1) < signatures.length - nextSignature answer sig then some false
        else matchFrom? check signatures keys (nextSignature answer sig) (key + 1) := by
  rw [matchFrom?, if_pos hsig, dif_pos hkey, List.getElem?_eq_getElem hsig]
  simp only [Option.bind_eq_bind, Option.bind_some, diff?_of_le hkey]
  congr 1
  funext answer
  exact (congrArg (Option.bind · _) (diff?_of_le (nextSignature_le hsig answer))).trans rfl

theorem matchFrom?_eq {check : Check} {checker : Checker}
    (hcheck : ∀ signature key, check signature key = some (checker.check signature key))
    {signatures keys : List Bytes} {sig key : Nat} (hsig : sig ≤ signatures.length)
    (hkey : key ≤ keys.length) (hleft : signatures.length - sig ≤ keys.length - key) :
    matchFrom? check signatures keys sig key
      = some (matchSignatures checker.holds (signatures.drop sig) (keys.drop key)) := by
  induction hcount : keys.length - key generalizing sig key with
  | zero =>
      -- no key is left, and so no signature
      rw [matchFrom?, if_neg (by omega), List.drop_eq_nil_of_le (by omega), matchSignatures]
  | succ count ih =>
      by_cases hmore : sig < signatures.length
      · have hin : key < keys.length := by omega
        -- whichever signature is next, the walk gives up or has enough keys left
        have hnext (next : Nat) (hle : next ≤ signatures.length) :
            (if keys.length - (key + 1) < signatures.length - next then some false
              else matchFrom? check signatures keys next (key + 1))
              = some (matchSignatures checker.holds (signatures.drop next)
                  (keys.drop (key + 1))) := by
          split
          · rename_i hfew
            rw [matchSignatures_of_lt (by simpa using hfew)]
          · exact ih hle hin (by omega) (by omega)
        rw [matchFrom?_step hmore hin, hcheck, Option.bind_some, hnext _ (nextSignature_le hmore _),
          List.drop_eq_getElem_cons hmore, List.drop_eq_getElem_cons hin, matchSignatures, holds_eq]
        unfold nextSignature
        split
        · rfl
        · rw [List.drop_eq_getElem_cons hmore]
      · rw [matchFrom?, if_neg hmore, List.drop_eq_nil_of_le (by omega), matchSignatures]

/-! ## The operations -/

/-- Puts the outcome of a check on the stack, and takes it off again when it has to be true. -/
def pushCheck (verify : Bool) (opcode : String) (valid : Bool) : RowAction Unit := do
  push (Number.ofBool valid)
  if verify then verifyTop opcode else pure ()

def checkSig (env : Env) (check : Check) (verify : Bool) : RowAction Unit := do
  requireHeight 2
  let key ← popData
  let signature ← popData
  match env.checker with
  | none => Action.fail .noTransaction
  | some _ =>
    if signature.isEmpty then Action.fail (.signature .emptySignature)
    else do
      let checked ← check signature key
      let valid ← Action.ofExcept (checked.mapError .signature)
      pushCheck verify "OP_CHECKSIGVERIFY" valid

/-- The count on top, which may not exceed the bound. -/
def readCount (bound : Nat) (fault : Int → ExecError) : RowAction Nat := do
  let n ← number (-1)
  if n < 0 ∨ bound < n then Action.fail (fault n) else return n.toNat

/-- Takes off a count and the elements under it, and leaves at least one more. -/
def takeGroup (count : Nat) : RowAction (List Bytes) := do
  discard
  requireHeight (count + 1)
  let i ← fromTop count
  fun row => (Row.split? row i).map fun r => .ok r.2 r.1

def checkGroups (env : Env) (check : Check) (verify : Bool) (keyCount : Nat) :
    RowAction Unit := do
  let keys ← takeGroup keyCount
  let signatureCount ← readCount keyCount .signatureCount
  let signatures ← takeGroup signatureCount
  discard
  match env.checker with
  | none => Action.fail .noTransaction
  | some _ => do
    let valid ← matchFrom? check signatures keys 0 0
    pushCheck verify "OP_CHECKMULTISIGVERIFY" valid

variable {env : Env} {check : Check}

theorem pushCheck_does (verify : Bool) (opcode : String) (valid : Bool) :
    Does (pushCheck verify opcode valid) (Machine.pushCheck verify opcode valid) := by
  intro stack
  refine (Action.bind_of_ok (push_eq (Number.ofBool valid) stack)).trans ?_
  cases verify with
  | true => exact verifyTop_does opcode (Number.ofBool valid :: stack)
  | false => rfl

theorem checkSig_does (hcheck : Answers check env) (verify : Bool) :
    Does (checkSig env check verify) (Machine.checkSig env verify) := by
  intro stack
  rcases stack with _ | ⟨key, _ | ⟨signature, rest⟩⟩
  iterate 2 exact short (by simp)
  rw [checkSig, tall (by simp), popTwo_eq, Machine.checkSig]
  cases hchecker : env.checker with
  | none => rfl
  | some checker =>
      dsimp only
      cases hempty : signature.isEmpty with
      | true => rfl
      | false =>
          simp only [Bool.false_eq_true, if_false]
          refine (Action.bind_of_some (hcheck checker hchecker signature key)).trans ?_
          cases checker.check signature key with
          | error e => rfl
          | ok valid => exact pushCheck_does verify "OP_CHECKSIGVERIFY" valid rest

theorem readCount_eq (bound : Nat) (fault : Int → ExecError) (stack : Stack) :
    readCount bound fault stack.reverse
      = some (ended id (fun _ => stack) (Machine.readCount bound fault stack)) := by
  cases stack with
  | nil => rfl
  | cons top rest =>
      rw [readCount, Machine.readCount]
      cases hn : Number.operand? top with
      | none => exact Action.bind_of_error (number_of_none [] rest rfl hn)
      | some n =>
          refine (Action.bind_of_ok (number_of_some [] rest rfl hn)).trans ?_
          dsimp only
          by_cases hrange : n < 0 ∨ bound < n
          · rw [if_pos hrange, if_pos hrange]
            rfl
          · rw [if_neg hrange, if_neg hrange]
            rfl

theorem discard_drop (stack : Stack) :
    discard stack.reverse = some (.ok () (stack.drop 1).reverse) := by
  cases stack with
  | nil => rfl
  | cons a below => exact discard_eq a below

theorem takeGroup_eq (count : Nat) (stack : Stack) :
    takeGroup count stack.reverse
      = some (ended (fun r => r.1.reverse) Prod.snd (Machine.takeGroup count stack)) := by
  rw [takeGroup, Action.bind_of_ok (discard_drop stack), Machine.takeGroup]
  generalize stack.drop 1 = below
  by_cases hshort : below.length < count + 1
  · simp only [hshort, if_true]
    exact short hshort
  · obtain ⟨group, rest, rfl, rfl⟩ := exists_eq_append (by omega : count ≤ below.length)
    simp only [hshort, if_false, List.take_left, List.drop_left]
    refine (tall (Nat.le_of_not_lt hshort)).trans ?_
    refine (Action.bind_of_ok (fromTop_eq group rest)).trans ?_
    rw [Row.split?_top]
    rfl

/-- The walk over the groups as they lie in the row. -/
theorem matchGroups_eq (hcheck : Answers check env) {checker : Checker}
    (hchecker : env.checker = some checker) {signatures keys : List Bytes}
    (h : signatures.length ≤ keys.length) :
    matchFrom? check signatures.reverse keys.reverse 0 0
      = some (matchSignatures checker.holds signatures.reverse keys.reverse) :=
  matchFrom?_eq (hcheck checker hchecker) (Nat.zero_le _) (Nat.zero_le _) (by simpa using h)

theorem checkGroups_does (hcheck : Answers check env) (verify : Bool) {keyCount : Nat} :
    Does (checkGroups env check verify keyCount) (Machine.checkGroups env verify keyCount) := by
  intro stack
  refine bind_of_ended (takeGroup_eq keyCount stack) fun keys hkeys => ?_
  refine bind_of_ended (readCount_eq keyCount .signatureCount keys.2) fun count hcount => ?_
  refine bind_of_ended (takeGroup_eq count keys.2) fun signatures hsignatures => ?_
  refine (Action.bind_of_ok (discard_drop signatures.2)).trans ?_
  cases hchecker : env.checker with
  | none => rfl
  | some checker =>
      have hlength : signatures.1.length ≤ keys.1.length := by
        rw [(lengths_of_takeGroup hkeys).1, (lengths_of_takeGroup hsignatures).1]
        exact le_of_readCount hcount
      refine (Action.bind_of_some (matchGroups_eq hcheck hchecker hlength)).trans ?_
      exact pushCheck_does verify "OP_CHECKMULTISIGVERIFY" _ _

/-! ## Lock times -/

/-- The lock time demanded by the top of the stack. -/
def lockTimeOperand : RowAction Nat := do
  requireHeight 1
  let top ← data (-1)
  let n ← requireNumber (← decode? Number.lockTimeWidth top)
  if n < 0 then Action.fail .negativeLockTime else return n.toNat

/-- Once the operand is read, what is left only compares numbers. -/
def checkLockTime (env : Env) : RowAction Unit := do
  let required ← lockTimeOperand
  Action.ofExcept do
    let checker ← env.requireChecker
    (compareLockTimes checker.lockTime.toNat lockTimeThreshold required).mapError .lockTime
    if checker.sequence = finalSequence then .error (.lockTime .finalInput)
    else .ok ()

def checkSequence (env : Env) : RowAction Unit := do
  let required ← lockTimeOperand
  Action.ofExcept do
    if required.testBit sequenceDisabledBit then .ok ()
    else
      let checker ← env.requireChecker
      if checker.version < 2 then .error (.lockTime (.version checker.version))
      else
        let sequence := checker.sequence.toNat
        if sequence.testBit sequenceDisabledBit then
          .error (.lockTime (.sequenceDisabled checker.sequence))
        else
          (compareLockTimes (sequence &&& sequenceMask) sequenceSecondsFlag
            (required &&& sequenceMask)).mapError .lockTime

theorem lockTimeOperand_eq (stack : Stack) :
    lockTimeOperand stack.reverse
      = Action.ofExcept (Machine.lockTimeOperand stack) stack.reverse := by
  cases stack with
  | nil => exact short (by simp)
  | cons top rest =>
      rw [lockTimeOperand, tall (by simp), Action.bind_of_ok (data_top top rest),
        Action.bind_of_some (decode?_eq _ top), Machine.lockTimeOperand]
      cases Number.decode? Number.lockTimeWidth top with
      | none => rfl
      | some n =>
          refine (Action.bind_of_ok rfl).trans ?_
          dsimp only
          by_cases hneg : n < 0
          · rw [if_pos hneg, if_pos hneg]
            rfl
          · rw [if_neg hneg, if_neg hneg]
            rfl

theorem checkLockTime_eq (env : Env) (stack : Stack) :
    checkLockTime env stack.reverse
      = Action.ofExcept (Machine.checkLockTime env stack) stack.reverse := by
  rw [checkLockTime, Action.bind_of_ofExcept (lockTimeOperand_eq stack), Machine.checkLockTime,
    Action.ofExcept_bind]

theorem checkSequence_eq (env : Env) (stack : Stack) :
    checkSequence env stack.reverse
      = Action.ofExcept (Machine.checkSequence env stack) stack.reverse := by
  rw [checkSequence, Action.bind_of_ofExcept (lockTimeOperand_eq stack), Machine.checkSequence,
    Action.ofExcept_bind]

end TxScript.Indexed
