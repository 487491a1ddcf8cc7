import TxScript.Machine.Run
import TxScript.Proofs.Indexed.Parsing
import TxScript.Proofs.Indexed.SignatureOps

/-!
# Running scripts by position

The machine once more, with the operations that reach into rows, with scripts parsed by position
and with a counter of 64 bits. What reaches nowhere is the machine's own. As long as the counter
holds what is counted, a run has a next step until it ends, and it ends as it does on stacks.
-/

namespace TxScript.Indexed

open Machine

variable {α ε : Type}

/-- The end of a run that gives a value. -/
def result (a : α) (r : Outcome ε State) : EStateM.Result ε State α :=
  match r with
  | .ok s => .ok a s
  | .error h => .error h.error h.state

/-- What the machine does without reaching into a row. -/
def outcome (f : State → Outcome ε State) : Action State ε Unit := fun s =>
  some (result () (f s))

/-- A computation on the row of the main stack. -/
def onMain (p : RowAction α) : Action State ExecError α := fun s =>
  match p s.main.reverse with
  | some (.ok a row) => some (.ok a { s with main := row.reverse })
  | some (.error e row) => some (.error e { s with main := row.reverse })
  | none => none

/-- Counts operations; the sum has to fit the counter. -/
def countOps (env : Env) (count : Nat) : Action State ExecError Unit := fun s =>
  if s.opCount + count < UInt64.size then outcome (State.countOps env count) s else none

def openBranch (negated : Bool) : Action State ExecError Unit := fun s =>
  if s.executing then
    (do
      let value ← onMain (do requireHeight 1; popBool)
      outcome fun s => .ok { s with branches := (value != negated) :: s.branches }) s
  else some (.ok () { s with branches := false :: s.branches })

/-- Each key counts as an operation, before any of them is looked at. -/
def checkMultisig (env : Env) (check : Check) (verify : Bool) : Action State ExecError Unit := do
  let keyCount ← onMain (do requireHeight 1; readCount env.config.maxMultisigKeys .keyCount)
  countOps env keyCount
  onMain (checkGroups env check verify keyCount)

def perform (env : Env) (check : Check) (op : Opcode) : Action State ExecError Unit :=
  match op.operation with
  | .stack stackOp => onMain (apply env.config.maxElementSize stackOp)
  | .nop => pure ()
  | .openBranch negated => openBranch negated
  | .otherwise => outcome turnBranch
  | .closeBranch => outcome closeBranch
  | .toAlt => outcome toAlt
  | .fromAlt => outcome fromAlt
  | .checkSig verify => onMain (checkSig env check verify)
  | .checkMultisig verify => checkMultisig env check verify
  | .checkLockTime => onMain (checkLockTime env)
  | .checkSequence => onMain (checkSequence env)
  | .announce => Action.fail (.missingPushData op.mnemonic)
  | .disabled => Action.fail (.disabledOpcode op.name)
  | .reserved => Action.fail (.notExecutable op.mnemonic)

def countOpcode (env : Env) (op : Opcode) : Action State ExecError Unit :=
  if op.isCounted then countOps env 1 else pure ()

def stepCounted (env : Env) (check : Check) (op : Opcode) : Action State ExecError Unit := fun s =>
  if op.isDisabled env.config.monolith then some (.error (.disabledOpcode op.name) s)
  else if !s.executing && !op.isConditional then some (.ok () s)
  else perform env check op s

def step (env : Env) (check : Check) : Chunk → Action State ExecError Unit
  | .push _ data => outcome fun s => if s.executing then s.pushData env data else .ok s
  | .op op => do
    countOpcode env op
    stepCounted env check op

def execute (env : Env) (check : Check) : List Chunk → Action State ExecError Unit
  | [] => pure ()
  | c :: rest => do
    step env check c
    execute env check rest

def run (env : Env) (check : Check) (script : Script) : Action State ExecError Unit := fun s =>
  if env.config.maxScriptSize < script.size then some (.error (.scriptTooLarge script.size) s)
  else
    (do
      execute env check script.chunks
      outcome requireBalanced) s.fresh

/-- A failed run, as a failed verification. -/
def verifying (p : Action State ExecError Unit) : Action State VerifyError Unit := fun s =>
  match p s with
  | some (.ok () t) => some (.ok () t)
  | some (.error e t) => some (.error (.execution e) t)
  | none => none

/-- The top of the main stack has to be there and to be true. -/
def requireTrue : Action State VerifyError Unit := fun s =>
  match s.main with
  | [] => some (.error .emptyStack s)
  | top :: _ => (isTrue? top).map fun b => if b then .ok () s else .error .lastItemFalse s

def runToTrue (env : Env) (check : Check) (script : Script) : Action State VerifyError Unit := do
  verifying (run env check script)
  requireTrue

/-- Takes the redeem script off a stack kept from before, the rest of which becomes the main
stack. -/
def takeRedeem (saved : Stack) : Action State VerifyError Script := fun s =>
  match saved with
  | [] => some (.error .emptyStack s)
  | top :: rest =>
    (parse? top).map fun r =>
      match r with
      | .error e => .error (.p2shDeserialize e) s
      | .ok redeem => .ok redeem { s.cleared with main := rest }

def runRedeem (env : Env) (check : Check) (unlock : Script) (saved : Stack) :
    Action State VerifyError Unit :=
  if unlock.isDataOnly then do
    let redeem ← takeRedeem saved
    runToTrue env check redeem
  else Action.fail .p2shNotDataOnly

/-- What the main stack holds, to be kept. -/
def saveMain : Action State VerifyError Stack := fun s => some (.ok s.main s)

/-- Whether the unlocking script meets the locking script. -/
def verify (env : Env) (check : Check) (lock unlock : Script) : Action State VerifyError Bool := do
  verifying (run env check unlock)
  let saved ← saveMain
  runToTrue env check lock
  if env.evaluatesRedeem && lock.isPayToScriptHash then do
    runRedeem env check unlock saved
    return true
  else return true

/-! ## The same runs -/

variable {env : Env} {check : Check} {s : State}

/-- One computation after another, where the first ends as it ends on stacks. -/
theorem bind_of_result {p : Action State ε Unit} {k : Action State ε α} {a : α}
    {r : Outcome ε State} {k' : State → Outcome ε State} (h : p s = some (result () r))
    (hk : ∀ t, r = .ok t → k t = some (result a (k' t))) :
    (do p; k) s = some (result a (r >>= k')) := by
  cases r with
  | error halted => exact Action.bind_of_error h
  | ok t => exact (Action.bind_of_ok h).trans (hk t rfl)

/-- A value that is given once a computation has come to its end. -/
theorem return_of_result {p : Action State ε Unit} {r : Outcome ε State}
    (h : p s = some (result () r)) (a : α) : (do p; return a) s = some (result a r) := by
  cases r with
  | error halted => exact Action.bind_of_error h
  | ok t => exact Action.bind_of_ok h

/-- One after another, where the count stays small enough for both. -/
theorem bind_of_few {p : Action State ε Unit} {k : Action State ε α} {a : α}
    {r : Outcome ε State} {k' : State → Outcome ε State}
    (hfew : counted (r >>= k') < UInt64.size)
    (hle : ∀ t, r = .ok t → t.opCount ≤ counted (k' t))
    (h : counted r < UInt64.size → p s = some (result () r))
    (hk : ∀ t, r = .ok t → counted (k' t) < UInt64.size → k t = some (result a (k' t))) :
    (do p; k) s = some (result a (r >>= k')) := by
  cases r with
  | error halted => exact bind_of_result (h hfew) nofun
  | ok t =>
      have hfirst : t.opCount < UInt64.size := Nat.lt_of_le_of_lt (hle t rfl) hfew
      exact bind_of_result (h hfirst) fun u hu => hk u hu (by cases hu; exact hfew)

theorem onMain_of_does {p : RowAction Unit} {f : Stack → Except StackFault Stack} (h : Does p f)
    (s : State) : onMain p s = some (result () (s.withMain (f s.main))) := by
  rw [onMain, h s.main]
  cases f s.main with
  | error fault => simp [ended, result, State.withMain, StackFault.halt]
  | ok stack => simp [ended, result, State.withMain]

theorem onMain_of_ok {p : RowAction α} {a : α} {left : Stack}
    (h : p s.main.reverse = some (.ok a left.reverse)) :
    onMain p s = some (.ok a { s with main := left }) := by
  rw [onMain, h]
  simp

theorem onMain_of_error {p : RowAction α} {e : ExecError} {left : Stack}
    (h : p s.main.reverse = some (.error e left.reverse)) :
    onMain p s = some (.error e { s with main := left }) := by
  rw [onMain, h]
  simp

theorem onMain_of_test {p : RowAction Unit} {f : Stack → Except ExecError Unit}
    (h : p s.main.reverse = Action.ofExcept (f s.main) s.main.reverse) :
    onMain p s = some (result () (s.tested (f s.main))) := by
  rw [onMain, h]
  cases f s.main with
  | error e => simp [Action.ofExcept, Action.fail, result, State.tested, halt]
  | ok u => simp [Action.ofExcept, pure, result, State.tested]

theorem countOps_eq {count : Nat} (hfew : counted (s.countOps env count) < UInt64.size) :
    countOps env count s = some (result () (s.countOps env count)) := by
  rw [counted_countOps] at hfew
  rw [countOps, if_pos hfew]
  rfl

theorem openBranch_eq (negated : Bool) :
    openBranch negated s = some (result () (Machine.openBranch negated s)) := by
  unfold openBranch Machine.openBranch
  by_cases hrun : s.executing = true
  · rw [if_pos hrun, if_pos hrun]
    obtain ⟨main, alt, branches, opCount⟩ := s
    cases main with
    | nil => exact Action.bind_of_error (onMain_of_error (short (by simp)))
    | cons top rest =>
        exact Action.bind_of_ok (onMain_of_ok ((tall (by simp)).trans (popBool_eq top rest)))
  · rw [if_neg hrun, if_neg hrun]
    rfl

/-- The count of the keys, below which the height is asked for once more. -/
theorem keyCount_eq (bound : Nat) (stack : Stack) :
    (do requireHeight 1; readCount bound .keyCount : RowAction Nat) stack.reverse
      = some (ended id (fun _ => stack) (Machine.readCount bound .keyCount stack)) := by
  cases stack with
  | nil => rfl
  | cons top rest => rw [tall (by simp), readCount_eq]

theorem checkMultisig_eq (hcheck : Answers check env) {verify : Bool}
    (hfew : counted (Machine.checkMultisig env verify s) < UInt64.size) :
    checkMultisig env check verify s = some (result () (Machine.checkMultisig env verify s)) := by
  have hkeys := keyCount_eq env.config.maxMultisigKeys s.main
  rw [Machine.checkMultisig_eq] at hfew ⊢
  unfold checkMultisig
  cases hcount : Machine.readCount env.config.maxMultisigKeys .keyCount s.main with
  | error fault =>
      rw [hcount] at hkeys
      exact Action.bind_of_error (onMain_of_error hkeys)
  | ok keyCount =>
      rw [hcount] at hkeys hfew
      refine (Action.bind_of_ok (onMain_of_ok hkeys)).trans ?_
      refine bind_of_few hfew (fun t _ => Nat.le_of_eq (counted_withMain _).symm)
        countOps_eq fun t _ _ => ?_
      exact onMain_of_does (checkGroups_does hcheck verify) t

theorem perform_eq (hcheck : Answers check env) {op : Opcode}
    (hfew : counted (Machine.perform env op s) < UInt64.size) :
    perform env check op s = some (result () (Machine.perform env op s)) := by
  revert hfew
  unfold perform Machine.perform
  cases op.operation with
  | stack f => exact fun _ => onMain_of_does (apply_does _ f) s
  | openBranch negated => exact fun _ => openBranch_eq negated
  | checkSig verify => exact fun _ => onMain_of_does (checkSig_does hcheck verify) s
  | checkMultisig verify => exact checkMultisig_eq hcheck
  | checkLockTime => exact fun _ => onMain_of_test (checkLockTime_eq env s.main)
  | checkSequence => exact fun _ => onMain_of_test (checkSequence_eq env s.main)
  | nop | otherwise | closeBranch | toAlt | fromAlt | announce | disabled | reserved =>
      exact fun _ => rfl

theorem stepCounted_eq (hcheck : Answers check env) {op : Opcode}
    (hfew : counted (Machine.stepCounted env op s) < UInt64.size) :
    stepCounted env check op s = some (result () (Machine.stepCounted env op s)) := by
  unfold stepCounted
  unfold Machine.stepCounted at hfew ⊢
  split
  · rfl
  · rename_i hdisabled
    rw [if_neg hdisabled] at hfew
    split
    · rfl
    · rename_i hskip
      rw [if_neg hskip] at hfew
      exact perform_eq hcheck hfew

theorem countOpcode_eq {op : Opcode}
    (hfew : counted (Machine.countOpcode env op s) < UInt64.size) :
    countOpcode env op s = some (result () (Machine.countOpcode env op s)) := by
  unfold countOpcode
  unfold Machine.countOpcode at hfew ⊢
  split
  · rename_i hcounted
    rw [if_pos hcounted] at hfew
    exact countOps_eq hfew
  · rfl

theorem step_eq (hcheck : Answers check env) {c : Chunk}
    (hfew : counted (Machine.step env s c) < UInt64.size) :
    step env check c s = some (result () (Machine.step env s c)) := by
  cases c with
  | push enc data => rfl
  | op op =>
      exact bind_of_few hfew (fun t _ => (counts_stepCounted op).le_counted) countOpcode_eq
        fun t _ hfew => stepCounted_eq hcheck hfew

theorem execute_eq (hcheck : Answers check env) {cs : List Chunk}
    (hfew : counted (Machine.execute env cs s) < UInt64.size) :
    execute env check cs s = some (result () (Machine.execute env cs s)) := by
  induction cs generalizing s with
  | nil => rfl
  | cons c cs ih =>
      -- the rest counts on from where the chunk ends, so what is few at the end is few here
      exact bind_of_few hfew (fun t _ => (counts_execute cs).le_counted) (step_eq hcheck)
        fun t _ hfew => ih hfew

theorem run_eq (hcheck : Answers check env) {script : Script}
    (hfew : counted (Machine.run env script s) < UInt64.size) :
    run env check script s = some (result () (Machine.run env script s)) := by
  unfold run
  unfold Machine.run at hfew ⊢
  split
  · rfl
  · rename_i hsize
    rw [if_neg hsize] at hfew
    exact bind_of_few hfew (fun t _ => (counts_requireBalanced : Counts env t _).le_counted)
      (execute_eq hcheck) fun _ _ _ => rfl

/-! ## Verification -/

theorem verifying_eq {p : Action State ExecError Unit} {r : Outcome ExecError State}
    (h : p s = some (result () r)) : verifying p s = some (result () (Machine.verifying r)) := by
  rw [verifying, h]
  cases r <;> rfl

theorem ok_of_verifying {r : Outcome ExecError State} {t : State}
    (h : Machine.verifying r = .ok t) : r = .ok t := by
  cases r with
  | error halted => cases h
  | ok u =>
      cases h
      rfl

theorem requireTrue_eq : requireTrue s = some (result () (Machine.requireTrue s)) := by
  unfold requireTrue Machine.requireTrue
  cases s.main with
  | nil => rfl
  | cons top rest =>
      dsimp only
      rw [isTrue?_eq]
      cases Number.isTrue top <;> rfl

theorem runToTrue_eq (hcheck : Answers check env) {script : Script}
    (hfew : counted (Machine.run env script s) < UInt64.size) :
    runToTrue env check script s = some (result () (Machine.runToTrue env script s)) :=
  bind_of_result (verifying_eq (run_eq hcheck hfew)) fun _ _ => requireTrue_eq

theorem takeRedeem_eq (saved : Stack) :
    takeRedeem saved s = some (match Machine.takeRedeem saved s with
      | .ok (redeem, t) => .ok redeem t
      | .error h => .error h.error h.state) := by
  unfold takeRedeem Machine.takeRedeem
  cases saved with
  | nil => rfl
  | cons top rest =>
      dsimp only
      rw [parse?_eq]
      cases Script.parse top <;> rfl

theorem opCount_of_takeRedeem {saved : Stack} {redeem : Script} {t : State}
    (h : Machine.takeRedeem saved s = .ok (redeem, t)) : t.opCount = s.opCount := by
  unfold Machine.takeRedeem at h
  split at h
  · cases h
  · split at h
    · cases h
    · cases h
      rfl

theorem runRedeem_eq (hcheck : Answers check env) {unlock : Script} {saved : Stack}
    (hfew : unlock.isDataOnly = true → ∀ redeem t, Machine.takeRedeem saved s = .ok (redeem, t) →
      counted (Machine.run env redeem t) < UInt64.size) :
    runRedeem env check unlock saved s
      = some (result () (Machine.runRedeem env unlock saved s)) := by
  unfold runRedeem Machine.runRedeem
  split
  · rename_i hdata
    have htake := @takeRedeem_eq s saved
    cases hredeem : Machine.takeRedeem saved s with
    | error h =>
        rw [hredeem] at htake
        exact Action.bind_of_error htake
    | ok found =>
        rw [hredeem] at htake
        exact (Action.bind_of_ok htake).trans
          (runToTrue_eq hcheck (hfew hdata found.1 found.2 hredeem))
  · rfl

/-- In none of the scripts that are run does the count leave its 64 bits. -/
structure FewOps (env : Env) (lock unlock : Script) (s : State) : Prop where
  unlocking : counted (Machine.run env unlock s) < UInt64.size
  locking : ∀ t, Machine.run env unlock s = .ok t → counted (Machine.run env lock t) < UInt64.size
  /-- The redeem script counts only where it is run. -/
  redeeming : ∀ t u redeem v, Machine.run env unlock s = .ok t →
    Machine.runToTrue env lock t = .ok u → env.evaluatesRedeem = true →
    lock.isPayToScriptHash = true → unlock.isDataOnly = true →
    Machine.takeRedeem t.main u = .ok (redeem, v) →
    counted (Machine.run env redeem v) < UInt64.size

/-- Where the limits are far enough below what 64 bits hold, the count never leaves them. -/
theorem FewOps.of_limits {lock unlock : Script} (hmost : env.mostCounted < UInt64.size)
    (hs : s.opCount ≤ env.config.maxOps) : FewOps env lock unlock s := by
  have hrun : ∀ (script : Script) (t : State), t.opCount ≤ env.config.maxOps →
      counted (Machine.run env script t) < UInt64.size := fun script t ht =>
    Nat.lt_of_le_of_lt (within_run script ht).counted_le hmost
  have hunlocked : ∀ t, Machine.run env unlock s = .ok t → t.opCount ≤ env.config.maxOps := by
    intro t ht
    have hin := within_run unlock hs
    rwa [ht] at hin
  refine ⟨hrun unlock s hs, fun t ht => hrun lock t (hunlocked t ht), ?_⟩
  intro t u redeem v ht hu _ _ _ hv
  have hlocked := within_runToTrue lock (hunlocked t ht)
  rw [hu] at hlocked
  exact hrun redeem v (by rwa [opCount_of_takeRedeem hv])

/-- A verification has a next step until it ends, and it ends as it does on stacks. -/
theorem verify_eq (hcheck : Answers check env) {lock unlock : Script}
    (hfew : FewOps env lock unlock s) :
    verify env check lock unlock s = some (result true (Machine.verify env lock unlock s)) := by
  refine bind_of_result (verifying_eq (run_eq hcheck hfew.unlocking)) fun t ht => ?_
  have hunlocked := ok_of_verifying ht
  refine (Action.bind_of_ok rfl).trans ?_
  refine bind_of_result (runToTrue_eq hcheck (hfew.locking t hunlocked)) fun u hu => ?_
  by_cases hredeem : (env.evaluatesRedeem && lock.isPayToScriptHash) = true
  · rw [if_pos hredeem, if_pos hredeem]
    rw [Bool.and_eq_true] at hredeem
    exact return_of_result (runRedeem_eq hcheck fun hdata redeem v hv =>
      hfew.redeeming t u redeem v hunlocked hu hredeem.1 hredeem.2 hdata hv) true
  · rw [if_neg hredeem, if_neg hredeem]
    rfl

end TxScript.Indexed
