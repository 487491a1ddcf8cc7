import TxScript.Machine.Run

/-!
# How much is counted

Operations are only ever added to the count while a script runs. A run goes on only as long as the
count is within the limit, so that no single step can take it further past the limit than by the
keys of one check and the opcode that asks for it.
-/

namespace TxScript.Machine

variable {ε : Type} {env : Env} {s : State}

/-- The operations counted when a run ends. -/
def counted (r : Outcome ε State) : Nat :=
  match r with
  | .ok s => s.opCount
  | .error h => h.state.opCount

/-- The most that is ever counted when no more than the limit is counted at first. -/
def Env.mostCounted (env : Env) : Nat :=
  env.config.maxOps + (env.config.maxMultisigKeys + 1)

/-- A run that goes on is within the limit, and one that ends is not far past it. -/
def Within (env : Env) (r : Outcome ε State) : Prop :=
  match r with
  | .ok t => t.opCount ≤ env.config.maxOps
  | .error h => h.state.opCount ≤ env.mostCounted

theorem Within.counted_le {r : Outcome ε State} (h : Within env r) :
    counted r ≤ env.mostCounted := by
  cases r with
  | ok t => exact Nat.le_trans h (Nat.le_add_right _ _)
  | error halted => exact h

theorem within_of_counted_le {r : Outcome ε State} (h : counted r ≤ env.config.maxOps) :
    Within env r := by
  cases r with
  | ok t => exact h
  | error halted => exact Nat.le_trans h (Nat.le_add_right _ _)

/-- From a state on, the count does not go down, and it stays within bounds. -/
structure Counts (env : Env) (s : State) (r : Outcome ε State) : Prop where
  le_counted : s.opCount ≤ counted r
  within : s.opCount ≤ env.config.maxOps → Within env r

namespace Counts

/-- What counts nothing. -/
theorem of_eq {r : Outcome ε State} (h : counted r = s.opCount) : Counts env s r where
  le_counted := Nat.le_of_eq h.symm
  within hs := within_of_counted_le (by rwa [h])

theorem bind {r : Outcome ε State} {k : State → Outcome ε State} (h : Counts env s r)
    (hk : ∀ t, r = .ok t → Counts env t (k t)) : Counts env s (r >>= k) := by
  cases r with
  | error halted => exact h
  | ok t =>
      exact ⟨Nat.le_trans h.le_counted (hk t rfl).le_counted,
        fun hs => (hk t rfl).within (h.within hs)⟩

end Counts

theorem counted_countOps (count : Nat) : counted (s.countOps env count) = s.opCount + count := by
  unfold State.countOps
  dsimp only
  split <;> rfl

theorem counts_countOps {count : Nat} (hcount : count ≤ env.config.maxMultisigKeys + 1) :
    Counts env s (s.countOps env count) := by
  unfold State.countOps
  dsimp only
  split
  · exact ⟨Nat.le_add_right _ _, fun hs => Nat.add_le_add hs hcount⟩
  · rename_i hlimit
    exact ⟨Nat.le_add_right _ _, fun _ => Nat.le_of_not_lt hlimit⟩

theorem counted_withMain (r : Except StackFault Stack) : counted (s.withMain r) = s.opCount := by
  cases r <;> rfl

theorem counted_tested (r : Except ExecError Unit) : counted (s.tested r) = s.opCount := by
  cases r <;> rfl

theorem counted_openBranch (negated : Bool) : counted (openBranch negated s) = s.opCount := by
  unfold openBranch
  split
  · split <;> rfl
  · rfl

theorem counted_turnBranch : counted (turnBranch s) = s.opCount := by
  unfold turnBranch
  split <;> rfl

theorem counted_closeBranch : counted (closeBranch s) = s.opCount := by
  unfold closeBranch
  split <;> rfl

theorem counted_toAlt : counted (toAlt s) = s.opCount := by
  unfold toAlt
  split <;> rfl

theorem counted_fromAlt : counted (fromAlt s) = s.opCount := by
  unfold fromAlt
  split <;> rfl

theorem le_of_readCount {bound : Nat} {fault : Int → ExecError} {stack : Stack} {n : Nat}
    (h : readCount bound fault stack = .ok n) : n ≤ bound := by
  unfold readCount at h
  cases stack with
  | nil => cases h
  | cons top rest =>
      dsimp only at h
      cases hn : Number.operand? top with
      | none =>
          rw [hn] at h
          cases h
      | some m =>
          rw [hn] at h
          dsimp only at h
          split at h
          · cases h
          · cases h
            omega

theorem onMain_bind_main (r : Except StackFault Stack) :
    (s.onMain r >>= fun main => pure { s with main := main }) = s.withMain r := by
  cases r <;> rfl

/-- A check of a row of signatures as two steps on the state, once the keys are counted. -/
theorem checkMultisig_eq (verify : Bool) :
    checkMultisig env verify s = s.onMain (readCount env.config.maxMultisigKeys .keyCount s.main)
      >>= fun keyCount => s.countOps env keyCount
      >>= fun t => t.withMain (checkGroups env verify keyCount t.main) := by
  simp only [checkMultisig, onMain_bind_main]

theorem counts_checkMultisig (verify : Bool) : Counts env s (checkMultisig env verify s) := by
  rw [checkMultisig_eq]
  cases hcount : readCount env.config.maxMultisigKeys .keyCount s.main with
  | error fault => exact .of_eq rfl
  | ok keyCount =>
      have hkeys : Counts env s (s.countOps env keyCount) :=
        counts_countOps (Nat.le_succ_of_le (le_of_readCount hcount))
      exact hkeys.bind fun t _ => .of_eq (counted_withMain _)

theorem counts_perform (op : Opcode) : Counts env s (perform env op s) := by
  unfold perform
  cases op.operation with
  | stack f => exact .of_eq (counted_withMain _)
  | openBranch negated => exact .of_eq (counted_openBranch negated)
  | otherwise => exact .of_eq counted_turnBranch
  | closeBranch => exact .of_eq counted_closeBranch
  | toAlt => exact .of_eq counted_toAlt
  | fromAlt => exact .of_eq counted_fromAlt
  | checkSig verify => exact .of_eq (counted_withMain _)
  | checkMultisig verify => exact counts_checkMultisig verify
  | checkLockTime => exact .of_eq (counted_tested _)
  | checkSequence => exact .of_eq (counted_tested _)
  | nop | announce | disabled | reserved => exact .of_eq rfl

theorem counts_stepCounted (op : Opcode) : Counts env s (stepCounted env op s) := by
  unfold stepCounted
  split
  · exact .of_eq rfl
  · split
    · exact .of_eq rfl
    · exact counts_perform op

theorem counts_countOpcode (op : Opcode) : Counts env s (countOpcode env op s) := by
  unfold countOpcode
  split
  · exact counts_countOps (Nat.succ_le_succ (Nat.zero_le _))
  · exact .of_eq rfl

theorem counts_step (c : Chunk) : Counts env s (step env s c) := by
  cases c with
  | push enc data =>
      simp only [step, State.pushData]
      split
      · split <;> exact .of_eq rfl
      · exact .of_eq rfl
  | op op => exact (counts_countOpcode op).bind fun t _ => counts_stepCounted op

theorem counts_execute (cs : List Chunk) : Counts env s (execute env cs s) := by
  induction cs generalizing s with
  | nil => exact .of_eq rfl
  | cons c cs ih => exact (counts_step c).bind fun t _ => ih

theorem counts_requireBalanced : Counts env s (requireBalanced s) := by
  unfold requireBalanced
  split <;> exact .of_eq rfl

/-- A script starts to count anew, unless it is too large to run. -/
theorem within_run (script : Script) (hs : s.opCount ≤ env.config.maxOps) :
    Within env (run env script s) := by
  unfold run
  split
  · exact within_of_counted_le hs
  · exact ((counts_execute script.chunks).bind fun t _ => counts_requireBalanced).within
      (Nat.zero_le _)

theorem within_runToTrue (script : Script) (hs : s.opCount ≤ env.config.maxOps) :
    Within env (runToTrue env script s) := by
  have hrun := within_run script hs
  unfold runToTrue
  cases hend : run env script s with
  | error halted =>
      rw [hend] at hrun
      exact hrun
  | ok t =>
      rw [hend] at hrun
      show Within env (requireTrue t)
      unfold requireTrue
      split
      · exact within_of_counted_le hrun
      · split <;> exact within_of_counted_le hrun

end TxScript.Machine
