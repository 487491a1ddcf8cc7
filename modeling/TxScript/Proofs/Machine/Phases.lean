import TxScript.Proofs.Machine.Verdict

/-!
# What runs in a verification

A run takes up the chunks of its script one after another, each in the state that those in front of
it left. A verification runs up to three scripts, each from a state that the runs before it left. A
fact about every chunk that is taken up is thereby one about the states in which runs and
verifications end.
-/

namespace TxScript.Machine

variable {ε : Type} {env : Env} {script lock unlock : Script} {s : State}

/-- The state in which a computation ends, whether it fails or not. -/
def Outcome.left (r : Outcome ε State) : State :=
  match r with
  | .ok t => t
  | .error h => h.state

/-! ## Chunks of a run -/

/-- When the script is run from `s`, the chunk is taken up in the state `u` once those of `before`
are done. -/
structure TakesUp (env : Env) (script : Script) (s : State) (before : List Chunk) (u : State)
    (c : Chunk) : Prop where
  size_le : script.size ≤ env.config.maxScriptSize
  begins : before ++ [c] <+: script.chunks
  execute_before : execute env before s.fresh = .ok u

/-- A row of chunks ends as the last of them that is taken up does. -/
theorem execute_left (env : Env) (cs : List Chunk) (s : State) :
    (cs = [] ∧ (execute env cs s).left = s) ∨
      ∃ before u c, before ++ [c] <+: cs ∧ execute env before s = .ok u ∧
        (execute env cs s).left = (step env u c).left := by
  induction cs generalizing s with
  | nil => exact .inl ⟨rfl, rfl⟩
  | cons c rest ih =>
      right
      rw [execute_cons]
      cases hc : step env s c with
      | error h => exact ⟨[], s, c, ⟨rest, rfl⟩, rfl, by rw [hc]; rfl⟩
      | ok t =>
          rcases ih t with ⟨rfl, -⟩ | ⟨before, u, d, hbegins, hbefore, hleft⟩
          · exact ⟨[], s, c, ⟨[], rfl⟩, rfl, by rw [hc]; rfl⟩
          · refine ⟨c :: before, u, d, List.cons_prefix_cons.2 ⟨rfl, hbegins⟩, ?_, hleft⟩
            rw [execute_cons, hc]
            exact hbefore

theorem requireBalanced_left (s : State) : (requireBalanced s).left = s := by
  unfold requireBalanced
  split <;> rfl

/-- A run of a script that is not too large ends where it starts afresh, or as the last chunk does
that is taken up. -/
theorem run_left_of_size_le (hsize : script.size ≤ env.config.maxScriptSize) (s : State) :
    (run env script s).left = s.fresh ∨
      ∃ before u c, TakesUp env script s before u c ∧
        (run env script s).left = (step env u c).left := by
  have hbalanced : (run env script s).left = (execute env script.chunks s.fresh).left := by
    unfold run
    rw [if_neg (Nat.not_lt.2 hsize)]
    cases execute env script.chunks s.fresh with
    | error h => rfl
    | ok t => exact requireBalanced_left t
  rw [hbalanced]
  rcases execute_left env script.chunks s.fresh with
    ⟨-, hleft⟩ | ⟨before, u, c, hbegins, hrun, hleft⟩
  · exact .inl hleft
  · exact .inr ⟨before, u, c, ⟨hsize, hbegins, hrun⟩, hleft⟩

/-- A run ends where it starts, or as the last chunk does that is taken up. -/
theorem run_left (env : Env) (script : Script) (s : State) :
    (run env script s).left = s ∨ (run env script s).left = s.fresh ∨
      ∃ before u c, TakesUp env script s before u c ∧
        (run env script s).left = (step env u c).left := by
  by_cases hsize : script.size ≤ env.config.maxScriptSize
  · exact .inr (run_left_of_size_le hsize s)
  · left
    unfold run
    rw [if_pos (Nat.not_le.1 hsize)]
    rfl

/-! ## Scripts of a verification -/

/-- The verification gets as far as to run this redeem script from this state. -/
inductive Redeems (env : Env) (lock unlock : Script) (s : State) : Script → State → Prop
  | intro {unlocked locked start : State} {redeem : Script}
    (run_unlock : run env unlock s = .ok unlocked)
    (run_lock : runToTrue env lock unlocked = .ok locked)
    (applies : (env.evaluatesRedeem && lock.isPayToScriptHash) = true)
    (constants : unlock.isDataOnly = true)
    (taken : takeRedeem unlocked.main locked = .ok (redeem, start)) :
    Redeems env lock unlock s redeem start

/-- The scripts that a verification runs, and the states from which it runs them. -/
inductive Phase (env : Env) (lock unlock : Script) (s : State) : Script → State → Prop
  | unlocking : Phase env lock unlock s unlock s
  | locking {unlocked : State} (h : run env unlock s = .ok unlocked) :
    Phase env lock unlock s lock unlocked
  | redeeming {redeem : Script} {start : State} (h : Redeems env lock unlock s redeem start) :
    Phase env lock unlock s redeem start

theorem requireTrue_left (s : State) : (requireTrue s).left = s := by
  unfold requireTrue
  split
  · rfl
  · split <;> rfl

theorem runToTrue_left (env : Env) (script : Script) (s : State) :
    (runToTrue env script s).left = (run env script s).left := by
  unfold runToTrue
  cases run env script s with
  | error h => rfl
  | ok t => exact requireTrue_left t

theorem takeRedeem_of_error {saved : Stack} {h : Halt VerifyError}
    (htaken : takeRedeem saved s = .error h) : h.state = s := by
  unfold takeRedeem at htaken
  split at htaken
  · cases htaken
    rfl
  · split at htaken
    · cases htaken
      rfl
    · cases htaken

/-- A verification ends as one of the runs does that it is made of. -/
theorem verify_left (env : Env) (lock unlock : Script) (s : State) :
    ∃ script start, Phase env lock unlock s script start ∧
      (verify env lock unlock s).left = (run env script start).left := by
  unfold verify
  cases hunlock : run env unlock s with
  | error h => exact ⟨unlock, s, .unlocking, by rw [hunlock]; rfl⟩
  | ok unlocked =>
      have hlocking : Phase env lock unlock s lock unlocked := .locking hunlock
      show ∃ script start, _ ∧ Outcome.left (runToTrue env lock unlocked >>= fun locked => _) = _
      cases hlock : runToTrue env lock unlocked with
      | error h =>
          refine ⟨lock, unlocked, hlocking, ?_⟩
          rw [← runToTrue_left, hlock]
          rfl
      | ok locked =>
          have hlocked : (run env lock unlocked).left = locked := by
            rw [← runToTrue_left, hlock]
            rfl
          show ∃ script start, _ ∧
            Outcome.left (if env.evaluatesRedeem && lock.isPayToScriptHash then
              runRedeem env unlock unlocked.main locked else .ok locked) = _
          split
          · rename_i happlies
            unfold runRedeem
            split
            · rename_i hconstants
              cases htaken : takeRedeem unlocked.main locked with
              | error h =>
                  have hkept : h.state = locked := takeRedeem_of_error htaken
                  exact ⟨lock, unlocked, hlocking, hkept.trans hlocked.symm⟩
              | ok taken =>
                  obtain ⟨redeem, start⟩ := taken
                  have hredeems := Redeems.intro hunlock hlock happlies hconstants htaken
                  exact ⟨redeem, start, .redeeming hredeems, runToTrue_left env redeem start⟩
            · exact ⟨lock, unlocked, hlocking, hlocked.symm⟩
          · exact ⟨lock, unlocked, hlocking, hlocked.symm⟩

end TxScript.Machine
