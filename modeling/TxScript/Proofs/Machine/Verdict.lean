import TxScript.Machine.Run
import TxScript.Proofs.Machine.Step

/-!
# Runs and verdicts

A run that succeeds leaves no branch open, so the script behind it starts outside of branches. A
spend is accepted exactly when each of the runs that make it up succeeds; the lemmas below take a
verdict apart into those runs.
-/

namespace TxScript.Machine

variable {env : Env} {script lock unlock : Script} {s t : State}

/-- The surroundings with default limits: the time of the block, and what may be asked about the
transaction, if there is one. -/
abbrev Env.withDefaults (time : UInt32) (checker : Option Checker) : Env :=
  { blockTime := time, checker := checker }

/-- Outside of branches the default limits admit an opcode as long as the count has room. -/
theorem admits_withDefaults {time : UInt32} {checker : Option Checker} {op : Opcode}
    (hop : op.isCounted = true ∧ op.isDisabled true = false) (hb : s.branches = [])
    (hroom : s.opCount < 201) : Admits (.withDefaults time checker) s op :=
  ⟨executing_of_branches_nil hb, hop.1, hop.2, hroom⟩

/-- A hash is short enough to be pushed. -/
theorem step_pushHash {time : UInt32} {checker : Option Checker} {hash : Digest 20}
    (hb : s.branches = []) :
    step (.withDefaults time checker) s (.pushMinimal hash.bytes) =
      .ok { s with main := hash.bytes :: s.main } := by
  have hshort : hash.bytes.length ≤ 520 := by
    rw [hash.length_bytes]
    decide
  exact step_push (executing_of_branches_nil hb) hshort

/-! ## One script -/

theorem requireBalanced_eq_ok : requireBalanced s = .ok t ↔ s.branches = [] ∧ t = s := by
  cases hb : s.branches with
  | nil => simp [requireBalanced, hb, eq_comm]
  | cons b rest => simp [requireBalanced, hb, halt]

theorem run_eq_ok :
    run env script s = .ok t ↔
      script.size ≤ env.config.maxScriptSize ∧ execute env script.chunks s.fresh = .ok t ∧
        t.branches = [] := by
  unfold run
  by_cases hsize : env.config.maxScriptSize < script.size
  · simp [hsize, Nat.not_le.2 hsize, halt]
  · rw [if_neg hsize, bind_eq_ok]
    constructor
    · intro h
      rcases h with ⟨m, hm, hbalanced⟩
      rcases requireBalanced_eq_ok.1 hbalanced with ⟨hb, rfl⟩
      exact ⟨Nat.not_lt.1 hsize, hm, hb⟩
    · intro h
      rcases h with ⟨-, hexec, hb⟩
      exact ⟨t, hexec, requireBalanced_eq_ok.2 ⟨hb, rfl⟩⟩

theorem branches_of_run (h : run env script s = .ok t) : t.branches = [] :=
  (run_eq_ok.1 h).2.2

/-! ## The top of the stack -/

/-- A state that ends with a true element on top. -/
def State.EndsTrue (s : State) : Prop :=
  ∃ top rest, s.main = top :: rest ∧ Number.isTrue top = true

theorem State.endsTrue_of_ofBool {valid : Bool} {rest : Stack}
    (h : s.main = Number.ofBool valid :: rest) : s.EndsTrue ↔ valid = true := by
  simp [State.EndsTrue, h]

theorem requireTrue_eq_ok : requireTrue s = .ok t ↔ s.EndsTrue ∧ t = s := by
  cases hm : s.main with
  | nil => simp [requireTrue, State.EndsTrue, hm, halt]
  | cons top rest =>
      by_cases htop : Number.isTrue top = true
      · have hends : s.EndsTrue := ⟨top, rest, hm, htop⟩
        simp only [requireTrue, hm, htop, if_true, hends, true_and, Except.ok.injEq]
        exact eq_comm
      · simp [requireTrue, State.EndsTrue, hm, htop, halt]

theorem verifying_eq_ok {r : Outcome ExecError State} : verifying r = .ok t ↔ r = .ok t := by
  cases r <;> simp [verifying]

theorem runToTrue_eq_ok :
    runToTrue env script s = .ok t ↔ run env script s = .ok t ∧ t.EndsTrue := by
  unfold runToTrue
  rw [bind_eq_ok]
  constructor
  · intro h
    rcases h with ⟨m, hm, htrue⟩
    rcases requireTrue_eq_ok.1 htrue with ⟨ht, rfl⟩
    exact ⟨verifying_eq_ok.1 hm, ht⟩
  · intro h
    rcases h with ⟨hrun, ht⟩
    exact ⟨t, verifying_eq_ok.2 hrun, requireTrue_eq_ok.2 ⟨ht, rfl⟩⟩

/-- Outside of branches a script sees the main stack and nothing else of what ran before it. -/
theorem exists_runToTrue_iff (hb : s.branches = [])
    (hsize : script.size ≤ env.config.maxScriptSize) :
    (∃ t, runToTrue env script s = .ok t) ↔
      ∃ t, execute env script.chunks { main := s.main } = .ok t ∧ t.branches = [] ∧ t.EndsTrue := by
  have hfresh : s.fresh = { main := s.main } := by simp [State.fresh, hb]
  constructor
  · intro h
    rcases h with ⟨t, h⟩
    rcases runToTrue_eq_ok.1 h with ⟨hrun, hends⟩
    rcases run_eq_ok.1 hrun with ⟨-, hexec, hclosed⟩
    rw [hfresh] at hexec
    exact ⟨t, hexec, hclosed, hends⟩
  · intro h
    rcases h with ⟨t, hexec, hclosed, hends⟩
    rw [← hfresh] at hexec
    exact ⟨t, runToTrue_eq_ok.2 ⟨run_eq_ok.2 ⟨hsize, hexec, hclosed⟩, hends⟩⟩

/-! ## Two scripts -/

/-- The unlocking script meets the locking script. -/
def Accepts (env : Env) (lock unlock : Script) : Prop :=
  ∃ t, verify env lock unlock {} = .ok t

theorem verify_eq_ok :
    verify env lock unlock s = .ok t ↔
      ∃ unlocked locked, run env unlock s = .ok unlocked ∧
        runToTrue env lock unlocked = .ok locked ∧
        (if env.evaluatesRedeem && lock.isPayToScriptHash then
          runRedeem env unlock unlocked.main locked else .ok locked) = .ok t := by
  unfold verify
  rw [bind_eq_ok]
  constructor
  · intro h
    rcases h with ⟨unlocked, hu, hrest⟩
    rcases bind_eq_ok.1 hrest with ⟨locked, hl, hredeem⟩
    exact ⟨unlocked, locked, verifying_eq_ok.1 hu, hl, hredeem⟩
  · intro h
    rcases h with ⟨unlocked, locked, hu, hl, hredeem⟩
    exact ⟨unlocked, verifying_eq_ok.2 hu, bind_eq_ok.2 ⟨locked, hl, hredeem⟩⟩

/-- Where no redeem script is evaluated, a spend is accepted exactly when the unlocking script runs
and leaves what the locking script asks for. -/
theorem accepts_iff_of_no_redeem {P : State → Prop}
    (h : (env.evaluatesRedeem && lock.isPayToScriptHash) = false)
    (hlock : ∀ u : State, u.branches = [] → ((∃ t, runToTrue env lock u = .ok t) ↔ P u)) :
    Accepts env lock unlock ↔ ∃ u, run env unlock {} = .ok u ∧ P u := by
  constructor
  · intro haccepts
    rcases haccepts with ⟨t, ht⟩
    rcases verify_eq_ok.1 ht with ⟨unlocked, locked, hu, hl, -⟩
    exact ⟨unlocked, hu, (hlock unlocked (branches_of_run hu)).1 ⟨locked, hl⟩⟩
  · intro hruns
    rcases hruns with ⟨unlocked, hu, hp⟩
    rcases (hlock unlocked (branches_of_run hu)).2 hp with ⟨locked, hl⟩
    refine ⟨locked, verify_eq_ok.2 ⟨unlocked, locked, hu, hl, ?_⟩⟩
    rw [h]
    rfl

/-- A verdict is one or the other. -/
theorem not_accepts_iff : ¬ Accepts env lock unlock ↔ ∃ h, verify env lock unlock {} = .error h := by
  unfold Accepts
  cases verify env lock unlock {} <;> simp

end TxScript.Machine
