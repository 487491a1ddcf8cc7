import TxScript.Proofs.Machine.Branches

/-!
# Conditionals

Scripts are flat rows of chunks, and the machine keeps one flag for each open branch. Here the same
rows are read as nested bodies: a conditional takes its condition off the stack, runs every other
one of its arms and skips the ones between. The two readings agree, however deep the nesting and
however many arms there are.
-/

namespace TxScript

mutual

/-- A row of chunks and of conditionals. -/
inductive Body where
  | nil
  | chunk (c : Chunk) (plain : c.isBranching = false) (rest : Body)
  | conditional (negated : Bool) (arms : Arms) (rest : Body)

/-- The bodies between the opening and the closing of a conditional, at least one. -/
inductive Arms where
  | last (body : Body)
  | otherwise (body : Body) (rest : Arms)

end

mutual

/-- The flat row that the machine is given. -/
def Body.chunks : Body → List Chunk
  | .nil => []
  | .chunk c _ rest => c :: rest.chunks
  | .conditional negated arms rest => .op (.opening negated) :: (arms.chunks ++ rest.chunks)

/-- The arms with what stands between them, and the closing. -/
def Arms.chunks : Arms → List Chunk
  | .last body => body.chunks ++ [.op .closing]
  | .otherwise body rest => body.chunks ++ .op .turning :: rest.chunks

end

open Machine

variable {env : Env} {s t : State} {branches bs : List Bool}

mutual

/-- The nested reading. It starts outside of branches and never opens one. -/
def Body.run (env : Env) : Body → State → Outcome ExecError State
  | .nil, s => .ok s
  | .chunk c _ rest, s => step env s c >>= rest.run env
  | .conditional negated arms rest, s => do
    let s ← s.countOps env 1
    match s.main with
    | [] => halt (.missingItems 1) s
    | top :: main =>
      let s ← arms.run env (Number.isTrue top != negated) { s with main := main }
      rest.run env s

/-- Runs the first arm, skips the one behind it, and so on by turns; or begins by skipping. -/
def Arms.run (env : Env) : Arms → (active : Bool) → State → Outcome ExecError State
  | .last body, active, s => do
    let s ← (if active then body.run env s else skip env body.chunks s)
    s.countOps env 1
  | .otherwise body rest, active, s => do
    let s ← (if active then body.run env s else skip env body.chunks s)
    let s ← s.countOps env 1
    rest.run env (!active) s

end

/-! ## The flat run follows the nested one -/

/-- The flat outcome is the nested one under the given branches; where it stops, some may be left
open. -/
inductive Follows (branches : List Bool) : (flat nested : Outcome ExecError State) → Prop where
  | ok (t : State) (outside : t.branches = []) : Follows branches (.ok (t.under branches)) (.ok t)
  | error (h : Halt ExecError) (outside : h.state.branches = []) (left : List Bool) :
    Follows branches (.error ⟨h.error, h.state.under left⟩) (.error h)

namespace Follows

theorem bind {flat nested : Outcome ExecError State} {k k' : State → Outcome ExecError State}
    (h : Follows branches flat nested)
    (hk : ∀ t, t.branches = [] → Follows bs (k (t.under branches)) (k' t)) :
    Follows bs (flat >>= k) (nested >>= k') := by
  cases h with
  | ok t outside => exact hk t outside
  | error h outside left => exact .error h outside left

/-- Work on the branches has no counterpart in the nested reading. -/
theorem bind_left {flat nested : Outcome ExecError State} {k : State → Outcome ExecError State}
    (h : Follows branches flat nested)
    (hk : ∀ t : State, k (t.under branches) = .ok (t.under bs)) :
    Follows bs (flat >>= k) nested := by
  cases h with
  | ok t outside =>
      show Follows bs (k (t.under branches)) (.ok t)
      rw [hk]
      exact .ok t outside
  | error h outside left => exact .error h outside left

theorem of_under {r : Outcome ExecError State} (h : Outcome.under r [] = r) :
    Follows branches (Outcome.under r branches) r := by
  cases r with
  | ok t => exact .ok t (congrArg State.branches (Except.ok.inj h)).symm
  | error e => exact .error e (congrArg (·.state.branches) (Except.error.inj h)).symm _

theorem of_countOps (hs : s.branches = []) (count : Nat) :
    Follows branches ((s.under branches).countOps env count) (s.countOps env count) := by
  have hout : s.under [] = s := by rw [← hs, State.under_branches]
  have hsame : (s.under []).countOps env count = (s.countOps env count).under [] :=
    countOps_under count
  rw [hout] at hsame
  rw [countOps_under]
  exact of_under hsame.symm

/-- A chunk that is no part of a conditional, where all branches are run. -/
theorem of_step {c : Chunk} (hplain : c.isBranching = false)
    (hrun : branches.contains false = false) (hs : s.branches = []) :
    Follows branches (step env (s.under branches) c) (step env s c) := by
  have hout : s.under [] = s := by rw [← hs, State.under_branches]
  have hexec : s.executing = true := executing_of_branches_nil hs
  have hexec' : (s.under branches).executing = s.executing := by
    rw [hexec, State.executing, State.branches_under, hrun]
    rfl
  have hsame : step env (s.under []) c = (step env s c).under [] :=
    step_under hplain (by rw [hout])
  rw [hout] at hsame
  rw [step_under hplain hexec']
  exact of_under hsame.symm

/-- A chunk that is no part of a conditional, where some branch is not run. -/
theorem of_skipStep {c : Chunk} (hplain : c.isBranching = false)
    (hskip : branches.contains false = true) (hs : s.branches = []) :
    Follows branches (step env (s.under branches) c) (skipStep env s c) := by
  have hout : s.under [] = s := by rw [← hs, State.under_branches]
  have hexec : (s.under branches).executing = false := by
    rw [State.executing, State.branches_under, hskip]
    rfl
  have hsame : skipStep env (s.under []) c = (skipStep env s c).under [] := skipStep_under
  rw [hout] at hsame
  rw [step_of_skipping hplain hexec, skipStep_under]
  exact of_under hsame.symm

/-- An opcode of a conditional that does no more than its work on the branches. -/
theorem of_branching {op : Opcode} (hop : op.isBranching = true) (hs : s.branches = [])
    (hperform : ∀ t : State, perform env op (t.under branches) = .ok (t.under bs)) :
    Follows bs (step env (s.under branches) (.op op)) (s.countOps env 1) := by
  rw [step_branching hop]
  exact (of_countOps hs 1).bind_left hperform

end Follows

/-! ## Skipped bodies -/

theorem Opcode.isBranching_opening (negated : Bool) :
    (Opcode.opening negated).isBranching = true := by
  cases negated <;> decide

theorem perform_opening (negated : Bool) :
    perform env (.opening negated) s = openBranch negated s := by
  have hop : (Opcode.opening negated).operation = .openBranch negated := by
    cases negated <;> decide
  simp only [perform, hop]

theorem perform_turning (b : Bool) (t : State) :
    perform env .turning (t.under (b :: branches)) = .ok (t.under ((!b) :: branches)) := by
  simp only [perform, (by decide : Opcode.turning.operation = .otherwise)]
  rfl

theorem perform_closing (b : Bool) (t : State) :
    perform env .closing (t.under (b :: branches)) = .ok (t.under branches) := by
  simp only [perform, (by decide : Opcode.closing.operation = .closeBranch)]
  rfl

theorem openBranch_of_skipping (hskip : branches.contains false = true) (negated : Bool)
    (t : State) : openBranch negated (t.under branches) = .ok (t.under (false :: branches)) := by
  have hexec : (t.under branches).executing = false := by
    rw [State.executing, State.branches_under, hskip]
    rfl
  rw [openBranch, hexec]
  rfl

theorem skip_singleton (c : Chunk) : skip env [c] s = skipStep env s c := by
  show (skipStep env s c >>= skip env []) = _
  cases skipStep env s c <;> rfl

mutual

theorem Body.follows_skip : ∀ (body : Body) {branches : List Bool} {s : State},
    branches.contains false = true → s.branches = [] →
      Follows branches (execute env body.chunks (s.under branches)) (skip env body.chunks s)
  | .nil, _, s, _, hs => .ok s hs
  | .chunk _ plain rest, _, _, hskip, hs =>
      (Follows.of_skipStep plain hskip hs).bind fun _ ht => rest.follows_skip hskip ht
  | .conditional negated arms rest, branches, s, hskip, hs => by
      have hop := Opcode.isBranching_opening negated
      have hopen : ∀ t : State, perform env (.opening negated) (t.under branches) =
          .ok (t.under (false :: branches)) := by
        intro t
        rw [perform_opening, openBranch_of_skipping hskip]
      show Follows branches (step env (s.under branches) (.op (.opening negated)) >>=
        execute env (arms.chunks ++ rest.chunks)) (skipStep env s (.op (.opening negated)) >>=
          skip env (arms.chunks ++ rest.chunks))
      rw [skipStep_branching hop]
      refine (Follows.of_branching hop hs hopen).bind fun t ht => ?_
      rw [execute_append, skip_append]
      exact (arms.follows_skip false hskip ht).bind fun u hu => rest.follows_skip hskip hu

/-- Whatever the flag of their own branch, arms in a skipped branch are skipped. -/
theorem Arms.follows_skip : ∀ (arms : Arms) (b : Bool) {branches : List Bool} {s : State},
    branches.contains false = true → s.branches = [] →
      Follows branches (execute env arms.chunks (s.under (b :: branches)))
        (skip env arms.chunks s)
  | .last body, b, branches, s, hskip, hs => by
      -- A branch further out is skipped already, so nothing is lost when `turning` flips `b`.
      have hskip' : (b :: branches).contains false = true := by simp_all
      rw [Arms.chunks, execute_append, skip_append]
      refine (body.follows_skip hskip' hs).bind fun t ht => ?_
      rw [execute_singleton, skip_singleton, skipStep_branching (by decide)]
      exact Follows.of_branching (by decide) ht (perform_closing b)
  | .otherwise body rest, b, branches, s, hskip, hs => by
      have hskip' : (b :: branches).contains false = true := by simp_all
      rw [Arms.chunks, execute_append, skip_append]
      refine (body.follows_skip hskip' hs).bind fun t ht => ?_
      show Follows branches (step env (t.under (b :: branches)) (.op .turning) >>=
        execute env rest.chunks) (skipStep env t (.op .turning) >>= skip env rest.chunks)
      rw [skipStep_branching (by decide)]
      refine (Follows.of_branching (by decide) ht (perform_turning b)).bind fun u hu => ?_
      exact rest.follows_skip (!b) hskip hu

end

/-! ## Bodies that are run -/

theorem openBranch_of_running (hrun : branches.contains false = false) (negated : Bool)
    (t : State) :
    openBranch negated (t.under branches) =
      match t.main with
      | [] => halt (.missingItems 1) (t.under branches)
      | top :: main =>
        .ok (State.under { t with main := main } ((Number.isTrue top != negated) :: branches)) := by
  have hexec : (t.under branches).executing = true := by
    rw [State.executing, State.branches_under, hrun]
    rfl
  rw [openBranch, hexec]
  rfl

/-- An arm whose turn it is, or is not. -/
theorem Body.follows_turn (body : Body) (active : Bool) (hs : s.branches = [])
    (hrun : Follows (true :: branches) (execute env body.chunks (s.under (true :: branches)))
      (body.run env s)) :
    Follows (active :: branches) (execute env body.chunks (s.under (active :: branches)))
      (if active then body.run env s else skip env body.chunks s) := by
  cases active with
  | true => exact hrun
  | false => exact body.follows_skip (by simp) hs

mutual

theorem Body.follows_run : ∀ (body : Body) {branches : List Bool} {s : State},
    branches.contains false = false → s.branches = [] →
      Follows branches (execute env body.chunks (s.under branches)) (body.run env s)
  | .nil, _, s, _, hs => .ok s hs
  | .chunk _ plain rest, _, _, hrun, hs =>
      (Follows.of_step plain hrun hs).bind fun _ ht => rest.follows_run hrun ht
  | .conditional negated arms rest, branches, s, hrun, hs => by
      have hop := Opcode.isBranching_opening negated
      rw [Body.chunks, execute_cons, step_branching hop, bind_assoc, Body.run]
      refine (Follows.of_countOps hs 1).bind fun t ht => ?_
      rw [perform_opening, openBranch_of_running hrun]
      cases t.main with
      | nil => exact .error ⟨.missingItems 1, t⟩ ht branches
      | cons top main =>
          -- From here on the flat reading has one flag more, until the arms are closed.
          have harms := arms.follows_run (Number.isTrue top != negated) hrun
            (s := { t with main := main }) ht
          show Follows branches (execute env (arms.chunks ++ rest.chunks) _) (_ >>= rest.run env)
          rw [execute_append]
          exact harms.bind fun u hu => rest.follows_run hrun hu

theorem Arms.follows_run : ∀ (arms : Arms) (active : Bool) {branches : List Bool} {s : State},
    branches.contains false = false → s.branches = [] →
      Follows branches (execute env arms.chunks (s.under (active :: branches)))
        (arms.run env active s)
  | .last body, active, branches, s, hrun, hs => by
      have hrun' : (true :: branches).contains false = false := by simp_all
      rw [Arms.chunks, execute_append, Arms.run]
      refine (body.follows_turn active hs (body.follows_run hrun' hs)).bind fun t ht => ?_
      rw [execute_singleton]
      exact Follows.of_branching (by decide) ht (perform_closing active)
  | .otherwise body rest, active, branches, s, hrun, hs => by
      have hrun' : (true :: branches).contains false = false := by simp_all
      rw [Arms.chunks, execute_append, Arms.run]
      refine (body.follows_turn active hs (body.follows_run hrun' hs)).bind fun t ht => ?_
      rw [execute_cons]
      refine (Follows.of_branching (by decide) ht (perform_turning active)).bind fun u hu => ?_
      exact rest.follows_run (!active) hrun hu

end

/-! ## The two readings -/

theorem Follows.under_nil {flat nested : Outcome ExecError State}
    (h : Follows branches flat nested) : Outcome.under flat [] = nested := by
  cases h with
  | ok t outside => rw [← outside]; rfl
  | error h outside left => rcases h with ⟨e, t⟩; rw [← outside]; rfl

theorem Follows.branches_of_ok {flat nested : Outcome ExecError State}
    (h : Follows branches flat nested) (hok : flat = .ok t) : t.branches = branches := by
  cases h with
  | ok u outside => cases hok; rfl
  | error h outside left => cases hok

theorem Body.follows (body : Body) (s : State) :
    Follows s.branches (execute env body.chunks s)
      (if s.executing then body.run env (s.under []) else skip env body.chunks (s.under [])) := by
  have hout : (s.under []).branches = [] := rfl
  cases hexec : s.executing with
  | true =>
      have hrun : s.branches.contains false = false := by simpa [State.executing] using hexec
      exact body.follows_run hrun hout
  | false =>
      have hskip : s.branches.contains false = true := by simpa [State.executing] using hexec
      exact body.follows_skip hskip hout

/-- Chunk by chunk, a body does what the nested reading says, with the same failure and with the
same stacks and count where it fails, and leaves no branch open or closed. In a skipped branch it is
skipped. Skipping counts operations and does no more; it stops at the first chunk that is refused,
with that chunk counted. -/
theorem Body.execute_chunks (env : Env) (body : Body) (s : State) :
    (∀ t, execute env body.chunks s = .ok t → t.branches = s.branches) ∧
    (s.executing = true →
      (execute env body.chunks s).under [] = body.run env (s.under [])) ∧
    (s.executing = false →
      (execute env body.chunks s).under [] = skip env body.chunks (s.under [])) ∧
    (∀ t, skip env body.chunks s = .ok t ↔
      Skippable env s.opCount body.chunks ∧ t = s.plus (countedOps body.chunks)) ∧
    (∀ h, skip env body.chunks s = .error h ↔
      ∃ before c after, body.chunks = before ++ c :: after ∧ Skippable env s.opCount before ∧
        skipFault? env (s.opCount + countedOps (before ++ [c])) c = some h.error ∧
        h.state = s.plus (countedOps (before ++ [c]))) := by
  have hfollows : Follows s.branches (execute env body.chunks s) _ := body.follows s
  refine ⟨fun t ht => hfollows.branches_of_ok ht, fun hrun => ?_, fun hskip => ?_,
    fun t => skip_eq_ok, fun h => skip_eq_error⟩
  · rw [hfollows.under_nil, if_pos hrun]
  · rw [hfollows.under_nil, hskip]
    rfl

/-- Three arms, of which the first and the last are run; the first holds a conditional of its own,
and the one between holds an opcode without a meaning. -/
def threeArms : Body :=
  .conditional true
    (.otherwise
      (.conditional false
        (.otherwise (.chunk (.op ⟨0x52⟩) rfl .nil) (.last (.chunk (.op .ret) rfl .nil))) .nil)
      (.otherwise (.chunk (.op ⟨0xba⟩) rfl .nil) (.last (.chunk (.op ⟨0x53⟩) rfl .nil))))
    .nil

theorem threeArms_run_and_skip :
    let s : State := { main := [[], [1]], branches := [true] }
    let u : State := { main := [[], [1]], branches := [false] }
    (s.executing = true ∧
      execute {} threeArms.chunks s =
        .ok { main := [[3], [2]], branches := [true], opCount := 9 } ∧
      threeArms.run {} (s.under []) = .ok { main := [[3], [2]], opCount := 9 }) ∧
    u.executing = false ∧
      execute {} threeArms.chunks u = .ok { main := [[], [1]], branches := [false], opCount := 9 } ∧
      skip {} threeArms.chunks (u.under []) = .ok { main := [[], [1]], opCount := 9 } := by
  intro s u
  have hrun : s.executing = true := by decide
  have hskip : u.executing = false := by decide
  have hflat : execute {} threeArms.chunks s =
      .ok { main := [[3], [2]], branches := [true], opCount := 9 } :=
    eq_ok_of_toOption (by decide +kernel)
  have hskipped : execute {} threeArms.chunks u =
      .ok { main := [[], [1]], branches := [false], opCount := 9 } :=
    eq_ok_of_toOption (by decide +kernel)
  refine ⟨⟨hrun, hflat, ?_⟩, hskip, hskipped, ?_⟩
  · rw [← (Body.execute_chunks {} threeArms s).2.1 hrun, hflat]
    rfl
  · rw [← (Body.execute_chunks {} threeArms u).2.2.1 hskip, hskipped]
    rfl

end TxScript
