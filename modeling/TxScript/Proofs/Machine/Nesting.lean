import TxScript.Proofs.Machine.Conditionals
import TxScript.Proofs.Machine.Verdict

/-!
# What every run asks of a script

How many conditionals are open at a chunk depends on the chunks before it alone, and not on the data
that chose the branches. So a script that runs to its end is well nested, and none of its chunks is
one that stops a run wherever it stands. A locking script of any other form is never met.
-/

namespace TxScript

/-! ## The form of a script -/

namespace Opcode

/-- The opcodes that have a name but may not be run. -/
def reservedWords : List Opcode :=
  [⟨0x50⟩, ⟨0x62⟩, ⟨0x89⟩, ⟨0x8a⟩, ⟨0xfd⟩, ⟨0xfe⟩, .invalid, .ret]

/-- The opcodes that stop a run wherever they are not skipped. -/
def isForbidden (op : Opcode) : Bool :=
  decide (op ∈ reservedWords) || op.isUnassigned

theorem operation_of_forbidden {op : Opcode} (h : op.isForbidden = true) :
    op.operation = .reserved ∨ op.operation = .stack .fail := by
  have hwords : ∀ w ∈ reservedWords, w.operation = .reserved ∨ w.operation = .stack .fail := by
    decide +kernel
  rcases Bool.or_eq_true_iff.1 h with hword | hunassigned
  · exact hwords op (of_decide_eq_true hword)
  · unfold isUnassigned at hunassigned
    rw [Bool.and_eq_true, Bool.not_eq_true', Option.isNone_iff_eq_none] at hunassigned
    left
    simp only [operation, hunassigned.1, hunassigned.2, Bool.false_eq_true, if_false]

end Opcode

/-- How many conditionals are open behind a chunk, if so many are open before it. Nothing can be
turned or closed where none is open. -/
def Chunk.nest (depth : Nat) : Chunk → Option Nat
  | .push _ _ => some depth
  | .op o =>
    if o = .opening false ∨ o = .opening true then some (depth + 1)
    else if o = .turning then if depth = 0 then none else some depth
    else if o = .closing then if depth = 0 then none else some (depth - 1)
    else some depth

/-- How many conditionals are open behind a row of chunks. -/
def nesting : (depth : Nat) → List Chunk → Option Nat
  | depth, [] => some depth
  | depth, c :: rest => (c.nest depth).bind fun depth => nesting depth rest

/-- The form of a script that may run, whether or not the opcodes of May 2018 are enabled. -/
structure Runnable (monolith : Bool) (cs : List Chunk) : Prop where
  nested : nesting 0 cs = some 0
  enabled : ∀ op, Chunk.op op ∈ cs → op.isDisabled monolith = false
  noVerIf : Chunk.op .verIf ∉ cs
  noVerNotIf : Chunk.op .verNotIf ∉ cs
  outside : ∀ before op after, cs = before ++ .op op :: after → nesting 0 before = some 0 →
    op.isForbidden = false

namespace Machine

variable {env : Env} {s t : State} {op : Opcode} {c : Chunk} {cs : List Chunk}

/-! ## One chunk -/

theorem branches_of_countOps {count : Nat} (h : s.countOps env count = .ok t) :
    t.branches = s.branches := by
  rw [eq_plus_of_countOps h]
  rfl

/-- A chunk that is no part of a conditional leaves the branches alone. -/
theorem branches_of_step (hplain : c.isBranching = false) (h : step env s c = .ok t) :
    t.branches = s.branches := by
  have hunder : step env (s.under s.branches) c = (step env s c).under s.branches :=
    step_under hplain rfl
  rw [State.under_branches, h] at hunder
  have hsame : t = t.under s.branches := Except.ok.inj hunder
  rw [hsame]
  rfl

theorem Chunk.nest_of_plain (hplain : c.isBranching = false) (depth : Nat) :
    c.nest depth = some depth := by
  cases c with
  | push enc data => rfl
  | op o =>
      have hparts : ((o ≠ .opening false ∧ o ≠ .opening true) ∧ o ≠ .turning) ∧ o ≠ .closing := by
        simpa [Chunk.isBranching, Opcode.isBranching] using hplain
      simp [Chunk.nest, hparts]

theorem length_openBranch {negated : Bool} (h : openBranch negated s = .ok t) :
    t.branches.length = s.branches.length + 1 := by
  unfold openBranch at h
  split at h
  · split at h
    · cases h
    · cases h
      rfl
  · cases h
    rfl

theorem nest_of_turnBranch (h : turnBranch s = .ok t) :
    Chunk.nest s.branches.length (.op .turning) = some t.branches.length := by
  rcases s with ⟨main, alt, _ | ⟨b, rest⟩, count⟩
  · cases h
  · cases h
    rfl

theorem nest_of_closeBranch (h : closeBranch s = .ok t) :
    Chunk.nest s.branches.length (.op .closing) = some t.branches.length := by
  rcases s with ⟨main, alt, _ | ⟨b, rest⟩, count⟩
  · cases h
  · cases h
    rfl

/-- The conditionals open behind a chunk are as many as its form says. -/
theorem nest_of_step (h : step env s c = .ok t) :
    c.nest s.branches.length = some t.branches.length := by
  cases hc : c.isBranching with
  | false => rw [Chunk.nest_of_plain hc, branches_of_step hc h]
  | true =>
      cases c with
      | push enc data => cases hc
      | op o =>
          rw [step_branching hc] at h
          obtain ⟨m, hm, hperform⟩ := bind_eq_ok.1 h
          rw [← branches_of_countOps hm]
          have hcases : o = .opening false ∨ o = .opening true ∨ o = .turning ∨ o = .closing := by
            simpa [Chunk.isBranching, Opcode.isBranching, or_assoc] using hc
          rcases hcases with rfl | rfl | rfl | rfl
          · rw [perform_opening] at hperform
            rw [length_openBranch hperform]
            rfl
          · rw [perform_opening] at hperform
            rw [length_openBranch hperform]
            rfl
          · rw [perform, (by decide : Opcode.turning.operation = .otherwise)] at hperform
            exact nest_of_turnBranch hperform
          · rw [perform, (by decide : Opcode.closing.operation = .closeBranch)] at hperform
            exact nest_of_closeBranch hperform

/-- A chunk that is run or skipped without a failure is enabled, is neither of the two opcodes that
fail in skipped branches too, and outside of branches is none that is forbidden. -/
theorem admissible_of_step (h : step env s (.op op) = .ok t) :
    op.isDisabled env.config.monolith = false ∧ op ≠ .verIf ∧ op ≠ .verNotIf ∧
      (s.branches = [] → op.isForbidden = false) := by
  obtain ⟨m, hm, hcounted⟩ := bind_eq_ok.1 h
  have hbranches : m.branches = s.branches := by
    unfold countOpcode at hm
    split at hm
    · exact branches_of_countOps hm
    · cases hm
      rfl
  unfold stepCounted at hcounted
  cases hdisabled : op.isDisabled env.config.monolith with
  | true => simp [hdisabled, halt] at hcounted
  | false =>
      rw [hdisabled, if_neg Bool.false_ne_true] at hcounted
      have hver : ¬ (op = .verIf ∨ op = .verNotIf) := by
        intro hver
        have hruns : op.isConditional = true := by rcases hver with rfl | rfl <;> decide
        rw [hruns, Bool.not_true, Bool.and_false, if_neg Bool.false_ne_true,
          perform_verIf hver] at hcounted
        cases hcounted
      rw [not_or] at hver
      refine ⟨rfl, hver.1, hver.2, fun hnone => ?_⟩
      rw [executing_of_branches_nil (hbranches.trans hnone), Bool.not_true, Bool.false_and,
        if_neg Bool.false_ne_true] at hcounted
      refine Bool.eq_false_iff.2 fun hforbidden => ?_
      rcases Opcode.operation_of_forbidden hforbidden with hop | hop
      · rw [perform, hop] at hcounted
        cases hcounted
      · rw [perform, hop] at hcounted
        cases hcounted

/-! ## Whole scripts -/

theorem nesting_of_execute (h : execute env cs s = .ok t) :
    nesting s.branches.length cs = some t.branches.length := by
  induction cs generalizing s with
  | nil =>
      cases h
      rfl
  | cons c rest ih =>
      obtain ⟨m, hm, hrest⟩ := execute_cons_eq_ok.1 h
      rw [nesting, nest_of_step hm]
      exact ih hrest

theorem admissible_of_execute (h : execute env cs s = .ok t) {before after : List Chunk}
    (hsplit : cs = before ++ .op op :: after) :
    op.isDisabled env.config.monolith = false ∧ op ≠ .verIf ∧ op ≠ .verNotIf ∧
      (nesting s.branches.length before = some 0 → op.isForbidden = false) := by
  rw [hsplit] at h
  obtain ⟨m, hbefore, hrest⟩ := execute_append_eq_ok.1 h
  obtain ⟨u, hstep, -⟩ := execute_cons_eq_ok.1 hrest
  obtain ⟨henabled, hverIf, hverNotIf, houtside⟩ := admissible_of_step hstep
  refine ⟨henabled, hverIf, hverNotIf, fun hnone => houtside ?_⟩
  rw [nesting_of_execute hbefore] at hnone
  exact List.eq_nil_of_length_eq_zero (Option.some.inj hnone)

theorem runnable_of_execute (h : execute env cs s = .ok t) (hs : s.branches = [])
    (ht : t.branches = []) : Runnable env.config.monolith cs where
  nested := by
    have hnested := nesting_of_execute h
    rwa [hs, ht] at hnested
  enabled op hop := by
    obtain ⟨before, after, hsplit⟩ := List.append_of_mem hop
    exact (admissible_of_execute h hsplit).1
  noVerIf hop := by
    obtain ⟨before, after, hsplit⟩ := List.append_of_mem hop
    exact (admissible_of_execute h hsplit).2.1 rfl
  noVerNotIf hop := by
    obtain ⟨before, after, hsplit⟩ := List.append_of_mem hop
    exact (admissible_of_execute h hsplit).2.2.1 rfl
  outside before op after hsplit hnone := by
    refine (admissible_of_execute h hsplit).2.2.2 ?_
    rwa [hs]

/-- Whatever the data that chose its branches, a script that runs to its end outside of branches has
the form of one that may run. A locking script of any other form is met by no unlocking script,
under no limits, at no time, and by no signature. -/
theorem runnable_of_run_and_unspendable :
    (∀ {env : Env} {script : Script} {s t : State}, s.branches = [] →
      run env script s = .ok t → Runnable env.config.monolith script.chunks) ∧
    (∀ {env : Env} {lock : Script}, ¬ Runnable env.config.monolith lock.chunks →
      ∀ (unlock : Script) (s t : State), verify env lock unlock s ≠ .ok t) := by
  have hrun {env : Env} {script : Script} {s t : State} (hs : s.branches = [])
      (h : run env script s = .ok t) : Runnable env.config.monolith script.chunks :=
    runnable_of_execute (run_eq_ok.1 h).2.1 hs (branches_of_run h)
  refine ⟨hrun, fun hform unlock s t hverify => hform ?_⟩
  obtain ⟨unlocked, locked, hunlock, hlock, -⟩ := verify_eq_ok.1 hverify
  exact hrun (branches_of_run hunlock) (runToTrue_eq_ok.1 hlock).1

/-- A script that runs past a forbidden opcode which it skips, and one that never closes what it
opens. -/
theorem runnable_skipping_and_unspendable_open :
    let skipping : Script :=
      { chunks := [.op ⟨0x51⟩, .op ⟨0x63⟩, .op ⟨0x52⟩, .op ⟨0x67⟩, .op .ret, .op ⟨0x68⟩] }
    let unclosed : Script := { chunks := [.op ⟨0x51⟩, .op ⟨0x63⟩, .op ⟨0x51⟩] }
    (run {} skipping {} = .ok { main := [[2]], opCount := 4 } ∧
      Runnable true skipping.chunks) ∧
    ¬ Runnable true unclosed.chunks ∧
      ∀ unlock t, verify {} unclosed unlock {} ≠ .ok t := by
  intro skipping unclosed
  have hrun : run {} skipping {} = .ok { main := [[2]], opCount := 4 } :=
    eq_ok_of_toOption (by decide +kernel)
  have hform : ¬ Runnable true unclosed.chunks := fun h => absurd h.nested (by decide)
  obtain ⟨hrunnable, hunspendable⟩ := runnable_of_run_and_unspendable
  exact ⟨⟨hrun, hrunnable rfl hrun⟩, hform, fun unlock t => @hunspendable {} _ hform unlock {} t⟩

end Machine

end TxScript
