import TxScript.Proofs.Machine.Step

/-!
# Running and skipping

A chunk that is no part of a conditional reads of the open branches only whether all of them run,
and leaves them as they are. Where one does not run, the chunk is skipped: it is counted and may be
refused, and both stacks stay. The opcodes of conditionals are counted and then do their work on
the branches either way.
-/

namespace TxScript

namespace Opcode

/-- Opens a branch on the truth of the top element, or on its falsehood when `negated`. -/
def opening (negated : Bool) : Opcode := if negated then ⟨0x64⟩ else ⟨0x63⟩

def verIf : Opcode := ⟨0x65⟩
def verNotIf : Opcode := ⟨0x66⟩
def turning : Opcode := ⟨0x67⟩
def closing : Opcode := ⟨0x68⟩

/-- The opcodes that conditionals are made of. -/
def isBranching (op : Opcode) : Bool :=
  op == opening false || op == opening true || op == turning || op == closing

end Opcode

namespace Chunk

def isBranching : Chunk → Bool
  | .op o => o.isBranching
  | .push _ _ => false

/-- Whether the chunk counts as an operation. -/
def isCounted : Chunk → Bool
  | .op o => o.isCounted
  | .push _ _ => false

end Chunk

def Operation.isBranching : Operation → Bool
  | .openBranch _ | .otherwise | .closeBranch => true
  | _ => false

namespace Opcode

variable {op : Opcode}

/-- The operation of an opcode stands in the table, or the opcode announces data or has no
meaning. -/
theorem operation_cases (op : Opcode) :
    (∃ e ∈ opcodeTable, e.byte = op.byte ∧ op.operation = e.operation) ∨
      op.operation = .announce ∨ op.operation = .reserved := by
  unfold operation
  split
  · rename_i e he
    have hbyte : e.byte = op.byte := by simpa using List.find?_some he
    exact .inl ⟨e, List.mem_of_find?_eq_some he, hbyte, rfl⟩
  · split
    · exact .inr (.inl rfl)
    · exact .inr (.inr rfl)

set_option maxRecDepth 4000 in
theorem isBranching_operation (h : op.isBranching = false) : op.operation.isBranching = false := by
  have htable : ∀ e ∈ opcodeTable, Opcode.isBranching ⟨e.byte⟩ = false →
      e.operation.isBranching = false := by decide
  rcases op.operation_cases with ⟨e, he, hbyte, hop⟩ | hop | hop
  · rw [hop]
    exact htable e he (by rw [hbyte]; exact h)
  · rw [hop]
    rfl
  · rw [hop]
    rfl

theorem branching_facts (h : op.isBranching = true) :
    op.isCounted = true ∧ op.availability = .always ∧ op.isConditional = true ∧
      ¬ (op = verIf ∨ op = verNotIf) := by
  have hcases : op = opening false ∨ op = opening true ∨ op = turning ∨ op = closing := by
    simpa [isBranching, or_assoc] using h
  rcases hcases with rfl | rfl | rfl | rfl <;> decide

theorem isDisabled_of_branching (h : op.isBranching = true) (monolith : Bool) :
    op.isDisabled monolith = false := by
  unfold isDisabled
  rw [(branching_facts h).2.1]

/-- Of the opcodes that run in a skipped branch too, two are not made for conditionals. -/
theorem isConditional_iff (h : op.isBranching = false) :
    op.isConditional = true ↔ op = verIf ∨ op = verNotIf := by
  rcases op with ⟨b⟩
  simp only [isBranching, opening, turning, closing, Bool.or_eq_false_iff, beq_eq_false_iff_ne,
    ne_eq, mk.injEq, if_true, Bool.false_eq_true, if_false, ← UInt8.toNat_inj] at h
  simp only [isConditional, verIf, verNotIf, mk.injEq, decide_eq_true_eq, UInt8.le_iff_toNat_le,
    ← UInt8.toNat_inj]
  simp only [UInt8.toNat_ofNat] at h ⊢
  omega

end Opcode

namespace Machine

variable {env : Env} {s t : State} {branches : List Bool} {op : Opcode} {c : Chunk}

/-! ## Counting -/

/-- The state with more operations on the count. -/
def State.plus (s : State) (count : Nat) : State :=
  { s with opCount := s.opCount + count }

@[simp] theorem State.opCount_plus (count : Nat) :
    (s.plus count).opCount = s.opCount + count := rfl

theorem State.plus_plus (a b : Nat) : (s.plus a).plus b = s.plus (a + b) := by
  simp [State.plus, Nat.add_assoc]

/-- How many chunks of a row count as operations. -/
def countedOps (cs : List Chunk) : Nat :=
  cs.countP Chunk.isCounted

theorem countedOps_append (as bs : List Chunk) :
    countedOps (as ++ bs) = countedOps as + countedOps bs :=
  List.countP_append

theorem countOps_eq (count : Nat) :
    s.countOps env count =
      if env.config.maxOps < s.opCount + count then halt .tooManyOps (s.plus count)
      else .ok (s.plus count) := rfl

theorem eq_plus_of_countOps {count : Nat} (h : s.countOps env count = .ok t) :
    t = s.plus count := by
  rw [countOps_eq] at h
  split at h
  · cases h
  · exact (Except.ok.inj h).symm

theorem countOpcode_eq :
    countOpcode env op s =
      if op.isCounted && decide (env.config.maxOps < s.opCount + countedOps [.op op]) then
        halt .tooManyOps (s.plus (countedOps [.op op]))
      else .ok (s.plus (countedOps [.op op])) := by
  cases hop : op.isCounted with
  | false => simp [countOpcode, hop, countedOps, Chunk.isCounted, State.plus]
  | true => simp [countOpcode, hop, countedOps, Chunk.isCounted, countOps_eq]

/-- Where an opcode that fails leaves everything as it was, its chunk does, apart from the count. -/
theorem state_of_step_error
    (hperform : ∀ (t : State) (h : Halt ExecError), perform env op t = .error h → h.state = t)
    {halted : Halt ExecError} (h : step env s (.op op) = .error halted) :
    ∃ count, halted.state = s.plus count := by
  refine ⟨countedOps [.op op], ?_⟩
  rw [step, countOpcode_eq] at h
  split at h
  · cases h
    rfl
  · change stepCounted env op (s.plus _) = .error halted at h
    unfold stepCounted at h
    split at h
    · cases h
      rfl
    · split at h
      · cases h
      · exact hperform _ _ h

/-- Where an opcode that succeeds leaves everything as it was, its chunk does, apart from the
count. -/
theorem state_of_step_ok (hperform : ∀ t u : State, perform env op t = .ok u → u = t)
    (h : step env s (.op op) = .ok t) : ∃ count, t = s.plus count := by
  refine ⟨countedOps [.op op], ?_⟩
  rw [step, countOpcode_eq] at h
  split at h
  · cases h
  · change stepCounted env op (s.plus _) = .ok t at h
    unfold stepCounted at h
    split at h
    · cases h
    · split at h
      · cases h
        rfl
      · exact hperform _ _ h

/-! ## States under branches -/

/-- The state with other open branches. -/
def State.under (s : State) (branches : List Bool) : State :=
  { s with branches := branches }

/-- The outcome with other open branches, where it stops too. -/
def Outcome.under (r : Outcome ExecError State) (branches : List Bool) :
    Outcome ExecError State :=
  match r with
  | .ok t => .ok (t.under branches)
  | .error h => .error ⟨h.error, h.state.under branches⟩

@[simp] theorem State.branches_under : (s.under branches).branches = branches := rfl

@[simp] theorem State.under_branches : s.under s.branches = s := rfl

theorem Outcome.under_bind {r : Outcome ExecError State} {k : State → Outcome ExecError State}
    (hk : ∀ t, k (t.under branches) = (k t).under branches) :
    (r.under branches >>= k) = (r >>= k).under branches := by
  cases r with
  | error h => rfl
  | ok t => exact hk t

theorem countOps_under (count : Nat) :
    (s.under branches).countOps env count = (s.countOps env count).under branches := by
  rw [countOps_eq, countOps_eq]
  show (if env.config.maxOps < s.opCount + count then _ else _) = _
  split <;> rfl

theorem withMain_under (r : Except StackFault Stack) :
    (s.under branches).withMain r = (s.withMain r).under branches := by
  cases r <;> rfl

theorem tested_under (r : Except ExecError Unit) :
    (s.under branches).tested r = (s.tested r).under branches := by
  cases r <;> rfl

theorem toAlt_under : toAlt (s.under branches) = (toAlt s).under branches := by
  rcases s with ⟨main, alt, bs, count⟩
  cases main <;> rfl

theorem fromAlt_under : fromAlt (s.under branches) = (fromAlt s).under branches := by
  rcases s with ⟨main, alt, bs, count⟩
  cases alt <;> rfl

theorem checkMultisig_under (verify : Bool) :
    checkMultisig env verify (s.under branches) =
      (checkMultisig env verify s).under branches := by
  unfold checkMultisig
  show ((s.under branches).onMain (readCount env.config.maxMultisigKeys .keyCount s.main) >>= _) = _
  cases readCount env.config.maxMultisigKeys .keyCount s.main with
  | error fault => rfl
  | ok keyCount =>
      show ((s.under branches).countOps env keyCount >>= _) = _
      rw [countOps_under]
      refine Outcome.under_bind fun t => ?_
      show ((t.under branches).onMain (checkGroups env verify keyCount t.main) >>= _) = _
      cases checkGroups env verify keyCount t.main <;> rfl

/-- No operation but those of conditionals sees the branches. -/
theorem perform_under (h : op.operation.isBranching = false) :
    perform env op (s.under branches) = (perform env op s).under branches := by
  unfold perform
  cases hop : op.operation with
  | stack f => exact withMain_under _
  | openBranch negated => rw [hop] at h; cases h
  | otherwise => rw [hop] at h; cases h
  | closeBranch => rw [hop] at h; cases h
  | toAlt => exact toAlt_under
  | fromAlt => exact fromAlt_under
  | checkSig verify => exact withMain_under _
  | checkMultisig verify => exact checkMultisig_under verify
  | checkLockTime => exact tested_under _
  | checkSequence => exact tested_under _
  | nop | announce | disabled | reserved => rfl

theorem stepCounted_under (hplain : op.isBranching = false)
    (hsame : (s.under branches).executing = s.executing) :
    stepCounted env op (s.under branches) = (stepCounted env op s).under branches := by
  unfold stepCounted
  rw [hsame]
  split
  · rfl
  · split
    · rfl
    · exact perform_under (Opcode.isBranching_operation hplain)

/-- A chunk that is no part of a conditional does the same under other branches, as long as they
are run just as well. -/
theorem step_under (hplain : c.isBranching = false)
    (hsame : (s.under branches).executing = s.executing) :
    step env (s.under branches) c = (step env s c).under branches := by
  cases c with
  | push enc data =>
      simp only [step, hsame, State.pushData]
      split
      · split <;> rfl
      · rfl
  | op o =>
      simp only [step, countOpcode_eq]
      show (if o.isCounted && decide (env.config.maxOps < s.opCount + _) then _ else _) >>= _ = _
      split
      · rfl
      · exact stepCounted_under (s := s.plus _) hplain hsame

/-! ## Skipping -/

/-- Why a chunk is refused where it is not run, when so many operations are counted with it. -/
def skipFault? (env : Env) (count : Nat) : Chunk → Option ExecError
  | .push _ _ => none
  | .op o =>
    if o.isCounted && decide (env.config.maxOps < count) then some .tooManyOps
    else if o.isDisabled env.config.monolith then some (.disabledOpcode o.name)
    else if o = .verIf ∨ o = .verNotIf then some (.notExecutable o.mnemonic)
    else none

/-- Counts a chunk and leaves both stacks alone. -/
def skipStep (env : Env) (s : State) (c : Chunk) : Outcome ExecError State :=
  match skipFault? env (s.opCount + countedOps [c]) c with
  | some e => halt e (s.plus (countedOps [c]))
  | none => .ok (s.plus (countedOps [c]))

/-- Chunks that are not run, one after another. -/
def skip (env : Env) : List Chunk → State → Outcome ExecError State
  | [], s => .ok s
  | c :: rest, s => skipStep env s c >>= skip env rest

theorem skipStep_under : skipStep env (s.under branches) c = (skipStep env s c).under branches := by
  unfold skipStep
  show (match skipFault? env (s.opCount + countedOps [c]) c with
    | some e => halt e ((s.under branches).plus (countedOps [c]))
    | none => .ok ((s.under branches).plus (countedOps [c]))) = _
  cases skipFault? env (s.opCount + countedOps [c]) c <;> rfl

theorem skip_append (as bs : List Chunk) (s : State) :
    skip env (as ++ bs) s = skip env as s >>= skip env bs := by
  induction as generalizing s with
  | nil => rfl
  | cons c cs ih =>
      show (skipStep env s c >>= skip env (cs ++ bs)) = ((skipStep env s c >>= skip env cs) >>= _)
      cases skipStep env s c with
      | error h => rfl
      | ok t => exact ih t

theorem perform_verIf (h : op = .verIf ∨ op = .verNotIf) :
    perform env op s = halt (.notExecutable op.mnemonic) s := by
  have hreserved : op.operation = .reserved := by rcases h with rfl | rfl <;> decide
  simp only [perform, hreserved]

theorem stepCounted_of_skipping (hplain : op.isBranching = false) (hskip : s.executing = false) :
    stepCounted env op s =
      if op.isDisabled env.config.monolith then halt (.disabledOpcode op.name) s
      else if op = .verIf ∨ op = .verNotIf then halt (.notExecutable op.mnemonic) s
      else .ok s := by
  unfold stepCounted
  by_cases hver : op = .verIf ∨ op = .verNotIf
  · have hruns : op.isConditional = true := (Opcode.isConditional_iff hplain).2 hver
    simp [hruns, hver, perform_verIf]
  · have hskipped : op.isConditional = false := by
      simpa [hver] using mt (Opcode.isConditional_iff hplain).1 hver
    simp [hskip, hskipped, hver]

theorem step_of_skipping (hplain : c.isBranching = false) (hskip : s.executing = false) :
    step env s c = skipStep env s c := by
  cases c with
  | push enc data =>
      simp [step, hskip, skipStep, skipFault?, countedOps, Chunk.isCounted, State.plus]
  | op o =>
      have hrest : stepCounted env o (s.plus (countedOps [.op o])) = _ :=
        stepCounted_of_skipping hplain hskip
      unfold skipStep skipFault?
      simp only [step, countOpcode_eq]
      by_cases hlimit : (o.isCounted &&
          decide (env.config.maxOps < s.opCount + countedOps [.op o])) = true
      · rw [if_pos hlimit, if_pos hlimit]
        rfl
      · rw [if_neg hlimit, if_neg hlimit]
        show stepCounted env o _ = _
        rw [hrest]
        split
        · rfl
        · split <;> rfl

/-! ## The opcodes of conditionals -/

theorem countOpcode_branching (h : op.isBranching = true) :
    countOpcode env op s = s.countOps env 1 := by
  unfold countOpcode
  rw [(Opcode.branching_facts h).1, if_pos rfl]

/-- Whether or not its branch is run, an opcode of a conditional is counted and does its work. -/
theorem step_branching (h : op.isBranching = true) :
    step env s (.op op) = s.countOps env 1 >>= perform env op := by
  obtain ⟨-, -, hruns, -⟩ := Opcode.branching_facts h
  have henabled := Opcode.isDisabled_of_branching h env.config.monolith
  have hstep : stepCounted env op = perform env op := by
    funext t
    simp [stepCounted, henabled, hruns]
  show countOpcode env op s >>= stepCounted env op = _
  rw [countOpcode_branching h, hstep]

theorem skipStep_branching (h : op.isBranching = true) :
    skipStep env s (.op op) = s.countOps env 1 := by
  obtain ⟨hcounted, -, -, hver⟩ := Opcode.branching_facts h
  have henabled := Opcode.isDisabled_of_branching h env.config.monolith
  have hone : countedOps [.op op] = 1 := by simp [countedOps, Chunk.isCounted, hcounted]
  unfold skipStep skipFault?
  rw [countOps_eq, hone]
  by_cases hlimit : env.config.maxOps < s.opCount + 1
  · simp [hcounted, hlimit]
  · simp [hlimit, henabled, hver]

/-! ## Where a skipped row stops -/

/-- Every chunk of a row can be skipped, when so many operations are counted before it. -/
def Skippable (env : Env) (count : Nat) (cs : List Chunk) : Prop :=
  ∀ before c after, cs = before ++ c :: after →
    skipFault? env (count + countedOps (before ++ [c])) c = none

theorem skippable_nil (count : Nat) : Skippable env count [] := by
  intro before c after hsplit
  simp at hsplit

theorem skippable_cons {count : Nat} {cs : List Chunk} :
    Skippable env count (c :: cs) ↔
      skipFault? env (count + countedOps [c]) c = none ∧
        Skippable env (count + countedOps [c]) cs := by
  have hcount (before : List Chunk) (d : Chunk) : count + countedOps (c :: before ++ [d]) =
      count + countedOps [c] + countedOps (before ++ [d]) := by
    rw [show c :: before ++ [d] = [c] ++ (before ++ [d]) from rfl, countedOps_append]
    omega
  constructor
  · intro h
    refine ⟨h [] c cs rfl, fun before d after hsplit => ?_⟩
    rw [← hcount]
    exact h (c :: before) d after (by rw [hsplit]; rfl)
  · rintro ⟨hfirst, hrest⟩ before d after hsplit
    cases before with
    | nil =>
        cases hsplit
        exact hfirst
    | cons b before =>
        cases hsplit
        rw [hcount]
        exact hrest before d after rfl

theorem skipStep_eq_ok :
    skipStep env s c = .ok t ↔
      skipFault? env (s.opCount + countedOps [c]) c = none ∧ t = s.plus (countedOps [c]) := by
  unfold skipStep
  cases skipFault? env (s.opCount + countedOps [c]) c with
  | none => simp [eq_comm]
  | some e => simp [halt]

theorem skipStep_eq_error {h : Halt ExecError} :
    skipStep env s c = .error h ↔
      skipFault? env (s.opCount + countedOps [c]) c = some h.error ∧
        h.state = s.plus (countedOps [c]) := by
  unfold skipStep
  rcases h with ⟨error, state⟩
  cases skipFault? env (s.opCount + countedOps [c]) c with
  | none => simp
  | some e => simp [halt, eq_comm]

/-- Skipping adds the operations of the row to the count, and does no more. -/
theorem skip_eq_ok {cs : List Chunk} :
    skip env cs s = .ok t ↔ Skippable env s.opCount cs ∧ t = s.plus (countedOps cs) := by
  induction cs generalizing s with
  | nil => simp [skip, skippable_nil, countedOps, State.plus, eq_comm]
  | cons c cs ih =>
      have hcount : countedOps [c] + countedOps cs = countedOps (c :: cs) :=
        (countedOps_append [c] cs).symm
      show (skipStep env s c >>= skip env cs) = .ok t ↔ _
      simp only [bind_eq_ok, skipStep_eq_ok, skippable_cons, ih]
      constructor
      · rintro ⟨m, ⟨hfirst, rfl⟩, hrest, rfl⟩
        exact ⟨⟨hfirst, hrest⟩, by rw [State.plus_plus, hcount]⟩
      · rintro ⟨⟨hfirst, hrest⟩, rfl⟩
        exact ⟨_, ⟨hfirst, rfl⟩, hrest, by rw [State.plus_plus, hcount]⟩

/-- Skipping stops at the first chunk that is refused, with that one counted. -/
theorem skip_eq_error {cs : List Chunk} {h : Halt ExecError} :
    skip env cs s = .error h ↔
      ∃ before c after, cs = before ++ c :: after ∧ Skippable env s.opCount before ∧
        skipFault? env (s.opCount + countedOps (before ++ [c])) c = some h.error ∧
        h.state = s.plus (countedOps (before ++ [c])) := by
  constructor
  · induction cs generalizing s with
    | nil => intro hskip; cases hskip
    | cons c cs ih =>
        intro hskip
        cases hfirst : skipStep env s c with
        | error e =>
            rw [skip, hfirst] at hskip
            cases hskip
            obtain ⟨hfault, hstate⟩ := skipStep_eq_error.1 hfirst
            exact ⟨[], c, cs, rfl, skippable_nil _, hfault, hstate⟩
        | ok m =>
            rw [skip, hfirst] at hskip
            obtain ⟨hnone, rfl⟩ := skipStep_eq_ok.1 hfirst
            obtain ⟨before, d, after, hsplit, hbefore, hfault, hstate⟩ := ih hskip
            have hcount : countedOps [c] + countedOps (before ++ [d]) =
                countedOps (c :: before ++ [d]) := (countedOps_append [c] _).symm
            refine ⟨c :: before, d, after, by rw [hsplit]; rfl, ?_, ?_, ?_⟩
            · exact skippable_cons.2 ⟨hnone, hbefore⟩
            · rwa [State.opCount_plus, Nat.add_assoc, hcount] at hfault
            · rwa [State.plus_plus, hcount] at hstate
  · rintro ⟨before, c, after, rfl, hbefore, hfault, hstate⟩
    rw [skip_append, skip_eq_ok.2 ⟨hbefore, rfl⟩]
    have hcount : countedOps before + countedOps [c] = countedOps (before ++ [c]) :=
      (countedOps_append before [c]).symm
    have hstop : skipStep env (s.plus (countedOps before)) c = .error h := by
      apply skipStep_eq_error.2
      rw [State.opCount_plus, State.plus_plus, Nat.add_assoc, hcount]
      exact ⟨hfault, hstate⟩
    show (skipStep env _ c >>= skip env after) = _
    rw [hstop]
    rfl

end Machine

end TxScript
