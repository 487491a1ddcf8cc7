import TxScript.Proofs.Machine.Budget
import TxScript.Proofs.Machine.Failure
import TxScript.Proofs.Machine.Frame

/-!
# How high the stacks get

There is no limit on how many elements there are, but none comes for free. What adds one element
takes a byte of the script, and what adds more counts as an operation and adds three at most. So
both stacks together grow by no more than the bytes of the script and twice what it counts.
-/

namespace TxScript

open Machine

/-! ## What operations add -/

/-- How many elements the operation adds to the main stack at most. -/
def StackOp.added : StackOp → Nat
  | .constant _ | .ifDup | .depth | .over | .tuck | .size => 1
  | .dup count => count
  | .twoOver => 2
  | _ => 0

/-- How many elements the operation adds to both stacks at most. -/
def Operation.added : Operation → Nat
  | .stack op => op.added
  | _ => 0

def Chunk.added : Chunk → Nat
  | .push _ _ => 1
  | .op o => o.operation.added

theorem Opcode.added_operation_le (op : Opcode) :
    op.operation.added ≤ 1 + 2 * countedOps [.op op] := by
  have htable : ∀ e ∈ opcodeTable, e.operation.added ≤ 1 + 2 * countedOps [.op ⟨e.byte⟩] := by
    decide +kernel
  rcases op.operation_cases with ⟨e, he, hbyte, hop⟩ | hop | hop
  · have hfound := htable e he
    rw [hbyte] at hfound
    rwa [hop]
  · rw [hop]
    exact Nat.zero_le _
  · rw [hop]
    exact Nat.zero_le _

/-- What adds more than one element counts, and adds no more than three. -/
theorem Chunk.added_le (c : Chunk) : c.added ≤ 1 + 2 * countedOps [c] := by
  cases c with
  | push enc data => exact Nat.le_add_right 1 _
  | op o => exact o.added_operation_le

namespace Machine

variable {limit count : Nat} {env : Env} {stack below : Stack}

/-- A computation that puts down a stack with so many elements more at most, where it succeeds. -/
inductive Raises (count : Nat) (stack : Stack) : Except StackFault Stack → Prop
  | ok {main : Stack} (h : main.length ≤ stack.length + count) : Raises count stack (.ok main)
  | error (fault : StackFault) : Raises count stack (.error fault)

namespace Raises

theorem bind {α : Type} {r : Except StackFault α} {k : α → Except StackFault Stack}
    (hk : ∀ a, r = .ok a → Raises count stack (k a)) : Raises count stack (r >>= k) := by
  cases r with
  | error fault => exact .error fault
  | ok a => exact hk a rfl

/-- A demand takes an element off. -/
theorem verified {r : Except StackFault Stack} (h : Raises count stack r) (opcode : String) :
    Raises count stack (r >>= verifyTop opcode) := by
  cases h with
  | error fault => exact .error fault
  | @ok main hmain =>
      show Raises count stack (verifyTop opcode main)
      cases main with
      | nil => exact .error _
      | cons top rest =>
          unfold verifyTop
          dsimp only
          split
          · exact .ok (Nat.le_trans (Nat.le_succ _) hmain)
          · exact .error _

end Raises

theorem applyUnary_raises (op : UnaryOp) : Raises 0 stack (applyUnary op stack) := by
  cases stack with
  | nil => exact .error _
  | cons a rest =>
      unfold applyUnary
      dsimp only
      split
      · exact .ok (Nat.le_refl _)
      · exact .error _

theorem applyBinary_raises (op : BinaryOp) : Raises 0 stack (applyBinary op stack) := by
  match stack with
  | [] | [_] => exact .error _
  | b :: a :: rest =>
      unfold applyBinary
      dsimp only
      split
      · exact .ok (Nat.le_succ _)
      · exact .error _

theorem applyDivision_raises (op : DivisionOp) : Raises 0 stack (applyDivision op stack) := by
  match stack with
  | [] | [_] => exact .error _
  | b :: a :: rest =>
      unfold applyDivision
      dsimp only
      split
      · exact .error _
      · split
        · exact .error _
        · split
          · exact .ok (Nat.le_succ _)
          · exact .error _

theorem applyWithin_raises : Raises 0 stack (applyWithin stack) := by
  match stack with
  | [] | [_] | [_, _] => exact .error _
  | upper :: lower :: x :: rest =>
      unfold applyWithin
      dsimp only
      split
      · exact .ok (by simp)
      · exact .error _

theorem applyEqual_raises : Raises 0 stack (applyEqual stack) := by
  match stack with
  | [] | [_] => exact .error _
  | b :: a :: rest => exact .ok (Nat.le_succ _)

theorem applySplit_raises : Raises 0 stack (applySplit stack) := by
  match stack with
  | [] | [_] => exact .error _
  | position :: x :: rest =>
      unfold applySplit
      dsimp only
      split
      · exact .error _
      · split
        · exact .error _
        · exact .ok (Nat.le_refl _)

theorem applyNumToBin_raises : Raises 0 stack (applyNumToBin limit stack) := by
  match stack with
  | [] | [_] => exact .error _
  | size :: x :: rest =>
      unfold applyNumToBin
      dsimp only
      split
      · exact .error _
      · split
        · exact .error _
        · split
          · exact .error _
          · exact .ok (Nat.le_succ _)

theorem applyBinToNum_raises : Raises 0 stack (applyBinToNum stack) := by
  cases stack with
  | nil => exact .error _
  | cons x rest =>
      unfold applyBinToNum
      dsimp only
      split
      · exact .error _
      · exact .ok (Nat.le_refl _)

/-- The index makes room for the copy. -/
theorem pick_raises : Raises 0 stack (StackOp.pick.apply limit stack) := by
  refine .bind fun taken htaken => ?_
  obtain ⟨n, below⟩ := taken
  obtain ⟨top, rfl⟩ := eq_cons_of_takeIndex htaken
  exact .ok (Nat.le_refl _)

theorem roll_raises : Raises 0 stack (StackOp.roll.apply limit stack) := by
  refine .bind fun taken htaken => ?_
  obtain ⟨n, below⟩ := taken
  obtain ⟨top, rfl⟩ := eq_cons_of_takeIndex htaken
  exact .ok (Nat.succ_le_succ (below.eraseIdx_sublist n).length_le)

/-! ## Signatures -/

theorem pushCheck_raises (hbelow : below.length < stack.length) (verify : Bool) (opcode : String)
    (valid : Bool) : Raises 0 stack (pushCheck verify opcode valid below) := by
  have hanswer : Raises 0 stack (.ok (Number.ofBool valid :: below)) := .ok hbelow
  cases verify with
  | false => exact hanswer
  | true => exact hanswer.verified opcode

theorem checkSig_raises (verify : Bool) : Raises 0 stack (checkSig env verify stack) := by
  match stack with
  | [] | [_] => exact .error _
  | key :: signature :: rest =>
      unfold checkSig
      dsimp only
      cases env.checker with
      | none => exact .error _
      | some checker =>
          dsimp only
          split
          · exact .error _
          · cases checker.check signature key with
            | error e => exact .error _
            | ok valid =>
                have hrest : rest.length < (key :: signature :: rest).length := by
                  rw [List.length_cons, List.length_cons]
                  omega
                exact pushCheck_raises hrest verify _ valid

/-- The element under the signatures makes room for the answer. -/
theorem checkGroups_raises (verify : Bool) (keyCount : Nat) :
    Raises 0 stack (checkGroups env verify keyCount stack) := by
  refine .bind fun keys hkeys => ?_
  obtain ⟨keys, below⟩ := keys
  refine .bind fun signatureCount _ => .bind fun signatures hsignatures => ?_
  obtain ⟨signatures, rest⟩ := signatures
  have hunder : 1 ≤ rest.length := (lengths_of_takeGroup hsignatures).2
  have hrest : rest.length ≤ stack.length :=
    ((suffix_of_takeGroup hsignatures).trans (suffix_of_takeGroup hkeys)).length_le
  dsimp only
  cases env.checker with
  | none => exact .error _
  | some checker =>
      refine pushCheck_raises ?_ verify _ _
      rw [List.length_drop]
      omega

end Machine

/-! ## All operations on the main stack -/

theorem StackOp.apply_raises {limit : Nat} {stack : Stack} (op : StackOp) :
    Raises op.added stack (op.apply limit stack) := by
  cases op with
  | constant n => exact .ok (Nat.le_refl _)
  | verify => exact (Raises.ok (Nat.le_refl _)).verified _
  | fail => exact .error _
  | drop count =>
      unfold apply
      dsimp only
      split
      · exact .ok (List.drop_suffix count stack).length_le
      · exact .error _
  | dup count =>
      unfold apply
      dsimp only
      split
      · refine .ok ?_
        rw [List.length_append, List.length_take, StackOp.added]
        omega
      · exact .error _
  | twoOver =>
      rcases stack with _ | ⟨x₄, _ | ⟨x₃, _ | ⟨x₂, _ | ⟨x₁, rest⟩⟩⟩⟩
      iterate 4 exact .error _
      exact .ok (Nat.le_refl _)
  | twoRot =>
      rcases stack with _ | ⟨x₆, _ | ⟨x₅, _ | ⟨x₄, _ | ⟨x₃, _ | ⟨x₂, _ | ⟨x₁, rest⟩⟩⟩⟩⟩⟩
      iterate 6 exact .error _
      exact .ok (Nat.le_refl _)
  | twoSwap =>
      rcases stack with _ | ⟨x₄, _ | ⟨x₃, _ | ⟨x₂, _ | ⟨x₁, rest⟩⟩⟩⟩
      iterate 4 exact .error _
      exact .ok (Nat.le_refl _)
  | ifDup =>
      rcases stack with _ | ⟨x, rest⟩
      · exact .error _
      · refine .ok ?_
        split
        · exact Nat.le_refl _
        · exact Nat.le_succ _
  | depth => exact .ok (Nat.le_refl _)
  | nip =>
      rcases stack with _ | ⟨x₂, _ | ⟨x₁, rest⟩⟩
      iterate 2 exact .error _
      exact .ok (Nat.le_succ _)
  | «over» =>
      rcases stack with _ | ⟨x₂, _ | ⟨x₁, rest⟩⟩
      iterate 2 exact .error _
      exact .ok (Nat.le_refl _)
  | pick => exact pick_raises
  | roll => exact roll_raises
  | rot =>
      rcases stack with _ | ⟨x₃, _ | ⟨x₂, _ | ⟨x₁, rest⟩⟩⟩
      iterate 3 exact .error _
      exact .ok (Nat.le_refl _)
  | swap =>
      rcases stack with _ | ⟨x₂, _ | ⟨x₁, rest⟩⟩
      iterate 2 exact .error _
      exact .ok (Nat.le_refl _)
  | tuck =>
      rcases stack with _ | ⟨x₂, _ | ⟨x₁, rest⟩⟩
      iterate 2 exact .error _
      exact .ok (Nat.le_refl _)
  | cat =>
      rcases stack with _ | ⟨x₂, _ | ⟨x₁, rest⟩⟩
      iterate 2 exact .error _
      unfold apply
      dsimp only
      split
      · exact .error _
      · exact .ok (Nat.le_succ _)
  | split => exact applySplit_raises
  | numToBin => exact applyNumToBin_raises
  | binToNum => exact applyBinToNum_raises
  | size =>
      rcases stack with _ | ⟨x, rest⟩
      · exact .error _
      · exact .ok (Nat.le_refl _)
  | bitwise op =>
      rcases stack with _ | ⟨x₂, _ | ⟨x₁, rest⟩⟩
      iterate 2 exact .error _
      unfold apply
      dsimp only
      split
      · exact .ok (Nat.le_succ _)
      · exact .error _
  | equal => exact applyEqual_raises
  | equalVerify => exact applyEqual_raises.verified _
  | unary op => exact applyUnary_raises op
  | binary op => exact applyBinary_raises op
  | division op => exact applyDivision_raises op
  | numEqualVerify => exact (applyBinary_raises .equal).verified _
  | within => exact applyWithin_raises
  | hash op =>
      rcases stack with _ | ⟨x, rest⟩
      · exact .error _
      · exact .ok (Nat.le_refl _)

namespace Machine

variable {env : Env} {s t u : State} {op : Opcode} {c : Chunk} {script : Script}

/-! ## Chunks -/

/-- How many elements there are on both stacks. -/
def State.height (s : State) : Nat :=
  s.main.length + s.alt.length

theorem Raises.height_le {count : Nat} {r : Except StackFault Stack} (h : Raises count s.main r)
    (ht : s.withMain r = .ok t) : t.height ≤ s.height + count := by
  obtain ⟨main, rfl, rfl⟩ := withMain_eq_ok.1 ht
  cases h with
  | ok hmain =>
      unfold State.height
      dsimp only
      omega

theorem height_openBranch {negated : Bool} (h : openBranch negated s = .ok t) :
    t.height ≤ s.height := by
  unfold openBranch at h
  split at h
  · split at h
    · cases h
    · rename_i top rest hmain
      cases h
      simp [State.height, hmain]
  · cases h
    exact Nat.le_refl _

theorem height_turnBranch (h : turnBranch s = .ok t) : t.height ≤ s.height := by
  unfold turnBranch at h
  split at h
  · cases h
  · cases h
    exact Nat.le_refl _

theorem height_closeBranch (h : closeBranch s = .ok t) : t.height ≤ s.height := by
  unfold closeBranch at h
  split at h
  · cases h
  · cases h
    exact Nat.le_refl _

/-- What one stack gets the other one loses. -/
theorem height_toAlt (h : toAlt s = .ok t) : t.height ≤ s.height := by
  unfold toAlt at h
  split at h
  · cases h
  · rename_i top rest hmain
    cases h
    simp only [State.height, hmain, List.length_cons]
    omega

theorem height_fromAlt (h : fromAlt s = .ok t) : t.height ≤ s.height := by
  unfold fromAlt at h
  split at h
  · cases h
  · rename_i top rest halt
    cases h
    simp only [State.height, halt, List.length_cons]
    omega

theorem height_tested {r : Except ExecError Unit} (h : s.tested r = .ok t) :
    t.height ≤ s.height := by
  cases r with
  | error e => cases h
  | ok a =>
      cases h
      exact Nat.le_refl _

theorem height_checkMultisig {verify : Bool} (h : checkMultisig env verify s = .ok t) :
    t.height ≤ s.height := by
  rw [checkMultisig_eq] at h
  obtain ⟨keyCount, -, h⟩ := bind_eq_ok.1 h
  obtain ⟨m, hm, h⟩ := bind_eq_ok.1 h
  obtain rfl := eq_plus_of_countOps hm
  have hgroups : Raises 0 s.main (checkGroups env verify keyCount s.main) :=
    checkGroups_raises verify keyCount
  exact hgroups.height_le (s := s.plus keyCount) h

theorem height_perform (h : perform env op s = .ok t) :
    t.height ≤ s.height + op.operation.added := by
  unfold perform at h
  generalize op.operation = operation at h ⊢
  cases operation with
  | stack f => exact f.apply_raises.height_le h
  | nop =>
      cases h
      exact Nat.le_refl _
  | openBranch negated => exact height_openBranch h
  | otherwise => exact height_turnBranch h
  | closeBranch => exact height_closeBranch h
  | toAlt => exact height_toAlt h
  | fromAlt => exact height_fromAlt h
  | checkSig verify => exact (checkSig_raises verify).height_le h
  | checkMultisig verify => exact height_checkMultisig h
  | checkLockTime => exact height_tested h
  | checkSequence => exact height_tested h
  | announce | disabled | reserved => cases h

theorem height_stepCounted (h : stepCounted env op s = .ok t) :
    t.height ≤ s.height + op.operation.added := by
  unfold stepCounted at h
  split at h
  · cases h
  · split at h
    · cases h
      exact Nat.le_add_right _ _
    · exact height_perform h

theorem height_step (h : step env s c = .ok t) : t.height ≤ s.height + c.added := by
  cases c with
  | push enc data =>
      simp only [step, State.pushData] at h
      split at h
      · split at h
        · cases h
        · cases h
          simp only [State.height, List.length_cons, Chunk.added]
          omega
      · cases h
        exact Nat.le_add_right _ _
  | op o =>
      obtain ⟨m, hm, h⟩ := bind_eq_ok.1 h
      rw [countOpcode_eq] at hm
      split at hm
      · cases hm
      · cases hm
        exact height_stepCounted (s := s.plus (countedOps [.op o])) h

theorem height_step_le (h : step env s c = .ok t) : t.height ≤ s.height + 3 := by
  have hcounted : countedOps [c] ≤ 1 := List.countP_le_length
  have hadded := c.added_le
  have hheight := height_step h
  omega

/-- A chunk that fails leaves one element more at most, an answer that is refused. -/
theorem height_step_error {halted : Halt ExecError} (h : step env s c = .error halted) :
    halted.state.height ≤ s.height + 1 := by
  have hspares : SparesState s (step env s c) := step_spares
  rw [h] at hspares
  cases hspares with
  | error _ hleft =>
      obtain ⟨kept, hkept, hmain⟩ := hleft.main
      have hlength := hkept.length_le
      rw [State.height, State.height, hleft.alt, hmain]
      split
      · rw [List.length_cons]
        omega
      · omega

/-! ## Runs -/

/-- What a row of chunks adds is paid for by its bytes and, twice, by what it counts. -/
theorem height_execute {cs : List Chunk} (h : execute env cs s = .ok t) :
    t.height + 2 * s.opCount ≤ s.height + (encodeChunks cs).length + 2 * t.opCount := by
  induction cs generalizing s with
  | nil =>
      cases h
      exact Nat.le_refl _
  | cons c rest ih =>
      obtain ⟨m, hm, hrest⟩ := execute_cons_eq_ok.1 h
      have hstep : m.height ≤ s.height + c.added := height_step hm
      have hadded := c.added_le
      have hsize := c.size_pos
      have hcount := opCount_of_step hm
      have hpaid := ih hrest
      rw [encodeChunks_cons, List.length_append, c.length_encode]
      omega

namespace TakesUp

variable {before : List Chunk}

/-- The bytes of the chunk and of those in front of it are among those of the script. -/
theorem size_add_le (h : TakesUp env script s before u c) :
    (encodeChunks before).length + c.size ≤ script.size := by
  obtain ⟨rest, hrest⟩ := h.begins
  rw [Script.size, Script.bytes, ← hrest]
  simp only [encodeChunks_append, encodeChunks_cons, encodeChunks_nil, List.length_append,
    c.length_encode]
  omega

theorem height_le (h : TakesUp env script s before u c) :
    u.height ≤ s.main.length + (encodeChunks before).length + 2 * u.opCount := by
  have hpaid := height_execute h.execute_before
  have hfresh : s.fresh.height = s.main.length := rfl
  omega

theorem opCount_le (h : TakesUp env script s before u c) : u.opCount ≤ env.config.maxOps := by
  have hwithin : Within env (execute env before s.fresh) :=
    (counts_execute before).within (Nat.zero_le _)
  rw [h.execute_before] at hwithin
  exact hwithin

/-- A chunk that succeeds pays for what it adds; one that fails has its own byte for the answer
that it leaves. -/
theorem left_height_le (h : TakesUp env script s before u c) :
    (step env u c).left.height ≤ s.main.length + script.size + 2 * env.config.maxOps := by
  have hbytes := h.size_add_le
  have hbefore := h.height_le
  have hcount := h.opCount_le
  have hbyte := c.size_pos
  cases hstep : step env u c with
  | error halted =>
      have hleft := height_step_error hstep
      show halted.state.height ≤ _
      omega
  | ok t =>
      have hwithin : Within env (step env u c) := (counts_step c).within hcount
      rw [hstep] at hwithin
      have hlimit : t.opCount ≤ env.config.maxOps := hwithin
      have hadds := height_step hstep
      have hadded := c.added_le
      have hcounted := opCount_of_step hstep
      show t.height ≤ _
      omega

end TakesUp

/-- Once a script is found not to be too large, there are never more elements on both stacks than
there were on the main stack at first, and one for each byte of the script and two for each
operation that it may count: neither before nor after any chunk, nor where the run ends, whether
it succeeds or fails. -/
theorem height_le_of_run (env : Env) (script : Script) (s : State)
    (hsize : script.size ≤ env.config.maxScriptSize) :
    (∀ before u c, TakesUp env script s before u c →
      u.height ≤ s.main.length + script.size + 2 * env.config.maxOps ∧
      (step env u c).left.height ≤ s.main.length + script.size + 2 * env.config.maxOps) ∧
    (run env script s).left.height ≤ s.main.length + script.size + 2 * env.config.maxOps := by
  refine ⟨fun before u c htaken => ⟨?_, htaken.left_height_le⟩, ?_⟩
  · have hbefore := htaken.height_le
    have hcount := htaken.opCount_le
    have hbytes := htaken.size_add_le
    omega
  · rcases run_left_of_size_le hsize s with hleft | ⟨before, u, c, htaken, hleft⟩
    · have hfresh : s.fresh.height = s.main.length := rfl
      rw [hleft]
      omega
    · rw [hleft]
      exact htaken.left_height_le

/-- Three elements and copies of them, until the count is at its limit: the bound is reached. One
more copy is refused, and what is left is within the bound of the longer script. -/
theorem height_le_of_run_copies :
    let env : Env := { config := { maxOps := 2 } }
    let s : State := { main := [[7]], alt := [[8], [9]], opCount := 5 }
    let copied : Script :=
      { chunks := [.op ⟨0x51⟩, .op ⟨0x52⟩, .op ⟨0x53⟩, .op ⟨0x6f⟩, .op ⟨0x6f⟩] }
    let refused := copied.push (.op ⟨0x6f⟩) (by decide)
    (copied.size ≤ env.config.maxScriptSize ∧ refused.size ≤ env.config.maxScriptSize) ∧
    ((run env copied s).left.height = 10 ∧ s.main.length + copied.size + 2 * env.config.maxOps = 10 ∧
      (run env copied s).left.height ≤ s.main.length + copied.size + 2 * env.config.maxOps) ∧
    ∃ halted, run env refused s = .error halted ∧ halted.error = .tooManyOps ∧
      halted.state.height ≤ s.main.length + refused.size + 2 * env.config.maxOps := by
  intro env s copied refused
  have hcopied : copied.size ≤ env.config.maxScriptSize := by decide
  have hrefused : refused.size ≤ env.config.maxScriptSize := by decide
  obtain ⟨-, hend⟩ := height_le_of_run env copied s hcopied
  obtain ⟨-, hleft⟩ := height_le_of_run env refused s hrefused
  exact ⟨⟨hcopied, hrefused⟩, ⟨by decide +kernel, by decide, hend⟩, _, rfl, rfl, hleft⟩

end Machine

end TxScript
