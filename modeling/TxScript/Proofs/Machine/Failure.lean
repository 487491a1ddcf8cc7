import TxScript.Proofs.Machine.Branches
import TxScript.Proofs.Machine.Counting

/-!
# What a failure leaves

A chunk that fails leaves the second stack and the open branches as they were, and of the main stack
it leaves the elements from the bottom up to some height. Nothing new lies on them, except where a
check refuses the answer that it has just put down: then that answer, which is false, lies on top.
-/

namespace TxScript

namespace Machine

/-! ## Stacks -/

/-- The opcodes that put their answer down before they refuse a false one. -/
def answeringOpcodes : List String :=
  ["OP_EQUALVERIFY", "OP_NUMEQUALVERIFY", "OP_CHECKSIGVERIFY", "OP_CHECKMULTISIGVERIFY"]

/-- Whether an answer is refused that has been put down. -/
def ExecError.isRefusedAnswer : ExecError → Bool
  | .verifyFailed opcode => decide (opcode ∈ answeringOpcodes)
  | _ => false

/-- What is left of a stack: elements from the bottom up and, where an answer is refused, the false
one above them. -/
def Remains (stack : Stack) (error : ExecError) (left : Stack) : Prop :=
  ∃ kept, kept <:+ stack ∧ left = if error.isRefusedAnswer then [] :: kept else kept

/-- A computation that leaves what remains of a stack where it fails. -/
inductive Spares {α : Type} (stack : Stack) : Except StackFault α → Prop
  | ok (a : α) : Spares stack (.ok a)
  | error (fault : StackFault) (h : Remains stack fault.error fault.left) :
    Spares stack (.error fault)

variable {α β : Type} {env : Env} {limit : Nat} {stack below : Stack} {e : ExecError}

theorem Remains.of_suffix {left : Stack} (h : Remains below e left) (hbelow : below <:+ stack) :
    Remains stack e left := by
  obtain ⟨kept, hkept, hleft⟩ := h
  exact ⟨kept, hkept.trans hbelow, hleft⟩

namespace Spares

/-- A failure that only takes elements off. -/
theorem kept (he : e.isRefusedAnswer = false) (h : below <:+ stack) :
    Spares (α := α) stack (.error ⟨e, below⟩) := by
  refine .error _ ⟨below, h, ?_⟩
  rw [he]
  rfl

theorem missing (needed : Nat) (h : below <:+ stack) :
    Spares (α := α) stack (missing needed below) :=
  kept rfl h

theorem bind {r : Except StackFault α} {k : α → Except StackFault β} (h : Spares stack r)
    (hk : ∀ a, r = .ok a → Spares stack (k a)) : Spares stack (r >>= k) := by
  cases h with
  | ok a => exact hk a rfl
  | error fault h => exact .error fault h

/-- What lies further down is part of the stack too. -/
theorem of_suffix {r : Except StackFault α} (h : Spares below r) (hbelow : below <:+ stack) :
    Spares stack r := by
  cases h with
  | ok a => exact .ok a
  | error fault h => exact .error fault (h.of_suffix hbelow)

end Spares

/-! ## Operations on the main stack -/

/-- A demand on the top that is no answer put down before. -/
theorem verifyTop_spares {opcode : String} (hopcode : opcode ∉ answeringOpcodes) :
    Spares stack (verifyTop opcode stack) := by
  cases stack with
  | nil => exact .missing 1 List.suffix_rfl
  | cons top rest =>
      unfold verifyTop
      dsimp only
      split
      · exact .ok _
      · exact .kept (decide_eq_false hopcode) List.suffix_rfl

/-- A demand on an answer that has just been put down. -/
theorem verifyTop_answer_spares {opcode : String} (hopcode : opcode ∈ answeringOpcodes)
    (answer : Bool) : Spares stack (verifyTop opcode (Number.ofBool answer :: stack)) := by
  cases answer with
  | true => exact .ok _
  | false =>
      have he : (ExecError.verifyFailed opcode).isRefusedAnswer = true := decide_eq_true hopcode
      refine .error ⟨.verifyFailed opcode, [] :: stack⟩ ⟨stack, List.suffix_rfl, ?_⟩
      rw [he]
      rfl

theorem takeIndex_spares (opcode : String) : Spares stack (takeIndex opcode stack) := by
  match stack with
  | [] | [_] => exact .missing 2 List.suffix_rfl
  | top :: x :: rest =>
      unfold takeIndex
      dsimp only
      cases Number.operand? top with
      | none => exact .kept rfl List.suffix_rfl
      | some n =>
          dsimp only
          split
          · exact .kept rfl (List.suffix_cons top _)
          · split
            · exact .missing _ (List.suffix_cons top _)
            · exact .ok _

theorem applyUnary_spares (op : UnaryOp) : Spares stack (applyUnary op stack) := by
  match stack with
  | [] => exact .missing 1 List.suffix_rfl
  | a :: rest =>
      unfold applyUnary
      dsimp only
      cases Number.operand? a with
      | none => exact .kept rfl List.suffix_rfl
      | some n => exact .ok _

theorem applyBinary_spares (op : BinaryOp) : Spares stack (applyBinary op stack) := by
  match stack with
  | [] | [_] => exact .missing 2 List.suffix_rfl
  | b :: a :: rest =>
      unfold applyBinary
      dsimp only
      cases Number.operand? a with
      | none => exact .kept rfl List.suffix_rfl
      | some m =>
          cases Number.operand? b with
          | none => exact .kept rfl List.suffix_rfl
          | some n => exact .ok _

theorem encode_equal (m n : Int) :
    Number.encode (BinaryOp.equal.eval m n) = Number.ofBool (decide (m = n)) := by
  by_cases h : m = n
  · simp only [BinaryOp.eval, h, if_true, decide_true]
    decide +kernel
  · simp only [BinaryOp.eval, h, if_false, decide_false]
    exact Number.encode_zero

theorem numEqualVerify_spares :
    Spares stack (applyBinary .equal stack >>= verifyTop "OP_NUMEQUALVERIFY") := by
  match stack with
  | [] | [_] => exact .missing 2 List.suffix_rfl
  | b :: a :: rest =>
      have hrest : rest <:+ b :: a :: rest := ⟨[b, a], rfl⟩
      refine (applyBinary_spares .equal).bind fun main hmain => ?_
      unfold applyBinary at hmain
      cases hm : Number.operand? a with
      | none => simp [hm] at hmain
      | some m =>
          cases hn : Number.operand? b with
          | none => simp [hm, hn] at hmain
          | some n =>
              simp only [hm, hn, encode_equal, Except.ok.injEq] at hmain
              subst hmain
              exact (verifyTop_answer_spares (by decide) _).of_suffix hrest

theorem applyEqual_spares : Spares stack (applyEqual stack) := by
  match stack with
  | [] | [_] => exact .missing 2 List.suffix_rfl
  | b :: a :: rest => exact .ok _

theorem equalVerify_spares : Spares stack (applyEqual stack >>= verifyTop "OP_EQUALVERIFY") := by
  match stack with
  | [] | [_] => exact .missing 2 List.suffix_rfl
  | b :: a :: rest =>
      have hrest : rest <:+ b :: a :: rest := ⟨[b, a], rfl⟩
      exact (verifyTop_answer_spares (by decide) (decide (a = b))).of_suffix hrest

theorem applyDivision_spares (op : DivisionOp) : Spares stack (applyDivision op stack) := by
  match stack with
  | [] | [_] => exact .missing 2 List.suffix_rfl
  | b :: a :: rest =>
      unfold applyDivision
      dsimp only
      cases Number.operand? b with
      | none => exact .kept rfl List.suffix_rfl
      | some n =>
          dsimp only
          split
          · exact .kept rfl List.suffix_rfl
          · cases Number.operand? a with
            | none => exact .kept rfl List.suffix_rfl
            | some m => exact .ok _

theorem applyWithin_spares : Spares stack (applyWithin stack) := by
  match stack with
  | [] | [_] | [_, _] => exact .missing 3 List.suffix_rfl
  | upper :: lower :: x :: rest =>
      unfold applyWithin
      dsimp only
      cases Number.operand? x with
      | none => exact .kept rfl List.suffix_rfl
      | some n =>
          cases Number.operand? lower with
          | none => exact .kept rfl List.suffix_rfl
          | some lo =>
              cases Number.operand? upper with
              | none => exact .kept rfl List.suffix_rfl
              | some hi => exact .ok _

theorem applySplit_spares : Spares stack (applySplit stack) := by
  match stack with
  | [] | [_] => exact .missing 2 List.suffix_rfl
  | position :: x :: rest =>
      unfold applySplit
      dsimp only
      cases Number.operand? position with
      | none => exact .kept rfl List.suffix_rfl
      | some n =>
          dsimp only
          split
          · exact .kept rfl List.suffix_rfl
          · exact .ok _

theorem applyNumToBin_spares : Spares stack (applyNumToBin limit stack) := by
  match stack with
  | [] | [_] => exact .missing 2 List.suffix_rfl
  | size :: x :: rest =>
      unfold applyNumToBin
      dsimp only
      cases Number.operand? size with
      | none => exact .kept rfl List.suffix_rfl
      | some n =>
          dsimp only
          split
          · exact .kept rfl List.suffix_rfl
          · split
            · exact .kept rfl List.suffix_rfl
            · exact .ok _

theorem applyBinToNum_spares : Spares stack (applyBinToNum stack) := by
  match stack with
  | [] => exact .missing 1 List.suffix_rfl
  | x :: rest =>
      unfold applyBinToNum
      dsimp only
      split
      · exact .kept rfl (List.suffix_cons x rest)
      · exact .ok _

/-! ## Signatures -/

theorem pushCheck_spares (verify : Bool) {opcode : String} (hopcode : opcode ∈ answeringOpcodes)
    (valid : Bool) : Spares stack (pushCheck verify opcode valid stack) := by
  cases verify with
  | false => exact .ok _
  | true => exact verifyTop_answer_spares hopcode valid

/-- The key and the signature are off the stack before they are looked at. -/
theorem checkSig_spares (verify : Bool) : Spares stack (checkSig env verify stack) := by
  match stack with
  | [] | [_] => exact .missing 2 List.suffix_rfl
  | key :: signature :: rest =>
      have hrest : rest <:+ key :: signature :: rest := ⟨[key, signature], rfl⟩
      unfold checkSig
      dsimp only
      cases env.checker with
      | none => exact .kept rfl hrest
      | some checker =>
          dsimp only
          split
          · exact .kept rfl hrest
          · cases checker.check signature key with
            | error e => exact .kept rfl hrest
            | ok valid => exact (pushCheck_spares verify (by decide) valid).of_suffix hrest

theorem readCount_spares {bound : Nat} {fault : Int → ExecError}
    (hfault : ∀ n, (fault n).isRefusedAnswer = false) :
    Spares stack (readCount bound fault stack) := by
  cases stack with
  | nil => exact .missing 1 List.suffix_rfl
  | cons top rest =>
      unfold readCount
      dsimp only
      cases Number.operand? top with
      | none => exact .kept rfl List.suffix_rfl
      | some n =>
          dsimp only
          split
          · exact .kept (hfault n) List.suffix_rfl
          · exact .ok _

theorem takeGroup_spares (count : Nat) : Spares stack (takeGroup count stack) := by
  unfold takeGroup
  dsimp only
  split
  · exact .missing _ (List.drop_suffix 1 stack)
  · exact .ok _

theorem suffix_of_takeGroup {count : Nat} {group : List Bytes}
    (h : takeGroup count stack = .ok (group, below)) : below <:+ stack := by
  unfold takeGroup at h
  dsimp only at h
  split at h
  · cases h
  · cases h
    exact (List.drop_suffix count _).trans (List.drop_suffix 1 stack)

theorem checkGroups_spares (verify : Bool) (keyCount : Nat) :
    Spares stack (checkGroups env verify keyCount stack) := by
  refine (takeGroup_spares keyCount).bind fun keys hkeys => ?_
  obtain ⟨keys, below⟩ := keys
  have hbelow := suffix_of_takeGroup hkeys
  refine ((readCount_spares fun _ => rfl).of_suffix hbelow).bind fun count _ => ?_
  refine ((takeGroup_spares count).of_suffix hbelow).bind fun signatures hsignatures => ?_
  obtain ⟨signatures, rest⟩ := signatures
  have hrest : rest.drop 1 <:+ stack :=
    (List.drop_suffix 1 rest).trans ((suffix_of_takeGroup hsignatures).trans hbelow)
  dsimp only
  cases env.checker with
  | none => exact .kept rfl hrest
  | some checker => exact (pushCheck_spares verify (by decide) _).of_suffix hrest

end Machine

/-! ## All operations on the main stack -/

open Machine

variable {limit : Nat} {stack : Stack}

theorem StackOp.apply_spares (op : StackOp) : Spares stack (op.apply limit stack) := by
  cases op with
  | constant n => exact .ok _
  | verify => exact verifyTop_spares (by decide)
  | fail => exact .kept rfl List.suffix_rfl
  | drop count =>
      unfold apply
      dsimp only
      split
      · exact .ok _
      · exact .missing count List.suffix_rfl
  | dup count =>
      unfold apply
      dsimp only
      split
      · exact .ok _
      · exact .missing count List.suffix_rfl
  | twoOver =>
      rcases stack with _ | ⟨x₄, _ | ⟨x₃, _ | ⟨x₂, _ | ⟨x₁, rest⟩⟩⟩⟩
      iterate 4 exact .missing 4 List.suffix_rfl
      exact .ok _
  | twoRot =>
      rcases stack with _ | ⟨x₆, _ | ⟨x₅, _ | ⟨x₄, _ | ⟨x₃, _ | ⟨x₂, _ | ⟨x₁, rest⟩⟩⟩⟩⟩⟩
      iterate 6 exact .missing 6 List.suffix_rfl
      exact .ok _
  | twoSwap =>
      rcases stack with _ | ⟨x₄, _ | ⟨x₃, _ | ⟨x₂, _ | ⟨x₁, rest⟩⟩⟩⟩
      iterate 4 exact .missing 4 List.suffix_rfl
      exact .ok _
  | ifDup =>
      rcases stack with _ | ⟨x, rest⟩
      · exact .missing 1 List.suffix_rfl
      · exact .ok _
  | depth => exact .ok _
  | nip =>
      rcases stack with _ | ⟨x₂, _ | ⟨x₁, rest⟩⟩
      iterate 2 exact .missing 2 List.suffix_rfl
      exact .ok _
  | «over» =>
      rcases stack with _ | ⟨x₂, _ | ⟨x₁, rest⟩⟩
      iterate 2 exact .missing 2 List.suffix_rfl
      exact .ok _
  | pick => exact (takeIndex_spares _).bind fun _ _ => .ok _
  | roll => exact (takeIndex_spares _).bind fun _ _ => .ok _
  | rot =>
      rcases stack with _ | ⟨x₃, _ | ⟨x₂, _ | ⟨x₁, rest⟩⟩⟩
      iterate 3 exact .missing 3 List.suffix_rfl
      exact .ok _
  | swap =>
      rcases stack with _ | ⟨x₂, _ | ⟨x₁, rest⟩⟩
      iterate 2 exact .missing 2 List.suffix_rfl
      exact .ok _
  | tuck =>
      rcases stack with _ | ⟨x₂, _ | ⟨x₁, rest⟩⟩
      iterate 2 exact .missing 2 List.suffix_rfl
      exact .ok _
  | cat =>
      rcases stack with _ | ⟨x₂, _ | ⟨x₁, rest⟩⟩
      iterate 2 exact .missing 2 List.suffix_rfl
      unfold apply
      dsimp only
      split
      · exact .kept rfl List.suffix_rfl
      · exact .ok _
  | split => exact applySplit_spares
  | numToBin => exact applyNumToBin_spares
  | binToNum => exact applyBinToNum_spares
  | size =>
      rcases stack with _ | ⟨x, rest⟩
      · exact .missing 1 List.suffix_rfl
      · exact .ok _
  | bitwise op =>
      rcases stack with _ | ⟨x₂, _ | ⟨x₁, rest⟩⟩
      iterate 2 exact .missing 2 List.suffix_rfl
      unfold apply
      dsimp only
      split
      · exact .ok _
      · exact .kept rfl ⟨[x₂, x₁], rfl⟩
  | equal => exact applyEqual_spares
  | equalVerify => exact equalVerify_spares
  | unary op => exact applyUnary_spares op
  | binary op => exact applyBinary_spares op
  | division op => exact applyDivision_spares op
  | numEqualVerify => exact numEqualVerify_spares
  | within => exact applyWithin_spares
  | hash op =>
      rcases stack with _ | ⟨x, rest⟩
      · exact .missing 1 List.suffix_rfl
      · exact .ok _

namespace Machine

/-! ## Chunks -/

variable {env : Env} {s t : State} {op : Opcode} {c : Chunk}

/-- A state that a failure ends in, by the state before and the cause. -/
structure LeftOf (s : State) (halted : Halt ExecError) : Prop where
  alt : halted.state.alt = s.alt
  branches : halted.state.branches = s.branches
  main : Remains s.main halted.error halted.state.main

/-- A computation of the machine that leaves what remains of a state where it fails. -/
inductive SparesState {α : Type} (s : State) : Outcome ExecError α → Prop
  | ok (a : α) : SparesState s (.ok a)
  | error (halted : Halt ExecError) (h : LeftOf s halted) : SparesState s (.error halted)

namespace SparesState

variable {α β : Type}

/-- A failure that changes nothing. -/
theorem halt {e : ExecError} (he : e.isRefusedAnswer = false) :
    SparesState (α := α) s (halt e s) := by
  refine .error _ ⟨rfl, rfl, s.main, List.suffix_rfl, ?_⟩
  rw [he]
  rfl

theorem bind {r : Outcome ExecError α} {k : α → Outcome ExecError β} (h : SparesState s r)
    (hk : ∀ a, r = .ok a → SparesState s (k a)) : SparesState s (r >>= k) := by
  cases h with
  | ok a => exact hk a rfl
  | error halted h => exact .error halted h

/-- The count is no part of what can be left. -/
theorem of_opCount {r : Outcome ExecError α} {count : Nat}
    (h : SparesState { s with opCount := count } r) : SparesState s r := by
  cases h with
  | ok a => exact .ok a
  | error halted h => exact .error halted ⟨h.alt, h.branches, h.main⟩

theorem onMain {r : Except StackFault α} (h : Spares s.main r) : SparesState s (s.onMain r) := by
  cases h with
  | ok a => exact .ok a
  | error fault h => exact .error _ ⟨rfl, rfl, h⟩

theorem withMain {r : Except StackFault Stack} (h : Spares s.main r) :
    SparesState s (s.withMain r) := by
  cases h with
  | ok main => exact .ok _
  | error fault h => exact .error _ ⟨rfl, rfl, h⟩

theorem countOps (count : Nat) : SparesState s (s.countOps env count) := by
  rw [countOps_eq]
  split
  · exact of_opCount (.halt rfl)
  · exact .ok _

end SparesState

/-- A test that can fail for many causes, but refuses no answer. -/
def RefusesNoAnswer {α : Type} (r : Except ExecError α) : Prop :=
  ∀ e, r = .error e → e.isRefusedAnswer = false

namespace RefusesNoAnswer

variable {α β : Type}

theorem ok (a : α) : RefusesNoAnswer (.ok a) := by
  intro e h
  cases h

theorem error {e : ExecError} (he : e.isRefusedAnswer = false) :
    RefusesNoAnswer (α := α) (.error e) := by
  intro e' h
  cases h
  exact he

theorem bind {r : Except ExecError α} {k : α → Except ExecError β} (h : RefusesNoAnswer r)
    (hk : ∀ a, RefusesNoAnswer (k a)) : RefusesNoAnswer (r >>= k) := by
  cases r with
  | ok a => exact hk a
  | error e => exact .error (h e rfl)

theorem lockTime (r : Except LockTimeFault α) :
    RefusesNoAnswer (r.mapError ExecError.lockTime) := by
  cases r with
  | ok a => exact .ok a
  | error fault => exact .error rfl

theorem lockTimeOperand (stack : Stack) : RefusesNoAnswer (lockTimeOperand stack) := by
  unfold Machine.lockTimeOperand
  split
  · exact .error rfl
  · split
    · exact .error rfl
    · split
      · exact .error rfl
      · exact .ok _

theorem requireChecker : RefusesNoAnswer env.requireChecker := by
  unfold Env.requireChecker
  split
  · exact .ok _
  · exact .error rfl

theorem checkLockTime (stack : Stack) : RefusesNoAnswer (checkLockTime env stack) := by
  refine (lockTimeOperand stack).bind fun required => requireChecker.bind fun checker => ?_
  refine (lockTime _).bind fun _ => ?_
  split
  · exact .error rfl
  · exact .ok _

theorem checkSequence (stack : Stack) : RefusesNoAnswer (checkSequence env stack) := by
  refine (lockTimeOperand stack).bind fun required => ?_
  split
  · exact .ok _
  · refine requireChecker.bind fun checker => ?_
    split
    · exact .error rfl
    · dsimp only
      split
      · exact .error rfl
      · exact lockTime _

end RefusesNoAnswer

theorem tested_spares {r : Except ExecError Unit} (h : RefusesNoAnswer r) :
    SparesState s (s.tested r) := by
  cases r with
  | ok a => exact .ok _
  | error e => exact .halt (h e rfl)

theorem openBranch_spares (negated : Bool) : SparesState s (openBranch negated s) := by
  unfold openBranch
  split
  · split
    · exact .halt rfl
    · exact .ok _
  · exact .ok _

theorem turnBranch_spares : SparesState s (turnBranch s) := by
  unfold turnBranch
  split
  · exact .halt rfl
  · exact .ok _

theorem closeBranch_spares : SparesState s (closeBranch s) := by
  unfold closeBranch
  split
  · exact .halt rfl
  · exact .ok _

theorem toAlt_spares : SparesState s (toAlt s) := by
  unfold toAlt
  split
  · exact .halt rfl
  · exact .ok _

theorem fromAlt_spares : SparesState s (fromAlt s) := by
  unfold fromAlt
  split
  · exact .halt rfl
  · exact .ok _

/-- The keys are counted before anything is taken off. -/
theorem checkMultisig_spares (verify : Bool) : SparesState s (checkMultisig env verify s) := by
  rw [checkMultisig_eq]
  refine (SparesState.onMain (readCount_spares fun _ => rfl)).bind fun keyCount _ => ?_
  refine (SparesState.countOps keyCount).bind fun t ht => ?_
  obtain rfl := eq_plus_of_countOps ht
  exact .of_opCount (.withMain (checkGroups_spares verify keyCount))

theorem perform_spares : SparesState s (perform env op s) := by
  unfold perform
  cases op.operation with
  | stack f => exact .withMain f.apply_spares
  | nop => exact .ok _
  | openBranch negated => exact openBranch_spares negated
  | otherwise => exact turnBranch_spares
  | closeBranch => exact closeBranch_spares
  | toAlt => exact toAlt_spares
  | fromAlt => exact fromAlt_spares
  | checkSig verify => exact .withMain (checkSig_spares verify)
  | checkMultisig verify => exact checkMultisig_spares verify
  | checkLockTime => exact tested_spares (.checkLockTime s.main)
  | checkSequence => exact tested_spares (.checkSequence s.main)
  | announce | disabled | reserved => exact .halt rfl

theorem stepCounted_spares : SparesState s (stepCounted env op s) := by
  unfold stepCounted
  split
  · exact .halt rfl
  · split
    · exact .ok _
    · exact perform_spares

theorem step_spares : SparesState s (step env s c) := by
  cases c with
  | push enc data =>
      simp only [step, State.pushData]
      split
      · split
        · exact .halt rfl
        · exact .ok _
      · exact .ok _
  | op o =>
      simp only [step, countOpcode_eq]
      split
      · exact .of_opCount (.halt rfl)
      · exact .of_opCount stepCounted_spares

/-- A chunk that fails leaves the second stack and the open branches as they were, has counted no
less than before, and leaves of the main stack a part from the bottom up, with the false answer on
it where an answer is refused that was put down. -/
theorem left_of_step_error (env : Env) (s : State) (c : Chunk) {halted : Halt ExecError}
    (h : step env s c = .error halted) :
    halted.state.alt = s.alt ∧ halted.state.branches = s.branches ∧
      s.opCount ≤ halted.state.opCount ∧
      ∃ kept, kept <:+ s.main ∧
        halted.state.main = if halted.error.isRefusedAnswer then [] :: kept else kept := by
  have hcount : s.opCount ≤ counted (step env s c) := (counts_step c).le_counted
  have hspares : SparesState s (step env s c) := step_spares
  rw [h] at hcount hspares
  cases hspares with
  | error _ hleft => exact ⟨hleft.alt, hleft.branches, hcount, hleft.main⟩

/-- A row of signatures that is refused in an open branch, and a copy from out of reach. -/
theorem left_of_refused_signatures_and_far_copy :
    let refusing : Env := { checker := some ⟨fun _ _ => .ok false, 0, 1, 0⟩ }
    let signed : State :=
      { main := [[1], [2, 3], [1], [4], [], [7]], alt := [[8]], branches := [true], opCount := 5 }
    let refused : Halt ExecError :=
      ⟨.verifyFailed "OP_CHECKMULTISIGVERIFY",
        { main := [[], [7]], alt := [[8]], branches := [true], opCount := 7 }⟩
    let copying : State := { main := [[5], [1], [2]] }
    let tooFar : Halt ExecError := ⟨.missingItems 6, { main := [[1], [2]], opCount := 1 }⟩
    (step refusing signed (.op ⟨0xaf⟩) = .error refused ∧
      refused.state.alt = signed.alt ∧ refused.state.branches = signed.branches ∧
      signed.opCount ≤ refused.state.opCount ∧
      ∃ kept, kept <:+ signed.main ∧ refused.state.main = [] :: kept) ∧
    step {} copying (.op ⟨0x79⟩) = .error tooFar ∧
      ∃ kept, kept <:+ copying.main ∧ tooFar.state.main = kept := by
  intro refusing signed refused copying tooFar
  have hrefused : step refusing signed (.op ⟨0xaf⟩) = .error refused := by rfl
  have htooFar : step {} copying (.op ⟨0x79⟩) = .error tooFar := by rfl
  exact ⟨⟨hrefused, left_of_step_error refusing signed _ hrefused⟩,
    htooFar, (left_of_step_error {} copying _ htooFar).2.2.2⟩

end Machine

end TxScript
