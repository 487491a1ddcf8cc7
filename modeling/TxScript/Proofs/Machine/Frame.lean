import TxScript.Proofs.Machine.Branches

/-!
# What lies below

A script that runs to its end does the same when more elements lie below both of its stacks, and
leaves them there. A failure stays the same too, unless it was for want of elements. The one opcode
that sees how many elements there are at all is the one that counts them.
-/

namespace TxScript

def Opcode.depth : Opcode := ⟨0x74⟩

theorem Opcode.eq_depth_of_operation {op : Opcode} (h : op.operation = .stack .depth) :
    op = .depth := by
  have htable : ∀ e ∈ opcodeTable, e.operation = .stack .depth → (⟨e.byte⟩ : Opcode) = .depth := by
    decide +kernel
  rcases op.operation_cases with ⟨e, he, hbyte, hop⟩ | hop | hop
  · rw [← htable e he (hop.symm.trans h), hbyte]
  · rw [hop] at h
    cases h
  · rw [hop] at h
    cases h

namespace Machine

/-- The failures for want of elements, on either stack. -/
def ExecError.isMissing : ExecError → Bool
  | .missingItems _ | .missingAltItems _ => true
  | _ => false

/-- A second computation does what the first one does, with a result that has grown and for the same
cause of failure, unless the first one fails for want of elements. -/
inductive Framed {ε α β : Type} (cause : ε → ExecError) (grow : α → β) :
    Except ε α → Except ε β → Prop where
  | ok (a : α) : Framed cause grow (.ok a) (.ok (grow a))
  | error (e e' : ε) (same : cause e' = cause e) : Framed cause grow (.error e) (.error e')
  | missing (e : ε) (h : (cause e).isMissing = true) (r : Except ε β) :
    Framed cause grow (.error e) r

namespace Framed

variable {ε α β γ δ : Type} {cause : ε → ExecError} {grow : α → β} {grow' : γ → δ}
  {r : Except ε α} {r' : Except ε β}

theorem bind {k : α → Except ε γ} {k' : β → Except ε δ} (h : Framed cause grow r r')
    (hk : ∀ a, r = .ok a → Framed cause grow' (k a) (k' (grow a))) :
    Framed cause grow' (r >>= k) (r' >>= k') := by
  cases h with
  | ok a => exact hk a rfl
  | error e e' same => exact .error e e' same
  | missing e h r' => exact .missing e h _

theorem eq_ok (h : Framed cause grow r r') {a : α} (ha : r = .ok a) : r' = .ok (grow a) := by
  cases h with
  | ok b =>
      cases ha
      rfl
  | error e e' same => cases ha
  | missing e h r' => cases ha

theorem eq_error (h : Framed cause grow r r') {e : ε} (he : r = .error e)
    (hmissing : (cause e).isMissing = false) : ∃ e', r' = .error e' ∧ cause e' = cause e := by
  cases h with
  | ok b => cases he
  | error e e' same =>
      cases he
      exact ⟨e', rfl, same⟩
  | missing e h r' =>
      cases he
      rw [h] at hmissing
      cases hmissing

end Framed

variable {env : Env} {limit : Nat} {stack p : Stack}

/-- An operation on a stack and the same one on the stack with more below it. -/
abbrev FramedStack (p : Stack) : Except StackFault Stack → Except StackFault Stack → Prop :=
  Framed StackFault.error (· ++ p)

/-! ## Operations on the main stack -/

theorem verifyTop_framed (opcode : String) :
    FramedStack p (verifyTop opcode stack) (verifyTop opcode (stack ++ p)) := by
  cases stack with
  | nil => exact .missing _ rfl _
  | cons top rest =>
      unfold verifyTop
      rw [List.cons_append]
      dsimp only
      split
      · exact .ok _
      · exact .error _ _ rfl

theorem takeIndex_framed (opcode : String) :
    Framed StackFault.error (fun r => (r.1, r.2 ++ p)) (takeIndex opcode stack)
      (takeIndex opcode (stack ++ p)) := by
  match stack with
  | [] | [_] => exact .missing _ rfl _
  | top :: x :: rest =>
      unfold takeIndex
      simp only [List.cons_append]
      cases Number.operand? top with
      | none => exact .error _ _ rfl
      | some n =>
          by_cases hneg : n < 0
          · simp only [hneg, if_true]
            exact .error _ _ rfl
          · by_cases hshort : (x :: rest).length < n.toNat + 1
            · simp only [hneg, hshort, if_true, if_false]
              exact .missing _ rfl _
            · have hshort' : ¬ (x :: (rest ++ p)).length < n.toNat + 1 := by
                simp only [List.length_cons, List.length_append] at hshort ⊢
                omega
              simp only [hneg, hshort, hshort', if_false]
              exact .ok _

theorem eq_cons_of_takeIndex {opcode : String} {n : Nat}
    (h : takeIndex opcode stack = .ok (n, below)) : ∃ top, stack = top :: below := by
  match stack with
  | [] | [_] => simp [takeIndex, missing] at h
  | top :: x :: rest =>
      unfold takeIndex at h
      dsimp only at h
      split at h
      · cases h
      · split at h
        · cases h
        · split at h
          · cases h
          · cases h
            exact ⟨top, rfl⟩

theorem lt_of_takeIndex {opcode : String} {n : Nat} {below : Stack}
    (h : takeIndex opcode stack = .ok (n, below)) : n < below.length := by
  match stack with
  | [] | [_] => simp [takeIndex, missing] at h
  | top :: x :: rest =>
      unfold takeIndex at h
      cases hn : Number.operand? top with
      | none => simp [hn] at h
      | some m =>
          by_cases hneg : m < 0
          · simp [hn, hneg] at h
          · by_cases hshort : (x :: rest).length < m.toNat + 1
            · simp only [hn, hneg, hshort, if_true, if_false, missing] at h
              cases h
            · simp only [hn, hneg, hshort, if_false] at h
              cases h
              omega

theorem getD_append_of_lt {n : Nat} (h : n < stack.length) :
    (stack ++ p).getD n [] = stack.getD n [] := by
  simp only [List.getD_eq_getElem?_getD, List.getElem?_append_left h]

theorem applyEqual_framed : FramedStack p (applyEqual stack) (applyEqual (stack ++ p)) := by
  match stack with
  | [] | [_] => exact .missing _ rfl _
  | b :: a :: rest => exact .ok _

theorem applyUnary_framed (op : UnaryOp) :
    FramedStack p (applyUnary op stack) (applyUnary op (stack ++ p)) := by
  match stack with
  | [] => exact .missing _ rfl _
  | a :: rest =>
      unfold applyUnary
      simp only [List.cons_append]
      cases Number.operand? a with
      | none => exact .error _ _ rfl
      | some n => exact .ok _

theorem applyBinary_framed (op : BinaryOp) :
    FramedStack p (applyBinary op stack) (applyBinary op (stack ++ p)) := by
  match stack with
  | [] | [_] => exact .missing _ rfl _
  | b :: a :: rest =>
      unfold applyBinary
      simp only [List.cons_append]
      cases Number.operand? a with
      | none => exact .error _ _ rfl
      | some m =>
          cases Number.operand? b with
          | none => exact .error _ _ rfl
          | some n => exact .ok _

theorem applyDivision_framed (op : DivisionOp) :
    FramedStack p (applyDivision op stack) (applyDivision op (stack ++ p)) := by
  match stack with
  | [] | [_] => exact .missing _ rfl _
  | b :: a :: rest =>
      unfold applyDivision
      simp only [List.cons_append]
      cases Number.operand? b with
      | none => exact .error _ _ rfl
      | some n =>
          by_cases hzero : n = 0
          · simp only [hzero, if_true]
            exact .error _ _ rfl
          · simp only [hzero, if_false]
            cases Number.operand? a with
            | none => exact .error _ _ rfl
            | some m => exact .ok _

theorem applyWithin_framed : FramedStack p (applyWithin stack) (applyWithin (stack ++ p)) := by
  match stack with
  | [] | [_] | [_, _] => exact .missing _ rfl _
  | upper :: lower :: x :: rest =>
      unfold applyWithin
      simp only [List.cons_append]
      cases Number.operand? x with
      | none => exact .error _ _ rfl
      | some n =>
          cases Number.operand? lower with
          | none => exact .error _ _ rfl
          | some lo =>
              cases Number.operand? upper with
              | none => exact .error _ _ rfl
              | some hi => exact .ok _

theorem applySplit_framed : FramedStack p (applySplit stack) (applySplit (stack ++ p)) := by
  match stack with
  | [] | [_] => exact .missing _ rfl _
  | position :: x :: rest =>
      unfold applySplit
      simp only [List.cons_append]
      cases Number.operand? position with
      | none => exact .error _ _ rfl
      | some n =>
          dsimp only
          split
          · exact .error _ _ rfl
          · exact .ok _

theorem applyNumToBin_framed :
    FramedStack p (applyNumToBin limit stack) (applyNumToBin limit (stack ++ p)) := by
  match stack with
  | [] | [_] => exact .missing _ rfl _
  | size :: x :: rest =>
      unfold applyNumToBin
      simp only [List.cons_append]
      cases Number.operand? size with
      | none => exact .error _ _ rfl
      | some n =>
          dsimp only
          split
          · exact .error _ _ rfl
          · split
            · exact .error _ _ rfl
            · exact .ok _

theorem applyBinToNum_framed :
    FramedStack p (applyBinToNum stack) (applyBinToNum (stack ++ p)) := by
  match stack with
  | [] => exact .missing _ rfl _
  | x :: rest =>
      unfold applyBinToNum
      simp only [List.cons_append]
      split
      · exact .error _ _ rfl
      · exact .ok _

/-! ## Signatures -/

theorem pushCheck_framed (verify : Bool) (opcode : String) (valid : Bool) :
    FramedStack p (pushCheck verify opcode valid stack)
      (pushCheck verify opcode valid (stack ++ p)) := by
  cases verify with
  | false => exact .ok _
  | true => exact @verifyTop_framed (Number.ofBool valid :: stack) p opcode

theorem checkSig_framed (verify : Bool) :
    FramedStack p (checkSig env verify stack) (checkSig env verify (stack ++ p)) := by
  match stack with
  | [] | [_] => exact .missing _ rfl _
  | key :: signature :: rest =>
      unfold checkSig
      simp only [List.cons_append]
      cases env.checker with
      | none => exact .error _ _ rfl
      | some checker =>
          dsimp only
          split
          · exact .error _ _ rfl
          · cases checker.check signature key with
            | error e => exact .error _ _ rfl
            | ok valid => exact pushCheck_framed verify _ valid

theorem readCount_framed (bound : Nat) (fault : Int → ExecError) :
    Framed StackFault.error id (readCount bound fault stack)
      (readCount bound fault (stack ++ p)) := by
  cases stack with
  | nil => exact .missing _ rfl _
  | cons top rest =>
      unfold readCount
      simp only [List.cons_append]
      cases Number.operand? top with
      | none => exact .error _ _ rfl
      | some n =>
          dsimp only
          split
          · exact .error _ _ rfl
          · exact .ok _

/-- The group is counted from the top, so what lies below does not move it. -/
theorem takeGroup_framed (count : Nat) :
    Framed StackFault.error (fun r => (r.1, r.2 ++ p)) (takeGroup count stack)
      (takeGroup count (stack ++ p)) := by
  cases stack with
  | nil => exact .missing _ rfl _
  | cons top rest =>
      by_cases hshort : rest.length < count + 1
      · simp only [takeGroup, List.drop_one, List.tail_cons, hshort, if_true]
        exact .missing _ rfl _
      · have hcount : count ≤ rest.length := by omega
        have hshort' : ¬ (rest ++ p).length < count + 1 := by
          rw [List.length_append]
          omega
        simp only [takeGroup, List.cons_append, List.drop_one, List.tail_cons, hshort, hshort',
          if_false, List.take_append_of_le_length hcount, List.drop_append_of_le_length hcount]
        exact .ok _

/-- A group has the length that is asked for, and leaves something below. -/
theorem lengths_of_takeGroup {count : Nat} {group : List Bytes} {below : Stack}
    (h : takeGroup count stack = .ok (group, below)) :
    group.length = count ∧ 1 ≤ below.length := by
  unfold takeGroup at h
  by_cases hshort : (stack.drop 1).length < count + 1
  · simp only [hshort, if_true, missing] at h
    cases h
  · simp only [hshort, if_false, Except.ok.injEq, Prod.mk.injEq] at h
    rw [← h.1, ← h.2]
    simp only [List.length_take, List.length_drop] at hshort ⊢
    omega

theorem checkGroups_framed (verify : Bool) (keyCount : Nat) :
    FramedStack p (checkGroups env verify keyCount stack)
      (checkGroups env verify keyCount (stack ++ p)) := by
  refine (takeGroup_framed keyCount).bind fun keys _ => ?_
  refine (readCount_framed keyCount .signatureCount).bind fun count _ => ?_
  refine (takeGroup_framed count).bind fun signatures hsignatures => ?_
  have hrest := (lengths_of_takeGroup hsignatures).2
  cases env.checker with
  | none => exact .error _ _ rfl
  | some checker =>
      dsimp only
      rw [List.drop_append_of_le_length hrest]
      exact pushCheck_framed verify _ _

end Machine

/-! ## All operations on the main stack -/

open Machine

variable {limit : Nat} {stack p : Stack}

/-- All operations but one look only at elements that they find from the top. -/
theorem StackOp.apply_framed (op : StackOp) (hdepth : op ≠ .depth) :
    FramedStack p (op.apply limit stack) (op.apply limit (stack ++ p)) := by
  cases op with
  | constant n => exact .ok _
  | verify => exact verifyTop_framed _
  | fail => exact .error _ _ rfl
  | drop count =>
      by_cases hcount : count ≤ stack.length
      · have hcount' : count ≤ (stack ++ p).length := by
          rw [List.length_append]
          omega
        simp only [apply, hcount, hcount', if_true, List.drop_append_of_le_length hcount]
        exact .ok _
      · simp only [apply, hcount, if_false]
        exact .missing _ rfl _
  | dup count =>
      by_cases hcount : count ≤ stack.length
      · have hcount' : count ≤ (stack ++ p).length := by
          rw [List.length_append]
          omega
        simp only [apply, hcount, hcount', if_true, List.take_append_of_le_length hcount,
          ← List.append_assoc]
        exact .ok _
      · simp only [apply, hcount, if_false]
        exact .missing _ rfl _
  | twoOver =>
      rcases stack with _ | ⟨x₄, _ | ⟨x₃, _ | ⟨x₂, _ | ⟨x₁, rest⟩⟩⟩⟩
      iterate 4 exact .missing _ rfl _
      exact .ok _
  | twoRot =>
      rcases stack with _ | ⟨x₆, _ | ⟨x₅, _ | ⟨x₄, _ | ⟨x₃, _ | ⟨x₂, _ | ⟨x₁, rest⟩⟩⟩⟩⟩⟩
      iterate 6 exact .missing _ rfl _
      exact .ok _
  | twoSwap =>
      rcases stack with _ | ⟨x₄, _ | ⟨x₃, _ | ⟨x₂, _ | ⟨x₁, rest⟩⟩⟩⟩
      iterate 4 exact .missing _ rfl _
      exact .ok _
  | ifDup =>
      rcases stack with _ | ⟨x, rest⟩
      · exact .missing _ rfl _
      · simp only [apply, List.cons_append]
        split
        · exact .ok _
        · exact .ok _
  | depth => exact absurd rfl hdepth
  | nip =>
      rcases stack with _ | ⟨x₂, _ | ⟨x₁, rest⟩⟩
      iterate 2 exact .missing _ rfl _
      exact .ok _
  | «over» =>
      rcases stack with _ | ⟨x₂, _ | ⟨x₁, rest⟩⟩
      iterate 2 exact .missing _ rfl _
      exact .ok _
  | pick =>
      refine (takeIndex_framed _).bind fun taken hr => ?_
      obtain ⟨n, below⟩ := taken
      dsimp only
      rw [getD_append_of_lt (lt_of_takeIndex hr)]
      exact .ok _
  | roll =>
      refine (takeIndex_framed _).bind fun taken hr => ?_
      obtain ⟨n, below⟩ := taken
      have hn := lt_of_takeIndex hr
      dsimp only
      rw [getD_append_of_lt hn, List.eraseIdx_append_of_lt_length hn]
      exact .ok _
  | rot =>
      rcases stack with _ | ⟨x₃, _ | ⟨x₂, _ | ⟨x₁, rest⟩⟩⟩
      iterate 3 exact .missing _ rfl _
      exact .ok _
  | swap =>
      rcases stack with _ | ⟨x₂, _ | ⟨x₁, rest⟩⟩
      iterate 2 exact .missing _ rfl _
      exact .ok _
  | tuck =>
      rcases stack with _ | ⟨x₂, _ | ⟨x₁, rest⟩⟩
      iterate 2 exact .missing _ rfl _
      exact .ok _
  | cat =>
      rcases stack with _ | ⟨x₂, _ | ⟨x₁, rest⟩⟩
      iterate 2 exact .missing _ rfl _
      simp only [apply, List.cons_append]
      split
      · exact .error _ _ rfl
      · exact .ok _
  | split => exact applySplit_framed
  | numToBin => exact applyNumToBin_framed
  | binToNum => exact applyBinToNum_framed
  | size =>
      rcases stack with _ | ⟨x, rest⟩
      · exact .missing _ rfl _
      · exact .ok _
  | bitwise op =>
      rcases stack with _ | ⟨x₂, _ | ⟨x₁, rest⟩⟩
      iterate 2 exact .missing _ rfl _
      simp only [apply, List.cons_append]
      split
      · exact .ok _
      · exact .error _ _ rfl
  | equal => exact applyEqual_framed
  | equalVerify => exact applyEqual_framed.bind fun _ _ => verifyTop_framed _
  | unary op => exact applyUnary_framed op
  | binary op => exact applyBinary_framed op
  | division op => exact applyDivision_framed op
  | numEqualVerify => exact (applyBinary_framed .equal).bind fun _ _ => verifyTop_framed _
  | within => exact applyWithin_framed
  | hash op =>
      rcases stack with _ | ⟨x, rest⟩
      · exact .missing _ rfl _
      · exact .ok _

namespace Machine

/-! ## Chunks -/

variable {env : Env} {q : Stack} {s : State} {op : Opcode}

/-- The state with more below both of its stacks. -/
def State.over (s : State) (p q : Stack) : State :=
  { s with main := s.main ++ p, alt := s.alt ++ q }

/-- A computation of the machine and the same one with more below both of the stacks. -/
abbrev FramedState (p q : Stack) : Outcome ExecError State → Outcome ExecError State → Prop :=
  Framed Halt.error (State.over · p q)

theorem withMain_framed {r r' : Except StackFault Stack} (h : FramedStack p r r') :
    FramedState p q (s.withMain r) ((s.over p q).withMain r') := by
  cases h with
  | ok main => exact .ok _
  | error e e' same => exact .error _ _ same
  | missing e h r' => exact .missing (e.halt s) h _

theorem onMain_framed {α β : Type} {grow : α → β} {r : Except StackFault α}
    {r' : Except StackFault β} {s' : State} (h : Framed StackFault.error grow r r') :
    Framed Halt.error grow (s.onMain r) (s'.onMain r') := by
  cases h with
  | ok a => exact .ok _
  | error e e' same => exact .error _ _ same
  | missing e h r' => exact .missing (e.halt s) h _

theorem tested_framed {r r' : Except ExecError Unit} (h : Framed id id r r') :
    FramedState p q (s.tested r) ((s.over p q).tested r') := by
  cases h with
  | ok a => exact .ok _
  | error e e' same => exact .error _ _ same
  | missing e h r' => exact .missing (Halt.mk e s) h _

theorem countOps_framed (count : Nat) :
    FramedState p q (s.countOps env count) ((s.over p q).countOps env count) := by
  by_cases hlimit : env.config.maxOps < s.opCount + count
  · simp only [State.countOps, State.over, hlimit, if_true]
    exact .error _ _ rfl
  · simp only [State.countOps, State.over, hlimit, if_false]
    exact .ok _

theorem pushData_framed (data : Bytes) :
    FramedState p q (s.pushData env data) ((s.over p q).pushData env data) := by
  unfold State.pushData
  split
  · exact .error _ _ rfl
  · exact .ok _

theorem checkMultisig_framed (verify : Bool) :
    FramedState p q (checkMultisig env verify s) (checkMultisig env verify (s.over p q)) := by
  refine (onMain_framed (readCount_framed _ _)).bind fun keyCount _ => ?_
  refine (countOps_framed keyCount).bind fun t _ => ?_
  exact (onMain_framed (checkGroups_framed verify keyCount)).bind fun main _ => .ok _

theorem lockTimeOperand_framed :
    Framed id id (lockTimeOperand stack) (lockTimeOperand (stack ++ p)) := by
  cases stack with
  | nil => exact .missing _ rfl _
  | cons top rest =>
      unfold lockTimeOperand
      simp only [List.cons_append]
      cases Number.decode? Number.lockTimeWidth top with
      | none => exact .error _ _ rfl
      | some n =>
          dsimp only
          split
          · exact .error _ _ rfl
          · exact .ok _

theorem Framed.refl {α : Type} (r : Except ExecError α) : Framed id id r r := by
  cases r with
  | ok a => exact .ok a
  | error e => exact .error e e rfl

theorem checkLockTime_framed :
    Framed id id (checkLockTime env stack) (checkLockTime env (stack ++ p)) :=
  lockTimeOperand_framed.bind fun _ _ => Framed.refl _

theorem checkSequence_framed :
    Framed id id (checkSequence env stack) (checkSequence env (stack ++ p)) :=
  lockTimeOperand_framed.bind fun _ _ => Framed.refl _

theorem perform_framed (hdepth : op ≠ .depth) :
    FramedState p q (perform env op s) (perform env op (s.over p q)) := by
  unfold perform
  cases hop : op.operation with
  | stack f =>
      have hf : f ≠ .depth := by
        rintro rfl
        exact hdepth (Opcode.eq_depth_of_operation hop)
      exact withMain_framed (f.apply_framed hf)
  | nop => exact .ok _
  | openBranch negated =>
      show FramedState p q (openBranch negated s) (openBranch negated (s.over p q))
      unfold openBranch
      rw [show (s.over p q).executing = s.executing from rfl]
      split
      · rcases s with ⟨_ | ⟨top, rest⟩, alt, branches, count⟩
        · exact .missing _ rfl _
        · exact .ok _
      · exact .ok _
  | otherwise =>
      rcases s with ⟨main, alt, _ | ⟨b, rest⟩, count⟩
      · exact .error _ _ rfl
      · exact .ok _
  | closeBranch =>
      rcases s with ⟨main, alt, _ | ⟨b, rest⟩, count⟩
      · exact .error _ _ rfl
      · exact .ok _
  | toAlt =>
      rcases s with ⟨_ | ⟨top, rest⟩, alt, branches, count⟩
      · exact .missing _ rfl _
      · exact .ok _
  | fromAlt =>
      rcases s with ⟨main, _ | ⟨top, rest⟩, branches, count⟩
      · exact .missing _ rfl _
      · exact .ok _
  | checkSig verify => exact withMain_framed (checkSig_framed verify)
  | checkMultisig verify => exact checkMultisig_framed verify
  | checkLockTime => exact tested_framed checkLockTime_framed
  | checkSequence => exact tested_framed checkSequence_framed
  | announce | disabled | reserved => exact .error _ _ rfl

theorem stepCounted_framed (hdepth : op ≠ .depth) :
    FramedState p q (stepCounted env op s) (stepCounted env op (s.over p q)) := by
  unfold stepCounted
  rw [show (s.over p q).executing = s.executing from rfl]
  split
  · exact .error _ _ rfl
  · split
    · exact .ok _
    · exact perform_framed hdepth

/-- One chunk, unless it is the one that counts the elements. -/
theorem step_framed {c : Chunk} (hdepth : c ≠ .op .depth) :
    FramedState p q (step env s c) (step env (s.over p q) c) := by
  cases c with
  | push enc data =>
      simp only [step]
      rw [show (s.over p q).executing = s.executing from rfl]
      split
      · exact pushData_framed data
      · exact .ok _
  | op o =>
      have ho : o ≠ .depth := by
        rintro rfl
        exact hdepth rfl
      have hcount : FramedState p q (countOpcode env o s) (countOpcode env o (s.over p q)) := by
        unfold countOpcode
        split
        · exact countOps_framed 1
        · exact .ok _
      exact hcount.bind fun t _ => stepCounted_framed ho

theorem execute_framed {cs : List Chunk} (hdepth : Chunk.op .depth ∉ cs) :
    FramedState p q (execute env cs s) (execute env cs (s.over p q)) := by
  induction cs generalizing s with
  | nil => exact .ok _
  | cons c rest ih =>
      rw [List.mem_cons, not_or] at hdepth
      exact (step_framed (Ne.symm hdepth.1)).bind fun t _ => ih hdepth.2

/-- A row of chunks without the one that counts elements, run with more below both stacks: where it
succeeded before, it does the same and leaves what lies below, the branches and the count alone;
where it failed, it fails for the same cause, or it had wanted elements. -/
theorem execute_over (env : Env) {cs : List Chunk} (hdepth : Chunk.op .depth ∉ cs) (s : State)
    (p q : Stack) :
    (∀ t, execute env cs s = .ok t →
      execute env cs { s with main := s.main ++ p, alt := s.alt ++ q } =
        .ok { t with main := t.main ++ p, alt := t.alt ++ q }) ∧
    (∀ h, execute env cs s = .error h → (∀ n, h.error ≠ .missingItems n) →
      (∀ n, h.error ≠ .missingAltItems n) →
      ∃ h', execute env cs { s with main := s.main ++ p, alt := s.alt ++ q } = .error h' ∧
        h'.error = h.error) := by
  have hframed : FramedState p q (execute env cs s) (execute env cs (s.over p q)) :=
    execute_framed hdepth
  refine ⟨fun t ht => hframed.eq_ok ht, fun h hh hmain halt => hframed.eq_error hh ?_⟩
  cases he : h.error with
  | missingItems n => exact absurd he (hmain n)
  | missingAltItems n => exact absurd he (halt n)
  | _ => rfl

/-- A row that goes through both stacks and copies by an index, and one that divides by zero. -/
theorem execute_over_copy_and_division :
    let copy : List Chunk := [.op ⟨0x6b⟩, .op ⟨0x51⟩, .op ⟨0x79⟩, .op ⟨0x63⟩, .op ⟨0x6c⟩, .op ⟨0x68⟩]
    let division : List Chunk := [.pushMinimal [1], .pushMinimal [], .op ⟨0x96⟩]
    (Chunk.op .depth ∉ copy ∧
      execute {} copy { main := [[2], [3], [1]] } = .ok { main := [[2], [3], [1]], opCount := 5 } ∧
      execute {} copy { main := [[2], [3], [1], [7]], alt := [[8], [9]] } =
        .ok { main := [[2], [3], [1], [7]], alt := [[8], [9]], opCount := 5 }) ∧
    Chunk.op .depth ∉ division ∧
      ∃ h', execute {} division { main := [[7]], alt := [[8], [9]] } = .error h' ∧
        h'.error = .divisionByZero := by
  intro copy division
  have hcopy : Chunk.op .depth ∉ copy := by decide
  have hdivision : Chunk.op .depth ∉ division := by decide
  have hrun : execute {} copy { main := [[2], [3], [1]] } =
      .ok { main := [[2], [3], [1]], opCount := 5 } :=
    eq_ok_of_toOption (by decide +kernel)
  have hfail : execute {} division {} =
      .error ⟨.divisionByZero, { main := [[], [1]], opCount := 1 }⟩ := by rfl
  refine ⟨⟨hcopy, hrun, (execute_over {} hcopy _ [[7]] [[8], [9]]).1 _ hrun⟩, hdivision, ?_⟩
  exact (execute_over {} hdivision {} [[7]] [[8], [9]]).2 _ hfail (by simp) (by simp)

end Machine

end TxScript
