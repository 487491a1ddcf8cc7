import TxScript.Proofs.Indexed.Number
import TxScript.Proofs.Machine.Failure
import TxScript.Proofs.Machine.Frame

/-!
# The size of what operations put down

Only concatenations and changes of width look at the limit on the size of elements. The other
operations put down what was there before, parts of it, digests, answers or numbers, and these are
short by themselves, the number of elements too unless there are more than any script can make.
-/

namespace TxScript

/-! ## Lengths of numbers -/

namespace Number

theorem length_ofBool_le (b : Bool) : (ofBool b).length ≤ 1 := by
  cases b <;> decide

theorem length_stretch {size : Nat} {bs : Bytes} (h : bs.length ≤ size) :
    (stretch size bs).length = size := by
  unfold stretch
  split
  · exact List.length_replicate
  · rename_i last low hreverse
    have hlength : bs.length = low.length + 1 := by
      rw [← List.length_reverse, hreverse, List.length_cons]
    split
    · simp only [List.length_append, List.length_reverse, List.length_cons, List.length_replicate,
        List.length_nil]
      omega
    · omega

end Number

/-- Beyond one digit, the least number of so many digits is greater than their number. -/
theorem LittleEndian.succ_lt_limit {width : Nat} (h : 0 < width) : width + 1 < limit width := by
  induction h with
  | refl => decide
  | step _ ih =>
      rw [limit]
      omega

namespace Machine

/-- Elements of bounded size only. -/
def Fits (limit : Nat) (stack : Stack) : Prop :=
  ∀ x ∈ stack, x.length ≤ limit

variable {limit : Nat} {stack below : Stack} {x : Bytes}

@[simp] theorem fits_nil : Fits limit [] := by
  simp [Fits]

@[simp] theorem fits_cons : Fits limit (x :: stack) ↔ x.length ≤ limit ∧ Fits limit stack := by
  simp [Fits]

theorem Fits.mono (h : Fits limit stack) (hbelow : below ⊆ stack) : Fits limit below :=
  fun x hx => h x (hbelow hx)

/-- A computation that puts down a stack of elements of bounded size, where it succeeds. -/
inductive Makes (limit : Nat) : Except StackFault Stack → Prop
  | ok {main : Stack} (fits : Fits limit main) : Makes limit (.ok main)
  | error (fault : StackFault) : Makes limit (.error fault)

namespace Makes

/-- One new element on a part of the stack. -/
theorem put (hstack : Fits limit stack) (hx : x.length ≤ limit) (hbelow : below <:+ stack) :
    Makes limit (.ok (x :: below)) :=
  .ok (fits_cons.2 ⟨hx, hstack.mono hbelow.subset⟩)

theorem bind {α : Type} {r : Except StackFault α} {k : α → Except StackFault Stack}
    (hk : ∀ a, r = .ok a → Makes limit (k a)) : Makes limit (r >>= k) := by
  cases r with
  | error fault => exact .error fault
  | ok a => exact hk a rfl

end Makes

/-! ## Operations on the main stack -/

/-- Numbers of up to thirty-one digits are short enough under every limit considered here. -/
theorem length_encode_le_limit (hlimit : 32 ≤ limit) {n : Int}
    (h : n.natAbs < LittleEndian.limit 31) : (Number.encode n).length ≤ limit :=
  Nat.le_trans (Number.length_encode_le h) hlimit

theorem length_ofBool_le_limit (hlimit : 32 ≤ limit) (b : Bool) :
    (Number.ofBool b).length ≤ limit :=
  Nat.le_trans (Number.length_ofBool_le b) (by omega)

/-- The results of arithmetic are short. -/
theorem length_encode_of_result (hlimit : 32 ≤ limit) {n : Int} (h : n.natAbs ≤ 0x100000000) :
    (Number.encode n).length ≤ limit :=
  length_encode_le_limit hlimit (Nat.lt_of_le_of_lt h (by decide))

theorem length_unary_le (hlimit : 32 ≤ limit) (op : UnaryOp) {a : Bytes} {n : Int}
    (ha : Number.operand? a = some n) : (Number.encode (op.eval n)).length ≤ limit :=
  length_encode_of_result hlimit
    (Indexed.natAbs_unary_le op (Indexed.isOperand_of_operand? ha))

theorem length_binary_le (hlimit : 32 ≤ limit) (op : BinaryOp) {a b : Bytes} {m n : Int}
    (ha : Number.operand? a = some m) (hb : Number.operand? b = some n) :
    (Number.encode (op.eval m n)).length ≤ limit :=
  length_encode_of_result hlimit
    (Indexed.natAbs_binary_le op (Indexed.isOperand_of_operand? ha)
      (Indexed.isOperand_of_operand? hb))

theorem length_division_le (hlimit : 32 ≤ limit) (op : DivisionOp) {a : Bytes} {m n : Int}
    (ha : Number.operand? a = some m) : (Number.encode (op.eval m n)).length ≤ limit :=
  length_encode_of_result hlimit
    (Indexed.natAbs_division_le op (Indexed.isOperand_of_operand? ha) n)

theorem length_hash_le (op : HashOp) (bs : Bytes) : (op.eval bs).length ≤ 32 := by
  cases op <;> simp only [HashOp.eval, Digest.length_bytes] <;> decide

/-- A demand only takes off what it is made on. -/
theorem Makes.verified {r : Except StackFault Stack} (h : Makes limit r) (opcode : String) :
    Makes limit (r >>= verifyTop opcode) := by
  cases h with
  | error fault => exact .error fault
  | @ok main fits =>
      show Makes limit (verifyTop opcode main)
      unfold verifyTop
      cases main with
      | nil => exact .error _
      | cons top rest =>
          dsimp only
          split
          · exact .ok (fits_cons.1 fits).2
          · exact .error _

theorem applyUnary_makes (hlimit : 32 ≤ limit) (hstack : Fits limit stack) (op : UnaryOp) :
    Makes limit (applyUnary op stack) := by
  match stack with
  | [] => exact .error _
  | a :: rest =>
      unfold applyUnary
      dsimp only
      cases ha : Number.operand? a with
      | none => exact .error _
      | some n => exact .put hstack (length_unary_le hlimit op ha) ⟨[a], rfl⟩

theorem applyBinary_makes (hlimit : 32 ≤ limit) (hstack : Fits limit stack) (op : BinaryOp) :
    Makes limit (applyBinary op stack) := by
  match stack with
  | [] | [_] => exact .error _
  | b :: a :: rest =>
      unfold applyBinary
      dsimp only
      cases ha : Number.operand? a with
      | none => exact .error _
      | some m =>
          cases hb : Number.operand? b with
          | none => exact .error _
          | some n => exact .put hstack (length_binary_le hlimit op ha hb) ⟨[b, a], rfl⟩

theorem applyDivision_makes (hlimit : 32 ≤ limit) (hstack : Fits limit stack) (op : DivisionOp) :
    Makes limit (applyDivision op stack) := by
  match stack with
  | [] | [_] => exact .error _
  | b :: a :: rest =>
      unfold applyDivision
      dsimp only
      cases Number.operand? b with
      | none => exact .error _
      | some n =>
          dsimp only
          split
          · exact .error _
          · cases ha : Number.operand? a with
            | none => exact .error _
            | some m => exact .put hstack (length_division_le hlimit op ha) ⟨[b, a], rfl⟩

theorem applyWithin_makes (hlimit : 32 ≤ limit) (hstack : Fits limit stack) :
    Makes limit (applyWithin stack) := by
  match stack with
  | [] | [_] | [_, _] => exact .error _
  | upper :: lower :: x :: rest =>
      unfold applyWithin
      dsimp only
      split
      · exact .put hstack (length_ofBool_le_limit hlimit _) ⟨[upper, lower, x], rfl⟩
      · exact .error _

theorem applyEqual_makes (hlimit : 32 ≤ limit) (hstack : Fits limit stack) :
    Makes limit (applyEqual stack) := by
  match stack with
  | [] | [_] => exact .error _
  | b :: a :: rest => exact .put hstack (length_ofBool_le_limit hlimit _) ⟨[b, a], rfl⟩

/-- The two parts are no longer than what is split. -/
theorem applySplit_makes (hstack : Fits limit stack) : Makes limit (applySplit stack) := by
  match stack with
  | [] | [_] => exact .error _
  | position :: x :: rest =>
      unfold applySplit
      dsimp only
      split
      · exact .error _
      · split
        · exact .error _
        · obtain ⟨-, hx, hrest⟩ : _ ∧ x.length ≤ limit ∧ Fits limit rest := by simpa using hstack
          refine .ok ?_
          simp only [fits_cons, List.length_drop, List.length_take]
          exact ⟨by omega, by omega, hrest⟩

/-- A number is widened to a size within the limit. -/
theorem applyNumToBin_makes (hstack : Fits limit stack) :
    Makes limit (applyNumToBin limit stack) := by
  match stack with
  | [] | [_] => exact .error _
  | size :: x :: rest =>
      unfold applyNumToBin
      dsimp only
      split
      · exact .error _
      · split
        · exact .error _
        · rename_i hsize
          split
          · exact .error _
          · rename_i hroom
            refine .put hstack ?_ ⟨[size, x], rfl⟩
            rw [Number.length_stretch (by omega)]
            omega

theorem applyBinToNum_makes (hlimit : 32 ≤ limit) (hstack : Fits limit stack) :
    Makes limit (applyBinToNum stack) := by
  match stack with
  | [] => exact .error _
  | x :: rest =>
      unfold applyBinToNum
      dsimp only
      split
      · exact .error _
      · rename_i hwidth
        have hshort := Nat.not_lt.1 hwidth
        exact .put hstack (Nat.le_trans hshort (Nat.le_trans (by decide) hlimit)) ⟨[x], rfl⟩

/-- The element at an index, and the stack in which it is. -/
theorem fits_of_takeIndex {opcode : String} {n : Nat} (hstack : Fits limit stack)
    (h : takeIndex opcode stack = .ok (n, below)) :
    below <:+ stack ∧ (below.getD n []).length ≤ limit := by
  obtain ⟨top, rfl⟩ := eq_cons_of_takeIndex h
  refine ⟨List.suffix_cons top below, (fits_cons.1 hstack).2 _ ?_⟩
  rw [List.getD_eq_getElem _ _ (lt_of_takeIndex h)]
  exact List.getElem_mem _

theorem pick_makes (hstack : Fits limit stack) :
    Makes limit (StackOp.pick.apply limit stack) := by
  refine .bind fun taken htaken => ?_
  obtain ⟨n, below⟩ := taken
  obtain ⟨hbelow, hfound⟩ := fits_of_takeIndex hstack htaken
  exact .put hstack hfound hbelow

theorem roll_makes (hstack : Fits limit stack) :
    Makes limit (StackOp.roll.apply limit stack) := by
  refine .bind fun taken htaken => ?_
  obtain ⟨n, below⟩ := taken
  obtain ⟨hbelow, hfound⟩ := fits_of_takeIndex hstack htaken
  have hrest : (below.eraseIdx n).Sublist stack :=
    (below.eraseIdx_sublist n).trans hbelow.sublist
  exact .ok (fits_cons.2 ⟨hfound, hstack.mono hrest.subset⟩)

/-! ## Signatures -/

theorem pushCheck_makes (hlimit : 32 ≤ limit) (hstack : Fits limit stack) (hbelow : below <:+ stack)
    (verify : Bool) (opcode : String) (valid : Bool) :
    Makes limit (pushCheck verify opcode valid below) := by
  have hanswer : Makes limit (.ok (Number.ofBool valid :: below)) :=
    .put hstack (length_ofBool_le_limit hlimit valid) hbelow
  cases verify with
  | false => exact hanswer
  | true => exact hanswer.verified opcode

theorem checkSig_makes {env : Env} (hlimit : 32 ≤ limit) (hstack : Fits limit stack)
    (verify : Bool) : Makes limit (checkSig env verify stack) := by
  match stack with
  | [] | [_] => exact .error _
  | key :: signature :: rest =>
      unfold checkSig
      dsimp only
      cases env.checker with
      | none => exact .error _
      | some checker =>
          dsimp only
          split
          · exact .error _
          · cases checker.check signature key with
            | error e => exact .error _
            | ok valid => exact pushCheck_makes hlimit hstack ⟨[key, signature], rfl⟩ verify _ valid

theorem checkGroups_makes {env : Env} (hlimit : 32 ≤ limit) (hstack : Fits limit stack)
    (verify : Bool) (keyCount : Nat) :
    Makes limit (checkGroups env verify keyCount stack) := by
  refine .bind fun keys hkeys => ?_
  obtain ⟨keys, below⟩ := keys
  refine .bind fun count _ => .bind fun signatures hsignatures => ?_
  obtain ⟨signatures, rest⟩ := signatures
  have hrest : rest.drop 1 <:+ stack :=
    (List.drop_suffix 1 rest).trans
      ((suffix_of_takeGroup hsignatures).trans (suffix_of_takeGroup hkeys))
  dsimp only
  cases env.checker with
  | none => exact .error _
  | some checker => exact pushCheck_makes hlimit hstack hrest verify _ _

end Machine

/-! ## All operations on the main stack -/

open Machine

/-- The constants that opcodes put down are small. -/
def Operation.isModest : Operation → Bool
  | .stack (.constant n) => decide (n.natAbs ≤ 16)
  | _ => true

theorem Opcode.isModest_operation (op : Opcode) : op.operation.isModest = true := by
  have htable : ∀ e ∈ opcodeTable, e.operation.isModest = true := by decide +kernel
  rcases op.operation_cases with ⟨e, he, -, hop⟩ | hop | hop
  · rw [hop]
    exact htable e he
  · rw [hop]
    rfl
  · rw [hop]
    rfl

variable {limit : Nat} {stack : Stack}

theorem StackOp.apply_makes (hlimit : 32 ≤ limit) (hstack : Fits limit stack)
    (hheight : stack.length < LittleEndian.limit 31) (op : StackOp)
    (hmodest : (Operation.stack op).isModest = true) :
    Makes limit (op.apply limit stack) := by
  cases op with
  | constant n =>
      have hn : n.natAbs ≤ 16 := by simpa [Operation.isModest] using hmodest
      exact .put hstack (length_encode_le_limit hlimit (Nat.lt_of_le_of_lt hn (by decide)))
        List.suffix_rfl
  | verify => exact (Makes.ok hstack).verified _
  | fail => exact .error _
  | drop count =>
      unfold apply
      dsimp only
      split
      · exact .ok (hstack.mono (List.drop_suffix count stack).subset)
      · exact .error _
  | dup count =>
      unfold apply
      dsimp only
      split
      · refine .ok (hstack.mono ?_)
        exact List.append_subset.2 ⟨List.take_subset count stack, List.Subset.refl _⟩
      · exact .error _
  | twoOver =>
      rcases stack with _ | ⟨x₄, _ | ⟨x₃, _ | ⟨x₂, _ | ⟨x₁, rest⟩⟩⟩⟩
      iterate 4 exact .error _
      exact .ok (by simp_all)
  | twoRot =>
      rcases stack with _ | ⟨x₆, _ | ⟨x₅, _ | ⟨x₄, _ | ⟨x₃, _ | ⟨x₂, _ | ⟨x₁, rest⟩⟩⟩⟩⟩⟩
      iterate 6 exact .error _
      exact .ok (by simp_all)
  | twoSwap =>
      rcases stack with _ | ⟨x₄, _ | ⟨x₃, _ | ⟨x₂, _ | ⟨x₁, rest⟩⟩⟩⟩
      iterate 4 exact .error _
      exact .ok (by simp_all)
  | ifDup =>
      rcases stack with _ | ⟨x, rest⟩
      · exact .error _
      · unfold apply
        dsimp only
        split
        · exact .ok (by simp_all)
        · exact .ok hstack
  | depth => exact .put hstack (length_encode_le_limit hlimit hheight) List.suffix_rfl
  | nip =>
      rcases stack with _ | ⟨x₂, _ | ⟨x₁, rest⟩⟩
      iterate 2 exact .error _
      exact .ok (by simp_all)
  | «over» =>
      rcases stack with _ | ⟨x₂, _ | ⟨x₁, rest⟩⟩
      iterate 2 exact .error _
      exact .ok (by simp_all)
  | pick => exact pick_makes hstack
  | roll => exact roll_makes hstack
  | rot =>
      rcases stack with _ | ⟨x₃, _ | ⟨x₂, _ | ⟨x₁, rest⟩⟩⟩
      iterate 3 exact .error _
      exact .ok (by simp_all)
  | swap =>
      rcases stack with _ | ⟨x₂, _ | ⟨x₁, rest⟩⟩
      iterate 2 exact .error _
      exact .ok (by simp_all)
  | tuck =>
      rcases stack with _ | ⟨x₂, _ | ⟨x₁, rest⟩⟩
      iterate 2 exact .error _
      exact .ok (by simp_all)
  | cat =>
      rcases stack with _ | ⟨x₂, _ | ⟨x₁, rest⟩⟩
      iterate 2 exact .error _
      unfold apply
      dsimp only
      split
      · exact .error _
      · rename_i hroom
        refine .put hstack ?_ ⟨[x₂, x₁], rfl⟩
        rw [List.length_append]
        exact Nat.not_lt.1 hroom
  | split => exact applySplit_makes hstack
  | numToBin => exact applyNumToBin_makes hstack
  | binToNum => exact applyBinToNum_makes hlimit hstack
  | size =>
      rcases stack with _ | ⟨x, rest⟩
      · exact .error _
      · have hx : x.length ≤ limit := (fits_cons.1 hstack).1
        -- A length can be as great as the limit, so it has to be shorter than it is great.
        have hsmall : x.length < LittleEndian.limit (limit - 1) := by
          have hwide : limit - 1 + 1 < LittleEndian.limit (limit - 1) :=
            LittleEndian.succ_lt_limit (by omega)
          omega
        have hlength : (Number.encode x.length).length ≤ limit - 1 + 1 :=
          Number.length_encode_le hsmall
        exact .put hstack (by omega) List.suffix_rfl
  | bitwise op =>
      rcases stack with _ | ⟨x₂, _ | ⟨x₁, rest⟩⟩
      iterate 2 exact .error _
      unfold apply
      dsimp only
      split
      · have hx : x₂.length ≤ limit := (fits_cons.1 hstack).1
        refine .put hstack ?_ ⟨[x₂, x₁], rfl⟩
        rw [List.length_zipWith]
        omega
      · exact .error _
  | equal => exact applyEqual_makes hlimit hstack
  | equalVerify => exact (applyEqual_makes hlimit hstack).verified _
  | unary op => exact applyUnary_makes hlimit hstack op
  | binary op => exact applyBinary_makes hlimit hstack op
  | division op => exact applyDivision_makes hlimit hstack op
  | numEqualVerify => exact (applyBinary_makes hlimit hstack .equal).verified _
  | within => exact applyWithin_makes hlimit hstack
  | hash op =>
      rcases stack with _ | ⟨x, rest⟩
      · exact .error _
      · exact .put hstack (Nat.le_trans (length_hash_le op x) hlimit) ⟨[x], rfl⟩

end TxScript
