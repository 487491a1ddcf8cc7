import TxScript.Proofs.Indexed.StackOps

/-!
# Operations on data by position

What the operations on the main stack do with the data that they find: they cut and join it, compute
with it and compare it. With these every operation on the main stack has its steps, and none of
them is without a next step.
-/

namespace TxScript.Indexed

open Machine

/-! ## The operations -/

def verifyTop (opcode : String) : RowAction Unit := do
  requireHeight 1
  if ← bool (-1) then discard else Action.fail (.verifyFailed opcode)

def cat (limit : Nat) : RowAction Unit := do
  requireHeight 2
  let head ← data (-2)
  let tail ← data (-1)
  if limit < head.length + tail.length then Action.fail .resultTooLarge
  else do
    let tail ← popData
    let head ← popData
    push (head ++ tail)

/-- Puts two parts in place of an element and the position of the cut. -/
def split : RowAction Unit := do
  requireHeight 2
  let n ← number (-1)
  let x ← data (-2)
  if n < 0 ∨ x.length < n then Action.fail .splitOutOfRange
  else do
    let (front, back) ← Row.split? x n.toNat
    let i ← fromTop 2
    let j ← fromTop 1
    change fun row => Row.replace? row i front
    change fun row => Row.replace? row j back

def numToBin (limit : Nat) : RowAction Unit := do
  requireHeight 2
  let n ← number (-1)
  if n < 0 ∨ limit < n then Action.fail .resultTooLarge
  else do
    let x ← data (-2)
    let short ← minimize? x
    if n < short.length then Action.fail .encodingImpossible
    else do
      discard
      discard
      push (Number.stretch n.toNat short)

def binToNum : RowAction Unit := do
  let x ← popData
  let short ← minimize? x
  if Number.operandWidth < short.length then Action.fail .notANumber else push short

def size : RowAction Unit := do
  let x ← data (-1)
  pushNumber x.length

def bitwise (op : BitOp) : RowAction Unit := do
  requireHeight 2
  let x₂ ← popData
  let x₁ ← popData
  if x₁.length = x₂.length then push (List.zipWith op.eval x₁ x₂)
  else Action.fail .operandSizes

def equal : RowAction Unit := do
  requireHeight 2
  let x₂ ← popData
  let x₁ ← popData
  push (Number.ofBool (decide (x₁ = x₂)))

def unary (op : UnaryOp) : RowAction Unit := do
  requireHeight 1
  let a ← popNumber
  let n ← unary? op a
  pushNumber n

/-- Both operands are looked at before either is taken off. -/
def binaryWith (f : Int → Int → Option Int) : RowAction Unit := do
  requireHeight 2
  let a ← number (-2)
  let b ← number (-1)
  let kept ← fromTop 2
  change fun row => Row.truncate? row kept
  let n ← f a b
  pushNumber n

def division (op : DivisionOp) : RowAction Unit := do
  requireHeight 2
  let b ← number (-1)
  if b = 0 then Action.fail .divisionByZero else binaryWith (division? op)

def within : RowAction Unit := do
  requireHeight 3
  let n ← number (-3)
  let lower ← number (-2)
  let upper ← number (-1)
  let kept ← fromTop 3
  change fun row => Row.truncate? row kept
  push (Number.ofBool (decide (lower ≤ n ∧ n < upper)))

def hash (op : HashOp) : RowAction Unit := do
  let x ← popData
  push (op.eval x)

/-- An operation on the main stack. -/
def apply (limit : Nat) : StackOp → RowAction Unit
  | .constant n => pushNumber n
  | .verify => verifyTop "OP_VERIFY"
  | .fail => Action.fail .returned
  | .drop count => drop count
  | .dup count => dup count
  | .twoOver => twoOver
  | .twoRot => twoRot
  | .twoSwap => twoSwap
  | .ifDup => ifDup
  | .depth => depth
  | .nip => nip
  | .over => copySecond
  | .pick => pick
  | .roll => roll
  | .rot => rot
  | .swap => swapTop
  | .tuck => tuck
  | .cat => cat limit
  | .split => split
  | .numToBin => numToBin limit
  | .binToNum => binToNum
  | .size => size
  | .bitwise op => bitwise op
  | .equal => equal
  | .equalVerify => do equal; verifyTop "OP_EQUALVERIFY"
  | .unary op => unary op
  | .binary op => binaryWith (binary? op)
  | .division op => division op
  | .numEqualVerify => do binaryWith (binary? .equal); verifyTop "OP_NUMEQUALVERIFY"
  | .within => within
  | .hash op => hash op

/-! ## What they do -/

variable {limit : Nat}

theorem verifyTop_does (opcode : String) :
    Does (verifyTop opcode) (Machine.verifyTop opcode) := by
  intro stack
  cases stack with
  | nil => exact short (by simp)
  | cons top rest =>
      rw [verifyTop, tall (by simp), Action.bind_of_ok (bool_eq top rest), Machine.verifyTop]
      cases Number.isTrue top with
      | true => exact discard_eq top rest
      | false => rfl

/-- Two elements taken off. -/
theorem popTwo_eq {α : Type} (a b : Bytes) (below : Stack) (k : Bytes → Bytes → RowAction α) :
    (do let x ← popData; let y ← popData; k x y) (a :: b :: below).reverse
      = k a b below.reverse := by
  rw [Action.bind_of_ok (popData_eq a (b :: below)), Action.bind_of_ok (popData_eq b below)]

theorem cat_does : Does (cat limit) (StackOp.apply limit .cat) := by
  intro stack
  rcases stack with _ | ⟨x₂, _ | ⟨x₁, rest⟩⟩
  iterate 2 exact short (by simp)
  rw [cat, tall (by simp), Action.bind_of_ok (data_second x₂ x₁ rest),
    Action.bind_of_ok (data_top x₂ (x₁ :: rest))]
  unfold StackOp.apply
  by_cases hlimit : limit < x₁.length + x₂.length
  · simp only [hlimit, if_true]
    rfl
  · simp only [hlimit, if_false]
    exact (popTwo_eq x₂ x₁ rest _).trans (push_eq _ rest)

theorem equal_does : Does equal applyEqual := by
  intro stack
  rcases stack with _ | ⟨x₂, _ | ⟨x₁, rest⟩⟩
  iterate 2 exact short (by simp)
  rw [equal, tall (by simp), popTwo_eq, push_eq]
  rfl

theorem equalVerify_does :
    Does (do equal; verifyTop "OP_EQUALVERIFY") (StackOp.apply limit .equalVerify) :=
  equal_does.bind (verifyTop_does "OP_EQUALVERIFY")

theorem split_does : Does split applySplit := by
  intro stack
  rcases stack with _ | ⟨position, _ | ⟨x, rest⟩⟩
  iterate 2 exact short (by simp)
  rw [split, tall (by simp), applySplit]
  cases hn : Number.operand? position with
  | none => exact Action.bind_of_error (number_of_none [] (x :: rest) rfl hn)
  | some n =>
      have hnumber := number_of_some [] (x :: rest) rfl hn
      have hdata := data_second position x rest
      refine (Action.bind_of_ok hnumber).trans ((Action.bind_of_ok hdata).trans ?_)
      dsimp only
      by_cases hrange : n < 0 ∨ x.length < n
      · rw [if_pos hrange, if_pos hrange]
        rfl
      · have hcut : Row.split? x n.toNat = some (x.take n.toNat, x.drop n.toNat) :=
          if_pos (by omega)
        have hfront := Row.replace?_top [position] rest x (x.take n.toNat)
        have hback := Row.replace?_top [] (x.take n.toNat :: rest) position (x.drop n.toNat)
        rw [if_neg hrange, if_neg hrange, Action.bind_of_some hcut]
        exact (Action.bind_of_ok (fromTop_eq [position, x] rest)).trans
          ((Action.bind_of_ok (fromTop_eq [position] (x :: rest))).trans
            ((Action.bind_of_ok (change_eq hfront)).trans (change_eq hback)))

theorem numToBin_does : Does (numToBin limit) (applyNumToBin limit) := by
  intro stack
  rcases stack with _ | ⟨width, _ | ⟨x, rest⟩⟩
  iterate 2 exact short (by simp)
  rw [numToBin, tall (by simp), applyNumToBin]
  cases hn : Number.operand? width with
  | none => exact Action.bind_of_error (number_of_none [] (x :: rest) rfl hn)
  | some n =>
      refine (Action.bind_of_ok (number_of_some [] (x :: rest) rfl hn)).trans ?_
      dsimp only
      by_cases hrange : n < 0 ∨ limit < n
      · rw [if_pos hrange, if_pos hrange]
        rfl
      · have hdata := data_second width x rest
        rw [if_neg hrange, if_neg hrange]
        refine (Action.bind_of_ok hdata).trans ((Action.bind_of_some (minimize?_eq x)).trans ?_)
        by_cases hlong : n < (Number.minimize x).length
        · rw [if_pos hlong, if_pos hlong]
          rfl
        · rw [if_neg hlong, if_neg hlong]
          exact (Action.bind_of_ok (discard_eq width (x :: rest))).trans
            ((Action.bind_of_ok (discard_eq x rest)).trans (push_eq _ rest))

theorem binToNum_does : Does binToNum applyBinToNum := by
  intro stack
  cases stack with
  | nil => rfl
  | cons x rest =>
      rw [binToNum, Action.bind_of_ok (popData_eq x rest), Action.bind_of_some (minimize?_eq x),
        applyBinToNum]
      by_cases hlong : Number.operandWidth < (Number.minimize x).length
      · rw [if_pos hlong, if_pos hlong]
        rfl
      · rw [if_neg hlong, if_neg hlong]
        exact push_eq _ rest

theorem unary_does (op : UnaryOp) : Does (unary op) (applyUnary op) := by
  intro stack
  cases stack with
  | nil => exact short (by simp)
  | cons a rest =>
      rw [unary, tall (by simp), applyUnary]
      cases hn : Number.operand? a with
      | none => exact Action.bind_of_error (popNumber_of_none rest hn)
      | some n =>
          have hvalue := unary?_of_operand op (isOperand_of_operand? hn)
          rw [Action.bind_of_ok (popNumber_of_some rest hn), Action.bind_of_some hvalue]
          exact push_eq _ rest

/-- Two numbers looked at and taken off, and a result put down. -/
theorem binaryWith_eq {f : Int → Int → Option Int} {a b : Bytes} {m n r : Int} (below : Stack)
    (hm : Number.operand? a = some m) (hn : Number.operand? b = some n) (hr : f m n = some r) :
    binaryWith f (b :: a :: below).reverse
      = some (.ok () (Number.encode r :: below).reverse) := by
  have hfirst := number_of_some [b] below rfl hm
  have hsecond := number_of_some [] (a :: below) rfl hn
  have hkept := Row.truncate?_top [b, a] below
  rw [binaryWith, tall (by simp)]
  refine (Action.bind_of_ok hfirst).trans ((Action.bind_of_ok hsecond).trans ?_)
  refine (Action.bind_of_ok (fromTop_eq [b, a] below)).trans ?_
  refine (Action.bind_of_ok (change_eq hkept)).trans ?_
  rw [Action.bind_of_some hr]
  exact push_eq _ below

theorem binaryWith_of_none {f : Int → Int → Option Int} {a b : Bytes} (below : Stack)
    (h : Number.operand? a = none ∨ Number.operand? b = none) :
    binaryWith f (b :: a :: below).reverse
      = some (.error .numberTooWide (b :: a :: below).reverse) := by
  rw [binaryWith, tall (by simp)]
  cases hm : Number.operand? a with
  | none => exact Action.bind_of_error (number_of_none [b] below rfl hm)
  | some m =>
      have hn : Number.operand? b = none := by simpa [hm] using h
      exact (Action.bind_of_ok (number_of_some [b] below rfl hm)).trans
        (Action.bind_of_error (number_of_none [] (a :: below) rfl hn))

theorem binary_does (op : BinaryOp) : Does (binaryWith (binary? op)) (applyBinary op) := by
  intro stack
  rcases stack with _ | ⟨b, _ | ⟨a, rest⟩⟩
  iterate 2 exact short (by simp)
  rw [applyBinary]
  cases hm : Number.operand? a with
  | none => exact binaryWith_of_none rest (.inl hm)
  | some m =>
      cases hn : Number.operand? b with
      | none => exact binaryWith_of_none rest (.inr hn)
      | some n =>
          exact binaryWith_eq rest hm hn
            (binary?_of_operand op (isOperand_of_operand? hm) (isOperand_of_operand? hn))

theorem division_does (op : DivisionOp) : Does (division op) (applyDivision op) := by
  intro stack
  rcases stack with _ | ⟨b, _ | ⟨a, rest⟩⟩
  iterate 2 exact short (by simp)
  rw [division, tall (by simp), applyDivision]
  cases hn : Number.operand? b with
  | none => exact Action.bind_of_error (number_of_none [] (a :: rest) rfl hn)
  | some n =>
      refine (Action.bind_of_ok (number_of_some [] (a :: rest) rfl hn)).trans ?_
      dsimp only
      by_cases hzero : n = 0
      · rw [if_pos hzero, if_pos hzero]
        rfl
      · rw [if_neg hzero, if_neg hzero]
        cases hm : Number.operand? a with
        | none => exact binaryWith_of_none rest (.inl hm)
        | some m =>
            exact binaryWith_eq rest hm hn
              (division?_of_operand op (isOperand_of_operand? hm) hzero)

theorem within_does : Does within applyWithin := by
  intro stack
  rcases stack with _ | ⟨upper, _ | ⟨lower, _ | ⟨x, rest⟩⟩⟩
  iterate 3 exact short (by simp)
  rw [within, tall (by simp), applyWithin]
  cases hn : Number.operand? x with
  | none => exact Action.bind_of_error (number_of_none [upper, lower] rest rfl hn)
  | some n =>
      refine (Action.bind_of_ok (number_of_some [upper, lower] rest rfl hn)).trans ?_
      cases hl : Number.operand? lower with
      | none => exact Action.bind_of_error (number_of_none [upper] (x :: rest) rfl hl)
      | some lo =>
          refine (Action.bind_of_ok (number_of_some [upper] (x :: rest) rfl hl)).trans ?_
          cases hu : Number.operand? upper with
          | none => exact Action.bind_of_error (number_of_none [] (lower :: x :: rest) rfl hu)
          | some hi =>
              have hkept := Row.truncate?_top [upper, lower, x] rest
              refine (Action.bind_of_ok (number_of_some [] (lower :: x :: rest) rfl hu)).trans ?_
              exact (Action.bind_of_ok (fromTop_eq [upper, lower, x] rest)).trans
                ((Action.bind_of_ok (change_eq hkept)).trans (push_eq _ rest))

theorem bitwise_does (op : BitOp) : Does (bitwise op) (StackOp.apply limit (.bitwise op)) := by
  intro stack
  rcases stack with _ | ⟨x₂, _ | ⟨x₁, rest⟩⟩
  iterate 2 exact short (by simp)
  rw [bitwise, tall (by simp), popTwo_eq]
  unfold StackOp.apply
  by_cases hlength : x₁.length = x₂.length
  · simp only [hlength, if_true]
    exact push_eq _ rest
  · simp only [hlength, if_false]
    rfl

theorem size_does : Does size (StackOp.apply limit .size) := by
  intro stack
  cases stack with
  | nil => rfl
  | cons x rest =>
      exact (Action.bind_of_ok (data_top x rest)).trans (push_eq _ (x :: rest))

theorem hash_does (op : HashOp) : Does (hash op) (StackOp.apply limit (.hash op)) := by
  intro stack
  cases stack with
  | nil => rfl
  | cons x rest => exact (Action.bind_of_ok (popData_eq x rest)).trans (push_eq _ rest)

/-- Every operation on the main stack has its steps, and ends as the operation on stacks does. -/
theorem apply_does (limit : Nat) (op : StackOp) : Does (apply limit op) (op.apply limit) := by
  cases op with
  | constant n => exact fun stack => push_eq _ stack
  | verify => exact verifyTop_does "OP_VERIFY"
  | fail => exact fun stack => rfl
  | drop count => exact drop_does count
  | dup count => exact dup_does count
  | twoOver => exact twoOver_does
  | twoRot => exact twoRot_does
  | twoSwap => exact twoSwap_does
  | ifDup => exact ifDup_does
  | depth => exact depth_does
  | nip => exact nip_does
  | «over» => exact copySecond_does
  | pick => exact pick_does
  | roll => exact roll_does
  | rot => exact rot_does
  | swap => exact swapTop_does
  | tuck => exact tuck_does
  | cat => exact cat_does
  | split => exact split_does
  | numToBin => exact numToBin_does
  | binToNum => exact binToNum_does
  | size => exact size_does
  | bitwise op => exact bitwise_does op
  | equal => exact equal_does
  | equalVerify => exact equalVerify_does
  | unary op => exact unary_does op
  | binary op => exact binary_does op
  | division op => exact division_does op
  | numEqualVerify =>
      exact (binary_does .equal).bind (verifyTop_does "OP_NUMEQUALVERIFY")
  | within => exact within_does
  | hash op => exact hash_does op

end TxScript.Indexed
