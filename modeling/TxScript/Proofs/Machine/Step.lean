import TxScript.Machine.Step
import TxScript.Proofs.Machine.Operations
import TxScript.Proofs.Results

/-!
# Chunks that run

What one chunk does in a state in which no branch is being skipped, and how a row of chunks splits
at its first one. An opcode that is admitted does exactly what its operation says, with one more
operation on the count; whatever else it would need is part of being admitted.
-/

namespace TxScript.Machine

variable {env : Env} {s t : State} {op : Opcode} {f : StackOp}

/-! ## Rows of chunks -/

@[simp] theorem execute_singleton (c : Chunk) : execute env [c] s = step env s c := by
  rw [execute_cons]
  cases step env s c <;> rfl

theorem execute_cons_eq_ok {c : Chunk} {cs : List Chunk} :
    execute env (c :: cs) s = .ok t ↔ ∃ m, step env s c = .ok m ∧ execute env cs m = .ok t :=
  bind_eq_ok

theorem execute_append_eq_ok {as bs : List Chunk} :
    execute env (as ++ bs) s = .ok t ↔
      ∃ m, execute env as s = .ok m ∧ execute env bs m = .ok t := by
  rw [execute_append]
  exact bind_eq_ok

/-! ## Pushes -/

theorem executing_of_branches_nil (h : s.branches = []) : s.executing = true := by
  simp [State.executing, h]

theorem step_push (hx : s.executing = true) {enc : PushEncoding} {data : Bytes}
    (hd : data.length ≤ env.config.maxElementSize) :
    step env s (.push enc data) = .ok { s with main := data :: s.main } := by
  simp [step, hx, State.pushData, Nat.not_lt.2 hd]

/-- A row of pushes leaves its data on the stack, the last on top. -/
theorem execute_pushes (hx : s.executing = true) {data : List Bytes}
    (hd : ∀ d ∈ data, d.length ≤ env.config.maxElementSize) :
    execute env (data.map Chunk.pushMinimal) s =
      .ok { s with main := data.reverse ++ s.main } := by
  induction data generalizing s with
  | nil => rfl
  | cons d rest ih =>
      have hfirst : step env s (.pushMinimal d) = .ok { s with main := d :: s.main } :=
        step_push hx (hd d (by simp))
      have hrest : execute env (rest.map Chunk.pushMinimal) { s with main := d :: s.main } =
          .ok { s with main := rest.reverse ++ d :: s.main } :=
        ih hx fun e he => hd e (by simp [he])
      rw [List.map_cons, execute_cons, hfirst]
      simpa [bind, Except.bind] using hrest

/-! ## Opcodes -/

/-- A constant is free, so it runs wherever no branch is being skipped. -/
theorem step_constant (hx : s.executing = true) {n : Int}
    (hop : op.operation = .stack (.constant n)) (hfree : op.isCounted = false)
    (hon : op.isDisabled env.config.monolith = false) :
    step env s (.op op) = .ok { s with main := Number.encode n :: s.main } := by
  simp [step, countOpcode, hfree, stepCounted, hon, hx, perform, hop, State.withMain,
    StackOp.apply, bind, Except.bind]

/-- The opcode counts, may run, is not in a skipped branch, and the count has room for it. -/
structure Admits (env : Env) (s : State) (op : Opcode) : Prop where
  executing : s.executing = true
  counted : op.isCounted = true
  enabled : op.isDisabled env.config.monolith = false
  room : s.opCount < env.config.maxOps

/-- The state with one more operation on the count. -/
def State.counted (s : State) : State :=
  { s with opCount := s.opCount + 1 }

theorem step_of_admits (h : Admits env s op) :
    step env s (.op op) = perform env op s.counted := by
  have hroom : ¬ env.config.maxOps < s.opCount + 1 := Nat.not_lt.2 h.room
  have hx : s.counted.executing = true := h.executing
  have hcount : countOpcode env op s = .ok s.counted := by
    simp [countOpcode, h.counted, State.countOps, hroom, State.counted]
  simp [step, hcount, stepCounted, h.enabled, hx, bind, Except.bind]

theorem withMain_eq_ok {r : Except StackFault Stack} :
    s.withMain r = .ok t ↔ ∃ main, r = .ok main ∧ t = { s with main := main } := by
  cases r with
  | error fault => simp [State.withMain]
  | ok main => simp [State.withMain, eq_comm]

/-- An operation on the main stack succeeds in the machine exactly when it does on the stack
alone. -/
theorem step_stack_eq_ok (h : Admits env s op) (hop : op.operation = .stack f) :
    step env s (.op op) = .ok t ↔
      ∃ main, f.apply env.config.maxElementSize s.main = .ok main ∧
        t = { s.counted with main := main } := by
  rw [step_of_admits h, perform, hop]
  exact withMain_eq_ok

/-! ## The opcodes of standard locking scripts -/

theorem step_dup_eq_ok (h : Admits env s .dup) :
    step env s (.op .dup) = .ok t ↔
      ∃ top rest, s.main = top :: rest ∧ t = { s.counted with main := top :: top :: rest } := by
  rw [step_stack_eq_ok h (by decide : Opcode.dup.operation = .stack (.dup 1))]
  simp only [StackOp.apply_dup_eq_ok]
  grind

theorem step_hash160_eq_ok (h : Admits env s .hash160) :
    step env s (.op .hash160) = .ok t ↔
      ∃ top rest, s.main = top :: rest ∧
        t = { s.counted with main := (Hash.hash160 top).bytes :: rest } := by
  rw [step_stack_eq_ok h (by decide : Opcode.hash160.operation = .stack (.hash .hash160))]
  simp only [StackOp.apply_hash_eq_ok]
  grind [HashOp.eval]

theorem step_equal_eq_ok (h : Admits env s .equal) :
    step env s (.op .equal) = .ok t ↔
      ∃ b a rest, s.main = b :: a :: rest ∧
        t = { s.counted with main := Number.ofBool (decide (a = b)) :: rest } := by
  rw [step_stack_eq_ok h (by decide : Opcode.equal.operation = .stack .equal)]
  simp only [StackOp.apply_equal_eq_ok]
  grind

theorem step_equalVerify_eq_ok (h : Admits env s .equalVerify) :
    step env s (.op .equalVerify) = .ok t ↔
      ∃ top rest, s.main = top :: top :: rest ∧ t = { s.counted with main := rest } := by
  rw [step_stack_eq_ok h (by decide : Opcode.equalVerify.operation = .stack .equalVerify)]
  simp only [StackOp.apply_equalVerify_eq_ok]
  grind

theorem step_checkSig_eq_ok (h : Admits env s .checkSig) :
    step env s (.op .checkSig) = .ok t ↔
      ∃ key signature rest checker valid, s.main = key :: signature :: rest ∧
        env.checker = some checker ∧ signature ≠ [] ∧ checker.check signature key = .ok valid ∧
        t = { s.counted with main := Number.ofBool valid :: rest } := by
  rw [step_of_admits h, perform, (by decide : Opcode.checkSig.operation = .checkSig false)]
  show s.counted.withMain (checkSig env false s.main) = .ok t ↔ _
  rw [withMain_eq_ok]
  simp only [checkSig_eq_ok]
  grind

theorem step_checkMultisig (h : Admits env s .checkMultisig) :
    step env s (.op .checkMultisig) = checkMultisig env false s.counted := by
  rw [step_of_admits h, perform,
    (by decide : Opcode.checkMultisig.operation = .checkMultisig false)]

end TxScript.Machine
