import TxScript.Machine.LockTimeOps
import TxScript.Machine.SignatureOps
import TxScript.Script.Basic

/-!
# One chunk

Pushes happen only where the branch runs. An opcode is counted first, then refused if it is
disabled, and then skipped where the branch does not run, unless it opens, turns or closes a
branch.
-/

namespace TxScript.Machine

/-- Opens a branch. Inside a skipped one nothing is taken off, and the new branch is skipped. -/
def openBranch (negated : Bool) (s : State) : Outcome ExecError State :=
  if s.executing then
    match s.main with
    | [] => halt (.missingItems 1) s
    | top :: rest =>
      .ok { s with main := rest, branches := (Number.isTrue top != negated) :: s.branches }
  else .ok { s with branches := false :: s.branches }

/-- Turns the innermost branch over. -/
def turnBranch (s : State) : Outcome ExecError State :=
  match s.branches with
  | [] => halt .unopenedElse s
  | b :: rest => .ok { s with branches := (!b) :: rest }

def closeBranch (s : State) : Outcome ExecError State :=
  match s.branches with
  | [] => halt .unopenedEndIf s
  | _ :: rest => .ok { s with branches := rest }

def toAlt (s : State) : Outcome ExecError State :=
  match s.main with
  | [] => halt (.missingItems 1) s
  | top :: rest => .ok { s with main := rest, alt := top :: s.alt }

def fromAlt (s : State) : Outcome ExecError State :=
  match s.alt with
  | [] => halt (.missingAltItems 1) s
  | top :: rest => .ok { s with main := top :: s.main, alt := rest }

/-- Replaces the main stack by what an operation on it gives. -/
def State.withMain (s : State) (r : Except StackFault Stack) : Outcome ExecError State :=
  match r with
  | .ok main => .ok { s with main := main }
  | .error fault => .error (fault.halt s)

/-- Goes on with the same state if a test is passed. -/
def State.tested (s : State) (r : Except ExecError Unit) : Outcome ExecError State :=
  match r with
  | .ok () => .ok s
  | .error e => halt e s

/-- Runs an opcode that is neither disabled nor skipped. -/
def perform (env : Env) (op : Opcode) (s : State) : Outcome ExecError State :=
  match op.operation with
  | .stack stackOp => s.withMain (stackOp.apply env.config.maxElementSize s.main)
  | .nop => .ok s
  | .openBranch negated => openBranch negated s
  | .otherwise => turnBranch s
  | .closeBranch => closeBranch s
  | .toAlt => toAlt s
  | .fromAlt => fromAlt s
  | .checkSig verify => s.withMain (checkSig env verify s.main)
  | .checkMultisig verify => checkMultisig env verify s
  | .checkLockTime => s.tested (checkLockTime env s.main)
  | .checkSequence => s.tested (checkSequence env s.main)
  | .announce => halt (.missingPushData op.mnemonic) s
  | .disabled => halt (.disabledOpcode op.name) s
  | .reserved => halt (.notExecutable op.mnemonic) s

/-- Counts an opcode, if it is one of those that count. -/
def countOpcode (env : Env) (op : Opcode) (s : State) : Outcome ExecError State :=
  if op.isCounted then s.countOps env 1 else .ok s

/-- Runs an opcode that has been counted, or skips it. -/
def stepCounted (env : Env) (op : Opcode) (s : State) : Outcome ExecError State :=
  if op.isDisabled env.config.monolith then halt (.disabledOpcode op.name) s
  else if !s.executing && !op.isConditional then .ok s
  else perform env op s

def step (env : Env) (s : State) : Chunk → Outcome ExecError State
  | .push _ data => if s.executing then s.pushData env data else .ok s
  | .op op => countOpcode env op s >>= stepCounted env op

/-- Chunks one after another. -/
def execute (env : Env) : List Chunk → State → Outcome ExecError State
  | [], s => .ok s
  | c :: rest, s => step env s c >>= execute env rest

theorem execute_cons (env : Env) (c : Chunk) (cs : List Chunk) (s : State) :
    execute env (c :: cs) s = step env s c >>= execute env cs := rfl

theorem execute_append (env : Env) (as bs : List Chunk) (s : State) :
    execute env (as ++ bs) s = execute env as s >>= execute env bs := by
  induction as generalizing s with
  | nil => rfl
  | cons c cs ih =>
    simp only [List.cons_append, execute_cons]
    cases step env s c with
    | error h => rfl
    | ok t => exact ih t

end TxScript.Machine
