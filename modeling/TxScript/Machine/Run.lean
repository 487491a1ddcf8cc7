import TxScript.Machine.Step
import TxScript.Script.Template

/-!
# Running scripts

A script starts with a fresh count of operations and an empty second stack; the main stack carries
over from one script to the next. A spend is authorized when the unlocking script and then the
locking script run and leave a true element on top. Where the locking script pays to a script hash,
the unlocking script has to be all constants, and the last of them is run as a script of its own.
-/

namespace TxScript.Machine

/-- The state in which a script begins. -/
def State.fresh (s : State) : State :=
  { s with alt := [], opCount := 0 }

/-- Open branches at the end of a script are a failure. -/
def requireBalanced (s : State) : Outcome ExecError State :=
  if s.branches.isEmpty then .ok s else halt .unbalancedBranches s

def run (env : Env) (script : Script) (s : State) : Outcome ExecError State :=
  if env.config.maxScriptSize < script.size then halt (.scriptTooLarge script.size) s
  else execute env script.chunks s.fresh >>= requireBalanced

/-- A failed run, as a failed verification. -/
def verifying (r : Outcome ExecError State) : Outcome VerifyError State :=
  match r with
  | .ok s => .ok s
  | .error h => .error ⟨.execution h.error, h.state⟩

/-- The top of the main stack has to be there and to be true. -/
def requireTrue (s : State) : Outcome VerifyError State :=
  match s.main with
  | [] => halt .emptyStack s
  | top :: _ => if Number.isTrue top then .ok s else halt .lastItemFalse s

/-- Runs a script and asks for a true element on top. -/
def runToTrue (env : Env) (script : Script) (s : State) : Outcome VerifyError State :=
  verifying (run env script s) >>= requireTrue

/-- Takes the redeem script off a stack kept from before, the rest of which becomes the main
stack. -/
def takeRedeem (saved : Stack) (s : State) : Outcome VerifyError (Script × State) :=
  match saved with
  | [] => halt .emptyStack s
  | top :: rest =>
    match Script.parse top with
    | .error e => halt (.p2shDeserialize e) s
    | .ok redeem => .ok (redeem, { s.cleared with main := rest })

/-- The redeem script, on the stack that the unlocking script left. -/
def runRedeem (env : Env) (unlock : Script) (saved : Stack) (s : State) :
    Outcome VerifyError State :=
  if unlock.isDataOnly then do
    let (redeem, s) ← takeRedeem saved s
    runToTrue env redeem s
  else halt .p2shNotDataOnly s

/-- Whether the unlocking script meets the locking script; the state is the last one reached. -/
def verify (env : Env) (lock unlock : Script) (s : State) : Outcome VerifyError State := do
  let unlocked ← verifying (run env unlock s)
  let locked ← runToTrue env lock unlocked
  if env.evaluatesRedeem && lock.isPayToScriptHash then
    runRedeem env unlock unlocked.main locked
  else .ok locked

end TxScript.Machine
