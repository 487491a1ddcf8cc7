import TxScript.Proofs.Machine.Branches
import TxScript.Proofs.Machine.Counting
import TxScript.Proofs.Machine.Phases

/-!
# What a script counts

Opcodes above the constants count one each, whether or not the branch is run that they are in. The
check of a row of signatures counts its keys on top of that, where it is run. A script starts to
count at nothing, so what it has counted is told by its own chunks, and no script of a verification
has less to spend than another.
-/

namespace TxScript

namespace Opcode

def checkMultisigVerify : Opcode := ⟨0xaf⟩

/-- The opcodes that check a row of signatures. -/
def isMultisigCheck (op : Opcode) : Bool :=
  op == checkMultisig || op == checkMultisigVerify

theorem isMultisigCheck_of_operation {op : Opcode} {verify : Bool}
    (h : op.operation = .checkMultisig verify) : op.isMultisigCheck = true := by
  have htable : ∀ e ∈ opcodeTable,
      e.operation = .checkMultisig true ∨ e.operation = .checkMultisig false →
        isMultisigCheck ⟨e.byte⟩ = true := by decide +kernel
  rcases op.operation_cases with ⟨e, he, hbyte, hop⟩ | hop | hop
  · have hcheck : e.operation = .checkMultisig verify := hop.symm.trans h
    have hfound := htable e he (by cases verify <;> simp [hcheck])
    rwa [hbyte] at hfound
  · rw [hop] at h
    cases h
  · rw [hop] at h
    cases h

/-- Such an opcode is no part of a conditional. -/
theorem multisigCheck_facts {op : Opcode} (h : op.isMultisigCheck = true) :
    (∃ verify, op.operation = .checkMultisig verify) ∧ op.isConditional = false := by
  have hcases : op = checkMultisig ∨ op = checkMultisigVerify := by
    simpa [isMultisigCheck] using h
  rcases hcases with rfl | rfl
  · exact ⟨⟨false, by decide⟩, by decide⟩
  · exact ⟨⟨true, by decide⟩, by decide⟩

end Opcode

namespace Machine

variable {env : Env} {script lock unlock : Script} {s t u start : State} {c : Chunk} {op : Opcode}

/-- The count of keys on top of the stack. -/
def keyCount (stack : Stack) : Nat :=
  match stack with
  | [] => 0
  | top :: _ => ((Number.operand? top).getD 0).toNat

/-- The keys that a chunk counts: those of a check of a row of signatures, unless it is skipped. -/
def keysRead (s : State) : Chunk → Nat
  | .push _ _ => 0
  | .op op => if s.executing && op.isMultisigCheck then keyCount s.main else 0

/-- The keys that are counted over a row of chunks, as long as they run. -/
def keysChecked (env : Env) : List Chunk → State → Nat
  | [], _ => 0
  | c :: rest, s =>
    keysRead s c +
      match step env s c with
      | .ok t => keysChecked env rest t
      | .error _ => 0

/-! ## One chunk -/

theorem eq_keyCount_of_readCount {bound : Nat} {fault : Int → ExecError} {stack : Stack} {n : Nat}
    (h : readCount bound fault stack = .ok n) : n = keyCount stack := by
  unfold readCount at h
  cases stack with
  | nil => cases h
  | cons top rest =>
      dsimp only at h
      split at h
      · cases h
      · rename_i m hm
        split at h
        · cases h
        · cases h
          simp [keyCount, hm]

theorem opCount_of_counted {r : Outcome ExecError State} {count : Nat} (h : counted r = count)
    (ht : r = .ok t) : t.opCount = count := by
  rw [ht] at h
  exact h

theorem opCount_of_checkMultisig {verify : Bool} (h : checkMultisig env verify s = .ok t) :
    t.opCount = s.opCount + keyCount s.main := by
  rw [checkMultisig_eq] at h
  obtain ⟨n, hn, h⟩ := bind_eq_ok.1 h
  obtain ⟨m, hm, h⟩ := bind_eq_ok.1 h
  obtain rfl := eq_plus_of_countOps hm
  have hread : readCount env.config.maxMultisigKeys .keyCount s.main = .ok n := by
    unfold State.onMain at hn
    split at hn
    · rename_i k hk
      cases hn
      exact hk
    · cases hn
  rw [opCount_of_counted (counted_withMain _) h, State.opCount_plus, eq_keyCount_of_readCount hread]

/-- No operation counts anything, but for the check of a row of signatures. -/
theorem opCount_of_perform (hop : op.isMultisigCheck = false) (h : perform env op s = .ok t) :
    t.opCount = s.opCount := by
  have hplain : ∀ verify, op.operation ≠ .checkMultisig verify := by
    intro verify hcheck
    rw [Opcode.isMultisigCheck_of_operation hcheck] at hop
    cases hop
  unfold perform at h
  generalize op.operation = operation at h hplain
  cases operation with
  | stack f => exact opCount_of_counted (counted_withMain _) h
  | openBranch negated => exact opCount_of_counted (counted_openBranch negated) h
  | otherwise => exact opCount_of_counted counted_turnBranch h
  | closeBranch => exact opCount_of_counted counted_closeBranch h
  | toAlt => exact opCount_of_counted counted_toAlt h
  | fromAlt => exact opCount_of_counted counted_fromAlt h
  | checkSig verify => exact opCount_of_counted (counted_withMain _) h
  | checkMultisig verify => exact absurd rfl (hplain verify)
  | checkLockTime => exact opCount_of_counted (counted_tested _) h
  | checkSequence => exact opCount_of_counted (counted_tested _) h
  | nop | announce | disabled | reserved => exact opCount_of_counted rfl h

theorem opCount_of_stepCounted (h : stepCounted env op s = .ok t) :
    t.opCount = s.opCount + keysRead s (.op op) := by
  unfold stepCounted at h
  split at h
  · cases h
  · split at h
    · rename_i hskipped
      cases h
      have hx : s.executing = false := (by simpa using hskipped : _ ∧ _).1
      simp [keysRead, hx]
    · rename_i hruns
      cases hop : op.isMultisigCheck with
      | false =>
          rw [opCount_of_perform hop h]
          simp [keysRead, hop]
      | true =>
          -- While skipping, only the opcodes of conditionals get here.
          obtain ⟨⟨verify, hoperation⟩, hconditional⟩ := Opcode.multisigCheck_facts hop
          have hx : s.executing = true := by simpa [hconditional] using hruns
          simp only [perform, hoperation] at h
          rw [opCount_of_checkMultisig h]
          simp [keysRead, hop, hx]

/-- A chunk counts itself, if it is one of those that count, and the keys it reads. -/
theorem opCount_of_step (h : step env s c = .ok t) :
    t.opCount = s.opCount + countedOps [c] + keysRead s c := by
  cases c with
  | push enc data =>
      have hsame : counted (step env s (.push enc data)) = s.opCount := by
        simp only [step, State.pushData]
        split
        · split <;> rfl
        · rfl
      exact opCount_of_counted hsame h
  | op o =>
      obtain ⟨m, hm, h⟩ := bind_eq_ok.1 h
      rw [countOpcode_eq] at hm
      split at hm
      · cases hm
      · cases hm
        exact opCount_of_stepCounted h

/-! ## Rows of chunks -/

theorem opCount_of_execute {cs : List Chunk} (h : execute env cs s = .ok t) :
    t.opCount = s.opCount + countedOps cs + keysChecked env cs s := by
  -- The keys depend on the stacks, so the sum follows the states of the run and not the row alone.
  induction cs generalizing s with
  | nil =>
      cases h
      rfl
  | cons c rest ih =>
      obtain ⟨m, hm, hrest⟩ := execute_cons_eq_ok.1 h
      have hsplit : countedOps (c :: rest) = countedOps [c] + countedOps rest :=
        countedOps_append [c] rest
      have hkeys : keysChecked env (c :: rest) s = keysRead s c + keysChecked env rest m := by
        simp only [keysChecked, hm]
      rw [ih hrest, opCount_of_step hm, hsplit, hkeys]
      omega

/-! ## Runs -/

/-- When a chunk is taken up, so much is counted as those in front of it in the same script make. -/
theorem TakesUp.opCount {before : List Chunk} (h : TakesUp env script s before u c) :
    u.opCount = countedOps before + keysChecked env before s.fresh := by
  rw [opCount_of_execute h.execute_before]
  exact congrArg (· + _) (Nat.zero_add _)

theorem opCount_of_run (h : run env script s = .ok t) :
    t.opCount = countedOps script.chunks + keysChecked env script.chunks s.fresh := by
  obtain ⟨-, hexec, -⟩ := run_eq_ok.1 h
  rw [opCount_of_execute hexec]
  exact congrArg (· + _) (Nat.zero_add _)

theorem opCount_le_of_run (h : run env script s = .ok t) : t.opCount ≤ env.config.maxOps := by
  obtain ⟨-, hexec, -⟩ := run_eq_ok.1 h
  have hwithin : Within env (execute env script.chunks s.fresh) :=
    (counts_execute script.chunks).within (Nat.zero_le _)
  rw [hexec] at hwithin
  exact hwithin

/-- Of the state before it, a run sees neither the count nor the second stack. -/
theorem run_of_run (h : run env script s = .ok t) (alt : Stack) (count : Nat) :
    run env script { s with alt := alt, opCount := count } = .ok t := by
  have hfresh : State.fresh { s with alt := alt, opCount := count } = s.fresh := rfl
  rw [run_eq_ok, hfresh]
  exact run_eq_ok.1 h

theorem run_error_of_countedOps (h : env.config.maxOps < countedOps script.chunks) (s : State) :
    ∃ halted, run env script s = .error halted := by
  cases hrun : run env script s with
  | error halted => exact ⟨halted, rfl⟩
  | ok t =>
      have hcount := opCount_of_run hrun
      have hle := opCount_le_of_run hrun
      omega

/-- Where a verification succeeds, all of its scripts have run to their ends. -/
theorem Phase.run_of_verify (hphase : Phase env lock unlock s script start)
    (h : verify env lock unlock s = .ok t) : ∃ u, run env script start = .ok u := by
  obtain ⟨unlocked, locked, hunlock, hlock, hend⟩ := verify_eq_ok.1 h
  cases hphase with
  | unlocking => exact ⟨unlocked, hunlock⟩
  | locking hrun =>
      cases hunlock.symm.trans hrun
      exact ⟨locked, (runToTrue_eq_ok.1 hlock).1⟩
  | redeeming hredeems =>
      cases hredeems with
      | intro hrun hlocked happlies hconstants htaken =>
          cases hunlock.symm.trans hrun
          cases hlock.symm.trans hlocked
          rw [if_pos happlies, runRedeem, if_pos hconstants, htaken] at hend
          exact ⟨t, (runToTrue_eq_ok.1 hend).1⟩

/-- A run that succeeds has counted its chunks above the constants, those in skipped branches
included, and the keys of the checks of rows of signatures that were not skipped. That is within the
limit, the count never went down on the way, and nothing of it depends on the count and the second
stack from before. So a script with too many of those chunks fails from every state. In a
verification each script counts its own chunks and keys only, and may count up to the limit. -/
theorem opCount_of_run_and_verify (env : Env) :
    (∀ script s t, run env script s = .ok t →
      t.opCount = countedOps script.chunks + keysChecked env script.chunks s.fresh ∧
      t.opCount ≤ env.config.maxOps ∧
      (∀ before u c, TakesUp env script s before u c → u.opCount ≤ counted (step env u c)) ∧
      ∀ alt count, run env script { s with alt := alt, opCount := count } = .ok t) ∧
    (∀ script, env.config.maxOps < countedOps script.chunks →
      ∀ s, ∃ halted, run env script s = .error halted) ∧
    ∀ lock unlock s script start, Phase env lock unlock s script start →
      (∀ before u c, TakesUp env script start before u c →
        u.opCount = countedOps before + keysChecked env before start.fresh) ∧
      ∀ t, verify env lock unlock s = .ok t → ∃ u, run env script start = .ok u ∧
        u.opCount = countedOps script.chunks + keysChecked env script.chunks start.fresh ∧
        u.opCount ≤ env.config.maxOps := by
  refine ⟨fun script s t hrun => ?_, fun script => run_error_of_countedOps, ?_⟩
  · exact ⟨opCount_of_run hrun, opCount_le_of_run hrun,
      fun before u c _ => (counts_step c).le_counted, run_of_run hrun⟩
  · intro lock unlock s script start hphase
    refine ⟨fun before u c htaken => htaken.opCount, fun t hverify => ?_⟩
    obtain ⟨u, hrun⟩ := hphase.run_of_verify hverify
    exact ⟨u, hrun, opCount_of_run hrun, opCount_le_of_run hrun⟩

/-- A redeem script that skips one check of signatures and runs another one, which takes up all of
the limit, after a locking script that has counted too. -/
theorem opCount_of_redeem_with_skipped_check :
    let env : Env :=
      { config := { maxOps := 5 }, checker := some ⟨fun _ _ => .ok true, 0, 1, 0⟩ }
    let redeem : Script :=
      { chunks := [.pushMinimal [], .op ⟨0x63⟩, .op .checkMultisig, .op ⟨0x68⟩, .pushMinimal [],
          .pushMinimal [], .pushMinimal [2], .op ⟨0x51⟩, .op .checkMultisig] }
    let s : State := { main := [[7]], alt := [[8]], opCount := 9 }
    let t : State := { main := [[1], [7]], opCount := 5 }
    let crowded : Script := { chunks := List.replicate 6 (.op ⟨0x61⟩) }
    let unlock : Script := { chunks := [.pushMinimal redeem.bytes] }
    let lock := Script.payToScriptHash (Hash.hash160 redeem.bytes)
    let start : State := { opCount := 2 }
    (countedOps redeem.chunks = 4 ∧ keysChecked env redeem.chunks s.fresh = 1) ∧
    (run env redeem s = .ok t ∧
      t.opCount = countedOps redeem.chunks + keysChecked env redeem.chunks s.fresh ∧
      ∀ alt count, run env redeem { s with alt := alt, opCount := count } = .ok t) ∧
    (env.config.maxOps < countedOps crowded.chunks ∧
      ∀ s, ∃ halted, run env crowded s = .error halted) ∧
    Redeems env lock unlock {} redeem start ∧
      verify env lock unlock {} = .ok { main := [[1]], opCount := 5 } ∧
      ∃ u, run env redeem start = .ok u ∧
        u.opCount = countedOps redeem.chunks + keysChecked env redeem.chunks start.fresh ∧
        u.opCount ≤ env.config.maxOps := by
  intro env redeem s t crowded unlock lock start
  have hrun : run env redeem s = .ok t := eq_ok_of_toOption (by decide +kernel)
  have hcrowded : env.config.maxOps < countedOps crowded.chunks := by decide
  have hunlock : run env unlock {} = .ok { main := [redeem.bytes] } :=
    eq_ok_of_toOption (by decide +kernel)
  have hlock : runToTrue env lock { main := [redeem.bytes] } =
      .ok { main := [[1]], opCount := 2 } := eq_ok_of_toOption (by decide +kernel)
  have hredeems : Redeems env lock unlock {} redeem start :=
    .intro hunlock hlock (by decide +kernel) (by decide +kernel)
      (eq_ok_of_toOption (by decide +kernel))
  have hverify : verify env lock unlock {} = .ok { main := [[1]], opCount := 5 } :=
    eq_ok_of_toOption (by decide +kernel)
  obtain ⟨hruns, hmany, hphases⟩ := opCount_of_run_and_verify env
  obtain ⟨hcount, -, -, hsame⟩ := hruns redeem s t hrun
  obtain ⟨-, hends⟩ := hphases lock unlock {} redeem start (.redeeming hredeems)
  exact ⟨⟨by decide +kernel, by decide +kernel⟩, ⟨hrun, hcount, hsame⟩,
    ⟨hcrowded, hmany crowded hcrowded⟩, hredeems, hverify, hends _ hverify⟩

end Machine

end TxScript
