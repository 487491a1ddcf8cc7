import Mathlib.Data.Nat.Bitwise
import TxScript.Proofs.Machine.Branches
import TxScript.Proofs.Machine.Spelling

/-!
# Lock times

Two opcodes compare the top of the stack with what the transaction says about its age, one with its
lock time and one with the sequence number of the input. They take nothing off the stack, so a
script learns nothing from them but that it may go on. Of a sequence number only some bits compare,
and so do only the same bits of the demand, whatever else is set in it.
-/

namespace TxScript

namespace Opcode

def checkLockTime : Opcode := ⟨0xb1⟩
def checkSequence : Opcode := ⟨0xb2⟩

end Opcode

namespace Machine

variable {env : Env} {s : State} {stack : Stack} {n : Nat}

/-! ## What is demanded and what meets it -/

/-- The top of the stack spells the number, in any way that is no longer than five bytes. -/
def Demands (stack : Stack) (n : Nat) : Prop :=
  ∃ top rest, stack = top :: rest ∧ top.length ≤ 5 ∧ Number.value top = n

/-- The lock time of the transaction is of the kind that is demanded, a height or a time, and is
late enough, and the input does not make it meaningless. -/
structure Checker.ReachesLockTime (checker : Checker) (required : Nat) : Prop where
  kind : required < 500000000 ↔ checker.lockTime.toNat < 500000000
  reached : required ≤ checker.lockTime.toNat
  notFinal : checker.sequence ≠ 0xffffffff

/-- The sequence number of the input is a relative lock time of the kind that is demanded, in blocks
or in seconds, and is great enough. Bits of neither number but the lowest ones and the one of the
kind make a difference. -/
structure Checker.ReachesAge (checker : Checker) (required : Nat) : Prop where
  version : 2 ≤ checker.version
  enabled : checker.sequence.toNat.testBit 31 = false
  kind : checker.sequence.toNat.testBit 22 = required.testBit 22
  reached : required % 0x10000 ≤ checker.sequence.toNat % 0x10000

theorem lockTimeOperand_eq_ok : lockTimeOperand stack = .ok n ↔ Demands stack n := by
  cases stack with
  | nil => simp [lockTimeOperand, Demands]
  | cons top rest =>
      have hdemands : Demands (top :: rest) n ↔ top.length ≤ 5 ∧ Number.value top = n := by
        simp [Demands]
      have hdecode (m : Int) : Number.decode? Number.lockTimeWidth top = some m ↔
          top.length ≤ 5 ∧ Number.value top = m :=
        Number.decode?_eq_some_iff_of_le (by decide)
      rw [hdemands, lockTimeOperand]
      cases hread : Number.decode? Number.lockTimeWidth top with
      | none =>
          have hwide : ¬ top.length ≤ 5 := fun hle => by
            rw [(hdecode _).2 ⟨hle, rfl⟩] at hread
            cases hread
          simp [hwide]
      | some m =>
          obtain ⟨hwidth, rfl⟩ := (hdecode m).1 hread
          dsimp only
          by_cases hneg : Number.value top < 0
          · rw [if_pos hneg]
            simp only [reduceCtorEq, false_iff]
            omega
          · rw [if_neg hneg, Except.ok.injEq]
            omega

theorem compareLockTimes_eq_ok {actual threshold required : Nat} {u : Unit} :
    compareLockTimes actual threshold required = .ok u ↔
      (actual < threshold ↔ required < threshold) ∧ required ≤ actual := by
  unfold compareLockTimes
  by_cases hkind : actual < threshold ↔ required < threshold
  · rw [if_neg (by simpa using hkind)]
    by_cases hearly : actual < required
    · rw [if_pos hearly]
      simp [Nat.not_le.2 hearly]
    · rw [if_neg hearly]
      simp [hkind, Nat.not_lt.1 hearly]
  · rw [if_pos (by simpa using hkind)]
    simp [hkind]

theorem requireChecker_eq_ok {checker : Checker} :
    env.requireChecker = .ok checker ↔ env.checker = some checker := by
  unfold Env.requireChecker
  cases env.checker with
  | none => simp
  | some c => simp

/-! ## Lock times of the transaction -/

theorem checkLockTime_eq_ok :
    checkLockTime env stack = .ok () ↔
      ∃ n checker, Demands stack n ∧ env.checker = some checker ∧ checker.ReachesLockTime n := by
  have hfinal (checker : Checker) :
      (if checker.sequence = finalSequence then .error (.lockTime .finalInput) else .ok ()
        : Except ExecError Unit) = .ok () ↔ checker.sequence ≠ finalSequence := by
    split <;> simp_all
  simp only [checkLockTime, bind_eq_ok, lockTimeOperand_eq_ok, requireChecker_eq_ok,
    mapError_eq_ok, compareLockTimes_eq_ok, hfinal]
  constructor
  · rintro ⟨n, hn, checker, hchecker, -, ⟨hkind, hreached⟩, hopen⟩
    exact ⟨n, checker, hn, hchecker, hkind.symm, hreached, hopen⟩
  · rintro ⟨n, checker, hn, hchecker, hmeets⟩
    exact ⟨n, hn, checker, hchecker, (), ⟨hmeets.kind.symm, hmeets.reached⟩, hmeets.notFinal⟩

/-! ## Relative lock times -/

/-- The bits that compare: the one of the kind, above the lowest sixteen. -/
theorem and_sequenceMask (n : Nat) :
    n &&& sequenceMask = (n.testBit 22).toNat * 0x400000 + n % 0x10000 := by
  have hlow : n % 0x10000 < 2 ^ 22 := by omega
  have hkind : n &&& 2 ^ 22 = 2 ^ 22 * (n.testBit 22).toNat := by
    rw [Nat.and_two_pow, Nat.mul_comm]
  have hage : n &&& (2 ^ 16 - 1) = n % 0x10000 := Nat.and_two_pow_sub_one_eq_mod n 16
  have hmask : sequenceMask = 2 ^ 22 ||| (2 ^ 16 - 1) := by decide
  rw [hmask, Nat.and_or_distrib_left, hkind, hage, ← Nat.two_pow_add_eq_or_of_lt hlow,
    Nat.mul_comm]

/-- Under the mask, numbers of one kind compare by their lowest sixteen bits. -/
theorem compare_masked {actual required : Nat} :
    compareLockTimes (actual &&& sequenceMask) sequenceSecondsFlag (required &&& sequenceMask)
        = .ok () ↔
      actual.testBit 22 = required.testBit 22 ∧ required % 0x10000 ≤ actual % 0x10000 := by
  have hflag : sequenceSecondsFlag = 0x400000 := rfl
  rw [compareLockTimes_eq_ok, and_sequenceMask, and_sequenceMask, hflag]
  cases actual.testBit 22 <;> cases required.testBit 22 <;> simp <;> omega

theorem checkSequence_eq_ok :
    checkSequence env stack = .ok () ↔
      ∃ n, Demands stack n ∧
        (n.testBit 31 = true ∨ ∃ checker, env.checker = some checker ∧ checker.ReachesAge n) := by
  have hbit : sequenceDisabledBit = 31 := rfl
  simp only [checkSequence, bind_eq_ok, lockTimeOperand_eq_ok, hbit]
  refine exists_congr fun n => and_congr_right fun _ => ?_
  by_cases hoff : n.testBit 31 = true
  · simp [hoff]
  · rw [if_neg hoff, or_iff_right hoff]
    simp only [bind_eq_ok, requireChecker_eq_ok]
    refine exists_congr fun checker => and_congr_right fun _ => ?_
    by_cases hversion : checker.version < 2
    · rw [if_pos hversion]
      simp only [reduceCtorEq, false_iff]
      exact fun hmeets => UInt32.not_lt.2 hmeets.version hversion
    · rw [if_neg hversion]
      by_cases hdisabled : checker.sequence.toNat.testBit 31 = true
      · rw [if_pos hdisabled]
        simp only [reduceCtorEq, false_iff]
        exact fun hmeets => Bool.false_ne_true (hmeets.enabled.symm.trans hdisabled)
      · rw [if_neg hdisabled, mapError_eq_ok, compare_masked]
        constructor
        · rintro ⟨hkind, hreached⟩
          exact ⟨UInt32.not_lt.1 hversion, by simpa using hdisabled, hkind, hreached⟩
        · exact fun hmeets => ⟨hmeets.kind, hmeets.reached⟩

/-! ## The opcodes -/

theorem tested_eq_ok {t : State} {r : Except ExecError Unit} :
    s.tested r = .ok t ↔ r = .ok () ∧ t = s := by
  cases r with
  | error e => simp [State.tested, halt]
  | ok u => simp [State.tested, eq_comm]

theorem perform_checkLockTime :
    perform env .checkLockTime s = s.tested (checkLockTime env s.main) := by
  unfold perform
  rw [(by decide : Opcode.checkLockTime.operation = .checkLockTime)]

theorem perform_checkSequence :
    perform env .checkSequence s = s.tested (checkSequence env s.main) := by
  unfold perform
  rw [(by decide : Opcode.checkSequence.operation = .checkSequence)]

/-- Neither opcode changes anything, whether it succeeds or not. -/
theorem perform_cases {op : Opcode} (hop : op = .checkLockTime ∨ op = .checkSequence) (s : State) :
    perform env op s = .ok s ∨ ∃ e, perform env op s = .error ⟨e, s⟩ := by
  have htested (r : Except ExecError Unit) :
      s.tested r = .ok s ∨ ∃ e, s.tested r = .error ⟨e, s⟩ := by
    cases r with
    | error e => exact .inr ⟨e, rfl⟩
    | ok u => exact .inl rfl
  rcases hop with rfl | rfl
  · rw [perform_checkLockTime]
    exact htested _
  · rw [perform_checkSequence]
    exact htested _

theorem perform_checkLockTime_eq_ok {t : State} :
    perform env .checkLockTime s = .ok t ↔
      (∃ n checker, Demands s.main n ∧ env.checker = some checker ∧ checker.ReachesLockTime n) ∧
        t = s := by
  rw [perform_checkLockTime, tested_eq_ok, checkLockTime_eq_ok]

theorem perform_checkSequence_eq_ok {t : State} :
    perform env .checkSequence s = .ok t ↔
      (∃ n, Demands s.main n ∧
        (n.testBit 31 = true ∨ ∃ checker, env.checker = some checker ∧ checker.ReachesAge n)) ∧
        t = s := by
  rw [perform_checkSequence, tested_eq_ok, checkSequence_eq_ok]

theorem not_demands_nil (n : Nat) : ¬ Demands [] n := by
  rintro ⟨top, rest, hstack, -⟩
  cases hstack

/-- A demand for a relative lock time is met where its own bit turns it off, or where there is a
transaction to be asked, of the second version at least, that gives the input a sequence number
which reaches the demand. A demand for a lock time is met where there is a transaction to be asked,
whose lock time reaches the demand, and the input is not final. A top of the stack that is too long
or negative demands nothing that can be met, and neither does an empty stack. In every case the
opcodes leave all of the state as it was, and a chunk of theirs changes only the count. -/
theorem perform_lockTimes (env : Env) (s : State) :
    (perform env .checkSequence s = .ok s ↔
      ∃ r, Demands s.main r ∧
        (r.testBit 31 = true ∨ ∃ checker, env.checker = some checker ∧ checker.ReachesAge r)) ∧
    (perform env .checkLockTime s = .ok s ↔
      ∃ v checker, Demands s.main v ∧ env.checker = some checker ∧ checker.ReachesLockTime v) ∧
    ∀ op, op = .checkLockTime ∨ op = .checkSequence →
      (perform env op s = .ok s ∨ ∃ e, perform env op s = .error ⟨e, s⟩) ∧
      (s.main = [] → ∃ e, perform env op s = .error ⟨e, s⟩) ∧
      (Admits env s op → step env s (.op op) = perform env op s.counted) ∧
      (∀ t, step env s (.op op) = .ok t → ∃ count, t = s.plus count) ∧
      ∀ halted, step env s (.op op) = .error halted → ∃ count, halted.state = s.plus count := by
  refine ⟨?_, ?_, fun op hop => ⟨perform_cases hop s, fun hmain => ?_, step_of_admits,
    fun t ht => ?_, fun halted h => ?_⟩⟩
  · rw [perform_checkSequence_eq_ok, and_iff_left rfl]
  · rw [perform_checkLockTime_eq_ok, and_iff_left rfl]
  · rcases perform_cases hop s with hdone | hfails
    · -- an empty stack demands nothing, so neither opcode succeeds on it
      have hnone : ∀ n, ¬ Demands s.main n := by
        rw [hmain]
        exact not_demands_nil
      rcases hop with rfl | rfl
      · obtain ⟨⟨n, -, hn, -⟩, -⟩ := perform_checkLockTime_eq_ok.1 hdone
        exact absurd hn (hnone n)
      · obtain ⟨⟨n, hn, -⟩, -⟩ := perform_checkSequence_eq_ok.1 hdone
        exact absurd hn (hnone n)
    · exact hfails
  · refine state_of_step_ok (fun u v h => ?_) ht
    rcases perform_cases hop u with hdone | ⟨e, hfails⟩
    · rw [hdone] at h
      exact (Except.ok.inj h).symm
    · rw [hfails] at h
      cases h
  · refine state_of_step_error (fun u e h => ?_) h
    rcases perform_cases hop u with hdone | ⟨e, hfails⟩
    · rw [hdone] at h
      cases h
    · rw [hfails] at h
      cases h
      rfl

/-- A demand of five bytes whose highest bits take no part, met by an input whose own other bits
take none either; and no chunk that fails on an empty stack. -/
theorem perform_lockTimes_high_bits :
    let checker : Checker :=
      { check := fun _ _ => .ok false, lockTime := 0, version := 2, sequence := 0x00c00007 }
    let env : Env := { checker := some checker }
    let s : State := { main := [[0x05, 0x00, 0x50, 0x00, 0x7e]] }
    perform env .checkSequence s = .ok s ∧
      (∃ e, perform env .checkSequence {} = .error ⟨e, {}⟩) ∧
      ∀ t, step env s (.op .checkSequence) = .ok t → ∃ count, t = s.plus count := by
  intro checker env s
  obtain ⟨hsequence, -, hframe⟩ := perform_lockTimes env s
  obtain ⟨-, -, hempty⟩ := perform_lockTimes env {}
  refine ⟨hsequence.2 ?_, (hempty .checkSequence (.inr rfl)).2.1 rfl,
    (hframe .checkSequence (.inr rfl)).2.2.2.1⟩
  refine ⟨0x7e00500005, ⟨_, _, rfl, by decide, by decide⟩, .inr ⟨checker, rfl, ?_⟩⟩
  exact ⟨by decide, by decide, by decide, by decide⟩

end Machine

end TxScript
