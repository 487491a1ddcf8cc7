import TxScript.Proofs.Machine.PayToScriptHash

/-!
# The time of the block

No opcode asks for the time of the block, so a script runs alike at all times. A verification asks
once, when the locking script has left a true element on top: from the activation time on, a redeem
script can only turn the spend down. Where the locking script does not have the form that pays to a
script hash, the answer does not count.
-/

namespace TxScript.Machine

variable {env : Env} {time time' : UInt32} {lock unlock script : Script} {s t : State}

/-- The same surroundings in a block of another time. -/
def Env.atTime (env : Env) (time : UInt32) : Env :=
  { env with blockTime := time }

/-! ## One script -/

theorem perform_atTime (op : Opcode) : perform (env.atTime time) op s = perform env op s := by
  unfold perform
  cases op.operation <;> rfl

theorem step_atTime (c : Chunk) : step (env.atTime time) s c = step env s c := by
  cases c with
  | push enc data => rfl
  | op o =>
      have hcounted : stepCounted (env.atTime time) o = stepCounted env o := by
        funext u
        unfold stepCounted
        rw [perform_atTime]
        rfl
      exact congrArg (countOpcode env o s >>= ·) hcounted

theorem execute_atTime (cs : List Chunk) : execute (env.atTime time) cs s = execute env cs s := by
  induction cs generalizing s with
  | nil => rfl
  | cons c rest ih =>
      rw [execute_cons, execute_cons, step_atTime]
      exact congrArg (step env s c >>= ·) (funext fun _ => ih)

theorem run_atTime : run (env.atTime time) script s = run env script s := by
  unfold run
  rw [execute_atTime]
  rfl

theorem runToTrue_atTime : runToTrue (env.atTime time) script s = runToTrue env script s := by
  unfold runToTrue
  rw [run_atTime]

theorem runRedeem_atTime (saved : Stack) :
    runRedeem (env.atTime time) unlock saved s = runRedeem env unlock saved s := by
  unfold runRedeem
  simp only [runToTrue_atTime]

/-! ## A verification -/

/-- Two times at which the same is made of a redeem script are the same to a verification. -/
theorem verify_atTime_congr
    (h : ((env.atTime time).evaluatesRedeem && lock.isPayToScriptHash) =
      ((env.atTime time').evaluatesRedeem && lock.isPayToScriptHash)) :
    verify (env.atTime time) lock unlock s = verify (env.atTime time') lock unlock s := by
  unfold verify
  simp only [run_atTime, runToTrue_atTime, runRedeem_atTime, h]

/-- Where the redeem script is not evaluated, a verification goes through as soon as it gets to
where the redeem script would be. -/
theorem exists_verify_of_not_evaluatesRedeem (hold : (env.atTime time').evaluatesRedeem = false)
    (h : verify (env.atTime time) lock unlock s = .ok t) :
    ∃ u, verify (env.atTime time') lock unlock s = .ok u := by
  obtain ⟨unlocked, locked, hunlock, hlock, -⟩ := verify_eq_ok.1 h
  rw [run_atTime] at hunlock
  rw [runToTrue_atTime] at hlock
  refine ⟨locked, verify_eq_ok.2 ⟨unlocked, locked, ?_, ?_, ?_⟩⟩
  · rw [run_atTime, hunlock]
  · rw [runToTrue_atTime, hlock]
  · rw [hold]
    rfl

/-- A spend that is authorized when redeem scripts are evaluated is authorized at all times. To a
locking script that is not of the form that pays to a script hash all times are the same: the
verdict, the cause of a failure and the state that is left. -/
theorem authorized_at_all_times (env : Env) (lock unlock : Script) (s : State) :
    (∀ (young other : UInt32) (t : State), env.config.p2shActivation ≤ young →
      verify (env.atTime young) lock unlock s = .ok t →
        ∃ u, verify (env.atTime other) lock unlock s = .ok u) ∧
    ((∀ hash : Digest 20, lock ≠ Script.payToScriptHash hash) → ∀ time time' : UInt32,
      verify (env.atTime time) lock unlock s = verify (env.atTime time') lock unlock s) := by
  constructor
  · intro young other t hyoung h
    by_cases hother : env.config.p2shActivation ≤ other
    · have hsame : (env.atTime young).evaluatesRedeem = (env.atTime other).evaluatesRedeem :=
        decide_eq_decide.2 ⟨fun _ => hother, fun _ => hyoung⟩
      rw [verify_atTime_congr (congrArg (· && lock.isPayToScriptHash) hsame)] at h
      exact ⟨t, h⟩
    · exact exists_verify_of_not_evaluatesRedeem (decide_eq_false hother) h
  · intro hlock time time'
    have hform : lock.isPayToScriptHash = false := by
      refine Bool.eq_false_iff.2 fun h => ?_
      obtain ⟨hash, rfl⟩ := Script.isPayToScriptHash_iff.1 h
      exact hlock hash rfl
    apply verify_atTime_congr
    rw [hform, Bool.and_false, Bool.and_false]

/-- Around the activation time: a redeem script that ends true does no harm, one that ends false
turns the spend down from then on, and where the hash is not pushed directly, no redeem script is
evaluated at all. -/
theorem authorized_around_activation :
    let env : Env := {}
    let spend (op : UInt8) : Script :=
      { chunks := [.push .implicit [op]]
        canonical := List.forall_mem_singleton.2 (Chunk.canonical_push (by decide : 1 ≤ 75)) }
    let hash (redeem : Bytes) := Hash.hash160 redeem
    let similar : Script :=
      { chunks := [.op .hash160, .push .pushData1 (hash [0x00]).bytes, .op .equal]
        canonical := by decide +zetaReduce +kernel }
    env.config.p2shActivation ≤ 1333238400 ∧
    (verify (env.atTime 1333238400) (.payToScriptHash (hash [0x51])) (spend 0x51) {} =
        .ok { main := [[1]] } ∧
      ∃ u, verify (env.atTime 1333238399) (.payToScriptHash (hash [0x51])) (spend 0x51) {} =
        .ok u) ∧
    (verify (env.atTime 1333238399) (.payToScriptHash (hash [0x00])) (spend 0x00) {} =
        .ok { main := [[1]], opCount := 2 } ∧
      ¬ Accepts (env.atTime 1333238400) (.payToScriptHash (hash [0x00])) (spend 0x00)) ∧
    (∀ hash' : Digest 20, similar ≠ Script.payToScriptHash hash') ∧
      verify (env.atTime 1333238400) similar (spend 0x00) {} =
        verify (env.atTime 1333238399) similar (spend 0x00) {} := by
  intro env spend hash similar
  have hyoung : verify (env.atTime 1333238400) (.payToScriptHash (hash [0x51])) (spend 0x51) {} =
      .ok { main := [[1]] } := eq_ok_of_toOption (by decide +kernel)
  have hold : verify (env.atTime 1333238399) (.payToScriptHash (hash [0x00])) (spend 0x00) {} =
      .ok { main := [[1]], opCount := 2 } := eq_ok_of_toOption (by decide +kernel)
  have hrefused : ¬ Accepts (env.atTime 1333238400) (.payToScriptHash (hash [0x00]))
      (spend 0x00) := by
    rintro ⟨t, h⟩
    have hnone : (verify (env.atTime 1333238400) (.payToScriptHash (hash [0x00]))
        (spend 0x00) {}).toOption = none := by decide +kernel
    rw [h] at hnone
    cases hnone
  have hsimilar : ∀ hash' : Digest 20, similar ≠ Script.payToScriptHash hash' := by
    intro hash' h
    have hform : similar.isPayToScriptHash = true := Script.isPayToScriptHash_iff.2 ⟨hash', h⟩
    exact absurd hform (by decide)
  obtain ⟨hearlier, -⟩ :=
    authorized_at_all_times env (.payToScriptHash (hash [0x51])) (spend 0x51) {}
  obtain ⟨-, hplain⟩ := authorized_at_all_times env similar (spend 0x00) {}
  exact ⟨by decide, ⟨hyoung, hearlier _ _ _ (by decide) hyoung⟩, ⟨hold, hrefused⟩, hsimilar,
    hplain hsimilar _ _⟩

end TxScript.Machine
