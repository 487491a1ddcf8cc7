import TxScript.Proofs.Machine.Verdict
import TxScript.Proofs.Script.HashForms

/-!
# Paying to a script hash

The locking script compares the hash of the top element and no more. Once redeem scripts are
evaluated, the unlocking script has to be all constants as well, and the element it left on top is
run as a script on the elements under it, in a state that carries over nothing else.
-/

namespace TxScript.Machine

variable {env : Env} {time : UInt32} {checker : Option Checker} {s t : State} {main : Stack}
  {hash : Digest 20} {script unlock : Script}

theorem execute_payToScriptHash_eq_ok :
    execute (.withDefaults time checker) (Script.payToScriptHash hash).chunks
        { main := main } = .ok t ↔
      ∃ top rest, main = top :: rest ∧
        t = { main := Number.ofBool (decide (Hash.hash160 top = hash)) :: rest, opCount := 2 } := by
  have hbytes : ∀ top, decide ((Hash.hash160 top).bytes = hash.bytes) =
      decide (Hash.hash160 top = hash) := fun top =>
    decide_eq_decide.2 ⟨Digest.ext, congrArg Digest.bytes⟩
  constructor
  · intro h
    rcases execute_cons_eq_ok.1 h with ⟨_, hhash, h⟩
    obtain ⟨top, rest, hmain, rfl⟩ :=
      (step_hash160_eq_ok (admits_withDefaults (by decide) rfl (by simp))).1 hhash
    rcases execute_cons_eq_ok.1 h with ⟨_, hpush, h⟩
    cases (step_pushHash rfl).symm.trans hpush
    rcases execute_cons_eq_ok.1 h with ⟨_, hequal, h⟩
    obtain ⟨_, _, _, ⟨⟩, rfl⟩ :=
      (step_equal_eq_ok
        (admits_withDefaults (by decide) rfl (by simp [State.counted]))).1 hequal
    cases h
    exact ⟨top, rest, hmain, by rw [← hbytes]; rfl⟩
  · intro h
    rcases h with ⟨top, rest, rfl, rfl⟩
    refine execute_cons_eq_ok.2 ⟨_, (step_hash160_eq_ok (admits_withDefaults (by decide) rfl
      (by simp))).2 ⟨top, rest, rfl, rfl⟩, ?_⟩
    refine execute_cons_eq_ok.2 ⟨_, step_pushHash rfl, ?_⟩
    refine execute_cons_eq_ok.2 ⟨_, (step_equal_eq_ok (admits_withDefaults (by decide) rfl
      (by simp [State.counted]))).2 ⟨_, _, _, rfl, rfl⟩, ?_⟩
    rw [hbytes]
    rfl

/-! ## The comparison of hashes -/

/-- The locking script takes a state to a true end exactly when the hash of the top element is the
one it commits to. -/
theorem runToTrue_payToScriptHash_iff (hb : s.branches = []) :
    (∃ t, runToTrue (.withDefaults time checker) (Script.payToScriptHash hash) s = .ok t) ↔
      ∃ top rest, s.main = top :: rest ∧ Hash.hash160 top = hash := by
  have hsize : (Script.payToScriptHash hash).size ≤ 10000 := by
    rw [Script.size_payToScriptHash]
    decide
  rw [exists_runToTrue_iff hb hsize]
  constructor
  · intro h
    rcases h with ⟨t, hexec, -, hends⟩
    rcases execute_payToScriptHash_eq_ok.1 hexec with ⟨top, rest, hmain, rfl⟩
    have hsame := (State.endsTrue_of_ofBool rfl).1 hends
    exact ⟨top, rest, hmain, of_decide_eq_true hsame⟩
  · intro h
    rcases h with ⟨top, rest, hmain, hsame⟩
    let t : State := { main := Number.ofBool (decide (Hash.hash160 top = hash)) :: rest, opCount := 2 }
    have hexec : execute (.withDefaults time checker) (Script.payToScriptHash hash).chunks
        { main := s.main } = .ok t := execute_payToScriptHash_eq_ok.2 ⟨top, rest, hmain, rfl⟩
    exact ⟨t, hexec, rfl, (State.endsTrue_of_ofBool rfl).2 (decide_eq_true hsame)⟩

/-! ## The redeem script -/

theorem takeRedeem_eq_ok {saved : Stack} {redeem : Script} :
    takeRedeem saved s = .ok (redeem, t) ↔
      ∃ top rest, saved = top :: rest ∧ Script.parse top = .ok redeem ∧
        t = { s.cleared with main := rest } := by
  cases saved with
  | nil => simp [takeRedeem, halt]
  | cons top rest =>
      cases hp : Script.parse top with
      | error e => simp [takeRedeem, hp, halt]
      | ok parsed =>
          have htake : takeRedeem (top :: rest) s =
              .ok (parsed, { s.cleared with main := rest }) := by
            simp [takeRedeem, hp]
          rw [htake]
          constructor
          · intro h
            cases h
            exact ⟨top, rest, rfl, hp, rfl⟩
          · intro h
            rcases h with ⟨_, _, ⟨⟩, hparsed, rfl⟩
            cases hp.symm.trans hparsed
            rfl

/-- Of the state before it, a script that runs to a true end sees the main stack and the open
branches. -/
theorem runToTrue_eq_ok_of_fresh_eq {u : State} (h : s.fresh = u.fresh) :
    runToTrue env script s = .ok t ↔ runToTrue env script u = .ok t := by
  rw [runToTrue_eq_ok, runToTrue_eq_ok, run_eq_ok, run_eq_ok, h]

theorem runRedeem_eq_ok {saved : Stack} :
    runRedeem env unlock saved s = .ok t ↔
      unlock.isDataOnly = true ∧ ∃ top rest redeem, saved = top :: rest ∧
        Script.parse top = .ok redeem ∧ runToTrue env redeem { main := rest } = .ok t := by
  unfold runRedeem
  by_cases hdata : unlock.isDataOnly = true
  · rw [if_pos hdata, bind_eq_ok]
    have hfresh : ∀ rest, State.fresh { s.cleared with main := rest } =
        State.fresh { main := rest } := fun _ => rfl
    constructor
    · intro h
      rcases h with ⟨⟨redeem, _⟩, htake, hrun⟩
      rcases takeRedeem_eq_ok.1 htake with ⟨top, rest, hsaved, hparse, rfl⟩
      exact ⟨hdata, top, rest, redeem, hsaved, hparse,
        (runToTrue_eq_ok_of_fresh_eq (hfresh rest)).1 hrun⟩
    · intro h
      rcases h with ⟨-, top, rest, redeem, hsaved, hparse, hrun⟩
      exact ⟨(redeem, _), takeRedeem_eq_ok.2 ⟨top, rest, hsaved, hparse, rfl⟩,
        (runToTrue_eq_ok_of_fresh_eq (hfresh rest)).2 hrun⟩
  · simp [hdata, halt]

theorem takeRedeem_ne_emptyStack {saved : Stack} {h : Halt VerifyError} (hs : saved ≠ [])
    (htake : takeRedeem saved s = .error h) : h.error ≠ .emptyStack := by
  cases saved with
  | nil => exact absurd rfl hs
  | cons top rest =>
      cases hp : Script.parse top with
      | error e =>
          simp only [takeRedeem, hp, halt, Except.error.injEq] at htake
          subst htake
          simp
      | ok parsed => simp [takeRedeem, hp] at htake

/-! ## The verdict -/

theorem accepts_payToScriptHash :
    Accepts (.withDefaults time checker) (Script.payToScriptHash hash) unlock ↔
      ∃ u top rest, run (.withDefaults time checker) unlock {} = .ok u ∧ u.main = top :: rest ∧
        Hash.hash160 top = hash ∧
        ((Env.withDefaults time checker).evaluatesRedeem = true →
          unlock.isDataOnly = true ∧ ∃ redeem t, Script.parse top = .ok redeem ∧
            runToTrue (.withDefaults time checker) redeem { main := rest } = .ok t) := by
  constructor
  · intro h
    rcases h with ⟨t, h⟩
    rcases verify_eq_ok.1 h with ⟨u, l, hu, hl, hredeem⟩
    obtain ⟨top, rest, hmain, hsame⟩ :=
      (runToTrue_payToScriptHash_iff (branches_of_run hu)).1 ⟨l, hl⟩
    refine ⟨u, top, rest, hu, hmain, hsame, fun hactive => ?_⟩
    rw [hactive, Script.isPayToScriptHash_payToScriptHash, Bool.and_self, if_pos rfl, hmain]
      at hredeem
    rcases runRedeem_eq_ok.1 hredeem with ⟨hdata, _, _, redeem, ⟨⟩, hparse, hrun⟩
    exact ⟨hdata, redeem, t, hparse, hrun⟩
  · intro h
    rcases h with ⟨u, top, rest, hu, hmain, hsame, hredeem⟩
    obtain ⟨l, hl⟩ :=
      (runToTrue_payToScriptHash_iff (branches_of_run hu)).2 ⟨top, rest, hmain, hsame⟩
    cases hactive : (Env.withDefaults time checker).evaluatesRedeem with
    | false =>
        refine ⟨l, verify_eq_ok.2 ⟨u, l, hu, hl, ?_⟩⟩
        rw [hactive]
        rfl
    | true =>
        rcases hredeem hactive with ⟨hdata, redeem, t, hparse, hrun⟩
        refine ⟨t, verify_eq_ok.2 ⟨u, l, hu, hl, ?_⟩⟩
        rw [hactive, Script.isPayToScriptHash_payToScriptHash, Bool.and_self, if_pos rfl]
        exact runRedeem_eq_ok.2 ⟨hdata, top, rest, redeem, hmain, hparse, hrun⟩

/-- An output that pays to a script hash, before and after redeem scripts are evaluated. The last
part says that the redeem script is looked for only where there is one. -/
theorem accepts_payToScriptHash_iff_redeemed (hash : Digest 20) (unlock : Script)
    (checker : Option Checker) (time : UInt32) :
    let env := Env.withDefaults time checker
    let lock := Script.payToScriptHash hash
    (env.evaluatesRedeem = true →
      (Accepts env lock unlock ↔
        unlock.isDataOnly = true ∧ ∃ u top rest redeem t, run env unlock {} = .ok u ∧
          u.main = top :: rest ∧ Hash.hash160 top = hash ∧ Script.parse top = .ok redeem ∧
          run env redeem { main := rest } = .ok t ∧ t.EndsTrue)) ∧
    (env.evaluatesRedeem = false →
      (Accepts env lock unlock ↔
        ∃ u top rest, run env unlock {} = .ok u ∧ u.main = top :: rest ∧
          Hash.hash160 top = hash)) ∧
    (¬ Accepts env lock unlock → ∃ h, verify env lock unlock {} = .error h) ∧
    (∀ u l h, run env unlock {} = .ok u → runToTrue env lock u = .ok l →
      takeRedeem u.main l = .error h → h.error ≠ .emptyStack) := by
  intro env lock
  refine ⟨fun hactive => ?_, fun hinactive => ?_, not_accepts_iff.1, ?_⟩
  · rw [accepts_payToScriptHash]
    constructor
    · intro h
      rcases h with ⟨u, top, rest, hu, hmain, hsame, hredeem⟩
      rcases hredeem hactive with ⟨hdata, redeem, t, hparse, hrun⟩
      rcases runToTrue_eq_ok.1 hrun with ⟨hrun, hends⟩
      exact ⟨hdata, u, top, rest, redeem, t, hu, hmain, hsame, hparse, hrun, hends⟩
    · intro h
      rcases h with ⟨hdata, u, top, rest, redeem, t, hu, hmain, hsame, hparse, hrun, hends⟩
      exact ⟨u, top, rest, hu, hmain, hsame, fun _ =>
        ⟨hdata, redeem, t, hparse, runToTrue_eq_ok.2 ⟨hrun, hends⟩⟩⟩
  · rw [accepts_payToScriptHash]
    constructor
    · intro h
      rcases h with ⟨u, top, rest, hu, hmain, hsame, -⟩
      exact ⟨u, top, rest, hu, hmain, hsame⟩
    · intro h
      rcases h with ⟨u, top, rest, hu, hmain, hsame⟩
      refine ⟨u, top, rest, hu, hmain, hsame, fun hactive => ?_⟩
      rw [show (Env.withDefaults time checker).evaluatesRedeem = false from hinactive] at hactive
      cases hactive
  · intro u l h hu hl htake
    rcases (runToTrue_payToScriptHash_iff (branches_of_run hu)).1 ⟨l, hl⟩ with ⟨top, rest, hmain, -⟩
    exact takeRedeem_ne_emptyStack (by simp [hmain]) htake

/-- Two summands and a redeem script that adds them and compares with five: before and after redeem
scripts are evaluated, the output is spent. -/
theorem accepts_payToScriptHash_sum :
    let redeem : Bytes := [0x93, 0x55, 0x87]
    let unlock : Script := { chunks := [.op ⟨0x52⟩, .op ⟨0x53⟩, .pushMinimal redeem] }
    let lock := Script.payToScriptHash (Hash.hash160 redeem)
    Accepts (.withDefaults 0xffffffff none) lock unlock ∧
      Accepts (.withDefaults 0 none) lock unlock := by
  intro redeem unlock lock
  have hunlock : run (.withDefaults 0xffffffff none) unlock {} =
      .ok { main := [redeem, [3], [2]] } :=
    eq_ok_of_toOption (by decide +kernel)
  have hunlock₀ : run (.withDefaults 0 none) unlock {} = .ok { main := [redeem, [3], [2]] } :=
    eq_ok_of_toOption (by decide +kernel)
  let sum : Script := { chunks := [.op ⟨0x93⟩, .op ⟨0x55⟩, .op .equal] }
  have hparse : Script.parse redeem = .ok sum := eq_ok_of_toOption (by decide +kernel)
  have hredeem : run (.withDefaults 0xffffffff none) sum
      { main := [[3], [2]] } = .ok { main := [[1]], opCount := 2 } :=
    eq_ok_of_toOption (by decide +kernel)
  constructor
  · refine ((accepts_payToScriptHash_iff_redeemed _ unlock none 0xffffffff).1 (by decide)).2
      ⟨by decide, _, redeem, [[3], [2]], _, _, hunlock, rfl, rfl, hparse, hredeem, ?_⟩
    exact ⟨[1], [], rfl, by decide⟩
  · exact ((accepts_payToScriptHash_iff_redeemed _ unlock none 0).2.1 (by decide)).2
      ⟨_, redeem, [[3], [2]], hunlock₀, rfl, rfl⟩

end TxScript.Machine
