import TxScript.Proofs.Machine.Verdict
import TxScript.Proofs.Script.HashForms

/-!
# Paying to a public key hash

The locking script runs in five chunks on whatever the unlocking script left. It goes through
exactly when a key with the committed hash lies on top and a signature that can be read lies under
it, and it ends true exactly when that signature is one of the key. Nothing below the two is looked
at, and the second stack, the open branches and the count of the unlocking script are gone.
-/

namespace TxScript.Machine

variable {time : UInt32} {checker : Option Checker} {s t : State} {main : Stack}
  {hash : Digest 20}

/-- The first four chunks compare hashes, and leave the stack as it was. -/
theorem execute_compareHash_eq_ok :
    execute (.withDefaults time checker)
        [.op .dup, .op .hash160, .pushMinimal hash.bytes, .op .equalVerify] { main := main } =
        .ok t ↔
      ∃ key rest, main = key :: rest ∧ Hash.hash160 key = hash ∧
        t = { main := key :: rest, opCount := 3 } := by
  constructor
  · intro h
    rcases execute_cons_eq_ok.1 h with ⟨_, hdup, h⟩
    obtain ⟨key, rest, hmain, rfl⟩ :=
      (step_dup_eq_ok (admits_withDefaults (by decide) rfl (by simp))).1 hdup
    rcases execute_cons_eq_ok.1 h with ⟨_, hhash, h⟩
    obtain ⟨_, _, ⟨⟩, rfl⟩ :=
      (step_hash160_eq_ok
        (admits_withDefaults (by decide) rfl (by simp [State.counted]))).1 hhash
    rcases execute_cons_eq_ok.1 h with ⟨_, hpush, h⟩
    cases (step_pushHash rfl).symm.trans hpush
    rcases execute_cons_eq_ok.1 h with ⟨_, hequal, h⟩
    obtain ⟨top, _, hsame, rfl⟩ :=
      (step_equalVerify_eq_ok
        (admits_withDefaults (by decide) rfl (by simp [State.counted]))).1 hequal
    cases h
    simp only [List.cons.injEq] at hsame
    rcases hsame with ⟨htop, hkey, rfl⟩
    exact ⟨key, rest, hmain, Digest.ext (hkey.trans htop.symm), rfl⟩
  · intro h
    rcases h with ⟨key, rest, rfl, rfl, rfl⟩
    refine execute_cons_eq_ok.2 ⟨_, (step_dup_eq_ok (admits_withDefaults (by decide) rfl
      (by simp))).2 ⟨key, rest, rfl, rfl⟩, ?_⟩
    refine execute_cons_eq_ok.2 ⟨_, (step_hash160_eq_ok (admits_withDefaults (by decide) rfl
      (by simp [State.counted]))).2 ⟨key, key :: rest, rfl, rfl⟩, ?_⟩
    refine execute_cons_eq_ok.2 ⟨_, step_pushHash rfl, ?_⟩
    exact execute_cons_eq_ok.2 ⟨_, (step_equalVerify_eq_ok (admits_withDefaults (by decide) rfl
      (by simp [State.counted]))).2 ⟨_, _, rfl, rfl⟩, rfl⟩

theorem execute_payToPublicKeyHash_eq_ok :
    execute (.withDefaults time checker) (Script.payToPublicKeyHash hash).chunks
        { main := main } = .ok t ↔
      ∃ key signature rest c valid, main = key :: signature :: rest ∧
        Hash.hash160 key = hash ∧ checker = some c ∧ signature ≠ [] ∧
        c.check signature key = .ok valid ∧
        t = { main := Number.ofBool valid :: rest, opCount := 4 } := by
  have hsplit : (Script.payToPublicKeyHash hash).chunks =
      [.op .dup, .op .hash160, .pushMinimal hash.bytes, .op .equalVerify] ++ [.op .checkSig] := rfl
  rw [hsplit, execute_append_eq_ok]
  constructor
  · intro h
    rcases h with ⟨_, hcompare, h⟩
    rcases execute_compareHash_eq_ok.1 hcompare with ⟨key, below, rfl, hkey, rfl⟩
    rcases execute_cons_eq_ok.1 h with ⟨_, hcheck, h⟩
    obtain ⟨_, signature, rest, c, valid, ⟨⟩, hc, hne, hvalid, rfl⟩ :=
      (step_checkSig_eq_ok (admits_withDefaults (by decide) rfl (by simp))).1 hcheck
    cases h
    exact ⟨key, signature, rest, c, valid, rfl, hkey, hc, hne, hvalid, rfl⟩
  · intro h
    rcases h with ⟨key, signature, rest, c, valid, rfl, hkey, hc, hne, hvalid, rfl⟩
    refine ⟨_, execute_compareHash_eq_ok.2 ⟨key, signature :: rest, rfl, hkey, rfl⟩, ?_⟩
    exact execute_cons_eq_ok.2 ⟨_, (step_checkSig_eq_ok (admits_withDefaults (by decide) rfl
      (by simp))).2 ⟨key, signature, rest, c, valid, rfl, hc, hne, hvalid, rfl⟩, rfl⟩

/-- The locking script takes a state to a true end exactly when a key with the committed hash lies
on top and a signature of it lies right under it. -/
theorem runToTrue_payToPublicKeyHash_iff (hb : s.branches = []) :
    (∃ t, runToTrue (.withDefaults time checker) (Script.payToPublicKeyHash hash) s = .ok t) ↔
      ∃ key signature rest c, s.main = key :: signature :: rest ∧ Hash.hash160 key = hash ∧
        checker = some c ∧ signature ≠ [] ∧ c.check signature key = .ok true := by
  have hsize : (Script.payToPublicKeyHash hash).size ≤ 10000 := by
    rw [Script.size_payToPublicKeyHash]
    decide
  rw [exists_runToTrue_iff hb hsize]
  constructor
  · intro h
    rcases h with ⟨t, hexec, -, hends⟩
    obtain ⟨key, signature, rest, c, valid, hmain, hkey, hc, hne, hvalid, rfl⟩ :=
      execute_payToPublicKeyHash_eq_ok.1 hexec
    have htrue : valid = true := (State.endsTrue_of_ofBool rfl).1 hends
    exact ⟨key, signature, rest, c, hmain, hkey, hc, hne, by rw [hvalid, htrue]⟩
  · intro h
    rcases h with ⟨key, signature, rest, c, hmain, hkey, hc, hne, hvalid⟩
    let t : State := { main := Number.ofBool true :: rest, opCount := 4 }
    have hexec : execute (.withDefaults time checker) (Script.payToPublicKeyHash hash).chunks
        { main := s.main } = .ok t :=
      execute_payToPublicKeyHash_eq_ok.2
        ⟨key, signature, rest, c, true, hmain, hkey, hc, hne, hvalid, rfl⟩
    exact ⟨t, hexec, rfl, (State.endsTrue_of_ofBool rfl).2 rfl⟩

theorem isPayToScriptHash_payToPublicKeyHash :
    (Script.payToPublicKeyHash hash).isPayToScriptHash = false := rfl

theorem accepts_payToPublicKeyHash {unlock : Script} :
    Accepts (.withDefaults time checker) (Script.payToPublicKeyHash hash) unlock ↔
      ∃ u key signature rest c, run (.withDefaults time checker) unlock {} = .ok u ∧
        u.main = key :: signature :: rest ∧ Hash.hash160 key = hash ∧ checker = some c ∧
        signature ≠ [] ∧ c.check signature key = .ok true := by
  rw [accepts_iff_of_no_redeem (by rw [isPayToScriptHash_payToPublicKeyHash, Bool.and_false])
    fun _ => runToTrue_payToPublicKeyHash_iff]
  constructor
  · intro h
    rcases h with ⟨u, hu, key, signature, rest, c, hlock⟩
    exact ⟨u, key, signature, rest, c, hu, hlock⟩
  · intro h
    rcases h with ⟨u, key, signature, rest, c, hu, hlock⟩
    exact ⟨u, hu, key, signature, rest, c, hlock⟩

/-- An output that pays to a public key hash is spent by exactly those unlocking scripts that leave
a key with that hash on top of a signature of it. What else they leave does not matter. -/
theorem accepts_payToPublicKeyHash_iff_signed (hash : Digest 20) (unlock : Script) (c : Checker)
    (time : UInt32) :
    Accepts (.withDefaults time (some c)) (Script.payToPublicKeyHash hash) unlock ↔
      ∃ u key signature rest, run (.withDefaults time (some c)) unlock {} = .ok u ∧
        u.main = key :: signature :: rest ∧ Hash.hash160 key = hash ∧ signature ≠ [] ∧
        c.check signature key = .ok true := by
  rw [accepts_payToPublicKeyHash]
  constructor
  · intro h
    rcases h with ⟨u, key, signature, rest, _, hu, hmain, hkey, ⟨⟩, hne, hvalid⟩
    exact ⟨u, key, signature, rest, hu, hmain, hkey, hne, hvalid⟩
  · intro h
    rcases h with ⟨u, key, signature, rest, hu, hmain, hkey, hne, hvalid⟩
    exact ⟨u, key, signature, rest, c, hu, hmain, hkey, rfl, hne, hvalid⟩

/-- The key of the secret one, over the one signature that holds and an element that does not
matter. A signature that does not hold turns the same spend down. -/
theorem accepts_payToPublicKeyHash_generator :
    let key := Curve.PublicKey.generator.toBytes
    let lock := Script.payToPublicKeyHash (Hash.hash160 key)
    let c : Checker :=
      { check := fun signature _ => .ok (decide (signature = [9]))
        lockTime := 0
        version := 2
        sequence := 0 }
    let signed : Script := { chunks := [.pushMinimal [7], .pushMinimal [9], .pushMinimal key] }
    let forged : Script := { chunks := [.pushMinimal [7], .pushMinimal [8], .pushMinimal key] }
    Accepts (.withDefaults 0 (some c)) lock signed ∧
      ¬ Accepts (.withDefaults 0 (some c)) lock forged := by
  intro key lock c signed forged
  have hsigned : run (.withDefaults 0 (some c)) signed {} = .ok { main := [key, [9], [7]] } :=
    eq_ok_of_toOption (by decide +kernel)
  have hforged : run (.withDefaults 0 (some c)) forged {} = .ok { main := [key, [8], [7]] } :=
    eq_ok_of_toOption (by decide +kernel)
  constructor
  · rw [accepts_payToPublicKeyHash_iff_signed]
    exact ⟨_, key, [9], [[7]], hsigned, rfl, rfl, by decide, rfl⟩
  · rw [accepts_payToPublicKeyHash_iff_signed]
    rintro ⟨u, own, signature, rest, hu, hmain, -, -, hvalid⟩
    obtain rfl : _ = u := Except.ok.inj (hforged.symm.trans hu)
    obtain ⟨-, hbelow⟩ := List.cons.inj hmain
    obtain ⟨rfl, -⟩ := List.cons.inj hbelow
    cases hvalid

end TxScript.Machine
