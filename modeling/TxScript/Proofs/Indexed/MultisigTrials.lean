import TxScript.Proofs.Indexed.SignatureOps
import TxScript.Proofs.Machine.MultisigOperands

/-!
# The pairs that a check of signatures tries

The walk over a row of keys is followed pair by pair. It asks for one key after another, each at
most once and none that is not there, and nothing but the answers that it gets decides what it
finds.
-/

namespace TxScript.Indexed

open Machine

variable {check check' : Check} {signatures keys : List Bytes} {sig key : Nat}

/-- A signature and a key, by their positions in the rows. -/
structure Trial (signatures keys : List Bytes) where
  signature : Fin signatures.length
  key : Fin keys.length

/-- The walk with a record of the pairs that it tries. -/
def trialsFrom? (check : Check) (signatures keys : List Bytes) (sig key : Nat) :
    Option (List (Trial signatures keys) × Bool) :=
  if hsig : sig < signatures.length then
    if hkey : key < keys.length then do
      let answer ← check signatures[sig] keys[key]
      let next := nextSignature answer sig
      let keysLeft ← diff? keys.length (key + 1)
      let signaturesLeft ← diff? signatures.length next
      (if keysLeft < signaturesLeft then some ([], false)
        else trialsFrom? check signatures keys next (key + 1)).map
          fun later => (⟨⟨sig, hsig⟩, ⟨key, hkey⟩⟩ :: later.1, later.2)
    else none
  else some ([], true)
  termination_by keys.length - key

/-! ## One pair after another -/

theorem trialsFrom?_step (hsig : sig < signatures.length) (hkey : key < keys.length) :
    trialsFrom? check signatures keys sig key =
      (check signatures[sig] keys[key]).bind fun answer =>
        (if keys.length - (key + 1) < signatures.length - nextSignature answer sig then
          some ([], false)
        else trialsFrom? check signatures keys (nextSignature answer sig) (key + 1)).map
          fun later => (⟨⟨sig, hsig⟩, ⟨key, hkey⟩⟩ :: later.1, later.2) := by
  rw [trialsFrom?, dif_pos hsig, dif_pos hkey]
  simp only [Option.bind_eq_bind, Option.bind_some, diff?_of_le hkey,
    diff?_of_le (nextSignature_le hsig _)]

/-- Without the record it is the walk. -/
theorem map_snd_trialsFrom? :
    (trialsFrom? check signatures keys sig key).map Prod.snd
      = matchFrom? check signatures keys sig key := by
  induction hcount : keys.length - key using Nat.strongRecOn generalizing sig key with
  | ind count ih =>
      by_cases hsig : sig < signatures.length
      · by_cases hkey : key < keys.length
        · rw [trialsFrom?_step hsig hkey, matchFrom?_step hsig hkey, Option.map_bind]
          congr 1
          funext answer
          rw [Function.comp_apply, Option.map_map, apply_ite (Option.map _)]
          exact congrArg (ite _ _) (ih _ (by omega) rfl)
        · rw [trialsFrom?, matchFrom?, dif_pos hsig, if_pos hsig, dif_neg hkey, dif_neg hkey]
          rfl
      · rw [trialsFrom?, matchFrom?, dif_neg hsig, if_neg hsig]
        rfl

/-! ## Walks that end -/

/-- The pairs that are tried from two positions on, and what comes of it. -/
inductive Tries (check : Check) (signatures keys : List Bytes) :
    (sig key : Nat) → List (Trial signatures keys) → (valid : Bool) → Prop
  | done {sig key : Nat} (h : signatures.length ≤ sig) : Tries check signatures keys sig key [] true
  | giveUp {sig key : Nat} {answer : Except SignatureError Bool} (hsig : sig < signatures.length)
      (hkey : key < keys.length) (hanswer : check signatures[sig] keys[key] = some answer)
      (hfew : keys.length - (key + 1) < signatures.length - nextSignature answer sig) :
      Tries check signatures keys sig key [⟨⟨sig, hsig⟩, ⟨key, hkey⟩⟩] false
  | goOn {sig key : Nat} {answer : Except SignatureError Bool}
      {later : List (Trial signatures keys)} {valid : Bool} (hsig : sig < signatures.length)
      (hkey : key < keys.length) (hanswer : check signatures[sig] keys[key] = some answer)
      (henough : ¬ keys.length - (key + 1) < signatures.length - nextSignature answer sig)
      (hlater : Tries check signatures keys (nextSignature answer sig) (key + 1) later valid) :
      Tries check signatures keys sig key (⟨⟨sig, hsig⟩, ⟨key, hkey⟩⟩ :: later) valid

namespace Tries

variable {tried : List (Trial signatures keys)} {valid : Bool}

theorem of_trialsFrom? (h : trialsFrom? check signatures keys sig key = some (tried, valid)) :
    Tries check signatures keys sig key tried valid := by
  induction hcount : keys.length - key using Nat.strongRecOn generalizing sig key tried with
  | ind count ih =>
      by_cases hsig : sig < signatures.length
      · by_cases hkey : key < keys.length
        · rw [trialsFrom?_step hsig hkey] at h
          obtain ⟨answer, hanswer, h⟩ := Option.bind_eq_some_iff.1 h
          obtain ⟨later, hlater, h⟩ := Option.map_eq_some_iff.1 h
          cases h
          split at hlater
          · cases hlater
            exact .giveUp hsig hkey hanswer (by assumption)
          · exact .goOn hsig hkey hanswer (by assumption) (ih _ (by omega) hlater rfl)
        · rw [trialsFrom?, dif_pos hsig, dif_neg hkey] at h
          cases h
      · rw [trialsFrom?, dif_neg hsig] at h
        cases h
        exact .done (Nat.le_of_not_lt hsig)

theorem trialsFrom?_eq (h : Tries check signatures keys sig key tried valid) :
    trialsFrom? check signatures keys sig key = some (tried, valid) := by
  induction h with
  | done h => rw [trialsFrom?, dif_neg (Nat.not_lt.2 h)]
  | giveUp hsig hkey hanswer hfew =>
      rw [trialsFrom?_step hsig hkey, hanswer, Option.bind_some, if_pos hfew]
      rfl
  | goOn hsig hkey hanswer henough _ ih =>
      rw [trialsFrom?_step hsig hkey, hanswer, Option.bind_some, if_neg henough, ih]
      rfl

/-- The keys are tried one after another, with none left out and none tried again. -/
theorem map_key (h : Tries check signatures keys sig key tried valid) :
    tried.map (fun trial => (trial.key : Nat)) = List.range' key tried.length := by
  induction h with
  | done h => rfl
  | giveUp hsig hkey hanswer hfew => rfl
  | goOn hsig hkey hanswer henough _ ih =>
      rw [List.map_cons, ih, List.length_cons, List.range'_succ]

/-- The walk asks for nothing but the pairs in its record. -/
theorem congr (h : Tries check signatures keys sig key tried valid)
    (hagree : ∀ trial ∈ tried, check' signatures[trial.signature] keys[trial.key]
      = check signatures[trial.signature] keys[trial.key]) :
    Tries check' signatures keys sig key tried valid := by
  induction h with
  | done h => exact .done h
  | giveUp hsig hkey hanswer hfew =>
      exact .giveUp hsig hkey ((hagree _ (List.mem_cons_self ..)).trans hanswer) hfew
  | goOn hsig hkey hanswer henough _ ih =>
      exact .goOn hsig hkey ((hagree _ (List.mem_cons_self ..)).trans hanswer) henough
        (ih fun trial htrial => hagree trial (List.mem_cons_of_mem _ htrial))

end Tries

/-! ## The opcode -/

/-- Every pair has the answer of the checker. -/
def answersOf (c : Checker) : Check := fun signature key => some (c.check signature key)

/-- With no more signatures than keys the walk over both rows comes to an end, and what it finds is
what the check finds. -/
theorem exists_tries (c : Checker) (h : signatures.length ≤ keys.length) :
    ∃ tried, Tries (answersOf c) signatures keys 0 0 tried
      (matchSignatures c.holds signatures keys) := by
  have hwalk : matchFrom? (answersOf c) signatures keys 0 0
      = some (matchSignatures c.holds signatures keys) :=
    matchFrom?_eq (fun _ _ => rfl) (Nat.zero_le _) (Nat.zero_le _) h
  rw [← map_snd_trialsFrom?] at hwalk
  obtain ⟨⟨tried, valid⟩, hr, rfl⟩ := Option.map_eq_some_iff.1 hwalk
  exact ⟨tried, .of_trialsFrom? hr⟩

/-- A walk has but one result. -/
theorem Tries.unique {tried tried' : List (Trial signatures keys)} {valid valid' : Bool}
    (h : Tries check signatures keys sig key tried valid)
    (h' : Tries check signatures keys sig key tried' valid') : tried = tried' ∧ valid = valid' := by
  have hr := h.trialsFrom?_eq.symm.trans h'.trialsFrom?_eq
  rwa [Option.some_inj, Prod.mk.injEq] at hr

end TxScript.Indexed

namespace TxScript.Machine

open Indexed

variable {env : Env} {c : Checker} {s : State} {o : MultisigOperands}

theorem perform_eq_checked (ho : o.Fit env s) (hc : env.checker = some c) :
    perform env .checkMultisig s
      = .ok (o.checked (matchSignatures c.holds o.signatures o.keys) s) :=
  checkMultisig_eq_ok.2 ⟨o, c, ho, hc, rfl⟩

/-- The check of a row of signatures succeeds exactly on its operands. It counts the keys, tries
them in order and each at most once, and finds the signatures right when they belong to keys in the
order of the keys. Apart from the pairs that it tries nothing is asked of the checker. -/
theorem perform_checkMultisig (env : Env) (c : Checker) (s : State) (hc : env.checker = some c) :
    (∀ o : MultisigOperands, o.Fit env s →
      ∃ (tried : List (Trial o.signatures o.keys)) (valid : Bool),
        perform env .checkMultisig s = .ok (o.checked valid s) ∧
        trialsFrom? (answersOf c) o.signatures o.keys 0 0 = some (tried, valid) ∧
        tried.map (fun trial => (trial.key : Nat)) = List.range tried.length ∧
        (∀ c' : Checker,
          (∀ trial ∈ tried, c'.check o.signatures[trial.signature] o.keys[trial.key]
            = c.check o.signatures[trial.signature] o.keys[trial.key]) →
          perform { env with checker := some c' } .checkMultisig s
            = perform env .checkMultisig s) ∧
        (valid = true ↔
          ∃ place : Fin o.signatures.length → Fin o.keys.length, StrictMono place ∧
            ∀ j, c.check o.signatures[j] o.keys[place j] = .ok true)) ∧
    ((∀ o : MultisigOperands, ¬ o.Fit env s) →
      ∃ halted, perform env .checkMultisig s = .error halted) := by
  refine ⟨fun o ho => ?_, checkMultisig_eq_error⟩
  obtain ⟨tried, htries⟩ := exists_tries c ho.signatures_le
  refine ⟨tried, _, perform_eq_checked ho hc, htries.trialsFrom?_eq, ?_, fun c' hagree => ?_,
    matchSignatures_iff_placed⟩
  · rw [htries.map_key, List.range_eq_range']
  · have ho' : o.Fit { env with checker := some c' } s := { ho with }
    obtain ⟨tried', htries'⟩ := exists_tries c' ho.signatures_le
    have hsame : Tries (answersOf c') o.signatures o.keys 0 0 tried _ :=
      htries.congr fun trial htrial => congrArg some (hagree trial htrial)
    rw [perform_eq_checked ho' rfl, perform_eq_checked ho hc, (hsame.unique htries').2]

/-- Two of four keys, with a key that cannot be asked between them and one that stands twice. The
counts are spelled with zeros to spare. Without any operands the opcode fails. -/
theorem perform_checkMultisig_two_of_four :
    let c : Checker :=
      { check := fun signature key =>
          if key = [9] then .error (.invalidPublicKey "no key")
          else .ok (decide (signature = key))
        lockTime := 0
        version := 2
        sequence := 0 }
    let env : Env := { blockTime := 0, checker := some c }
    let o : MultisigOperands := ⟨[4, 0], [[1], [9], [2], [2]], [2, 0, 0], [[1], [2]], [7], [[5]]⟩
    perform env .checkMultisig { main := o.stack, opCount := 1 }
        = .ok { main := [[1], [5]], opCount := 5 } ∧
      ∃ halted, perform env .checkMultisig {} = .error halted := by
  intro c env o
  obtain ⟨tried, valid, hdone, -, -, -, hvalid⟩ :=
    (perform_checkMultisig env c { main := o.stack, opCount := 1 } rfl).1 o
      ⟨rfl, by decide, by decide, by decide, by decide, by decide⟩
  have htrue : valid = true := by
    refine hvalid.2 ⟨![0, 2], by decide, Fin.forall_fin_two.2 ⟨rfl, rfl⟩⟩
  rw [htrue] at hdone
  exact ⟨hdone, (perform_checkMultisig env c {} rfl).2 fun o ho => by cases ho.main_eq⟩

end TxScript.Machine
