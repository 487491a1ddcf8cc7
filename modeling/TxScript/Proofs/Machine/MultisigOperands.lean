import TxScript.Proofs.Machine.Branches
import TxScript.Proofs.Machine.Counting
import TxScript.Proofs.Machine.Spelling

/-!
# The operands of a check of signatures

A check of a row of signatures against a row of keys takes both rows off the stack, each with its
length above it, and one element more from below them. It goes through exactly where the stack ends
in such operands and the keys have room in the count of operations. A length may be spelled in any
way that is short enough for an operand.
-/

namespace TxScript

namespace Machine

variable {env : Env} {s t : State} {main : Stack} {n : Nat}

/-! ## Counts and groups -/

theorem readCount_eq_ok {bound : Nat} {fault : Int → ExecError} :
    readCount bound fault main = .ok n ↔
      ∃ top rest, main = top :: rest ∧ Number.Spells top n ∧ n ≤ bound := by
  cases main with
  | nil => simp [readCount, missing]
  | cons top rest =>
      rw [readCount]
      cases hread : Number.operand? top with
      | none =>
          have hnone : ¬ Number.Spells top n := fun h => by
            rw [Number.operand?_eq_some_iff.2 h] at hread
            cases hread
          simp [hnone]
      | some m =>
          have hvalue : ∀ k, Number.Spells top k ↔ m = k := fun k => by
            rw [← Number.operand?_eq_some_iff, hread, Option.some_inj]
          dsimp only
          by_cases hrange : m < 0 ∨ bound < m
          · rw [if_pos hrange]
            simp only [reduceCtorEq, false_iff]
            intro h
            rcases h with ⟨_, _, hstack, hspells, hbound⟩
            cases hstack
            rw [hvalue] at hspells
            omega
          · rw [if_neg hrange]
            constructor
            · intro h
              cases h
              exact ⟨top, rest, rfl, (hvalue _).2 (by omega), by omega⟩
            · intro h
              rcases h with ⟨_, _, hstack, hspells, -⟩
              cases hstack
              rw [hvalue] at hspells
              subst hspells
              rfl

/-- A group comes off together with the count above it, if one more element lies below. -/
theorem takeGroup_eq_ok {group below : List Bytes} :
    takeGroup n main = .ok (group, below) ↔
      main.drop 1 = group ++ below ∧ group.length = n ∧ below ≠ [] := by
  unfold takeGroup
  generalize main.drop 1 = under
  dsimp only
  by_cases hlow : under.length < n + 1
  · rw [if_pos hlow]
    simp only [missing, reduceCtorEq, false_iff]
    intro h
    rcases h with ⟨rfl, rfl, hne⟩
    have hpos := List.length_pos_iff.2 hne
    rw [List.length_append] at hlow
    omega
  · rw [if_neg hlow]
    constructor
    · intro h
      cases h
      refine ⟨(List.take_append_drop n under).symm, by simp; omega, fun hnil => ?_⟩
      have hdrop := List.drop_eq_nil_iff.1 hnil
      omega
    · intro h
      rcases h with ⟨rfl, rfl, -⟩
      simp

theorem onMain_eq_ok {α : Type} {r : Except StackFault α} {a : α} :
    s.onMain r = .ok a ↔ r = .ok a := by
  cases r <;> simp [State.onMain]

theorem countOps_eq_ok : s.countOps env n = .ok t ↔
    s.opCount + n ≤ env.config.maxOps ∧ t = s.plus n := by
  rw [countOps_eq]
  by_cases h : env.config.maxOps < s.opCount + n
  · rw [if_pos h]
    simp [halt, Nat.not_le.2 h]
  · rw [if_neg h]
    simp [Nat.not_lt.1 h, eq_comm]

/-! ## The operands -/

/-- What a check of a row of signatures takes off the stack, and what lies below. Both rows are in
the order in which they were pushed. -/
structure MultisigOperands where
  keyCount : Bytes
  keys : List Bytes
  signatureCount : Bytes
  signatures : List Bytes
  dummy : Bytes
  rest : Stack

namespace MultisigOperands

/-- The stack with the operands on top. -/
def stack (o : MultisigOperands) : Stack :=
  o.keyCount :: (o.keys.reverse ++ o.signatureCount :: (o.signatures.reverse ++ o.dummy :: o.rest))

/-- The operands lie on the stack of a state, their counts are right, there are keys enough for the
signatures but not too many of them, and the count of operations has room for the keys. -/
structure Fit (o : MultisigOperands) (env : Env) (s : State) : Prop where
  main_eq : s.main = o.stack
  keyCount : Number.Spells o.keyCount o.keys.length
  signatureCount : Number.Spells o.signatureCount o.signatures.length
  signatures_le : o.signatures.length ≤ o.keys.length
  keys_le : o.keys.length ≤ env.config.maxMultisigKeys
  room : s.opCount + o.keys.length ≤ env.config.maxOps

/-- What a check leaves that has found the signatures right or wrong. -/
def checked (o : MultisigOperands) (valid : Bool) (s : State) : State :=
  { s with main := Number.ofBool valid :: o.rest, opCount := s.opCount + o.keys.length }

end MultisigOperands

/-- Once the keys are counted, the rest of the operands has to be in place, and there has to be
someone who can tell right signatures from wrong ones. -/
theorem checkGroups_eq_ok {top : Bytes} {after : Stack} :
    checkGroups env false n (top :: main) = .ok after ↔
      ∃ (o : MultisigOperands) (c : Checker), top :: main = o.stack ∧ o.keys.length = n ∧
        Number.Spells o.signatureCount o.signatures.length ∧ o.signatures.length ≤ n ∧
        env.checker = some c ∧
        after = Number.ofBool (matchSignatures c.holds o.signatures o.keys) :: o.rest := by
  unfold checkGroups
  simp only [bind_eq_ok, Prod.exists]
  constructor
  · intro h
    obtain ⟨keys, below, hkeys, _, hcount, signatures, under, hsignatures, h⟩ := h
    obtain ⟨hmain, rfl, -⟩ := takeGroup_eq_ok.1 hkeys
    obtain ⟨signatureCount, low, rfl, hspells, hle⟩ := readCount_eq_ok.1 hcount
    obtain ⟨hlow, rfl, hne⟩ := takeGroup_eq_ok.1 hsignatures
    obtain ⟨dummy, rest, rfl⟩ := List.exists_cons_of_ne_nil hne
    cases hc : env.checker with
    | none => simp [hc] at h
    | some c =>
        let o : MultisigOperands :=
          ⟨top, keys.reverse, signatureCount, signatures.reverse, dummy, rest⟩
        have hstack : top :: main = o.stack := by
          simp only [List.drop_succ_cons, List.drop_zero] at hmain hlow
          simp [o, MultisigOperands.stack, hmain, hlow]
        simp only [hc, List.drop_succ_cons, List.drop_zero, pushCheck, Bool.false_eq_true, if_false,
          Except.ok.injEq] at h
        exact ⟨o, c, hstack, List.length_reverse, by rwa [List.length_reverse],
          by rwa [List.length_reverse], rfl, h.symm⟩
  · intro h
    obtain ⟨o, c, hstack, rfl, hspells, hle, hc, rfl⟩ := h
    rw [hstack]
    have hkeys : takeGroup o.keys.length o.stack =
        .ok (o.keys.reverse, o.signatureCount :: (o.signatures.reverse ++ o.dummy :: o.rest)) := by
      simp [takeGroup_eq_ok, MultisigOperands.stack]
    have hsignatures : takeGroup o.signatures.length
        (o.signatureCount :: (o.signatures.reverse ++ o.dummy :: o.rest)) =
          .ok (o.signatures.reverse, o.dummy :: o.rest) := by
      simp [takeGroup_eq_ok]
    exact ⟨_, _, hkeys, _, readCount_eq_ok.2 ⟨_, _, rfl, hspells, hle⟩, _, _, hsignatures,
      by simp [hc, pushCheck]⟩

/-- The opcode succeeds exactly on its operands, and puts down whether the signatures match. -/
theorem checkMultisig_eq_ok :
    checkMultisig env false s = .ok t ↔
      ∃ (o : MultisigOperands) (c : Checker), o.Fit env s ∧ env.checker = some c ∧
        t = o.checked (matchSignatures c.holds o.signatures o.keys) s := by
  simp only [checkMultisig_eq, bind_eq_ok, onMain_eq_ok, countOps_eq_ok, withMain_eq_ok]
  constructor
  · intro h
    obtain ⟨_, hcount, _, ⟨hroom, rfl⟩, _, hgroups, rfl⟩ := h
    obtain ⟨top, below, hmain, hspells, hle⟩ := readCount_eq_ok.1 hcount
    rw [State.plus, hmain] at hgroups
    obtain ⟨o, c, hstack, rfl, hcount, hfew, hc, rfl⟩ := checkGroups_eq_ok.1 hgroups
    have htop : top = o.keyCount := (List.cons.inj hstack).1
    exact ⟨o, c, ⟨hmain.trans hstack, htop ▸ hspells, hcount, hfew, hle, hroom⟩, hc, rfl⟩
  · intro h
    obtain ⟨o, c, ho, hc, rfl⟩ := h
    refine ⟨_, readCount_eq_ok.2 ⟨_, _, ho.main_eq, ho.keyCount, ho.keys_le⟩, _, ⟨ho.room, rfl⟩, _,
      ?_, rfl⟩
    rw [State.plus, ho.main_eq]
    exact checkGroups_eq_ok.2
      ⟨o, c, rfl, rfl, ho.signatureCount, ho.signatures_le, hc, rfl⟩

/-- Where the operands are not in place the opcode fails. -/
theorem checkMultisig_eq_error (h : ∀ o : MultisigOperands, ¬ o.Fit env s) :
    ∃ halted, checkMultisig env false s = .error halted := by
  cases hdone : checkMultisig env false s with
  | error halted => exact ⟨halted, rfl⟩
  | ok t =>
      obtain ⟨o, -, ho, -⟩ := checkMultisig_eq_ok.1 hdone
      exact absurd ho (h o)

end Machine

end TxScript
