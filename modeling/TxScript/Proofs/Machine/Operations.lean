import TxScript.Machine.SignatureOps

/-!
# When operations succeed

The operations that standard locking scripts are made of, each with the stacks on which it succeeds
and the stack that it leaves there.
-/

namespace TxScript

variable {limit : Nat} {stack main : Machine.Stack}

namespace StackOp

theorem apply_dup_eq_ok :
    (StackOp.dup 1).apply limit stack = .ok main ↔
      ∃ top rest, stack = top :: rest ∧ main = top :: top :: rest := by
  cases stack with
  | nil => simp [apply, Machine.missing]
  | cons top rest =>
      constructor
      · intro h
        cases h
        exact ⟨top, rest, rfl, rfl⟩
      · intro h
        rcases h with ⟨_, _, ⟨⟩, rfl⟩
        rfl

theorem apply_hash_eq_ok {op : HashOp} :
    (StackOp.hash op).apply limit stack = .ok main ↔
      ∃ top rest, stack = top :: rest ∧ main = op.eval top :: rest := by
  cases stack with
  | nil => simp [apply, Machine.missing]
  | cons top rest =>
      constructor
      · intro h
        cases h
        exact ⟨top, rest, rfl, rfl⟩
      · intro h
        rcases h with ⟨_, _, ⟨⟩, rfl⟩
        rfl

theorem apply_equal_eq_ok :
    StackOp.equal.apply limit stack = .ok main ↔
      ∃ b a rest, stack = b :: a :: rest ∧ main = Number.ofBool (decide (a = b)) :: rest := by
  match stack with
  | [] => simp [apply, Machine.applyEqual, Machine.missing]
  | [b] => simp [apply, Machine.applyEqual, Machine.missing]
  | b :: a :: rest =>
      constructor
      · intro h
        cases h
        exact ⟨b, a, rest, rfl, rfl⟩
      · intro h
        rcases h with ⟨_, _, _, ⟨⟩, rfl⟩
        rfl

/-- The two elements have to be equal, and are both taken off. -/
theorem apply_equalVerify_eq_ok :
    StackOp.equalVerify.apply limit stack = .ok main ↔ ∃ top, stack = top :: top :: main := by
  match stack with
  | [] => simp [apply, Machine.applyEqual, Machine.missing, bind, Except.bind]
  | [b] => simp [apply, Machine.applyEqual, Machine.missing, bind, Except.bind]
  | b :: a :: rest =>
      by_cases h : a = b
      · subst h
        simp [apply, Machine.applyEqual, Machine.verifyTop, bind, Except.bind]
      · constructor
        · intro hok
          simp [apply, Machine.applyEqual, Machine.verifyTop, bind, Except.bind, h] at hok
        · intro hsame
          rcases hsame with ⟨_, ⟨⟩⟩
          exact absurd rfl h

end StackOp

namespace Machine

/-- A signature has to be there, and the transaction has to answer for it. -/
theorem checkSig_eq_ok {env : Env} :
    checkSig env false stack = .ok main ↔
      ∃ key signature rest checker valid, stack = key :: signature :: rest ∧
        env.checker = some checker ∧ signature ≠ [] ∧
        checker.check signature key = .ok valid ∧ main = Number.ofBool valid :: rest := by
  match stack with
  | [] => simp [checkSig, missing]
  | [key] => simp [checkSig, missing]
  | key :: signature :: rest =>
      cases hc : env.checker with
      | none => simp [checkSig, hc]
      | some checker =>
          by_cases he : signature = []
          · simp [checkSig, hc, he]
          · cases hv : checker.check signature key with
            | error e => simp [checkSig, hc, he, hv]
            | ok valid =>
                have hcheck : checkSig env false (key :: signature :: rest) =
                    .ok (Number.ofBool valid :: rest) := by
                  simp [checkSig, hc, he, hv, pushCheck]
                constructor
                · intro hok
                  cases hcheck.symm.trans hok
                  exact ⟨key, signature, rest, checker, valid, rfl, rfl, he, hv, rfl⟩
                · intro hok
                  rcases hok with ⟨_, _, _, _, _, ⟨⟩, ⟨⟩, -, hvalid, rfl⟩
                  cases hv.symm.trans hvalid
                  exact hcheck

end Machine

end TxScript
