/-!
# Results of what may fail

How a result that is there says something about the steps that led to it.
-/

namespace TxScript

variable {ε ε' α β : Type} {r : Except ε α} {a : α}

/-- A chain of computations succeeds exactly when each of its links does. -/
theorem bind_eq_ok {k : α → Except ε β} {b : β} :
    (r >>= k) = .ok b ↔ ∃ a, r = .ok a ∧ k a = .ok b := by
  cases r with
  | error e => simp [bind, Except.bind]
  | ok a => simp [bind, Except.bind]

/-- What an error is called makes no difference to a result. -/
theorem mapError_eq_ok {f : ε → ε'} : r.mapError f = .ok a ↔ r = .ok a := by
  cases r with
  | error e =>
      show (.error (f e) : Except ε' α) = .ok a ↔ _
      simp
  | ok b =>
      show (.ok b : Except ε' α) = .ok a ↔ _
      simp

/-- Equality of options can be decided, so this is how a run on fixed input is evaluated. -/
theorem eq_ok_of_toOption (h : r.toOption = some a) : r = .ok a := by
  cases r with
  | error e => cases h
  | ok b =>
      cases h
      rfl

end TxScript
