import Mathlib.Data.Fin.VecNotation
import Mathlib.Data.List.NodupEquivFin
import TxScript.Machine.SignatureOps

/-!
# Matching signatures with keys

The matcher walks over the keys once and gives each signature the first key that fits. That is as
good as any choice: it succeeds exactly when the signatures belong to keys that stand in the same
order, which is the statement both with sublists and with positions.
-/

namespace TxScript.Machine

variable {valid : Bytes → Bytes → Bool} {signatures keys : List Bytes}

theorem Checker.holds_eq_true_iff {c : Checker} {signature key : Bytes} :
    c.holds signature key = true ↔ c.check signature key = .ok true := by
  unfold Checker.holds
  cases c.check signature key <;> simp

/-- Each signature belongs to the chosen key in its place. -/
abbrev Belong (valid : Bytes → Bytes → Bool) (signatures chosen : List Bytes) : Prop :=
  List.Forall₂ (fun signature key => valid signature key = true) signatures chosen

theorem matchSignatures_iff_sublist :
    matchSignatures valid signatures keys = true ↔
      ∃ chosen, Belong valid signatures chosen ∧ chosen.Sublist keys := by
  fun_induction matchSignatures valid signatures keys with
  | case1 keys => simp
  | case2 signature signatures =>
      simp only [Bool.false_eq_true, List.sublist_nil, false_iff, not_exists]
      intro chosen h
      rcases h with ⟨hbelong, rfl⟩
      cases hbelong
  | case3 signature signatures key keys hvalid ih =>
      rw [ih]
      constructor
      · intro h
        rcases h with ⟨chosen, hbelong, hsub⟩
        exact ⟨key :: chosen, .cons hvalid hbelong, hsub.cons_cons key⟩
      · -- whatever key the first signature was given, the others stand behind this one
        intro h
        rcases h with ⟨_, hbelong, hsub⟩
        cases hbelong with
        | cons _ hrest => exact ⟨_, hrest, hsub.tail⟩
  | case4 signature signatures key keys hvalid ih =>
      rw [ih]
      constructor
      · intro h
        rcases h with ⟨chosen, hbelong, hsub⟩
        exact ⟨chosen, hbelong, hsub.cons key⟩
      · intro h
        rcases h with ⟨chosen, hbelong, hsub⟩
        refine ⟨chosen, hbelong, ?_⟩
        cases hsub with
        | cons _ hsub => exact hsub
        | cons_cons _ hsub =>
            cases hbelong with
            | cons hfirst _ => exact absurd hfirst hvalid

theorem matchSignatures_iff_strictMono {count : Nat} {signatures : Fin count → Bytes} :
    matchSignatures valid (List.ofFn signatures) keys = true ↔
      ∃ place : Fin count → Fin keys.length, StrictMono place ∧
        ∀ j, valid (signatures j) (keys.get (place j)) = true := by
  rw [matchSignatures_iff_sublist]
  constructor
  · intro h
    rcases h with ⟨chosen, hbelong, hsub⟩
    rcases List.forall₂_iff_get.1 hbelong with ⟨hlength, hget⟩
    rcases List.sublist_iff_exists_fin_orderEmbedding_get_eq.1 hsub with ⟨place, hplace⟩
    have hcount : count = chosen.length := by simpa using hlength
    refine ⟨fun j => place (j.cast hcount), fun i j hij => place.strictMono hij, fun j => ?_⟩
    rw [← hplace]
    simpa using hget j (by simp) (by omega)
  · intro h
    rcases h with ⟨place, hmono, hvalid⟩
    let chosen := List.ofFn fun j => keys.get (place j)
    have hcount : chosen.length = count := by simp [chosen]
    refine ⟨chosen, List.forall₂_iff_get.2 ⟨by simp [chosen], fun j h₁ h₂ => ?_⟩,
      List.sublist_iff_exists_fin_orderEmbedding_get_eq.2
        ⟨OrderEmbedding.ofStrictMono (fun j => place (j.cast hcount)) fun i j hij => hmono hij,
          fun j => ?_⟩⟩
    · simpa [chosen] using hvalid ⟨j, by omega⟩
    · simp [chosen]
      rfl

/-- The same with both rows as they are. -/
theorem matchSignatures_iff_placed {c : Checker} :
    matchSignatures c.holds signatures keys = true ↔
      ∃ place : Fin signatures.length → Fin keys.length, StrictMono place ∧
        ∀ j, c.check signatures[j] keys[place j] = .ok true := by
  have h := @matchSignatures_iff_strictMono c.holds keys _ signatures.get
  simp only [List.ofFn_get, Checker.holds_eq_true_iff] at h
  exact h

/-- The same for keys that are written out from something else. -/
theorem matchSignatures_map_iff_strictMono {κ : Type} {written : κ → Bytes} {count : Nat}
    {signatures : Fin count → Bytes} {keys : List κ} :
    matchSignatures valid (List.ofFn signatures) (keys.map written) = true ↔
      ∃ place : Fin count → Fin keys.length, StrictMono place ∧
        ∀ j, valid (signatures j) (written (keys.get (place j))) = true := by
  have hlength : (keys.map written).length = keys.length := List.length_map written
  rw [matchSignatures_iff_strictMono]
  constructor
  · intro h
    rcases h with ⟨place, hmono, hvalid⟩
    refine ⟨fun j => (place j).cast hlength, fun i j hij => hmono hij, fun j => ?_⟩
    simpa using hvalid j
  · intro h
    rcases h with ⟨place, hmono, hvalid⟩
    refine ⟨fun j => (place j).cast hlength.symm, fun i j hij => hmono hij, fun j => ?_⟩
    simpa using hvalid j

end TxScript.Machine
