import TxScript.Proofs.Machine.Counting
import TxScript.Proofs.Machine.Verdict

/-!
# Wider limits

No result depends on a limit: a limit is only ever the greater side of a comparison that refuses.
So whatever runs to its end under some limits does so under wider ones too, with the same stacks and
the same count, and a spend that is accepted stays accepted.
-/

namespace TxScript

namespace Machine

/-- Everything allowed by the first configuration is allowed by the second one, and both evaluate
redeem scripts from the same time on. -/
structure Config.AtMost (c c' : Config) : Prop where
  maxScriptSize : c.maxScriptSize ≤ c'.maxScriptSize
  maxElementSize : c.maxElementSize ≤ c'.maxElementSize
  maxOps : c.maxOps ≤ c'.maxOps
  maxMultisigKeys : c.maxMultisigKeys ≤ c'.maxMultisigKeys
  monolith : c.monolith = true → c'.monolith = true
  p2shActivation : c.p2shActivation = c'.p2shActivation

/-- The same surroundings under another configuration. -/
def Env.withConfig (env : Env) (config : Config) : Env :=
  { env with config := config }

/-- Where the first computation succeeds, so does the second one, with the same result. -/
def Upholds {ε α : Type} (r r' : Except ε α) : Prop :=
  ∀ a, r = .ok a → r' = .ok a

namespace Upholds

variable {ε α β : Type}

theorem refl (r : Except ε α) : Upholds r r :=
  fun _ h => h

theorem of_error (e : ε) (r : Except ε α) : Upholds (.error e) r := by
  intro a h
  cases h

theorem bind {r r' : Except ε α} {k k' : α → Except ε β} (h : Upholds r r')
    (hk : ∀ a, Upholds (k a) (k' a)) : Upholds (r >>= k) (r' >>= k') := by
  intro b hb
  obtain ⟨a, ha, hrest⟩ := bind_eq_ok.1 hb
  exact bind_eq_ok.2 ⟨a, h a ha, hk a b hrest⟩

/-- A computation behind a limit that refuses. -/
theorem guard {p p' : Prop} [Decidable p] [Decidable p'] {e e' : ε} {r r' : Except ε α}
    (hp : p' → p) (h : Upholds r r') :
    Upholds (if p then .error e else r) (if p' then .error e' else r') := by
  by_cases hrefused : p
  · rw [if_pos hrefused]
    exact of_error e _
  · rw [if_neg hrefused, if_neg (mt hp hrefused)]
    exact h

end Upholds

variable {limit limit' : Nat} {stack : Stack}

theorem applyNumToBin_upholds (h : limit ≤ limit') :
    Upholds (applyNumToBin limit stack) (applyNumToBin limit' stack) := by
  match stack with
  | [] | [_] => exact .of_error _ _
  | size :: x :: rest =>
      unfold applyNumToBin
      dsimp only
      cases Number.operand? size with
      | none => exact .of_error _ _
      | some n => exact .guard (by omega) (.refl _)

end Machine

open Machine

/-- Of the operations on the main stack, two make elements of a length that is bounded. -/
theorem StackOp.apply_upholds {limit limit' : Nat} (h : limit ≤ limit') (op : StackOp)
    (stack : Stack) : Upholds (op.apply limit stack) (op.apply limit' stack) := by
  cases op with
  | cat =>
      match stack with
      | [] | [_] => exact .of_error _ _
      | x₂ :: x₁ :: rest => exact .guard (by omega) (.refl _)
  | numToBin => exact applyNumToBin_upholds h
  | _ => exact .refl _

/-- What is enabled by the first configuration is enabled by the second one. -/
theorem Opcode.isDisabled_of_atMost {c c' : Config} (h : c.AtMost c') {op : Opcode}
    (hop : op.isDisabled c'.monolith = true) : op.isDisabled c.monolith = true := by
  unfold isDisabled at hop ⊢
  cases ha : op.availability with
  | always => simp [ha] at hop
  | never => rfl
  | monolith =>
      simp only [ha, Bool.not_eq_true'] at hop ⊢
      exact Bool.eq_false_iff.2 fun hon => by simp [h.monolith hon] at hop

namespace Machine

variable {env : Env} {c c' : Config} {s : State}

/-! ## Chunks -/

theorem pushData_upholds (h : c.AtMost c') (data : Bytes) :
    Upholds (s.pushData (env.withConfig c) data) (s.pushData (env.withConfig c') data) :=
  .guard (fun hlong => Nat.lt_of_le_of_lt h.maxElementSize hlong) (.refl _)

theorem countOps_upholds (h : c.AtMost c') (count : Nat) :
    Upholds (s.countOps (env.withConfig c) count) (s.countOps (env.withConfig c') count) :=
  .guard (fun hmany => Nat.lt_of_le_of_lt h.maxOps hmany) (.refl _)

theorem withMain_upholds {r r' : Except StackFault Stack} (h : Upholds r r') :
    Upholds (s.withMain r) (s.withMain r') := by
  intro t ht
  obtain ⟨main, hmain, rfl⟩ := withMain_eq_ok.1 ht
  exact withMain_eq_ok.2 ⟨main, h main hmain, rfl⟩

theorem onMain_upholds {α : Type} {r r' : Except StackFault α} (h : Upholds r r') :
    Upholds (s.onMain r) (s.onMain r') := by
  cases r with
  | error fault => exact .of_error _ _
  | ok a =>
      rw [h a rfl]
      exact .refl _

/-- A count that is allowed under the smaller bound is the same under the greater one. -/
theorem readCount_upholds {bound bound' : Nat} (h : bound ≤ bound') (fault : Int → ExecError)
    (stack : Stack) : Upholds (readCount bound fault stack) (readCount bound' fault stack) := by
  cases stack with
  | nil => exact .of_error _ _
  | cons top rest =>
      unfold readCount
      dsimp only
      cases Number.operand? top with
      | none => exact .of_error _ _
      | some n => exact .guard (by omega) (.refl _)

theorem checkMultisig_upholds (h : c.AtMost c') (verify : Bool) :
    Upholds (checkMultisig (env.withConfig c) verify s) (checkMultisig (env.withConfig c') verify s) := by
  rw [checkMultisig_eq, checkMultisig_eq]
  refine (onMain_upholds (readCount_upholds h.maxMultisigKeys _ _)).bind fun keyCount => ?_
  exact (countOps_upholds h keyCount).bind fun t => .refl _

theorem perform_upholds (h : c.AtMost c') (op : Opcode) :
    Upholds (perform (env.withConfig c) op s) (perform (env.withConfig c') op s) := by
  unfold perform
  cases op.operation with
  | stack f => exact withMain_upholds (f.apply_upholds h.maxElementSize s.main)
  | checkMultisig verify => exact checkMultisig_upholds h verify
  | _ => exact .refl _

theorem stepCounted_upholds (h : c.AtMost c') (op : Opcode) :
    Upholds (stepCounted (env.withConfig c) op s) (stepCounted (env.withConfig c') op s) := by
  refine .guard (Opcode.isDisabled_of_atMost h) ?_
  split
  · exact .refl _
  · exact perform_upholds h op

theorem step_upholds (h : c.AtMost c') (chunk : Chunk) :
    Upholds (step (env.withConfig c) s chunk) (step (env.withConfig c') s chunk) := by
  cases chunk with
  | push enc data =>
      simp only [step]
      split
      · exact pushData_upholds h data
      · exact .refl _
  | op op =>
      have hcount : Upholds (countOpcode (env.withConfig c) op s) (countOpcode (env.withConfig c') op s) := by
        unfold countOpcode
        split
        · exact countOps_upholds h 1
        · exact .refl _
      exact hcount.bind fun t => stepCounted_upholds h op

/-! ## Scripts -/

theorem execute_upholds (h : c.AtMost c') (cs : List Chunk) :
    Upholds (execute (env.withConfig c) cs s) (execute (env.withConfig c') cs s) := by
  induction cs generalizing s with
  | nil => exact .refl _
  | cons chunk rest ih => exact (step_upholds h chunk).bind fun t => ih

theorem run_upholds (h : c.AtMost c') (script : Script) :
    Upholds (run (env.withConfig c) script s) (run (env.withConfig c') script s) :=
  .guard (fun hlarge => Nat.lt_of_le_of_lt h.maxScriptSize hlarge)
    ((execute_upholds h script.chunks).bind fun _ => .refl _)

theorem verifying_upholds {r r' : Outcome ExecError State} (h : Upholds r r') :
    Upholds (verifying r) (verifying r') :=
  fun t ht => verifying_eq_ok.2 (h t (verifying_eq_ok.1 ht))

theorem runToTrue_upholds (h : c.AtMost c') (script : Script) :
    Upholds (runToTrue (env.withConfig c) script s) (runToTrue (env.withConfig c') script s) :=
  (verifying_upholds (run_upholds h script)).bind fun _ => .refl _

theorem runRedeem_upholds (h : c.AtMost c') (unlock : Script) (saved : Stack) :
    Upholds (runRedeem (env.withConfig c) unlock saved s) (runRedeem (env.withConfig c') unlock saved s) := by
  unfold runRedeem
  split
  · exact (Upholds.refl _).bind fun taken => runToTrue_upholds h taken.1
  · exact .refl _

theorem evaluatesRedeem_eq (h : c.AtMost c') :
    (env.withConfig c).evaluatesRedeem = (env.withConfig c').evaluatesRedeem := by
  unfold Env.evaluatesRedeem Env.withConfig
  rw [h.p2shActivation]

theorem verify_upholds (h : c.AtMost c') (lock unlock : Script) :
    Upholds (verify (env.withConfig c) lock unlock s) (verify (env.withConfig c') lock unlock s) := by
  unfold verify
  refine (verifying_upholds (run_upholds h unlock)).bind fun unlocked => ?_
  refine (runToTrue_upholds h lock).bind fun locked => ?_
  rw [evaluatesRedeem_eq h]
  split
  · exact runRedeem_upholds h unlock unlocked.main
  · exact .refl _

/-- A script that runs to its end does the same under wider limits, from every state. A spend that
is accepted is accepted under wider limits, at every time and whatever its transaction answers. -/
theorem run_and_verify_of_atMost {c c' : Config} (h : c.AtMost c') (env : Env) :
    (∀ (script : Script) (s t : State),
      run (env.withConfig c) script s = .ok t → run (env.withConfig c') script s = .ok t) ∧
    (∀ (lock unlock : Script) (s t : State),
      verify (env.withConfig c) lock unlock s = .ok t →
        verify (env.withConfig c') lock unlock s = .ok t) :=
  ⟨fun script _ t => run_upholds h script t, fun lock unlock _ t => verify_upholds h lock unlock t⟩

/-- A spend through a redeem script, under limits that are all reached and under the default ones. -/
theorem run_and_verify_at_all_limits :
    let tight : Config :=
      { maxScriptSize := 23, maxElementSize := 20, maxOps := 2, maxMultisigKeys := 1,
        monolith := false }
    let env : Env := { checker := some ⟨fun _ key => .ok (key == [3]), 0, 2, 0⟩ }
    let redeem : Bytes := [0x51, 0x01, 0x03, 0x51, 0xae]
    let unlock : Script := { chunks := [.pushMinimal [], .pushMinimal [9], .pushMinimal redeem] }
    let lock := Script.payToScriptHash (Hash.hash160 redeem)
    tight.AtMost {} ∧
      (run (env.withConfig tight) unlock {} = .ok { main := [redeem, [9], []] } ∧
        run (env.withConfig {}) unlock {} = .ok { main := [redeem, [9], []] }) ∧
      verify (env.withConfig tight) lock unlock {} = .ok { main := [[1]], opCount := 2 } ∧
        verify (env.withConfig {}) lock unlock {} = .ok { main := [[1]], opCount := 2 } := by
  intro tight env redeem unlock lock
  have hlimits : tight.AtMost {} := ⟨by decide, by decide, by decide, by decide, nofun, rfl⟩
  have hrun : run (env.withConfig tight) unlock {} = .ok { main := [redeem, [9], []] } :=
    eq_ok_of_toOption (by decide +kernel)
  have hverify : verify (env.withConfig tight) lock unlock {} =
      .ok { main := [[1]], opCount := 2 } :=
    eq_ok_of_toOption (by decide +kernel)
  obtain ⟨hruns, hverifies⟩ := run_and_verify_of_atMost hlimits env
  exact ⟨hlimits, ⟨hrun, hruns unlock {} _ hrun⟩, hverify, hverifies lock unlock {} _ hverify⟩

end Machine

end TxScript
