import Mathlib.Data.List.Forall2
import TxScript.Proofs.Machine.Branches
import TxScript.Proofs.Machine.PayToScriptHash
import TxScript.Proofs.Script.Pushes

/-!
# Pushes in other encodings

The length of a push can be spelled out in more than one way. A run sees the data and not the
encoding, and no encoding makes a push count as an operation; only the size of a script and the
exact form that pays to a script hash depend on it. Where these do not tell scripts apart, scripts
with the same opcodes and the same data do the same.
-/

namespace TxScript

/-- The same opcode, or pushes of the same data. -/
inductive Chunk.SameContent : Chunk → Chunk → Prop
  | op (o : Opcode) : SameContent (.op o) (.op o)
  | push (enc enc' : PushEncoding) (data : Bytes) :
    SameContent (.push enc data) (.push enc' data)

/-- The same row of chunks, but for the encodings of the pushes. -/
def Script.SameContent (script script' : Script) : Prop :=
  List.Forall₂ Chunk.SameContent script.chunks script'.chunks

/-! ## Constants -/

/-- However its length is spelled out, a push starts with a byte that is free. -/
theorem Chunk.isCounted_opcode (c : Chunk) : c.opcode.isCounted = c.isCounted := by
  cases c with
  | op o => rfl
  | push enc data => exact Opcode.isCounted_of_isPush (Chunk.isPush_opcode_push enc data)

theorem Chunk.SameContent.isCounted_opcode {c c' : Chunk} (h : c.SameContent c') :
    c.opcode.isCounted = c'.opcode.isCounted := by
  rw [Chunk.isCounted_opcode, Chunk.isCounted_opcode]
  cases h <;> rfl

theorem Script.SameContent.isDataOnly {script script' : Script} (h : script.SameContent script') :
    script.isDataOnly = script'.isDataOnly := by
  have hrow {cs cs' : List Chunk} (hcs : List.Forall₂ Chunk.SameContent cs cs') :
      cs.all (!·.opcode.isCounted) = cs'.all (!·.opcode.isCounted) := by
    induction hcs with
    | nil => rfl
    | cons hc _ ih => rw [List.all_cons, List.all_cons, hc.isCounted_opcode, ih]
  exact hrow h

namespace Machine

variable {env : Env} {s : State} {c c' : Chunk} {script script' lock lock' unlock unlock' : Script}

/-! ## Runs -/

theorem step_of_sameContent (h : c.SameContent c') : step env s c = step env s c' := by
  cases h <;> rfl

theorem execute_of_sameContent {cs cs' : List Chunk}
    (h : List.Forall₂ Chunk.SameContent cs cs') : execute env cs s = execute env cs' s := by
  induction h generalizing s with
  | nil => rfl
  | @cons c c' rest rest' hc _ ih =>
      rw [execute_cons, execute_cons, step_of_sameContent hc]
      exact congrArg (step env s c' >>= ·) (funext fun _ => ih)

theorem run_of_sameContent (h : script.SameContent script')
    (hsize : script.size ≤ env.config.maxScriptSize)
    (hsize' : script'.size ≤ env.config.maxScriptSize) :
    run env script s = run env script' s := by
  unfold run
  rw [if_neg (Nat.not_lt.2 hsize), if_neg (Nat.not_lt.2 hsize'), execute_of_sameContent h]

/-! ## A verification -/

/-- Unlocking scripts that differ in the encodings of their pushes only, and locking scripts that
do so too and are both or neither of the form that pays to a script hash: if the limit admits them
all, the verification of either pair ends alike, with the same state, and for the same reason if it
fails. -/
theorem verify_of_sameContent (env : Env) (s : State) (hlock : lock.SameContent lock')
    (hunlock : unlock.SameContent unlock')
    (hform : lock.isPayToScriptHash = lock'.isPayToScriptHash)
    (hsize : ∀ script ∈ [lock, lock', unlock, unlock'], script.size ≤ env.config.maxScriptSize) :
    verify env lock unlock s = verify env lock' unlock' s := by
  simp only [List.forall_mem_cons] at hsize
  obtain ⟨hlockSize, hlockSize', hunlockSize, hunlockSize', -⟩ := hsize
  have hlocking (u : State) : runToTrue env lock u = runToTrue env lock' u := by
    unfold runToTrue
    rw [run_of_sameContent hlock hlockSize hlockSize']
  have hredeem (saved : Stack) (u : State) :
      runRedeem env unlock saved u = runRedeem env unlock' saved u := by
    unfold runRedeem
    rw [hunlock.isDataOnly]
  unfold verify
  rw [run_of_sameContent hunlock hunlockSize hunlockSize']
  simp only [hlocking, hredeem, hform]

/-- The summands and the redeem script of a spend are pushed in longer ways, and the spend is
authorized as before. The hash in the locking script is another matter: pushed in any longer way it
is no longer that of a script to run. -/
theorem verify_of_longer_pushes :
    let env : Env := {}
    let redeem : Bytes := [0x93, 0x55, 0x87]
    let unlock : Script := { chunks := [.pushMinimal [2], .pushMinimal [3], .pushMinimal redeem] }
    let longer : Script :=
      { chunks := [.push .pushData1 [2], .push .pushData4 [3], .push .pushData2 redeem] }
    let lock (enc : PushEncoding) : Script :=
      { chunks := [.op .hash160, .push enc (Hash.hash160 redeem).bytes, .op .equal]
        canonical := by cases enc <;> decide +zetaReduce +kernel }
    (unlock.SameContent longer ∧ ∀ enc enc', (lock enc).SameContent (lock enc')) ∧
    (∀ enc, (lock enc).isPayToScriptHash = true ↔ enc = .implicit) ∧
    (∀ script ∈ [lock .pushData1, lock .pushData4, unlock, longer],
      script.size ≤ env.config.maxScriptSize) ∧
    verify env (lock .implicit) unlock {} = .ok { main := [[1]], opCount := 2 } ∧
    verify env (lock .implicit) longer {} = .ok { main := [[1]], opCount := 2 } ∧
    verify env (lock .pushData1) unlock {} = .ok { main := [[1], [3], [2]], opCount := 2 } ∧
    verify env (lock .pushData4) longer {} = .ok { main := [[1], [3], [2]], opCount := 2 } := by
  intro env redeem unlock longer lock
  have hunlock : unlock.SameContent longer :=
    .cons (.push ..) (.cons (.push ..) (.cons (.push ..) .nil))
  have hlock (enc enc' : PushEncoding) : (lock enc).SameContent (lock enc') :=
    .cons (.op _) (.cons (.push ..) (.cons (.op _) .nil))
  have hform (enc : PushEncoding) : (lock enc).isPayToScriptHash = true ↔ enc = .implicit := by
    cases enc <;> decide +kernel
  have hsizes : unlock.size ≤ 10000 ∧ longer.size ≤ 10000 ∧ ∀ enc, (lock enc).size ≤ 10000 := by
    refine ⟨by decide, by decide, fun enc => ?_⟩
    cases enc <;> decide +kernel
  obtain ⟨hunlockSize, hlongerSize, hlockSize⟩ := hsizes
  have hsize (enc enc' : PushEncoding) : ∀ script ∈ [lock enc, lock enc', unlock, longer],
      script.size ≤ env.config.maxScriptSize := by
    simp only [List.forall_mem_cons]
    exact ⟨hlockSize enc, hlockSize enc', hunlockSize, hlongerSize, nofun⟩
  have hredeemed : verify env (lock .implicit) unlock {} = .ok { main := [[1]], opCount := 2 } :=
    eq_ok_of_toOption (by decide +kernel)
  have hplain : verify env (lock .pushData1) unlock {} =
      .ok { main := [[1], [3], [2]], opCount := 2 } := eq_ok_of_toOption (by decide +kernel)
  refine ⟨⟨hunlock, hlock⟩, hform, hsize _ _, hredeemed, ?_, hplain, ?_⟩
  · rw [← verify_of_sameContent env {} (hlock .implicit .implicit) hunlock rfl (hsize _ _),
      hredeemed]
  · have hforms : (lock .pushData1).isPayToScriptHash = (lock .pushData4).isPayToScriptHash := by
      decide +kernel
    rw [← verify_of_sameContent env {} (hlock .pushData1 .pushData4) hunlock hforms (hsize _ _),
      hplain]

end Machine

end TxScript
