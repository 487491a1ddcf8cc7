import TxScript.Proofs.Machine.Heights
import TxScript.Proofs.Machine.PayToScriptHash
import TxScript.Proofs.Machine.StackBounds
import TxScript.Proofs.Script.Pushes

/-!
# The limit on the size of elements

A chunk keeps elements within the limit on their size, on both stacks and whether it succeeds or
fails, as long as the stacks are not so high that their height itself is too long a number. A chunk
adds three elements at most, and every chunk takes a byte of its script, so no script comes near to
that.
-/

namespace TxScript

/-- Every chunk takes a byte at least. -/
theorem Script.length_chunks_le (script : Script) : script.chunks.length ≤ script.size := by
  rw [Script.size, Script.bytes]
  induction script.chunks with
  | nil => exact Nat.zero_le _
  | cons c rest ih =>
      have hc := c.size_pos
      rw [encodeChunks_cons, List.length_append, List.length_cons, c.length_encode]
      omega

namespace Machine

variable {limit : Nat} {env : Env} {s t u start : State} {op : Opcode} {c : Chunk}
  {script lock unlock : Script}

/-! ## Chunks -/

/-- Elements of bounded size only, on both stacks. -/
structure State.Fits (limit : Nat) (s : State) : Prop where
  main : Machine.Fits limit s.main
  alt : Machine.Fits limit s.alt

theorem Makes.fits {r : Except StackFault Stack} (h : Makes limit r) (hs : s.Fits limit)
    (ht : s.withMain r = .ok t) : t.Fits limit := by
  obtain ⟨main, rfl, rfl⟩ := withMain_eq_ok.1 ht
  cases h with
  | ok fits => exact ⟨fits, hs.alt⟩

theorem openBranch_fits {negated : Bool} (hs : s.Fits limit) (h : openBranch negated s = .ok t) :
    t.Fits limit := by
  unfold openBranch at h
  split at h
  · split at h
    · cases h
    · rename_i top rest hmain
      cases h
      exact ⟨(fits_cons.1 (hmain ▸ hs.main)).2, hs.alt⟩
  · cases h
    exact ⟨hs.main, hs.alt⟩

theorem turnBranch_fits (hs : s.Fits limit) (h : turnBranch s = .ok t) : t.Fits limit := by
  unfold turnBranch at h
  split at h
  · cases h
  · cases h
    exact ⟨hs.main, hs.alt⟩

theorem closeBranch_fits (hs : s.Fits limit) (h : closeBranch s = .ok t) : t.Fits limit := by
  unfold closeBranch at h
  split at h
  · cases h
  · cases h
    exact ⟨hs.main, hs.alt⟩

/-- What is put aside is no longer than it was. -/
theorem toAlt_fits (hs : s.Fits limit) (h : toAlt s = .ok t) : t.Fits limit := by
  unfold toAlt at h
  split at h
  · cases h
  · rename_i top rest hmain
    cases h
    obtain ⟨htop, hrest⟩ := fits_cons.1 (hmain ▸ hs.main)
    exact ⟨hrest, fits_cons.2 ⟨htop, hs.alt⟩⟩

theorem fromAlt_fits (hs : s.Fits limit) (h : fromAlt s = .ok t) : t.Fits limit := by
  unfold fromAlt at h
  split at h
  · cases h
  · rename_i top rest halt
    cases h
    obtain ⟨htop, hrest⟩ := fits_cons.1 (halt ▸ hs.alt)
    exact ⟨fits_cons.2 ⟨htop, hs.main⟩, hrest⟩

theorem tested_fits {r : Except ExecError Unit} (hs : s.Fits limit) (h : s.tested r = .ok t) :
    t.Fits limit := by
  cases r with
  | error e => cases h
  | ok a =>
      cases h
      exact hs

theorem checkMultisig_fits {verify : Bool} (hlimit : 32 ≤ limit) (hs : s.Fits limit)
    (h : checkMultisig env verify s = .ok t) : t.Fits limit := by
  rw [checkMultisig_eq] at h
  obtain ⟨keyCount, -, h⟩ := bind_eq_ok.1 h
  obtain ⟨m, hm, h⟩ := bind_eq_ok.1 h
  obtain rfl := eq_plus_of_countOps hm
  have hmade : Makes limit (checkGroups env verify keyCount s.main) :=
    checkGroups_makes hlimit hs.main verify keyCount
  exact hmade.fits (s := s.plus keyCount) ⟨hs.main, hs.alt⟩ h

theorem perform_fits (hlimit : 32 ≤ env.config.maxElementSize)
    (hs : s.Fits env.config.maxElementSize) (hheight : s.height < LittleEndian.limit 31)
    (h : perform env op s = .ok t) : t.Fits env.config.maxElementSize := by
  have hmodest := op.isModest_operation
  unfold perform at h
  generalize op.operation = operation at h hmodest
  cases operation with
  | stack f =>
      have hmain : s.main.length < LittleEndian.limit 31 :=
        Nat.lt_of_le_of_lt (Nat.le_add_right _ _) hheight
      exact (f.apply_makes hlimit hs.main hmain hmodest).fits hs h
  | nop =>
      cases h
      exact hs
  | openBranch negated => exact openBranch_fits hs h
  | otherwise => exact turnBranch_fits hs h
  | closeBranch => exact closeBranch_fits hs h
  | toAlt => exact toAlt_fits hs h
  | fromAlt => exact fromAlt_fits hs h
  | checkSig verify => exact (checkSig_makes hlimit hs.main verify).fits hs h
  | checkMultisig verify => exact checkMultisig_fits hlimit hs h
  | checkLockTime => exact tested_fits hs h
  | checkSequence => exact tested_fits hs h
  | announce | disabled | reserved => cases h

theorem stepCounted_fits (hlimit : 32 ≤ env.config.maxElementSize)
    (hs : s.Fits env.config.maxElementSize) (hheight : s.height < LittleEndian.limit 31)
    (h : stepCounted env op s = .ok t) : t.Fits env.config.maxElementSize := by
  unfold stepCounted at h
  split at h
  · cases h
  · split at h
    · cases h
      exact hs
    · exact perform_fits hlimit hs hheight h

theorem step_fits (hlimit : 32 ≤ env.config.maxElementSize)
    (hs : s.Fits env.config.maxElementSize) (hheight : s.height < LittleEndian.limit 31)
    (h : step env s c = .ok t) : t.Fits env.config.maxElementSize := by
  cases c with
  | push enc data =>
      simp only [step, State.pushData] at h
      split at h
      · split at h
        · cases h
        · rename_i hdata
          cases h
          exact ⟨fits_cons.2 ⟨Nat.not_lt.1 hdata, hs.main⟩, hs.alt⟩
      · cases h
        exact hs
  | op o =>
      obtain ⟨m, hm, h⟩ := bind_eq_ok.1 h
      rw [countOpcode_eq] at hm
      split at hm
      · cases hm
      · cases hm
        exact stepCounted_fits (s := s.plus (countedOps [.op o])) hlimit ⟨hs.main, hs.alt⟩ hheight h

/-- A chunk that fails leaves elements that were there and, at most, an empty answer. -/
theorem step_left_fits (hlimit : 32 ≤ env.config.maxElementSize)
    (hs : s.Fits env.config.maxElementSize) (hheight : s.height < LittleEndian.limit 31)
    (c : Chunk) : (step env s c).left.Fits env.config.maxElementSize := by
  have hspares : SparesState s (step env s c) := step_spares
  cases hstep : step env s c with
  | ok t => exact step_fits hlimit hs hheight hstep
  | error halted =>
      rw [hstep] at hspares
      cases hspares with
      | error _ hleft =>
          obtain ⟨kept, hkept, hmain⟩ := hleft.main
          have hfits : Machine.Fits env.config.maxElementSize kept := hs.main.mono hkept.subset
          refine ⟨?_, ?_⟩
          · show Machine.Fits _ halted.state.main
            rw [hmain]
            split
            · exact fits_cons.2 ⟨Nat.zero_le _, hfits⟩
            · exact hfits
          · show Machine.Fits _ halted.state.alt
            rw [hleft.alt]
            exact hs.alt

/-! ## Runs -/

/-- A row of chunks adds three elements for each of them at most. -/
theorem execute_fits (hlimit : 32 ≤ env.config.maxElementSize) {cs : List Chunk}
    (hs : s.Fits env.config.maxElementSize)
    (hroom : s.height + 3 * cs.length < LittleEndian.limit 31) (h : execute env cs s = .ok t) :
    t.Fits env.config.maxElementSize ∧ t.height ≤ s.height + 3 * cs.length := by
  -- What the first chunk adds to the height is what the rest of the row needs less of the room.
  induction cs generalizing s with
  | nil =>
      cases h
      exact ⟨hs, Nat.le_refl _⟩
  | cons c rest ih =>
      rw [List.length_cons] at hroom ⊢
      obtain ⟨m, hm, hrest⟩ := execute_cons_eq_ok.1 h
      have hfirst := step_fits hlimit hs (by omega) hm
      have hheight := height_step_le hm
      obtain ⟨hfits, hgrown⟩ := ih hfirst (by omega) hrest
      exact ⟨hfits, by omega⟩

theorem State.Fits.fresh {s : State} (hs : s.Fits limit) : s.fresh.Fits limit :=
  ⟨hs.main, fits_nil⟩

theorem State.height_fresh_le (s : State) : s.fresh.height ≤ s.height :=
  Nat.le_add_right _ _

section

variable (hlimit : 32 ≤ env.config.maxElementSize) (hs : s.Fits env.config.maxElementSize)
  (hroom : s.height + 3 * env.config.maxScriptSize < LittleEndian.limit 31)

include hlimit hs hroom

theorem run_fits (h : run env script s = .ok t) :
    t.Fits env.config.maxElementSize ∧ t.height ≤ s.height + 3 * env.config.maxScriptSize := by
  obtain ⟨hsize, hexec, -⟩ := run_eq_ok.1 h
  have hchunks := script.length_chunks_le
  have hfresh := s.height_fresh_le
  obtain ⟨hfits, hheight⟩ := execute_fits hlimit hs.fresh (by omega) hexec
  exact ⟨hfits, by omega⟩

/-- After every chunk of a run elements are of bounded size, also after the one that fails. -/
theorem TakesUp.fits {before : List Chunk} (h : TakesUp env script s before u c) :
    (step env u c).left.Fits env.config.maxElementSize := by
  have hsize := h.size_le
  have hchunks := script.length_chunks_le
  have hbefore := h.begins.length_le
  rw [List.length_append] at hbefore
  have hfresh := s.height_fresh_le
  obtain ⟨hfits, hheight⟩ := execute_fits hlimit hs.fresh (by omega) h.execute_before
  exact step_left_fits hlimit hfits (by omega) c

theorem run_left_fits (script : Script) :
    (run env script s).left.Fits env.config.maxElementSize := by
  rcases run_left env script s with hleft | hleft | ⟨before, u, c, htaken, hleft⟩
  · rw [hleft]
    exact hs
  · rw [hleft]
    exact hs.fresh
  · rw [hleft]
    exact htaken.fits hlimit hs hroom

/-! ## Verifications -/

/-- The element that is run as redeem script is within the limit, and the others are left to it. -/
theorem Redeems.fits {redeem : Script} (h : Redeems env lock unlock s redeem start) :
    redeem.size ≤ env.config.maxElementSize ∧ start.Fits env.config.maxElementSize ∧
      start.height ≤ s.height + 3 * env.config.maxScriptSize := by
  cases h with
  | intro hunlock _ _ _ htaken =>
      obtain ⟨top, rest, hmain, hparse, rfl⟩ := takeRedeem_eq_ok.1 htaken
      obtain ⟨hfits, hheight⟩ := run_fits hlimit hs hroom hunlock
      obtain ⟨htop, hrest⟩ := fits_cons.1 (hmain ▸ hfits.main)
      refine ⟨?_, ⟨hrest, fits_nil⟩, ?_⟩
      · rw [Script.size, Script.bytes_of_parse hparse]
        exact htop
      · rw [State.height, hmain, List.length_cons] at hheight
        show rest.length + 0 ≤ _
        omega

theorem Phase.fits (h : Phase env lock unlock s script start) :
    start.Fits env.config.maxElementSize ∧
      start.height ≤ s.height + 3 * env.config.maxScriptSize := by
  cases h with
  | unlocking => exact ⟨hs, Nat.le_add_right _ _⟩
  | locking hunlock => exact run_fits hlimit hs hroom hunlock
  | redeeming hredeem => exact (hredeem.fits hlimit hs hroom).2

end

/-- Where elements of thirty-two bytes are allowed, and all elements at first are within the limit,
they are so after every chunk of a run, and after every chunk of the up to three scripts of a
verification, whether the chunk succeeds or fails; and no redeem script is longer than the limit.
Sizes of scripts and heights of stacks are taken to be words of 64 bits. -/
theorem left_fits_of_run_and_verify (env : Env) (hlimit : 32 ≤ env.config.maxElementSize)
    (hwords : env.config.maxScriptSize < UInt64.size) {s : State}
    (hs : s.Fits env.config.maxElementSize) (hheight : s.height < UInt64.size) :
    (∀ script before u c, TakesUp env script s before u c →
      (step env u c).left.Fits env.config.maxElementSize) ∧
    (∀ script, (run env script s).left.Fits env.config.maxElementSize) ∧
    ∀ lock unlock,
      (∀ script start before u c, Phase env lock unlock s script start →
        TakesUp env script start before u c →
          (step env u c).left.Fits env.config.maxElementSize) ∧
      (verify env lock unlock s).left.Fits env.config.maxElementSize ∧
      ∀ redeem start, Redeems env lock unlock s redeem start →
        redeem.size ≤ env.config.maxElementSize := by
  -- Up to three scripts add to the height, which is still far from what takes thirty-two bytes.
  have hwide : 8 * UInt64.size ≤ LittleEndian.limit 31 := by decide
  have hroom : s.height + 3 * env.config.maxScriptSize < LittleEndian.limit 31 := by omega
  refine ⟨fun script before u c htaken => htaken.fits hlimit hs hroom,
    run_left_fits hlimit hs hroom, fun lock unlock => ⟨?_, ?_, ?_⟩⟩
  · intro script start before u c hphase htaken
    obtain ⟨hstart, hgrown⟩ := hphase.fits hlimit hs hroom
    exact htaken.fits hlimit hstart (by omega)
  · obtain ⟨script, start, hphase, hleft⟩ := verify_left env lock unlock s
    obtain ⟨hstart, hgrown⟩ := hphase.fits hlimit hs hroom
    rw [hleft]
    exact run_left_fits hlimit hstart (by omega) script
  · intro redeem start hredeems
    exact (hredeems.fits hlimit hs hroom).1

/-- A redeem script that asks for a digest to be put behind itself, under the smallest limit: the
concatenation is refused, and leaves both digests. -/
theorem left_fits_of_refused_concatenation :
    let env : Env := { config := { maxElementSize := 32 } }
    let redeem : Script := { chunks := [.op ⟨0xa8⟩, .op .dup, .op ⟨0x7e⟩] }
    let unlock : Script := { chunks := [.pushMinimal [9], .pushMinimal redeem.bytes] }
    let lock := Script.payToScriptHash (Hash.hash160 redeem.bytes)
    let start : State := { main := [[9]], opCount := 2 }
    let digest := (Hash.sha256 [9]).bytes
    let u : State := { main := [digest, digest], opCount := 2 }
    (32 ≤ env.config.maxElementSize ∧ env.config.maxScriptSize < UInt64.size ∧
      State.Fits 32 {} ∧ State.height {} < UInt64.size) ∧
    Redeems env lock unlock {} redeem start ∧ redeem.size ≤ 32 ∧
    TakesUp env redeem start [.op ⟨0xa8⟩, .op .dup] u (.op ⟨0x7e⟩) ∧
    step env u (.op ⟨0x7e⟩) = .error ⟨.resultTooLarge, { u with opCount := 3 }⟩ ∧
    (step env u (.op ⟨0x7e⟩)).left.Fits 32 ∧ (verify env lock unlock {}).left.Fits 32 := by
  intro env redeem unlock lock start digest u
  have hs : State.Fits 32 {} := ⟨fits_nil, fits_nil⟩
  have hunlock : run env unlock {} = .ok { main := [redeem.bytes, [9]] } :=
    eq_ok_of_toOption (by decide +kernel)
  have hlock : runToTrue env lock { main := [redeem.bytes, [9]] } =
      .ok { main := [[1], [9]], opCount := 2 } := eq_ok_of_toOption (by decide +kernel)
  have hredeems : Redeems env lock unlock {} redeem start :=
    .intro hunlock hlock (by decide +kernel) (by decide +kernel)
      (eq_ok_of_toOption (by decide +kernel))
  have htaken : TakesUp env redeem start [.op ⟨0xa8⟩, .op .dup] u (.op ⟨0x7e⟩) :=
    ⟨by decide +kernel, ⟨[], rfl⟩, eq_ok_of_toOption (by decide +kernel)⟩
  obtain ⟨-, -, hverify⟩ :=
    left_fits_of_run_and_verify env (by decide) (by decide) hs (by decide)
  obtain ⟨hchunks, hend, hsize⟩ := hverify lock unlock
  exact ⟨⟨by decide, by decide, hs, by decide⟩, hredeems, hsize redeem start hredeems, htaken,
    rfl, hchunks redeem start _ u _ (.redeeming hredeems) htaken, hend⟩

end Machine

end TxScript
