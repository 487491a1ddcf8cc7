import TxScript.Proofs.Curve.PublicKey
import TxScript.Proofs.Script.Pushes
import TxScript.Script.Template

/-!
# The form of multisig scripts

A script is multisig when two opcodes of small numbers enclose as many pushes as the second one says,
the first one asks for one of them at least and for all of them at most, and the check of a row of
signatures is all that follows. Building makes such scripts, and reading them gives back the demands
that they were built from.
-/

namespace TxScript

variable {m n : Nat} {op : Opcode} {c : Chunk} {s : Script} {keys : List Curve.PublicKey}

/-! ## Small numbers -/

theorem Opcode.ofSmallInteger?_eq_some_iff (hn : n ≠ 0) :
    ofSmallInteger? n = some op ↔ n ≤ 16 ∧ op.byte.toNat = 0x50 + n := by
  rcases op with ⟨byte⟩
  unfold ofSmallInteger?
  rw [if_neg hn]
  by_cases hle : n ≤ 16
  · have hbyte : (UInt8.ofNat (0x50 + n)).toNat = 0x50 + n := by
      rw [UInt8.toNat_ofNat']
      omega
    simp only [hle, if_true, true_and, Option.some.injEq, mk.injEq, ← UInt8.toNat_inj, hbyte]
    exact eq_comm
  · simp [hle]

/-- Above zero, each small number has one opcode, and that is the one of no other number. -/
theorem Opcode.smallInteger?_eq_some_iff (hn : n ≠ 0) :
    op.smallInteger? = some n ↔ ofSmallInteger? n = some op := by
  rw [ofSmallInteger?_eq_some_iff hn]
  rcases op with ⟨byte⟩
  simp only [smallInteger?, zero, mk.injEq, UInt8.le_iff_toNat_le, ← UInt8.toNat_inj,
    UInt8.reduceToNat]
  by_cases hzero : byte.toNat = 0
  · simp only [hzero, if_true, Option.some.injEq]
    omega
  · by_cases hsmall : 0x51 ≤ byte.toNat ∧ byte.toNat ≤ 0x60
    · simp only [hzero, hsmall, and_self, if_true, if_false, Option.some.injEq]
      omega
    · simp only [hzero, hsmall, if_false, reduceCtorEq, false_iff]
      omega

namespace Script

/-! ## The places of a row -/

/-- A row that is taken apart at its first chunk and at its last two. -/
theorem eq_cons_append_pair {cs : List Chunk} {first a b : Chunk} (hlength : cs.length = n + 3)
    (hfirst : cs[0]? = some first) (ha : cs[n + 1]? = some a) (hb : cs[n + 2]? = some b) :
    cs = first :: (cs.drop 1).take n ++ [a, b] := by
  cases cs with
  | nil => cases hfirst
  | cons c rest =>
      have hrest : rest.length = n + 2 := Nat.succ.inj hlength
      rw [List.getElem?_cons_zero, Option.some.injEq] at hfirst
      rw [List.getElem?_cons_succ] at ha hb
      obtain ⟨hn, rfl⟩ := List.getElem?_eq_some_iff.1 ha
      obtain ⟨hn', rfl⟩ := List.getElem?_eq_some_iff.1 hb
      have hend : rest.drop n = [rest[n], rest[n + 1]] := by
        rw [List.drop_eq_getElem_cons hn, List.drop_eq_getElem_cons hn',
          List.drop_eq_nil_of_le (Nat.le_of_eq hrest)]
      rw [hfirst, List.drop_one, List.tail_cons, ← hend, List.cons_append, List.take_append_drop]

theorem multisigShape?_eq_some :
    s.multisigShape? = some (m, n) ↔
      4 ≤ s.chunks.length ∧ s.chunks[s.chunks.length - 1]? = some (.op .checkMultisig) ∧
      (∃ first, s.chunks[0]? = some first ∧ first.opcode.smallInteger? = some m) ∧
      (∃ last, s.chunks[s.chunks.length - 2]? = some last ∧ last.opcode.smallInteger? = some n) ∧
      (m ≠ 0 ∧ m ≤ n ∧ s.chunks.length = n + 3) ∧
      ∀ c ∈ (s.chunks.drop 1).take n, c.isPush = true := by
  unfold multisigShape?
  simp only [Option.bind_eq_bind, Option.bind_none, Option.ite_none_left_eq_some,
    Option.ite_none_right_eq_some, Option.bind_eq_some_iff, Option.some.injEq, Prod.mk.injEq,
    List.all_eq_true, not_or, Nat.not_lt, ne_eq, not_not]
  constructor
  · rintro ⟨⟨hlong, hcheck⟩, first, hfirst, m', hm, last, hlast, n', hn, hcounts, hpushes, rfl, rfl⟩
    exact ⟨hlong, hcheck, ⟨first, hfirst, hm⟩, ⟨last, hlast, hn⟩, hcounts, hpushes⟩
  · rintro ⟨hlong, hcheck, ⟨first, hfirst, hm⟩, ⟨last, hlast, hn⟩, hcounts, hpushes⟩
    exact ⟨⟨hlong, hcheck⟩, first, hfirst, m, hm, last, hlast, n, hn, hcounts, hpushes, rfl, rfl⟩

/-! ## The form -/

/-- The two counts, and the pushes between them. -/
structure IsMultisigOf (s : Script) (m n : Nat) (pushes : List Chunk) : Prop where
  required_pos : 1 ≤ m
  required_le : m ≤ n
  count_le : n ≤ 16
  length_pushes : pushes.length = n
  isPush : ∀ c ∈ pushes, c.isPush = true
  chunks : ∃ first last, Opcode.ofSmallInteger? m = some first ∧
    Opcode.ofSmallInteger? n = some last ∧
    s.chunks = .op first :: pushes ++ [.op last, .op .checkMultisig]

theorem IsMultisigOf.multisigShape?_eq {pushes : List Chunk} (h : s.IsMultisigOf m n pushes) :
    s.multisigShape? = some (m, n) ∧ (s.chunks.drop 1).take n = pushes := by
  obtain ⟨hpos, hle, -, hlength, hpush, first, last, hfirst, hlast, hchunks⟩ := h
  have hpushes : (s.chunks.drop 1).take n = pushes := by
    simp [hchunks, ← hlength]
  have hsize : s.chunks.length = n + 3 := by
    simp [hchunks, hlength]
  refine ⟨multisigShape?_eq_some.2 ⟨by omega, ?_, ⟨.op first, ?_, ?_⟩, ⟨.op last, ?_, ?_⟩,
    ⟨by omega, hle, hsize⟩, by rwa [hpushes]⟩, hpushes⟩
  · rw [hsize, hchunks]
    simp [← hlength]
  · rw [hchunks]
    rfl
  · exact (Opcode.smallInteger?_eq_some_iff (by omega)).2 hfirst
  · rw [hsize, hchunks]
    simp [← hlength]
  · exact (Opcode.smallInteger?_eq_some_iff (by omega)).2 hlast

/-- An opcode of a small number above zero is no push, also as the first byte of a chunk. -/
theorem eq_op_of_smallInteger? (hn : n ≠ 0) (h : c.opcode.smallInteger? = some n) :
    ∃ op, Opcode.ofSmallInteger? n = some op ∧ c = .op op := by
  have hop := (Opcode.smallInteger?_eq_some_iff hn).1 h
  exact ⟨c.opcode, hop, Chunk.eq_op_of_isPush_opcode rfl (Opcode.isPush_ofSmallInteger hop hn)⟩

theorem isMultisig_iff : s.isMultisig = true ↔ ∃ m n pushes, s.IsMultisigOf m n pushes := by
  constructor
  · intro h
    obtain ⟨⟨m, n⟩, hshape⟩ := Option.isSome_iff_exists.1 h
    obtain ⟨-, hcheck, ⟨first, hfirst, hm⟩, ⟨last, hlast, hn⟩, ⟨hpos, hle, hsize⟩, hpushes⟩ :=
      multisigShape?_eq_some.1 hshape
    -- The two places from the end are places from the start, once the length is known.
    rw [hsize] at hcheck hlast
    have hrow := eq_cons_append_pair hsize hfirst hlast hcheck
    obtain ⟨firstOp, hfirstOp, rfl⟩ := eq_op_of_smallInteger? hpos hm
    obtain ⟨lastOp, hlastOp, rfl⟩ := eq_op_of_smallInteger? (by omega) hn
    have hsmall := ((Opcode.ofSmallInteger?_eq_some_iff (by omega)).1 hlastOp).1
    refine ⟨m, n, _, by omega, hle, hsmall, ?_, hpushes, firstOp, lastOp, hfirstOp, hlastOp, hrow⟩
    rw [List.length_take, List.length_drop, hsize]
    omega
  · rintro ⟨m, n, pushes, h⟩
    rw [isMultisig, h.multisigShape?_eq.1]
    rfl

/-! ## Building and reading -/

theorem multisig_eq_ok :
    multisig m keys = .ok s ↔
      s.IsMultisigOf m keys.length (keys.map fun key => .pushMinimal key.toBytes) := by
  unfold multisig
  dsimp only
  constructor
  · intro h
    split at h
    · cases h
    · rename_i hcounts
      split at h
      · rename_i first last hfirst hlast
        cases h
        have hsmall := ((Opcode.ofSmallInteger?_eq_some_iff (by omega)).1 hlast).1
        refine ⟨by omega, by omega, hsmall, List.length_map _, ?_, first, last, hfirst, hlast, rfl⟩
        exact List.forall_mem_map.2 fun _ _ => rfl
      · cases h
  · rintro ⟨hpos, hle, -, -, -, first, last, hfirst, hlast, hchunks⟩
    have hcounts : ¬ (m = 0 ∨ keys.length < m) := by omega
    rw [dif_neg hcounts]
    split
    · rename_i first' last' hfirst' hlast'
      obtain rfl : first' = first := Option.some.inj (hfirst'.symm.trans hfirst)
      obtain rfl : last' = last := Option.some.inj (hlast'.symm.trans hlast)
      exact congrArg Except.ok (Script.ext hchunks.symm)
    · rename_i hnone
      exact absurd hlast (hnone first last hfirst)

/-- A multisig script can be built from the two counts exactly where opcodes spell them both. -/
theorem exists_multisig_eq_ok :
    (∃ s, multisig m keys = .ok s) ↔ 1 ≤ m ∧ m ≤ keys.length ∧ keys.length ≤ 16 := by
  constructor
  · rintro ⟨s, h⟩
    obtain ⟨hpos, hle, hsmall, -⟩ := multisig_eq_ok.1 h
    exact ⟨hpos, hle, hsmall⟩
  · rintro ⟨hpos, hle, hsmall⟩
    have hspelled : ∀ n, n ≤ 16 → (Opcode.ofSmallInteger? n).isSome = true := by decide
    obtain ⟨first, hfirst⟩ := Option.isSome_iff_exists.1 (hspelled m (by omega))
    obtain ⟨last, hlast⟩ := Option.isSome_iff_exists.1 (hspelled keys.length hsmall)
    have hcanonical := canonical_multisig (Opcode.isPush_ofSmallInteger hfirst (by omega))
      (Opcode.isPush_ofSmallInteger hlast (by omega)) keys
    exact ⟨⟨_, hcanonical⟩, multisig_eq_ok.2 ⟨hpos, hle, hsmall, List.length_map _,
      List.forall_mem_map.2 fun _ _ => rfl, first, last, hfirst, hlast, rfl⟩⟩

/-- Each key is read back in the form that it was written in. -/
theorem keysOfChunks_pushed (keys : List Curve.PublicKey) :
    (keys.map fun key => Chunk.pushMinimal key.toBytes).mapM keyOfChunk? = some keys := by
  induction keys with
  | nil => rfl
  | cons key rest ih =>
      have hkey : keyOfChunk? (.pushMinimal key.toBytes) = some key := by
        show (Curve.PublicKey.ofBytes key.toBytes).toOption = _
        rw [Curve.PublicKey.ofBytes_toBytes]
        rfl
      rw [List.map_cons, List.mapM_cons, hkey, ih]
      rfl

/-- Building succeeds for one to sixteen keys, of which one is asked for at least and all at most.
What is built is read back from its bytes, and it demands as many of the same keys, each in its own
form. Nothing else is multisig: any script that is has the form of the two counts around as many
pushes as the second one says, with the check behind them. -/
theorem multisig_builds_and_reads :
    (∀ m keys, (∃ s, multisig m keys = .ok s) ↔
      1 ≤ m ∧ m ≤ keys.length ∧ keys.length ≤ 16) ∧
    (∀ m keys s, multisig m keys = .ok s →
      parse s.bytes = .ok s ∧ s.isMultisig = true ∧
        s.multisigRequirements? = some ⟨m, keys⟩) ∧
    (∀ s : Script, s.isMultisig = true ↔ ∃ m n pushes, s.IsMultisigOf m n pushes) := by
  refine ⟨fun m keys => exists_multisig_eq_ok, fun m keys s h => ?_, fun s => isMultisig_iff⟩
  have hform := multisig_eq_ok.1 h
  obtain ⟨hshape, hpushes⟩ := hform.multisigShape?_eq
  refine ⟨parse_bytes s, isMultisig_iff.2 ⟨_, _, _, hform⟩, ?_⟩
  rw [multisigRequirements?, hshape]
  show (((s.chunks.drop 1).take keys.length).mapM keyOfChunk?).bind _ = _
  rw [hpushes, keysOfChunks_pushed]
  rfl

/-- Two keys of one point, each in its own form: both come back, and in their order. -/
theorem multisig_builds_and_reads_both_forms :
    let keys : List Curve.PublicKey := [.generator, Curve.PublicKey.generator.uncompressed]
    ∃ s, multisig 1 keys = .ok s ∧ parse s.bytes = .ok s ∧
      s.multisigRequirements? = some ⟨1, keys⟩ ∧ ∃ m n pushes, s.IsMultisigOf m n pushes := by
  intro keys
  obtain ⟨hbuilt, hread, hform⟩ := multisig_builds_and_reads
  obtain ⟨s, hs⟩ := (hbuilt 1 keys).2 (by decide)
  obtain ⟨hparse, hmultisig, hdemands⟩ := hread 1 keys s hs
  exact ⟨s, hs, hparse, hdemands, (hform s).1 hmultisig⟩

end Script

end TxScript
