import TxScript.Proofs.Script.Deletion
import TxScript.Tx.OriginalDigest

/-!
# The script that is signed

The original digest takes the locking script without its code separators. What is left are the bytes
of the other chunks as they were written: a push keeps its encoding, and the byte of a code separator
is left alone where it is data.
-/

namespace TxScript

variable {locking a b : Bytes} {s t : Script} {c : Chunk} {pieces : List Bytes}

theorem Script.chunks_withoutCodeSeparators (s : Script) :
    (s.withoutOpcode .codeSeparator).chunks = s.chunks.filter (· ≠ .op .codeSeparator) := by
  refine List.filter_congr fun c _ => ?_
  have hsame : c.opcode = .codeSeparator ↔ c = .op .codeSeparator :=
    ⟨fun h => Chunk.eq_op_of_isPush_opcode h (by decide), fun h => h ▸ rfl⟩
  rw [bne, Bool.eq_iff_iff]
  simp [hsame]

/-- No other chunk is written as that one byte. -/
theorem Chunk.encode_eq_codeSeparator (hc : c.Canonical) :
    c.encode = [Opcode.codeSeparator.byte] ↔ c = .op .codeSeparator := by
  constructor
  · intro h
    have hread : parseChunks [Opcode.codeSeparator.byte] = .ok [c] :=
      parseChunks_eq_singleton.2 ⟨h.symm, hc⟩
    have hop : parseChunks [Opcode.codeSeparator.byte] = .ok [.op .codeSeparator] :=
      parseChunks_eq_singleton.2 ⟨rfl, by decide⟩
    rw [hop] at hread
    exact (List.cons.inj (Except.ok.inj hread)).1.symm
  · rintro rfl
    rfl

namespace OriginalDigest

theorem scriptCode_of_parse (h : Script.parse locking = .ok s) :
    scriptCode locking = (s.withoutOpcode .codeSeparator).bytes := by
  rw [scriptCode, h]

theorem parse_scriptCode (h : Script.parse locking = .ok s) :
    Script.parse (scriptCode locking) = .ok (s.withoutOpcode .codeSeparator) := by
  rw [scriptCode_of_parse h, Script.parse_bytes]

theorem scriptCode_scriptCode (h : Script.parse locking = .ok s) :
    scriptCode (scriptCode locking) = scriptCode locking := by
  have hagain : (s.withoutOpcode .codeSeparator).withoutOpcode .codeSeparator =
      s.withoutOpcode .codeSeparator :=
    @Deletion.perform_perform_self (.startingWith .codeSeparator) s
  rw [scriptCode_of_parse (parse_scriptCode h), hagain, scriptCode_of_parse h]

theorem scriptCode_append (ha : Script.parse a = .ok s) (hb : Script.parse b = .ok t) :
    scriptCode (a ++ b) = scriptCode a ++ scriptCode b := by
  have hread : Script.parse (a ++ b) = .ok (s ++ t) := by
    rw [← Script.bytes_of_parse ha, ← Script.bytes_of_parse hb, ← Script.bytes_append,
      Script.parse_bytes]
  rw [scriptCode_of_parse hread, scriptCode_of_parse ha, scriptCode_of_parse hb]
  exact @Deletion.bytes_perform_append (.startingWith .codeSeparator) s t

/-- The pieces that are left are those of the chunks that are left, and they stay as they are. -/
theorem cutsInto_scriptCode (h : Script.parse locking = .ok s)
    (hcut : CutsInto locking s.chunks pieces) :
    CutsInto (scriptCode locking) (s.chunks.filter (· ≠ .op .codeSeparator))
      (pieces.filter (· ≠ [Opcode.codeSeparator.byte])) := by
  obtain ⟨-, rfl⟩ := cutsInto_iff.1 hcut
  rw [← Script.chunks_withoutCodeSeparators, cutsInto_iff]
  refine ⟨?_, ?_⟩
  · exact Script.parse_eq_ok.1 (parse_scriptCode h)
  · -- A piece is that one byte exactly where its chunk is the separator.
    rw [Script.chunks_withoutCodeSeparators, List.filter_map]
    refine congrArg (List.map Chunk.encode) (List.filter_congr fun c hc => ?_)
    simp only [Function.comp_apply, ne_eq, Chunk.encode_eq_codeSeparator (s.canonical c hc)]

/-- For a locking script that can be read, what is signed are the bytes of its chunks but for the
code separators, each as it was written, and it is read back as these chunks. Taking the separators
out once more changes nothing, and two scripts one after another lose theirs each by itself. The same
laws hold of all deletions from scripts, which keep the chunks that they do not name: a deletion is
done at once, the order of two deletions does not matter, and a script that was appended to another
one loses its own chunks only. -/
theorem scriptCode_and_deletions :
    (∀ locking s, Script.parse locking = .ok s →
      (∃ pieces, CutsInto locking s.chunks pieces ∧
        (∀ other, CutsInto locking s.chunks other → other = pieces) ∧
        scriptCode locking = (pieces.filter (· ≠ [0xab])).flatten ∧
        CutsInto (scriptCode locking) (s.chunks.filter (· ≠ .op .codeSeparator))
          (pieces.filter (· ≠ [0xab]))) ∧
      Script.parse (scriptCode locking) = .ok (s.filter (· ≠ .op .codeSeparator)) ∧
      scriptCode (scriptCode locking) = scriptCode locking) ∧
    (∀ a b s t, Script.parse a = .ok s → Script.parse b = .ok t →
      scriptCode (a ++ b) = scriptCode a ++ scriptCode b) ∧
    (∀ (d e : Deletion) (s : Script), (d.perform s).chunks = s.chunks.filter d.keeps ∧
      d.perform (d.perform s) = d.perform s ∧
      d.perform (e.perform s) = e.perform (d.perform s)) ∧
    ∀ (d : Deletion) (a b : Script), b.isEmpty = false →
      ∃ joined, a.appendScript b = .ok joined ∧
        (d.perform joined).bytes = (d.perform a).bytes ++ (d.perform b).bytes := by
  refine ⟨fun locking s h => ⟨?_, ?_, scriptCode_scriptCode h⟩, fun a b s t => scriptCode_append,
    fun d e s => ⟨d.chunks_perform, d.perform_perform_self, d.perform_comm⟩, fun d a b hb => ?_⟩
  · have hcut : CutsInto locking s.chunks (s.chunks.map Chunk.encode) :=
      cutsInto_iff.2 ⟨Script.parse_eq_ok.1 h, rfl⟩
    have hkept := cutsInto_scriptCode h hcut
    exact ⟨_, hcut, fun other hother => (cutsInto_iff.1 hother).2, hkept.joined.symm, hkept⟩
  · rw [parse_scriptCode h]
    exact congrArg Except.ok (Script.ext s.chunks_withoutCodeSeparators)
  · exact ⟨_, Script.appendScript_eq_ok hb, Deletion.bytes_perform_append⟩

/-- The byte of the separator stands alone twice, and is the data of two pushes, one of them announced
in a longer way than needed. -/
theorem scriptCode_of_separators_in_data :
    let s : Script :=
      { chunks := [.push .pushData2 [0xab, 0xab], .op .codeSeparator, .push .implicit [0xab],
          .op .codeSeparator, .op .checkSig] }
    let kept : Script :=
      { chunks := [.push .pushData2 [0xab, 0xab], .push .implicit [0xab], .op .checkSig] }
    let pieces : List Bytes := [[0x4d, 2, 0, 0xab, 0xab], [0xab], [1, 0xab], [0xab], [0xac]]
    let locking : Bytes := [0x4d, 2, 0, 0xab, 0xab, 0xab, 1, 0xab, 0xab, 0xac]
    let code : Bytes := [0x4d, 2, 0, 0xab, 0xab, 1, 0xab, 0xac]
    let long : Deletion := .pushing [0xab, 0xab]
    let short : Deletion := .startingWith ⟨1⟩
    (Script.parse locking = .ok s ∧ CutsInto locking s.chunks pieces) ∧
    scriptCode locking = code ∧
    Script.parse code = .ok kept ∧
    scriptCode code = code ∧ scriptCode (locking ++ code) = code ++ code ∧
    (long.perform s).chunks = [.op .codeSeparator, .push .implicit [0xab], .op .codeSeparator,
      .op .checkSig] ∧
    long.perform (short.perform s) = short.perform (long.perform s) ∧
    s.isEmpty = false ∧ ∃ joined, s.appendScript s = .ok joined ∧
      (long.perform joined).bytes = (long.perform s).bytes ++ (long.perform s).bytes := by
  intro s kept pieces locking code long short
  have hread : Script.parse locking = .ok s := Script.parse_eq_ok.2 (parseChunks_eq_ok.2 (by decide))
  have hcut : CutsInto locking s.chunks pieces := cutsInto_iff.2 ⟨Script.parse_eq_ok.1 hread, rfl⟩
  obtain ⟨hlocking, happend, hdeletions, hjoined⟩ := scriptCode_and_deletions
  obtain ⟨⟨_, -, honly, hcode, -⟩, hkept, hagain⟩ := hlocking locking s hread
  rw [← honly pieces hcut] at hcode
  have hcode : scriptCode locking = code := hcode
  rw [hcode] at hkept hagain
  obtain ⟨hlong, -, hcomm⟩ := hdeletions long short s
  have hkept : Script.parse code = .ok kept := hkept
  refine ⟨⟨hread, hcut⟩, hcode, hkept, hagain, ?_, hlong, hcomm, rfl, hjoined long s s rfl⟩
  rw [happend locking code s kept hread hkept, hcode, hagain]

end OriginalDigest

end TxScript
