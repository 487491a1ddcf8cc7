import TxScript.Proofs.Script.HashForms
import TxScript.Proofs.Script.MultisigForm

/-!
# The standard forms of scripts

The opcode that a script starts with leaves one standard form open to it, so that no script has two
of them. Every form has an opcode above the constants in it: no script of constants has any.
-/

namespace TxScript

variable {s : Script}

inductive StandardForm where
  | publicKeyHash
  | scriptHash
  | publicKey
  | multisig
  | returned
  deriving DecidableEq, Repr

/-- The one form that scripts which start with an opcode may have. -/
def StandardForm.startingWith (op : Opcode) : StandardForm :=
  if op.isPush then .publicKey
  else if op = .dup then .publicKeyHash
  else if op = .hash160 then .scriptHash
  else if op = .ret then .returned
  else .multisig

theorem StandardForm.startingWith_smallInteger {n : Nat} {op : Opcode} (hn : n ≠ 0)
    (h : Opcode.ofSmallInteger? n = some op) : startingWith op = .multisig := by
  have table : ∀ n, n ≤ 16 → n ≠ 0 → ∀ op ∈ Opcode.ofSmallInteger? n,
      startingWith op = .multisig := by
    decide
  exact table n ((Opcode.ofSmallInteger?_eq_some_iff hn).1 h).1 hn op h

namespace Script

def hasForm (s : Script) : StandardForm → Bool
  | .publicKeyHash => s.isPayToPublicKeyHash
  | .scriptHash => s.isPayToScriptHash
  | .publicKey => s.isPublicKey
  | .multisig => s.isMultisig
  | .returned => s.isStandardReturn

theorem isPublicKey_iff :
    s.isPublicKey = true ↔
      ∃ enc key, 1 < key.length ∧ s.chunks = [.push enc key, .op .checkSig] := by
  obtain ⟨chunks⟩ := s
  unfold isPublicKey
  dsimp only
  constructor
  · intro h
    split at h
    · obtain ⟨hlength, rfl⟩ := of_decide_eq_true h
      exact ⟨_, _, hlength, rfl⟩
    · cases h
  · rintro ⟨enc, key, hlength, rfl⟩
    exact decide_eq_true ⟨hlength, rfl⟩

theorem isStandardReturn_iff :
    s.isStandardReturn = true ↔ ∃ enc data, s.chunks = [.op .ret, .push enc data] := by
  obtain ⟨chunks⟩ := s
  unfold isStandardReturn returnedData?
  dsimp only
  constructor
  · intro h
    split at h
    · split at h
      · rename_i hret
        exact ⟨_, _, by rw [hret]⟩
      · cases h
    · cases h
  · rintro ⟨enc, data, rfl⟩
    rfl

/-- What a form asks of the first chunk, and the chunk that is more than a constant. -/
theorem starts_and_counts_of_hasForm {f : StandardForm} (h : s.hasForm f = true) :
    (∃ first rest, s.chunks = first :: rest ∧ StandardForm.startingWith first.opcode = f) ∧
      ∃ c ∈ s.chunks, c.opcode.isCounted = true := by
  cases f with
  | publicKeyHash =>
      obtain ⟨hash, rfl⟩ := isPayToPublicKeyHash_iff.1 h
      exact ⟨⟨_, _, rfl, rfl⟩, .op .dup, List.mem_cons_self, rfl⟩
  | scriptHash =>
      obtain ⟨hash, rfl⟩ := isPayToScriptHash_iff.1 h
      exact ⟨⟨_, _, rfl, rfl⟩, .op .hash160, List.mem_cons_self, rfl⟩
  | publicKey =>
      obtain ⟨enc, key, -, hchunks⟩ := isPublicKey_iff.1 h
      refine ⟨⟨_, _, hchunks, if_pos (Chunk.isPush_opcode_push enc key)⟩, .op .checkSig, ?_, rfl⟩
      rw [hchunks]
      exact List.mem_cons_of_mem _ List.mem_cons_self
  | multisig =>
      obtain ⟨m, n, pushes, hform⟩ := isMultisig_iff.1 h
      obtain ⟨first, last, hfirst, -, hchunks⟩ := hform.chunks
      have hpos : m ≠ 0 := Nat.ne_of_gt hform.required_pos
      refine ⟨⟨_, _, hchunks, StandardForm.startingWith_smallInteger hpos hfirst⟩,
        .op .checkMultisig, ?_, rfl⟩
      simp [hchunks]
  | returned =>
      obtain ⟨enc, data, hchunks⟩ := isStandardReturn_iff.1 h
      refine ⟨⟨_, _, hchunks, rfl⟩, .op .ret, ?_, rfl⟩
      rw [hchunks]
      exact List.mem_cons_self

theorem hasForm_unique {f g : StandardForm} (hf : s.hasForm f = true) (hg : s.hasForm g = true) :
    f = g := by
  obtain ⟨⟨first, rest, hchunks, rfl⟩, -⟩ := starts_and_counts_of_hasForm hf
  obtain ⟨⟨first', rest', hchunks', rfl⟩, -⟩ := starts_and_counts_of_hasForm hg
  rw [hchunks, List.cons.injEq] at hchunks'
  rw [hchunks'.1]

theorem isDataOnly_of_hasForm {f : StandardForm} (h : s.hasForm f = true) :
    s.isDataOnly = false := by
  obtain ⟨-, c, hc, hcounted⟩ := starts_and_counts_of_hasForm h
  refine List.all_eq_false.2 ⟨c, hc, ?_⟩
  rw [hcounted]
  decide

/-- Both forms that commit to a hash are told from the bytes alone: their number, what they begin
with and what they end with, and the hash of a public key is the twenty bytes behind the first three.
No script has two of the standard forms, and none that has one is all constants. -/
theorem standardForms_told_apart :
    (∀ input, (∃ s, parse input = .ok s ∧ s.isPayToScriptHash = true) ↔
      input.length = 23 ∧ [0xa9, 0x14] <+: input ∧ [0x87] <:+ input) ∧
    (∀ input, (∃ s, parse input = .ok s ∧ s.isPayToPublicKeyHash = true) ↔
      input.length = 25 ∧ [0x76, 0xa9, 0x14] <+: input ∧ [0x88, 0xac] <:+ input) ∧
    (∀ input s, parse input = .ok s → s.isPayToPublicKeyHash = true →
      s.publicKeyHash? = some ((input.drop 3).take 20)) ∧
    (∀ (s : Script) f, s.hasForm f = true →
      (∀ g, s.hasForm g = true → g = f) ∧ s.isDataOnly = false) := by
  refine ⟨fun _ => exists_parse_payToScriptHash_iff, fun _ => exists_parse_payToPublicKeyHash_iff,
    fun _ _ => publicKeyHash?_of_parse, fun s f hf => ⟨fun g hg => ?_, ?_⟩⟩
  · exact hasForm_unique hg hf
  · exact isDataOnly_of_hasForm hf

/-- A hash whose bytes are those of opcodes. The same hash in the other form, with its length in a
byte of its own, is that of no script hash. -/
theorem standardForms_told_apart_by_length :
    let hash : Bytes := List.replicate 20 0x87
    let longer : Bytes := [0xa9, 0x4c, 0x14] ++ (hash ++ [0x87])
    (∃ s, parse ([0x76, 0xa9, 0x14] ++ (hash ++ [0x88, 0xac])) = .ok s ∧
      s.isPayToPublicKeyHash = true ∧ s.publicKeyHash? = some hash ∧
      (∀ g, s.hasForm g = true → g = .publicKeyHash) ∧ s.isDataOnly = false) ∧
    ¬ ∃ s, parse longer = .ok s ∧ s.isPayToScriptHash = true := by
  intro hash longer
  obtain ⟨hscript, hkey, hcommitted, hform⟩ := standardForms_told_apart
  refine ⟨?_, fun h => absurd ((hscript longer).1 h).1 (by decide)⟩
  obtain ⟨s, hparse, hs⟩ := (hkey ([0x76, 0xa9, 0x14] ++ (hash ++ [0x88, 0xac]))).2 (by decide)
  obtain ⟨honly, hcounted⟩ := hform s .publicKeyHash hs
  exact ⟨s, hparse, hs, hcommitted _ s hparse hs, honly, hcounted⟩

end Script

end TxScript
