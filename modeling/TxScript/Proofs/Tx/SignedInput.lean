import TxScript.Proofs.Tx.ForkMessage
import TxScript.Proofs.Tx.SigningOrder

/-!
# Which inputs are signed

The two digests disagree on an input that is not there and on a lone output that is missing: one of
them fails or hashes zero bytes, the other is the number one. Signing asks for the input and the
output before either is computed, so what is signed is always the hash of a message, and whoever
checks the signature hashes the same message.
-/

namespace TxScript

open Curve Machine

variable {tx : Transaction} {utxo : Output} {index : Nat} {key : PrivateKey} {t : HashType}
  {signed : Bytes} {digest : Digest 32} {sig : Signature}

/-- The low bits that name the outputs covered. -/
def Coverage.base : Coverage → UInt8
  | .all => 1
  | .none => 2
  | .single => 3

namespace HashType

theorem coverage_eq_some_iff {coverage : Coverage} :
    t.coverage? = some coverage ↔ t.base = coverage.base := by
  unfold coverage?
  by_cases h1 : t.base = 1
  · cases coverage <;> simp [h1, Coverage.base]
  · by_cases h2 : t.base = 2
    · cases coverage <;> simp [h2, Coverage.base]
    · by_cases h3 : t.base = 3 <;> cases coverage <;> simp [h1, h2, h3, Coverage.base]

theorem exists_coverage_iff :
    (∃ coverage, t.coverage? = some coverage) ↔ t.base = 1 ∨ t.base = 2 ∨ t.base = 3 := by
  simp only [coverage_eq_some_iff]
  constructor
  · rintro ⟨_ | _ | _, hbase⟩
    · exact .inl hbase
    · exact .inr (.inl hbase)
    · exact .inr (.inr hbase)
  · rintro (hbase | hbase | hbase)
    · exact ⟨.all, hbase⟩
    · exact ⟨.none, hbase⟩
    · exact ⟨.single, hbase⟩

end HashType

theorem Curve.PrivateKey.sign_eq_ok : key.sign digest = .ok sig ↔ key.sign? digest = some sig := by
  unfold PrivateKey.sign
  cases key.sign? digest <;> simp

namespace Transaction

/-- There is an input to sign, the coverage is a defined one, and there is an output beside the
input where it covers that one alone. -/
@[mk_iff]
structure Signable (tx : Transaction) (index : Nat) (t : HashType) : Prop where
  input : index < tx.inputs.length
  base : t.base = 1 ∨ t.base = 2 ∨ t.base = 3
  output : t.base = 3 → index < tx.outputs.length

namespace Signable

theorem exists_coverage (h : tx.Signable index t) :
    ∃ coverage, t.coverage? = some coverage ∧
      (coverage = .single → index < tx.outputs.length) := by
  obtain ⟨coverage, hcoverage⟩ := HashType.exists_coverage_iff.2 h.base
  refine ⟨coverage, hcoverage, ?_⟩
  rintro rfl
  exact h.output (HashType.coverage_eq_some_iff.1 hcoverage)

/-- What is hashed for a signature is a message then, under either digest. -/
theorem exists_signedBytes (h : tx.Signable index t) (utxo : Output) :
    ∃ message, tx.signedBytes? utxo index t = .ok (some message) := by
  obtain ⟨coverage, hcoverage, hbeside⟩ := h.exists_coverage
  let request : SigningRequest := ⟨⟨tx, utxo, index, h.input⟩, t, coverage, hcoverage⟩
  cases hfork : t.hasForkId with
  | true => exact ⟨_, signedBytes_of_fork (r := request) hfork⟩
  | false => exact ⟨_, signedBytes_of_original (r := ⟨request, hbeside⟩) hfork⟩

/-- An input that can be signed is signed by a key that signs its digest. -/
theorem signInput_eq_ok (h : tx.Signable index t)
    (hdigest : tx.signatureDigest utxo index t = .ok digest) (hsig : key.sign? digest = some sig) :
    tx.signInput utxo index key t = .ok (sig.toDer ++ [t.byte]) := by
  obtain ⟨coverage, hcoverage, hbeside⟩ := h.exists_coverage
  exact Transaction.signInput_eq_ok hcoverage h.input hbeside hdigest hsig

end Signable

theorem signatureDigest_of_signedBytes {message : Bytes}
    (h : tx.signedBytes? utxo index t = .ok (some message)) :
    tx.signatureDigest utxo index t = .ok (Hash.sha256d message) := by
  rw [signatureDigest_eq_signedBytes, h]
  rfl

/-- Neither digest is defined for a coverage that is not. -/
theorem exists_coverage_of_signatureDigest
    (h : tx.signatureDigest utxo index t = .ok digest) :
    ∃ coverage, t.coverage? = some coverage := by
  cases hcoverage : t.coverage? with
  | some coverage => exact ⟨coverage, rfl⟩
  | none =>
      have hrefused : t.validate = .error (.invalidHashType t.byte) := by
        unfold HashType.validate
        rw [hcoverage]
      unfold signatureDigest ForkIdDigest.digest ForkIdDigest.preimage OriginalDigest.digest at h
      simp [hrefused, bind, Except.bind] at h

/-- What signing asks for, and what it then signs. -/
theorem exists_of_signInput (h : tx.signInput utxo index key t = .ok signed) :
    tx.Signable index t ∧ ∃ digest sig, tx.signatureDigest utxo index t = .ok digest ∧
      key.sign? digest = some sig ∧ signed = sig.toDer ++ [t.byte] := by
  unfold signInput at h
  by_cases hinput : tx.inputs.length ≤ index
  · rw [if_pos hinput] at h
    cases h
  rw [if_neg hinput] at h
  by_cases houtput : t.coverage? = some .single ∧ tx.outputs.length ≤ index
  · rw [if_pos houtput] at h
    cases h
  rw [if_neg houtput] at h
  obtain ⟨digest, hdigest, h⟩ := bind_eq_ok.1 h
  obtain ⟨sig, hsig, h⟩ := bind_eq_ok.1 h
  have hdigest := mapError_eq_ok.1 hdigest
  refine ⟨⟨Nat.not_le.1 hinput,
    HashType.exists_coverage_iff.1 (exists_coverage_of_signatureDigest hdigest), fun hbase => ?_⟩,
    digest, sig, hdigest, ?_, (Except.ok.inj h).symm⟩
  · exact Nat.not_le.1 fun hle => houtput ⟨HashType.coverage_eq_some_iff.2 hbase, hle⟩
  · exact PrivateKey.sign_eq_ok.1 (mapError_eq_ok.1 hsig)

theorem signInput_isOk_iff (hsigns : ∀ digest, tx.signatureDigest utxo index t = .ok digest →
    (key.sign? digest).isSome) :
    (∃ signed, tx.signInput utxo index key t = .ok signed) ↔ tx.Signable index t := by
  constructor
  · rintro ⟨signed, hsigned⟩
    exact (exists_of_signInput hsigned).1
  · intro h
    obtain ⟨message, hmessage⟩ := h.exists_signedBytes utxo
    have hdigest := signatureDigest_of_signedBytes hmessage
    obtain ⟨sig, hsig⟩ := Option.isSome_iff_exists.1 (hsigns _ hdigest)
    exact ⟨_, h.signInput_eq_ok hdigest hsig⟩

/-- A signature is over the hash of a message, and what stands before its hash type is read as the
signature in normal form that the key made. -/
theorem exists_message_of_signInput (h : tx.signInput utxo index key t = .ok signed) :
    ∃ message sig, tx.signedBytes? utxo index t = .ok (some message) ∧
      tx.signatureDigest utxo index t = .ok (Hash.sha256d message) ∧
      key.sign? (Hash.sha256d message) = some sig ∧ signed = sig.toDer ++ [t.byte] ∧
      Signature.ofDer sig.toDer = .ok sig ∧ sig.isLowS = true := by
  obtain ⟨hsignable, digest, sig, hdigest, hsig, hsigned⟩ := exists_of_signInput h
  obtain ⟨message, hmessage⟩ := hsignable.exists_signedBytes utxo
  have hhash := signatureDigest_of_signedBytes hmessage
  have hsame : digest = Hash.sha256d message := Except.ok.inj (hdigest.symm.trans hhash)
  obtain ⟨nonce, r, s, hr, hs, -, -, -, hnormal⟩ := PrivateKey.sign?_eq_some hsig
  refine ⟨message, sig, hmessage, hhash, hsame ▸ hsig, hsigned, ?_, ?_⟩
  · rw [Signature.ofDer_toDer, hnormal, Signature.normalized_normalized]
  · rw [hnormal, Signature.isLowS_normalized]

/-- The input takes its signature under either form of the key that made it. -/
theorem checkSignature_of_signInput (h : tx.signInput utxo index key t = .ok signed) :
    ∃ spend, Spend.of tx utxo index = .ok spend ∧ ∀ compressed,
      spend.checkSignature signed { key.publicKey with compressed := compressed }.toBytes =
        .ok true := by
  obtain ⟨hsignable, digest, sig, hdigest, hsig, rfl⟩ := exists_of_signInput h
  let spend : Spend := ⟨tx, utxo, index, hsignable.input⟩
  have hcheck (holder : KeyHolder) (hkey : holder.key = key) (htype : holder.hashType = t) :
      spend.checkSignature (sig.toDer ++ [holder.hashType.byte]) holder.publicKey.toBytes =
        .ok true := by
    subst hkey htype
    exact Spend.checkSignature_pushed hdigest hsig
  exact ⟨spend, dif_pos hsignable.input, fun compressed => hcheck ⟨key, t, compressed⟩ rfl rfl⟩

/-- A key that signs the digest of an input signs it exactly where there is one, the coverage is
defined, and the output that it covers alone is there. The digest is then never the number one but
the hash of a message, the signature ends in the hash type, the rest of it is read back as one in
normal form, and the input takes it under both forms of the key. -/
theorem signInput_covered_inputs (tx : Transaction) (utxo : Output) (index : Nat)
    (key : PrivateKey) (t : HashType)
    (hsigns : ∀ digest, tx.signatureDigest utxo index t = .ok digest →
      (key.sign? digest).isSome) :
    ((∃ signed, tx.signInput utxo index key t = .ok signed) ↔
      index < tx.inputs.length ∧ (t.base = 1 ∨ t.base = 2 ∨ t.base = 3) ∧
        (t.base = 3 → index < tx.outputs.length)) ∧
    ∀ signed, tx.signInput utxo index key t = .ok signed →
      (∃ message sig, tx.signedBytes? utxo index t = .ok (some message) ∧
        tx.signatureDigest utxo index t = .ok (Hash.sha256d message) ∧
        key.sign? (Hash.sha256d message) = some sig ∧ signed = sig.toDer ++ [t.byte] ∧
        Signature.ofDer sig.toDer = .ok sig ∧ sig.isLowS = true) ∧
      ∃ spend, Spend.of tx utxo index = .ok spend ∧ ∀ compressed,
        spend.checkSignature signed { key.publicKey with compressed := compressed }.toBytes =
          .ok true := by
  refine ⟨(signInput_isOk_iff hsigns).trans (signable_iff tx index t), fun signed hsigned => ?_⟩
  exact ⟨exists_message_of_signInput hsigned, checkSignature_of_signInput hsigned⟩

/-- The second of the two inputs, signed for the output beside it under the original digest. -/
theorem signInput_covered_inputs_second :
    let signer := twoSigners 1
    let t := signer.holder.hashType
    (∀ digest, twoInputs.signatureDigest signer.utxo 1 t = .ok digest →
      (signer.holder.key.sign? digest).isSome) ∧
    (1 < twoInputs.inputs.length ∧ t.base = 3 ∧ 1 < twoInputs.outputs.length) ∧
    ∃ signed spend, twoInputs.signInput signer.utxo 1 signer.holder.key t = .ok signed ∧
      Spend.of twoInputs signer.utxo 1 = .ok spend ∧ ∀ compressed,
        spend.checkSignature signed
          { signer.holder.key.publicKey with compressed := compressed }.toBytes = .ok true := by
  intro signer t
  obtain ⟨hiff, hsigned⟩ := signInput_covered_inputs twoInputs signer.utxo 1 signer.holder.key t
    secondSigner_signs
  have hbase : t.base = 3 := by decide
  obtain ⟨signed, hok⟩ := hiff.2 ⟨by decide, .inr (.inr hbase), fun _ => by decide⟩
  obtain ⟨-, spend, hspend, hcheck⟩ := hsigned signed hok
  exact ⟨secondSigner_signs, ⟨by decide, hbase, by decide⟩, signed, spend, hok, hspend, hcheck⟩

end Transaction

end TxScript
