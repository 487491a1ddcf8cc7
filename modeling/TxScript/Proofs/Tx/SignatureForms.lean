import TxScript.Proofs.Curve.PublicKey
import TxScript.Proofs.Results
import TxScript.Tx.Spend

/-!
# Forms of a signature and its key

What is checked is a point, a digest and the normal form of two scalars. However a signature is
padded or followed by other bytes, on whichever side of half the order its second part lies, and in
whichever form the key is written, the answer is the same.
-/

namespace TxScript.Spend

open Curve

variable {spend : Spend} {hashType : UInt8} {d k : Bytes} {sig : Signature} {key : PublicKey}

/-- Once signature and key are read, the digest is all that is left to ask for. -/
theorem checkSignature_eq (hd : Signature.ofDer d = .ok sig) (hk : PublicKey.ofBytes k = .ok key) :
    spend.checkSignature (d ++ [hashType]) k =
      (spend.tx.signatureDigest spend.utxo spend.index ⟨hashType⟩).map
        fun digest => key.verify digest sig := by
  unfold checkSignature
  rw [List.getLast?_concat, List.dropLast_concat, hd, hk]
  dsimp only
  generalize spend.tx.signatureDigest spend.utxo spend.index ⟨hashType⟩ = digest
  cases digest <;> rfl

theorem checkSignature_eq_checkSignature {d' k' : Bytes} {sig' : Signature} {key' : PublicKey}
    (hd : Signature.ofDer d = .ok sig) (hd' : Signature.ofDer d' = .ok sig')
    (hr : sig'.r = sig.r) (hs : sig'.s = sig.s ∨ sig'.s.val = groupOrder - sig.s.val)
    (hk : PublicKey.ofBytes k = .ok key) (hk' : PublicKey.ofBytes k' = .ok key')
    (hpoint : key'.point = key.point) :
    spend.checkSignature (d' ++ [hashType]) k' = spend.checkSignature (d ++ [hashType]) k := by
  have hnormal := Signature.normalized_eq_normalized hr hs
  rw [checkSignature_eq hd hk, checkSignature_eq hd' hk']
  congr 1
  exact funext fun digest => PublicKey.verify_eq_verify hpoint hnormal digest

/-- Two signatures that differ in no more than the side of their second part, read from whatever
bytes, and one point, read from whatever form, have one answer: that of the key over the digest, or
the error of the digest. Every form of either signature and of the key that can be written has it. -/
theorem checkSignature_of_any_form (spend : Spend) (hashType : UInt8) {d d' k k' : Bytes}
    {sig sig' : Signature} {key key' : PublicKey}
    (hd : Signature.ofDer d = .ok sig) (hd' : Signature.ofDer d' = .ok sig')
    (hr : sig'.r = sig.r) (hs : sig'.s = sig.s ∨ sig'.s.val = groupOrder - sig.s.val)
    (hk : PublicKey.ofBytes k = .ok key) (hk' : PublicKey.ofBytes k' = .ok key')
    (hpoint : key'.point = key.point) :
    spend.checkSignature (d ++ [hashType]) k = spend.checkSignature (d' ++ [hashType]) k' ∧
      (spend.checkSignature (d ++ [hashType]) k =
        (spend.tx.signatureDigest spend.utxo spend.index ⟨hashType⟩).map
          fun digest => key.verify digest sig) ∧
      ∀ (form : Signature.DerForm) (compressed : Bool), form.Fits sig' →
        spend.checkSignature (form.write sig' ++ [hashType])
            { key with compressed := compressed }.toBytes
          = spend.checkSignature (d ++ [hashType]) k := by
  refine ⟨(checkSignature_eq_checkSignature hd hd' hr hs hk hk' hpoint).symm,
    checkSignature_eq hd hk, fun form compressed hfits => ?_⟩
  have hwritten : Signature.ofDer (form.write sig') = .ok sig' :=
    Signature.ofDer_eq_ok.2 ⟨form, hfits, rfl⟩
  exact checkSignature_eq_checkSignature hd hwritten hr hs hk
    (PublicKey.ofBytes_toBytes { key with compressed := compressed }) rfl

/-- One and one less than the order as second parts. The second signature has zeros in front of both
integers, bytes behind them and bytes behind the sequence, and the key is written out in full. -/
theorem checkSignature_of_padded_form :
    let spend : Spend := ⟨⟨2, [.unsigned .null], [.blank], 0⟩, .blank, 0, by decide⟩
    let high : Bytes :=
      [0xff, 0xff, 0xff, 0xff, 0xff, 0xff, 0xff, 0xff, 0xff, 0xff, 0xff, 0xff, 0xff, 0xff, 0xff,
        0xfe, 0xba, 0xae, 0xdc, 0xe6, 0xaf, 0x48, 0xa0, 0x3b, 0xbf, 0xd2, 0x5e, 0x8c, 0xd0, 0x36,
        0x41, 0x40]
    spend.checkSignature ([0x30, 6, 2, 1, 1, 2, 1, 1] ++ [0x41])
        PublicKey.generator.toBytes
      = spend.checkSignature
        (([0x30, 42, 2, 3, 0, 0, 1, 2, 33, 0] ++ high ++ [7, 7] ++ [9]) ++ [0x41])
        PublicKey.generator.uncompressed.toBytes := by
  intro spend high
  let sig : Signature := ⟨1, 1, by decide, by decide⟩
  let sig' : Signature := ⟨1, ⟨groupOrder - 1, by decide⟩, by decide, by decide⟩
  have hkey : PublicKey.ofBytes PublicKey.generator.toBytes = .ok .generator :=
    PublicKey.ofBytes_toBytes _
  have hkey' : PublicKey.ofBytes PublicKey.generator.uncompressed.toBytes =
      .ok PublicKey.generator.uncompressed := PublicKey.ofBytes_toBytes _
  have hd : Signature.ofDer [0x30, 6, 2, 1, 1, 2, 1, 1] = .ok sig :=
    eq_ok_of_toOption (by decide +kernel)
  have hd' : Signature.ofDer ([0x30, 42, 2, 3, 0, 0, 1, 2, 33, 0] ++ high ++ [7, 7] ++ [9])
      = .ok sig' := eq_ok_of_toOption (by decide +kernel)
  exact (checkSignature_of_any_form spend 0x41 hd hd' rfl (.inr rfl) hkey hkey' rfl).1

end TxScript.Spend
