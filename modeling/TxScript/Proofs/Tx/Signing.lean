import TxScript.Proofs.Curve.PublicKey
import TxScript.Proofs.Machine.PayToPublicKeyHash
import TxScript.Proofs.Script.Pushes
import TxScript.Proofs.Tx.DigestFrame
import TxScript.Tx.Signing

/-!
# A signed input verifies

The unlocking script of a key holder is two pushes. They are read back as they were written, they
run, and the signature under the key is one over the digest that is taken again when it is checked.
-/

namespace TxScript

open Curve Machine

variable {tx : Transaction} {utxo : Output} {index : Nat} {holder : KeyHolder}
  {digest : Digest 32} {sig : Signature} {time : UInt32}

namespace Transaction

theorem signInput_eq_ok {key : PrivateKey} {t : HashType} {coverage : Coverage}
    (hcoverage : t.coverage? = some coverage) (hindex : index < tx.inputs.length)
    (hsingle : coverage = .single → index < tx.outputs.length)
    (hdigest : tx.signatureDigest utxo index t = .ok digest)
    (hsig : key.sign? digest = some sig) :
    tx.signInput utxo index key t = .ok (sig.toDer ++ [t.byte]) := by
  have hcovered : ¬ (t.coverage? = some .single ∧ tx.outputs.length ≤ index) := by
    intro h
    have := hsingle (Option.some.inj (hcoverage.symm.trans h.1))
    omega
  have hsign : key.sign digest = .ok sig := by
    unfold PrivateKey.sign
    rw [hsig, Option.elim_some]
  unfold signInput
  rw [if_neg (Nat.not_le.2 hindex), if_neg hcovered]
  exact bind_eq_ok.2 ⟨digest, by rw [hdigest]; rfl, bind_eq_ok.2 ⟨sig, by rw [hsign]; rfl, rfl⟩⟩

/-- Signing reads the transaction without its unlocking scripts. -/
theorem signInput_withoutScripts (tx : Transaction) (utxo : Output) (index : Nat)
    (key : PrivateKey) (t : HashType) :
    tx.withoutScripts.signInput utxo index key t = tx.signInput utxo index key t := by
  unfold signInput
  rw [length_inputs_withoutScripts, outputs_withoutScripts, signatureDigest_withoutScripts]

end Transaction

namespace KeyHolder

theorem unlock_withoutScripts (holder : KeyHolder) (tx : Transaction) (utxo : Output)
    (index : Nat) : holder.unlock tx.withoutScripts utxo index = holder.unlock tx utxo index := by
  unfold unlock
  rw [Transaction.signInput_withoutScripts]

/-- The signature with its hash type, and the key in the form that is shown. -/
def pushed (holder : KeyHolder) (sig : Signature) : List Bytes :=
  [sig.toDer ++ [holder.hashType.byte], holder.publicKey.toBytes]

theorem length_le_of_mem_pushed (holder : KeyHolder) (sig : Signature) :
    ∀ d ∈ holder.pushed sig, d.length ≤ 75 := by
  have hder := sig.length_toDer_le
  have hkey := holder.publicKey.length_toBytes_le
  intro d hd
  simp only [pushed, List.mem_cons, List.not_mem_nil, or_false] at hd
  rcases hd with rfl | rfl
  · rw [List.length_append, List.length_singleton]
    omega
  · omega

/-- The script that spends an output with the signature. -/
def unlocking (holder : KeyHolder) (sig : Signature) : Script where
  chunks := (holder.pushed sig).map .pushMinimal
  canonical := List.forall_mem_map.2 fun d hd =>
    Chunk.canonical_pushMinimal (Nat.le_trans (holder.length_le_of_mem_pushed sig d hd) (by decide))

theorem unlock_eq_ok
    (hsigned : tx.signInput utxo index holder.key holder.hashType =
      .ok (sig.toDer ++ [holder.hashType.byte])) :
    holder.unlock tx utxo index = .ok (holder.unlocking sig) := by
  have hshort := holder.length_le_of_mem_pushed sig
  have hder (s : Script) := s.appendData_eq_ok (by simp :
      sig.toDer ++ [holder.hashType.byte] ≠ [])
    (Nat.le_trans (hshort _ List.mem_cons_self) (by decide))
  have hkey (s : Script) := s.appendData_eq_ok holder.publicKey.toBytes_ne_nil
    (Nat.le_trans (hshort _ (List.mem_cons_of_mem _ List.mem_cons_self)) (by decide))
  unfold unlock
  rw [hsigned]
  simp only [bind, Except.bind, Except.mapError, hder, hkey]
  rfl

theorem run_unlocking (holder : KeyHolder) (sig : Signature) (checker : Option Checker) :
    run (.withDefaults time checker) (holder.unlocking sig) {} =
      .ok { main := (holder.pushed sig).reverse } := by
  have hsize : (holder.unlocking sig).size ≤ 10000 := by
    have := length_encodeChunks_pushes (holder.length_le_of_mem_pushed sig)
    simp only [pushed, List.length_cons, List.length_nil] at this
    exact Nat.le_trans this (by decide)
  have hpushable : ∀ d ∈ holder.pushed sig, d.length ≤ 520 := fun d hd =>
    Nat.le_trans (holder.length_le_of_mem_pushed sig d hd) (by decide)
  have hpushes : execute (.withDefaults time checker)
      ((holder.pushed sig).map .pushMinimal) {} =
        .ok { main := (holder.pushed sig).reverse ++ [] } := execute_pushes rfl hpushable
  rw [List.append_nil] at hpushes
  exact run_eq_ok.2 ⟨hsize, hpushes, rfl⟩

theorem ofBytes_publicKey (holder : KeyHolder) :
    PublicKey.ofBytes holder.publicKey.toBytes = .ok holder.publicKey :=
  PublicKey.ofBytes_toBytes holder.publicKey

end KeyHolder

namespace Spend

theorem checkSignature_pushed {spend : Spend}
    (hdigest : spend.tx.signatureDigest spend.utxo spend.index holder.hashType = .ok digest)
    (hsig : holder.key.sign? digest = some sig) :
    spend.checkSignature (sig.toDer ++ [holder.hashType.byte]) holder.publicKey.toBytes =
      .ok true := by
  have hvalid : holder.publicKey.verify digest sig.normalized = true := by
    rw [PublicKey.verify_normalized]
    exact PrivateKey.verify_of_sign? hsig
  unfold checkSignature
  rw [List.getLast?_concat]
  simp only [List.dropLast_concat, Signature.ofDer_toDer, KeyHolder.ofBytes_publicKey, bind,
    Except.bind, Except.mapError, hdigest, pure, Except.pure, hvalid]

/-- An input that holds the script of its signer is authorized. -/
theorem verify_of_unlocking {spend : Spend}
    (hpays : spend.utxo.script = (Script.payToPublicKeyHash holder.publicKey.hash160).bytes)
    (hdigest : spend.tx.signatureDigest spend.utxo spend.index holder.hashType = .ok digest)
    (hsig : holder.key.sign? digest = some sig)
    (hscript : spend.input.script = (holder.unlocking sig).bytes) :
    spend.verify time = .ok () := by
  have hrun : run (.withDefaults time (some spend.checker)) (holder.unlocking sig) {} =
      .ok { main := (holder.pushed sig).reverse } := holder.run_unlocking sig _
  have hcheck : spend.checker.check (sig.toDer ++ [holder.hashType.byte])
      holder.publicKey.toBytes = .ok true := checkSignature_pushed hdigest hsig
  have hne : sig.toDer ++ [holder.hashType.byte] ≠ [] := by simp
  obtain ⟨t, ht⟩ : Accepts (.withDefaults time (some spend.checker))
      (Script.payToPublicKeyHash holder.publicKey.hash160) (holder.unlocking sig) :=
    accepts_payToPublicKeyHash.2 ⟨_, _, _, [], _, hrun, rfl, rfl, rfl, hne, hcheck⟩
  unfold verify Output.parseScript env
  rw [hscript, hpays, Script.parse_bytes, Script.parse_bytes]
  simp only [bind, Except.bind, Except.mapError, ht]

end Spend

end TxScript
