import TxScript.Proofs.Tx.Signing

/-!
# Signing inputs in any order

Inputs are signed one after another, each on the transaction that holds the scripts of those signed
before. Since no script is ever read, a step adds one script and changes nothing about the others,
and what a run leaves depends on which inputs were signed only.
-/

namespace TxScript

open Curve Machine

/-- What an input is signed with, and the output that it spends. -/
structure InputSigner where
  holder : KeyHolder
  utxo : Output

namespace Transaction

/-- The transaction with another unlocking script in one of its inputs. -/
def withScript (tx : Transaction) (index : Nat) (script : Bytes) : Transaction :=
  { tx with inputs := tx.inputs.modify index fun input => { input with script := script } }

/-- Signs one input of the transaction as it stands. -/
def signNext (signers : Nat → InputSigner) (tx : Transaction) (index : Nat) :
    Except SignError Transaction := do
  let script ← (signers index).holder.unlock tx (signers index).utxo index
  return tx.withScript index script.bytes

/-- Signs inputs one after another. -/
def signAll (signers : Nat → InputSigner) (order : List Nat) (tx : Transaction) :
    Except SignError Transaction :=
  order.foldlM (signNext signers) tx

end Transaction

namespace InputSigner

variable {signer : InputSigner} {tx : Transaction} {index : Nat}

/-- The output pays to the key in the form that is shown, and the hash type is a defined one, with
an output beside the input where it covers that one alone. -/
structure Ready (signer : InputSigner) (tx : Transaction) (index : Nat) : Prop where
  pays : signer.utxo.script =
    (Script.payToPublicKeyHash signer.holder.publicKey.hash160).bytes
  covers : ∃ coverage, signer.holder.hashType.coverage? = some coverage ∧
    (coverage = .single → index < tx.outputs.length)

/-- The key signs what the input has it sign: the nonce and the parts do not come out as zero. -/
def Signs (signer : InputSigner) (tx : Transaction) (index : Nat) : Prop :=
  ∀ digest, tx.signatureDigest signer.utxo index signer.holder.hashType = .ok digest →
    (signer.holder.key.sign? digest).isSome

/-- The script that a signer puts into its input; nothing where it cannot sign. -/
def script (signer : InputSigner) (tx : Transaction) (index : Nat) : Bytes :=
  match signer.holder.unlock tx signer.utxo index with
  | .ok unlock => unlock.bytes
  | .error _ => []

theorem exists_signature (hready : signer.Ready tx index) (hsigns : signer.Signs tx index)
    (hindex : index < tx.inputs.length) :
    ∃ digest sig, tx.signatureDigest signer.utxo index signer.holder.hashType = .ok digest ∧
      signer.holder.key.sign? digest = some sig ∧
      signer.holder.unlock tx signer.utxo index = .ok (signer.holder.unlocking sig) := by
  rcases hready.covers with ⟨coverage, hcoverage, hsingle⟩
  rcases Transaction.signatureDigest_isOk signer.utxo hcoverage hindex with ⟨digest, hdigest⟩
  rcases Option.isSome_iff_exists.1 (hsigns digest hdigest) with ⟨sig, hsig⟩
  have hsigned := Transaction.signInput_eq_ok hcoverage hindex hsingle hdigest hsig
  exact ⟨digest, sig, hdigest, hsig, KeyHolder.unlock_eq_ok hsigned⟩

/-- Wherever the script of the signer stands in its input, the input is authorized; the other
scripts may have changed since it was made. -/
theorem verifyInput_of_script (hready : signer.Ready tx index) (hsigns : signer.Signs tx index)
    (hindex : index < tx.inputs.length) {tx' : Transaction}
    (hsame : tx'.withoutScripts = tx.withoutScripts)
    (hscript : tx'.inputs[index]?.map Input.script = some (signer.script tx index))
    (time : UInt32) : tx'.verifyInput index signer.utxo time = .ok () := by
  obtain ⟨digest, sig, hdigest, hsig, hunlock⟩ := exists_signature hready hsigns hindex
  have hmade : signer.script tx index = (signer.holder.unlocking sig).bytes := by
    unfold script
    rw [hunlock]
  have hlt : index < tx'.inputs.length := by
    rwa [← Transaction.length_inputs_withoutScripts, hsame,
      Transaction.length_inputs_withoutScripts]
  unfold Transaction.verifyInput Spend.of
  rw [dif_pos hlt]
  apply Spend.verify_of_unlocking hready.pays _ hsig
  · rw [List.getElem?_eq_getElem hlt, hmade] at hscript
    exact Option.some.inj hscript
  · show tx'.signatureDigest _ _ _ = _
    rw [← Transaction.signatureDigest_withoutScripts, hsame,
      Transaction.signatureDigest_withoutScripts, hdigest]

theorem signs_of_parts {covered : Digest 32} {nonce : PrivateKey} {r : Scalar}
    (hcovered : (tx.signatureDigest signer.utxo index signer.holder.hashType).toOption =
      some covered)
    (hnonce : nonce? signer.holder.key covered = some nonce)
    (hx : (Point.generator.times nonce.secret.val).xScalar? = some r) (hr : r ≠ 0)
    (hs : inverse nonce.secret *
      (Scalar.ofDigest covered + r * signer.holder.key.secret) ≠ 0) :
    signer.Signs tx index := by
  intro digest hdigest
  rw [hdigest] at hcovered
  cases hcovered
  exact PrivateKey.sign?_isSome hnonce hx hr hs

end InputSigner

namespace Transaction

variable {tx : Transaction} {signers : Nat → InputSigner} {signed : List Nat} {index : Nat}

theorem ext_inputs {a b : Transaction} (hversion : a.version = b.version)
    (houtputs : a.outputs = b.outputs) (hlockTime : a.lockTime = b.lockTime)
    (hinputs : ∀ i : Nat, a.inputs[i]? = b.inputs[i]?) : a = b := by
  have hlist := List.ext_getElem? hinputs
  cases a
  cases b
  simp_all

/-- What becomes of scripts only is nothing to the transaction without them. -/
theorem withoutScripts_eq {a b : Transaction} {f : Nat → Input → Input}
    (hversion : a.version = b.version) (houtputs : a.outputs = b.outputs)
    (hlockTime : a.lockTime = b.lockTime)
    (hinputs : ∀ i : Nat, a.inputs[i]? = b.inputs[i]?.map (f i))
    (hkept : ∀ i input, (f i input).withoutScript = input.withoutScript) :
    a.withoutScripts = b.withoutScripts := by
  refine ext_inputs hversion houtputs hlockTime fun i => ?_
  rw [getElem?_inputs_withoutScripts, getElem?_inputs_withoutScripts, hinputs, Option.map_map]
  exact congrArg (Option.map · _) (funext (hkept i))

theorem getElem?_inputs_withScript (tx : Transaction) (j : Nat) (script : Bytes) (i : Nat) :
    (tx.withScript j script).inputs[i]? =
      tx.inputs[i]?.map fun input => if j = i then { input with script := script } else input := by
  unfold withScript
  rw [List.getElem?_modify]
  by_cases hj : j = i <;> simp [hj]

/-- The transaction with the scripts of some inputs in place, each made on the transaction as
it was at first. -/
def withScripts (tx : Transaction) (signers : Nat → InputSigner) (signed : List Nat) :
    Transaction :=
  { tx with
    inputs := tx.inputs.mapIdx fun i input =>
      if i ∈ signed then { input with script := (signers i).script tx i } else input }

theorem getElem?_inputs_withScripts (tx : Transaction) (signers : Nat → InputSigner)
    (signed : List Nat) (i : Nat) :
    (tx.withScripts signers signed).inputs[i]? = tx.inputs[i]?.map fun input =>
      if i ∈ signed then { input with script := (signers i).script tx i } else input := by
  simp [withScripts]

theorem withoutScripts_withScripts (tx : Transaction) (signers : Nat → InputSigner)
    (signed : List Nat) : (tx.withScripts signers signed).withoutScripts = tx.withoutScripts := by
  refine withoutScripts_eq rfl rfl rfl (getElem?_inputs_withScripts tx signers signed) ?_
  intro i input
  split <;> rfl

/-- Only which inputs were signed counts, and only inputs that there are. -/
theorem withScripts_congr {others : List Nat}
    (h : ∀ i < tx.inputs.length, i ∈ signed ↔ i ∈ others) :
    tx.withScripts signers signed = tx.withScripts signers others := by
  refine ext_inputs rfl rfl rfl fun i => ?_
  rw [getElem?_inputs_withScripts, getElem?_inputs_withScripts]
  by_cases hi : i < tx.inputs.length
  · simp only [h i hi]
  · rw [List.getElem?_eq_none (Nat.not_lt.1 hi)]
    rfl

theorem withScripts_nil (tx : Transaction) (signers : Nat → InputSigner) :
    tx.withScripts signers [] = tx := by
  refine ext_inputs rfl rfl rfl fun i => ?_
  rw [getElem?_inputs_withScripts]
  simp

theorem withScripts_cons (tx : Transaction) (signers : Nat → InputSigner) (signed : List Nat)
    (index : Nat) :
    (tx.withScripts signers signed).withScript index ((signers index).script tx index) =
      tx.withScripts signers (index :: signed) := by
  refine ext_inputs rfl rfl rfl fun i => ?_
  rw [getElem?_inputs_withScript, getElem?_inputs_withScripts, getElem?_inputs_withScripts,
    Option.map_map]
  congr 1
  funext input
  by_cases hi : index = i
  · subst hi
    by_cases hin : index ∈ signed <;> simp [hin]
  · simp [hi, Ne.symm hi]

/-- One step puts the script of its input in place. -/
theorem signNext_withScripts (signed : List Nat) (hready : (signers index).Ready tx index)
    (hsigns : (signers index).Signs tx index) (hindex : index < tx.inputs.length) :
    signNext signers (tx.withScripts signers signed) index =
      .ok (tx.withScripts signers (index :: signed)) := by
  rcases InputSigner.exists_signature hready hsigns hindex with ⟨digest, sig, -, -, hunlock⟩
  have hscript : (signers index).script tx index = ((signers index).holder.unlocking sig).bytes := by
    unfold InputSigner.script
    rw [hunlock]
  have hnow : (signers index).holder.unlock (tx.withScripts signers signed) (signers index).utxo
      index = .ok ((signers index).holder.unlocking sig) := by
    rw [← KeyHolder.unlock_withoutScripts, withoutScripts_withScripts,
      KeyHolder.unlock_withoutScripts, hunlock]
  unfold signNext
  rw [hnow, ← withScripts_cons, hscript]
  rfl

/-- A run leaves the scripts of the inputs that it signed beside those that were there. -/
theorem signAll_withScripts (signed : List Nat) {order : List Nat}
    (hbound : ∀ i ∈ order, i < tx.inputs.length)
    (hready : ∀ i < tx.inputs.length, (signers i).Ready tx i)
    (hsigns : ∀ i < tx.inputs.length, (signers i).Signs tx i) :
    signAll signers order (tx.withScripts signers signed) =
      .ok (tx.withScripts signers (order.reverse ++ signed)) := by
  induction order generalizing signed with
  | nil => rfl
  | cons index rest ih =>
      have hindex := hbound index List.mem_cons_self
      have hstep := signNext_withScripts signed (hready index hindex) (hsigns index hindex) hindex
      have hrest := ih (index :: signed) fun i hi => hbound i (List.mem_cons_of_mem _ hi)
      unfold signAll at hrest ⊢
      rw [List.foldlM_cons, hstep, List.reverse_cons, List.append_assoc, List.singleton_append]
      exact hrest

/-- In whatever order the inputs are signed, every step succeeds, the transaction at the end is the
same, and each of its inputs is authorized at every time. -/
theorem signAll_any_order (tx : Transaction) (signers : Nat → InputSigner)
    (hready : ∀ i < tx.inputs.length, (signers i).Ready tx i)
    (hsigns : ∀ i < tx.inputs.length, (signers i).Signs tx i) :
    ∃ final,
      (∀ order : List Nat, order.Perm (List.range tx.inputs.length) →
        signAll signers order tx = .ok final) ∧
      ∀ i < tx.inputs.length, ∀ time, final.verifyInput i (signers i).utxo time = .ok () := by
  refine ⟨tx.withScripts signers (List.range tx.inputs.length), ?_, ?_⟩
  · intro order hperm
    have hbound : ∀ i ∈ order, i < tx.inputs.length := fun i hi =>
      List.mem_range.1 (hperm.mem_iff.1 hi)
    have hrun := signAll_withScripts [] hbound hready hsigns
    rw [withScripts_nil, List.append_nil] at hrun
    rw [hrun]
    congr 1
    apply withScripts_congr
    intro i hi
    rw [List.mem_reverse, hperm.mem_iff]
  · intro i hi time
    apply InputSigner.verifyInput_of_script (hready i hi) (hsigns i hi) hi
      (withoutScripts_withScripts tx signers _)
    rw [getElem?_inputs_withScripts, List.getElem?_eq_getElem hi, Option.map_some, Option.map_some,
      if_pos (List.mem_range.2 hi)]

/-! ## Two inputs -/

/-- A signer whose output pays to its own key. -/
def payee (secret : Nat) (hashType : UInt8) (compressed : Bool)
    (h : Fin.ofNat groupOrder secret ≠ 0) : InputSigner :=
  let holder : KeyHolder := ⟨⟨Fin.ofNat groupOrder secret, h⟩, ⟨hashType⟩, compressed⟩
  ⟨holder, .paying 5000 (Script.payToPublicKeyHash holder.publicKey.hash160)⟩

/-- One signer under either digest: the first frees the other inputs and covers no output, the
second covers the output beside it and shows its key in the long form. -/
def twoSigners : Nat → InputSigner
  | 0 => payee 1 0xc2 true (by decide)
  | _ => payee 2 0x83 false (by decide)

def twoInputs : Transaction :=
  ⟨1, [.unsigned ⟨.zero, 0⟩, .unsigned ⟨.zero, 1⟩], [.blank, ⟨9000, []⟩], 0⟩

theorem twoSigners_ready (i : Nat) (h : i < 2) : (twoSigners i).Ready twoInputs i := by
  have hi : i = 0 ∨ i = 1 := by omega
  rcases hi with rfl | rfl
  · exact ⟨rfl, .none, by decide, nofun⟩
  · exact ⟨rfl, .single, by decide, fun _ => by decide⟩

def firstDigest : Digest 32 :=
  ⟨[197, 142, 63, 105, 34, 33, 27, 163, 29, 3, 35, 222, 79, 238, 176, 192, 203, 127, 86, 200, 198,
    154, 190, 206, 239, 239, 76, 153, 52, 25, 82, 185], rfl⟩

def firstNonce : PrivateKey :=
  ⟨97573277653327531078806283720475817400211689998407186369882783780421798923319, by decide⟩

theorem firstSigner_signs : (twoSigners 0).Signs twoInputs 0 := by
  have hcovered : (twoInputs.signatureDigest (twoSigners 0).utxo 0
      (twoSigners 0).holder.hashType).toOption = some firstDigest := by decide +kernel
  have hnonce : nonce? (twoSigners 0).holder.key firstDigest = some firstNonce := by
    decide +kernel
  have hx : (Point.generator.times firstNonce.secret.val).xScalar? =
      some 27942740069867692596499262983124765888403443478639147805434564184671218014103 := by
    decide +kernel
  exact InputSigner.signs_of_parts hcovered hnonce hx (by decide +kernel) (by decide +kernel)

def secondDigest : Digest 32 :=
  ⟨[28, 112, 141, 128, 63, 3, 189, 212, 231, 230, 11, 172, 111, 121, 171, 94, 25, 173, 52, 72, 41,
    168, 240, 40, 81, 241, 104, 186, 27, 244, 106, 176], rfl⟩

def secondNonce : PrivateKey :=
  ⟨8230659878976343546963744014470943585589073683733872060936464447496590348437, by decide⟩

theorem secondSigner_signs : (twoSigners 1).Signs twoInputs 1 := by
  have hcovered : (twoInputs.signatureDigest (twoSigners 1).utxo 1
      (twoSigners 1).holder.hashType).toOption = some secondDigest := by decide +kernel
  have hnonce : nonce? (twoSigners 1).holder.key secondDigest = some secondNonce := by
    decide +kernel
  have hx : (Point.generator.times secondNonce.secret.val).xScalar? =
      some 80125229190536537609586331691928397791010775499605582561724795094924285672459 := by
    decide +kernel
  exact InputSigner.signs_of_parts hcovered hnonce hx (by decide +kernel) (by decide +kernel)

theorem twoSigners_signs (i : Nat) (h : i < 2) : (twoSigners i).Signs twoInputs i := by
  have hi : i = 0 ∨ i = 1 := by omega
  rcases hi with rfl | rfl
  · exact firstSigner_signs
  · exact secondSigner_signs

theorem signAll_two_inputs :
    (∀ i < 2, (twoSigners i).Ready twoInputs i) ∧
    (∀ i < 2, (twoSigners i).Signs twoInputs i) ∧
    ∃ final,
      (∀ order : List Nat, order.Perm (List.range 2) →
        signAll twoSigners order twoInputs = .ok final) ∧
      ∀ i < 2, ∀ time, final.verifyInput i (twoSigners i).utxo time = .ok () :=
  ⟨twoSigners_ready, twoSigners_signs,
    signAll_any_order twoInputs twoSigners twoSigners_ready twoSigners_signs⟩

end Transaction

end TxScript
