import TxScript.Proofs.Tx.SigningOrder

/-!
# Scripts of other inputs

The verdict on an input depends on its own unlocking script and on nothing else that unlocking
scripts hold: what the scripts ask about the transaction is answered from its digests and its lock
times, which read no script. So an input can be checked at any moment while the other inputs are
being signed, and on its own.
-/

namespace TxScript

open Machine

namespace Transaction

/-- The transactions are the same, except for what may stand as unlocking scripts in inputs other
than this one. -/
structure AgreesAt (tx tx' : Transaction) (index : Nat) : Prop where
  withoutScripts : tx.withoutScripts = tx'.withoutScripts
  input : tx.inputs[index]? = tx'.inputs[index]?

/-- Puts scripts into inputs, one after another. -/
def withEdits (tx : Transaction) (edits : List (Nat × Bytes)) : Transaction :=
  edits.foldl (fun current edit => current.withScript edit.1 edit.2) tx

/-- The transaction with no unlocking script but that of this input. -/
def alone (tx : Transaction) (index : Nat) : Transaction :=
  { tx with
    inputs := tx.inputs.mapIdx fun i input => if i = index then input else input.withoutScript }

theorem script_withScript {tx : Transaction} {index : Nat} (hindex : index < tx.inputs.length)
    (script : Bytes) :
    (tx.withScript index script).inputs[index]?.map Input.script = some script := by
  rw [getElem?_inputs_withScript, List.getElem?_eq_getElem hindex, Option.map_some, if_pos rfl]
  rfl

theorem withoutScripts_withScript (tx : Transaction) (j : Nat) (script : Bytes) :
    (tx.withScript j script).withoutScripts = tx.withoutScripts := by
  refine withoutScripts_eq rfl rfl rfl (getElem?_inputs_withScript tx j script) ?_
  intro i input
  split <;> rfl

theorem getElem?_inputs_alone (tx : Transaction) (index i : Nat) :
    (tx.alone index).inputs[i]? =
      tx.inputs[i]?.map fun input => if i = index then input else input.withoutScript := by
  unfold alone
  rw [List.getElem?_mapIdx]

/-! ## Agreement -/

namespace AgreesAt

variable {tx tx' : Transaction} {index : Nat}

theorem refl (tx : Transaction) (index : Nat) : tx.AgreesAt tx index :=
  ⟨rfl, rfl⟩

theorem length_inputs (h : tx.AgreesAt tx' index) : tx.inputs.length = tx'.inputs.length := by
  rw [← length_inputs_withoutScripts, h.withoutScripts, length_inputs_withoutScripts]

theorem version (h : tx.AgreesAt tx' index) : tx.version = tx'.version :=
  congrArg (·.version) h.withoutScripts

theorem lockTime (h : tx.AgreesAt tx' index) : tx.lockTime = tx'.lockTime :=
  congrArg (·.lockTime) h.withoutScripts

theorem signatureDigest (h : tx.AgreesAt tx' index) (utxo : Output) (t : HashType) :
    tx.signatureDigest utxo index t = tx'.signatureDigest utxo index t := by
  rw [← signatureDigest_withoutScripts, h.withoutScripts, signatureDigest_withoutScripts]

/-- An edit of another input on one side. -/
theorem edit_other (h : tx.AgreesAt tx' index) {j : Nat} (hj : j ≠ index) (script : Bytes) :
    (tx.withScript j script).AgreesAt tx' index := by
  refine ⟨(withoutScripts_withScript tx j script).trans h.withoutScripts, ?_⟩
  rw [getElem?_inputs_withScript]
  simp only [hj, if_false, Option.map_id']
  exact h.input

/-- The same edit on both sides. -/
theorem edit_both (h : tx.AgreesAt tx' index) (j : Nat) (script : Bytes) :
    (tx.withScript j script).AgreesAt (tx'.withScript j script) index := by
  constructor
  · rw [withoutScripts_withScript, withoutScripts_withScript, h.withoutScripts]
  · rw [getElem?_inputs_withScript, getElem?_inputs_withScript, h.input]

/-- Of a row of edits only those of the input itself count. -/
theorem withEdits (h : tx.AgreesAt tx' index) (edits : List (Nat × Bytes)) :
    (tx.withEdits edits).AgreesAt (tx'.withEdits (edits.filter (·.1 = index))) index := by
  induction edits generalizing tx tx' with
  | nil => exact h
  | cons edit rest ih =>
      obtain ⟨j, script⟩ := edit
      by_cases hj : j = index
      · rw [List.filter_cons_of_pos (by simp [hj])]
        exact ih (h.edit_both j script)
      · rw [List.filter_cons_of_neg (by simp [hj])]
        exact ih (h.edit_other hj script)

theorem alone (tx : Transaction) (index : Nat) : (tx.alone index).AgreesAt tx index := by
  constructor
  · refine withoutScripts_eq rfl rfl rfl (getElem?_inputs_alone tx index) ?_
    intro i input
    split <;> rfl
  · rw [getElem?_inputs_alone]
    simp only [if_true, Option.map_id']

end AgreesAt

end Transaction

/-! ## The verdict -/

variable {tx tx' : Transaction} {index : Nat}

namespace Spend

variable {utxo : Output} {hlt : index < tx.inputs.length} {hlt' : index < tx'.inputs.length}

theorem input_eq_of_agreesAt (h : tx.AgreesAt tx' index) :
    (Spend.mk tx utxo index hlt).input = (Spend.mk tx' utxo index hlt').input := by
  have hinput := h.input
  rw [List.getElem?_eq_getElem hlt, List.getElem?_eq_getElem hlt'] at hinput
  exact Option.some.inj hinput

/-- All that a script can ask about the transaction has the same answer. -/
theorem checker_eq_of_agreesAt (h : tx.AgreesAt tx' index) :
    (Spend.mk tx utxo index hlt).checker = (Spend.mk tx' utxo index hlt').checker := by
  have hcheck : (Spend.mk tx utxo index hlt).checkSignature =
      (Spend.mk tx' utxo index hlt').checkSignature := by
    funext signature key
    unfold checkSignature
    simp only [h.signatureDigest]
  unfold checker
  rw [hcheck, input_eq_of_agreesAt h, h.lockTime, h.version]

theorem verify_eq_of_agreesAt (h : tx.AgreesAt tx' index) (time : UInt32) :
    (Spend.mk tx utxo index hlt).verify time = (Spend.mk tx' utxo index hlt').verify time := by
  unfold verify env
  rw [checker_eq_of_agreesAt h, input_eq_of_agreesAt h]

end Spend

namespace Transaction

theorem AgreesAt.verifyInput (h : tx.AgreesAt tx' index) (utxo : Output) (time : UInt32) :
    tx.verifyInput index utxo time = tx'.verifyInput index utxo time := by
  unfold Transaction.verifyInput Spend.of
  by_cases hlt : index < tx.inputs.length
  · have hlt' : index < tx'.inputs.length := h.length_inputs ▸ hlt
    rw [dif_pos hlt, dif_pos hlt']
    exact Spend.verify_eq_of_agreesAt h time
  · have hlt' : ¬ index < tx'.inputs.length := h.length_inputs ▸ hlt
    rw [dif_neg hlt, dif_neg hlt', h.length_inputs]

/-- The verdict on an input is the same, with its error, for transactions that differ in the
unlocking scripts of other inputs only. So of the scripts that are put into inputs one after
another, over whatever stood there, only those of the input itself count, wherever they come in the
row; and the input can be checked alone. -/
theorem verifyInput_of_own_script (index : Nat) (utxo : Output) (time : UInt32) :
    (∀ tx tx' : Transaction, tx.AgreesAt tx' index →
      tx.verifyInput index utxo time = tx'.verifyInput index utxo time) ∧
    (∀ (tx : Transaction) (edits : List (Nat × Bytes)),
      (tx.withEdits edits).verifyInput index utxo time =
        (tx.withEdits (edits.filter (·.1 = index))).verifyInput index utxo time) ∧
    ∀ tx : Transaction,
      (tx.alone index).verifyInput index utxo time = tx.verifyInput index utxo time :=
  ⟨fun _ _ h => h.verifyInput utxo time,
    fun tx edits => ((AgreesAt.refl tx index).withEdits edits).verifyInput utxo time,
    fun tx => (AgreesAt.alone tx index).verifyInput utxo time⟩

/-- A signed input stays authorized whatever becomes of the other one: a script that cannot be read
is put into it, or a first script and then nothing again, before and after the signature. -/
theorem verifyInput_beside_broken_script :
    let time : UInt32 := 1333238400
    let script := (twoSigners 0).script twoInputs 0
    let signed := twoInputs.withScript 0 script
    let broken := signed.withScript 1 [0x4c]
    let edits := [(1, [0x51]), (0, script), (1, [])]
    (broken.AgreesAt signed 0 ∧
      broken.verifyInput 0 (twoSigners 0).utxo time = .ok ()) ∧
    (twoInputs.withEdits edits).verifyInput 0 (twoSigners 0).utxo time = .ok () ∧
    (broken.alone 0).verifyInput 0 (twoSigners 0).utxo time = .ok () := by
  intro time script signed broken edits
  have hsigned : signed.verifyInput 0 (twoSigners 0).utxo time = .ok () :=
    InputSigner.verifyInput_of_script (twoSigners_ready 0 (by decide)) firstSigner_signs
      (by decide) (withoutScripts_withScript _ 0 script) (script_withScript (by decide) script) time
  have hagrees : broken.AgreesAt signed 0 :=
    (AgreesAt.refl signed 0).edit_other (by decide) [0x4c]
  have hown (own : Bytes) : twoInputs.withEdits
      ([(1, [0x51]), (0, own), (1, [])].filter (·.1 = 0)) = twoInputs.withScript 0 own := rfl
  obtain ⟨hsame, hedits, halone⟩ := verifyInput_of_own_script 0 (twoSigners 0).utxo time
  have hbroken : broken.verifyInput 0 (twoSigners 0).utxo time = .ok () := by
    rw [hsame broken signed hagrees, hsigned]
  exact ⟨⟨hagrees, hbroken⟩, by rw [hedits, hown, hsigned], by rw [halone, hbroken]⟩

end Transaction

end TxScript
