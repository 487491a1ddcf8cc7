import TxScript.Proofs.Script.Pushes
import TxScript.Proofs.Tx.CoveredFields
import TxScript.Proofs.Tx.Reading

/-!
# What is hashed determines what is signed

The message under the original digest is the covered transaction with the hash type behind it, so
it reads back. Equal messages come from requests that agree on all that is covered.
-/

namespace TxScript

/-! ## Sizes -/

theorem length_encodeChunks_filter_le (keep : Chunk → Bool) (cs : List Chunk) :
    (encodeChunks (cs.filter keep)).length ≤ (encodeChunks cs).length := by
  induction cs with
  | nil => exact Nat.le_refl _
  | cons c cs ih =>
      rw [encodeChunks_cons, List.length_append]
      by_cases hkeep : keep c = true
      · rw [List.filter_cons_of_pos hkeep, encodeChunks_cons, List.length_append]
        omega
      · rw [List.filter_cons_of_neg hkeep]
        omega

theorem HashType.encode_inj {t u : HashType} (h : t.encode = u.encode) : t = u := by
  have hlt (v : HashType) : v.byte.toNat < LittleEndian.limit 4 :=
    Nat.lt_trans v.byte.toNat_lt (by decide)
  rcases t with ⟨b⟩
  rcases u with ⟨c⟩
  have hbyte : b.toNat = c.toNat := LittleEndian.encode_inj (hlt ⟨b⟩) (hlt ⟨c⟩) h
  exact congrArg HashType.mk (UInt8.toNat_inj.1 hbyte)

namespace OriginalDigest

theorem length_scriptCode_le (locking : Bytes) : (scriptCode locking).length ≤ locking.length := by
  unfold scriptCode
  cases hread : Script.parse locking with
  | error e => exact Nat.zero_le _
  | ok s =>
      rw [← Script.bytes_of_parse hread]
      exact length_encodeChunks_filter_le _ s.chunks

namespace Request

variable {a b : Request}

/-- All counts and lengths of what is asked about fit the wire. -/
structure Fits (r : Request) : Prop where
  tx : r.tx.Fits
  utxo : r.utxo.Fits

theorem length_inputs_le (r : Request) : r.inputs.length ≤ r.tx.inputs.length := by
  unfold inputs coveredInputs
  split
  · simp only [List.length_take, List.length_drop, List.length_mapIdx]
    omega
  · exact Nat.le_of_eq List.length_mapIdx

theorem length_outputs_le (r : Request) : r.outputs.length ≤ r.tx.outputs.length := by
  unfold outputs coveredOutputs
  cases hc : r.coverage with
  | all => exact Nat.le_refl _
  | none => exact Nat.zero_le _
  | single =>
      have hbeside := r.beside hc
      simp only [List.length_append, List.length_replicate, List.length_take, List.length_drop]
      omega

theorem fits_of_mem_inputs {r : Request} (h : r.Fits) {i : Input} (hi : i ∈ r.inputs) :
    i.Fits := by
  have hcode : r.code.length < UInt64.size :=
    Nat.lt_of_le_of_lt (length_scriptCode_le r.utxo.script) h.utxo
  have hmapped : i ∈ r.tx.inputs.mapIdx (coverInput r.coverage r.code r.index) := by
    unfold inputs coveredInputs at hi
    split at hi
    · exact List.mem_of_mem_drop (List.mem_of_mem_take hi)
    · exact hi
  obtain ⟨k, hk, rfl⟩ := List.mem_mapIdx.1 hmapped
  rw [coverInput_eq]
  unfold Input.Fits
  by_cases hsigned : k = r.index
  · simpa [hsigned] using hcode
  · simp [hsigned]

theorem fits_of_mem_outputs {r : Request} (h : r.Fits) {o : Output} (ho : o ∈ r.outputs) :
    o.Fits := by
  unfold outputs coveredOutputs at ho
  cases hc : r.coverage with
  | all => exact h.tx.outputs o (by simpa [hc] using ho)
  | none => simp [hc] at ho
  | single =>
      rw [hc] at ho
      rcases List.mem_append.1 ho with hblank | hkept
      · rw [List.eq_of_mem_replicate hblank]
        show 0 < UInt64.size
        decide
      · exact h.tx.outputs o (List.mem_of_mem_drop (List.mem_of_mem_take hkept))

theorem fits_trimmed {r : Request} (h : r.Fits) : r.trimmed.Fits where
  inputCount := Nat.lt_of_le_of_lt r.length_inputs_le h.tx.inputCount
  outputCount := Nat.lt_of_le_of_lt r.length_outputs_le h.tx.outputCount
  inputs _ hi := fits_of_mem_inputs h hi
  outputs _ ho := fits_of_mem_outputs h ho

/-! ## Reading the message back -/

theorem trimmed_eq_of_message_eq (ha : a.Fits) (hb : b.Fits) (h : a.message = b.message) :
    a.trimmed = b.trimmed ∧ a.hashType = b.hashType := by
  rw [message_eq, message_eq] at h
  obtain ⟨htrimmed, htype⟩ :=
    Transaction.encode_append_inj (fits_trimmed ha) (fits_trimmed hb) h
  exact ⟨htrimmed, HashType.encode_inj htype⟩

theorem outputs_of_all {r : Request} (h : r.coverage = .all) : r.outputs = r.tx.outputs := by
  simp only [outputs, coveredOutputs, h]

theorem single_eq_of_outputs_eq (ha : a.coverage = .single) (hb : b.coverage = .single)
    (h : a.outputs = b.outputs) :
    a.index = b.index ∧ a.tx.outputs[a.index]? = b.tx.outputs[b.index]? := by
  obtain ⟨o, ho⟩ : ∃ o, a.tx.outputs[a.index]? = some o :=
    ⟨_, List.getElem?_eq_getElem (a.beside ha)⟩
  obtain ⟨u, hu⟩ : ∃ u, b.tx.outputs[b.index]? = some u :=
    ⟨_, List.getElem?_eq_getElem (b.beside hb)⟩
  rw [outputs_of_single ha ho, outputs_of_single hb hu] at h
  obtain ⟨hblank, hkept⟩ := List.append_inj' h rfl
  have hindex : a.index = b.index := by simpa using congrArg List.length hblank
  exact ⟨hindex, by rw [ho, hu, List.singleton_inj.1 hkept]⟩

theorem map_outpoint_inputs {r : Request} (h : r.hashType.anyoneCanPay = false) :
    r.inputs.map Input.outpoint = r.tx.inputs.map Input.outpoint := by
  rw [inputs_of_fixed h]
  refine List.ext_getElem (by simp) fun i hi hi' => ?_
  simp only [List.getElem_map, List.getElem_mapIdx, coverInput_eq]

theorem getElem?_inputs_index {r : Request} (h : r.hashType.anyoneCanPay = false) :
    r.inputs[r.index]? = some ⟨r.input.outpoint, r.code, r.input.sequence⟩ := by
  rw [inputs_of_fixed h, List.getElem?_mapIdx, r.getElem?_inputs, Option.map_some, coverInput_eq]
  simp

/-- Only the signed input has a script, so a script that is not empty tells which one it is. -/
theorem eq_index_of_script_ne_nil {r : Request} (h : r.hashType.anyoneCanPay = false) {i : Nat}
    {input : Input} (hi : r.inputs[i]? = some input) (hne : input.script ≠ []) : i = r.index := by
  rw [inputs_of_fixed h, List.getElem?_mapIdx] at hi
  obtain ⟨original, -, rfl⟩ := Option.map_eq_some_iff.1 hi
  rw [coverInput_eq] at hne
  by_cases hsigned : i = r.index
  · exact hsigned
  · simp [hsigned] at hne

theorem signed_eq_of_inputs_eq (ha : a.hashType.anyoneCanPay = false)
    (hb : b.hashType.anyoneCanPay = false) (h : a.inputs = b.inputs)
    (hne : a.code ≠ [] ∨ b.code ≠ []) :
    a.index = b.index ∧ a.code = b.code ∧ a.input.sequence = b.input.sequence := by
  -- Its script shows which input of one list is signed, and the other list is the same.
  have hindex : a.index = b.index := by
    rcases hne with hne | hne
    · have hsigned := getElem?_inputs_index ha
      rw [h] at hsigned
      exact eq_index_of_script_ne_nil hb hsigned hne
    · have hsigned := getElem?_inputs_index hb
      rw [← h] at hsigned
      exact (eq_index_of_script_ne_nil ha hsigned hne).symm
  have hsigned : some (⟨a.input.outpoint, a.code, a.input.sequence⟩ : Input) =
      some ⟨b.input.outpoint, b.code, b.input.sequence⟩ := by
    rw [← getElem?_inputs_index ha, h, hindex, getElem?_inputs_index hb]
  injection hsigned with hsigned
  injection hsigned with _ hcode hsequence
  exact ⟨hindex, hcode, hsequence⟩

/-- Two requests under the original digest that have the same bytes to hash agree on the hash type,
the version, the lock time, and the inputs and outputs as they are covered. What a hash type covers
in full is therefore the same: all outputs or the one beside the input, the signed input or all
outpoints in order. Among several inputs the signed one is told by its script, when that is not
empty. -/
theorem covered_eq_of_message_eq (ha : a.Fits) (hb : b.Fits) (h : a.message = b.message) :
    a.hashType = b.hashType ∧ a.tx.version = b.tx.version ∧ a.tx.lockTime = b.tx.lockTime ∧
    a.inputs = b.inputs ∧ a.outputs = b.outputs ∧
    (a.coverage = .all → a.tx.outputs = b.tx.outputs) ∧
    (a.coverage = .single →
      a.index = b.index ∧ a.tx.outputs[a.index]? = b.tx.outputs[b.index]?) ∧
    (a.hashType.anyoneCanPay = true →
      a.input.outpoint = b.input.outpoint ∧ a.code = b.code ∧
        a.input.sequence = b.input.sequence) ∧
    (a.hashType.anyoneCanPay = false →
      a.tx.inputs.map Input.outpoint = b.tx.inputs.map Input.outpoint ∧
        (a.code ≠ [] ∨ b.code ≠ [] →
          a.index = b.index ∧ a.code = b.code ∧ a.input.sequence = b.input.sequence)) := by
  obtain ⟨htrimmed, htype⟩ := trimmed_eq_of_message_eq ha hb h
  have hcoverage : a.coverage = b.coverage := SigningRequest.coverage_eq htype
  rw [trimmed_eq, trimmed_eq] at htrimmed
  injection htrimmed with hversion hinputs houtputs hlockTime
  refine ⟨htype, hversion, hlockTime, hinputs, houtputs, fun hall => ?_, fun hsingle => ?_,
    fun hfree => ?_, fun hfixed => ?_⟩
  · rw [← outputs_of_all hall, houtputs, outputs_of_all (hcoverage ▸ hall)]
  · exact single_eq_of_outputs_eq hsingle (hcoverage ▸ hsingle) houtputs
  · rw [inputs_of_free hfree, inputs_of_free (htype ▸ hfree)] at hinputs
    injection hinputs with hsigned
    injection hsigned with houtpoint hcode hsequence
    exact ⟨houtpoint, hcode, hsequence⟩
  · have hfixed' : b.hashType.anyoneCanPay = false := htype ▸ hfixed
    refine ⟨?_, signed_eq_of_inputs_eq hfixed hfixed' hinputs⟩
    rw [← map_outpoint_inputs hfixed, hinputs, map_outpoint_inputs hfixed']

theorem covered_eq_loneInput_joinedInput :
    (loneInput.Fits ∧ joinedInput.Fits ∧ loneInput.message = joinedInput.message) ∧
    loneInput.inputs = joinedInput.inputs ∧ loneInput.outputs = joinedInput.outputs := by
  have hlone : loneInput.Fits := ⟨by decide, by decide⟩
  have hjoined : joinedInput.Fits := ⟨by decide, by decide⟩
  have hmessage := message_eq_of_agree loneInput_agree_joinedInput
  obtain ⟨-, -, -, hinputs, houtputs, -⟩ := covered_eq_of_message_eq hlone hjoined hmessage
  exact ⟨⟨hlone, hjoined, hmessage⟩, hinputs, houtputs⟩

end Request

end OriginalDigest

end TxScript
