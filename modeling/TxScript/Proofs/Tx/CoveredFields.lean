import TxScript.Tx.Spend

/-!
# What digests depend on

Two requests for a signature have the same digest when they agree on what their hash type covers;
all else may differ between them. The original digest covers less of the spent output, and the
digest of the fork does not cover the place of the input.
-/

namespace TxScript

open Machine

/-- A spend to be signed under a hash type with a defined coverage. -/
structure SigningRequest extends Spend where
  hashType : HashType
  coverage : Coverage
  covers : hashType.coverage? = some coverage

theorem SigningRequest.coverage_eq {a b : SigningRequest} (h : a.hashType = b.hashType) :
    a.coverage = b.coverage := by
  have hsame : some a.coverage = some b.coverage := by rw [← a.covers, ← b.covers, h]
  exact Option.some.inj hsame

theorem Spend.getElem?_inputs (spend : Spend) :
    spend.tx.inputs[spend.index]? = some spend.input :=
  List.getElem?_eq_getElem spend.index_lt

theorem take_one_drop_of_getElem? {α : Type} {as : List α} {n : Nat} {a : α}
    (h : as[n]? = some a) : (as.drop n).take 1 = [a] := by
  obtain ⟨hlt, ha⟩ := List.getElem?_eq_some_iff.1 h
  rw [List.drop_eq_getElem_cons hlt, ha]
  rfl

theorem getElem_of_map_eq {α β : Type} {f : α → β} {as bs : List α} (h : as.map f = bs.map f)
    {n : Nat} (hn : n < as.length) (hn' : n < bs.length) : f as[n] = f bs[n] := by
  have hget : (as.map f)[n]? = (bs.map f)[n]? := by rw [h]
  simpa [hn, hn'] using hget

namespace OriginalDigest

theorem coverInput_eq (coverage : Coverage) (code : Bytes) (signed i : Nat) (input : Input) :
    coverInput coverage code signed i input =
      ⟨input.outpoint, if i = signed then code else [],
        if i = signed ∨ coverage = .all then input.sequence else 0⟩ := by
  unfold coverInput
  by_cases hi : i = signed <;> simp [hi]

/-- Which sequence counts depends on the input and on the coverage; the script of the input never
counts. -/
theorem coverInput_congr {coverage : Coverage} {code : Bytes} {signed i : Nat} {x y : Input}
    (houtpoint : x.outpoint = y.outpoint)
    (hsequence : i = signed ∨ coverage = .all → x.sequence = y.sequence) :
    coverInput coverage code signed i x = coverInput coverage code signed i y := by
  rw [coverInput_eq, coverInput_eq, houtpoint]
  by_cases hkept : i = signed ∨ coverage = .all
  · rw [hsequence hkept]
  · rw [if_neg hkept, if_neg hkept]

/-- A request that has something to sign: for single coverage, an output beside the input. -/
structure Request extends SigningRequest where
  beside : coverage = .single → index < tx.outputs.length

namespace Request

variable {a b : Request}

/-- The script put in at the signed input. -/
def code (r : Request) : Bytes :=
  scriptCode r.utxo.script

def inputs (r : Request) : List Input :=
  coveredInputs r.tx r.coverage r.hashType.anyoneCanPay r.code r.index

def outputs (r : Request) : List Output :=
  coveredOutputs r.tx r.coverage r.index

def message (r : Request) : Bytes :=
  OriginalDigest.message r.tx r.utxo r.index r.hashType r.coverage

theorem hasTarget (r : Request) : OriginalDigest.hasTarget r.tx r.index r.coverage = true := by
  have houtput : r.coverage ≠ .single ∨ r.index < r.tx.outputs.length :=
    Decidable.not_or_of_imp r.beside
  simpa [OriginalDigest.hasTarget, r.index_lt] using houtput

theorem digest_eq (r : Request) :
    digest r.tx r.utxo r.index r.hashType = .ok (Hash.sha256d r.message) := by
  unfold digest HashType.validate
  rw [r.covers]
  show (if OriginalDigest.hasTarget r.tx r.index r.coverage then _ else _) = _
  rw [if_pos r.hasTarget]
  rfl

theorem signatureDigest_eq {r : Request} (hfork : r.hashType.hasForkId = false) :
    r.tx.signatureDigest r.utxo r.index r.hashType = .ok (Hash.sha256d r.message) := by
  unfold Transaction.signatureDigest
  rw [hfork, if_neg Bool.false_ne_true, r.digest_eq]

/-- The transaction that is hashed in place of the one to be signed. -/
def trimmed (r : Request) : Transaction :=
  OriginalDigest.trimmed r.tx r.utxo r.index r.hashType r.coverage

theorem trimmed_eq (r : Request) :
    r.trimmed = ⟨r.tx.version, r.inputs, r.outputs, r.tx.lockTime⟩ := rfl

theorem message_eq (r : Request) : r.message = r.trimmed.encode ++ r.hashType.encode := rfl

/-- Where the other inputs are free, the signed one is the only one kept. -/
theorem inputs_of_free {r : Request} (h : r.hashType.anyoneCanPay = true) :
    r.inputs = [⟨r.input.outpoint, r.code, r.input.sequence⟩] := by
  have hsigned : (r.tx.inputs.mapIdx (coverInput r.coverage r.code r.index))[r.index]? =
      some ⟨r.input.outpoint, r.code, r.input.sequence⟩ := by
    rw [List.getElem?_mapIdx, r.getElem?_inputs, Option.map_some, coverInput_eq]
    simp
  simp only [inputs, coveredInputs, h, if_true, take_one_drop_of_getElem? hsigned]

theorem inputs_of_fixed {r : Request} (h : r.hashType.anyoneCanPay = false) :
    r.inputs = r.tx.inputs.mapIdx (coverInput r.coverage r.code r.index) := by
  simp only [inputs, coveredInputs, h, Bool.false_eq_true, if_false]

theorem outputs_of_single {r : Request} (h : r.coverage = .single) {o : Output}
    (ho : r.tx.outputs[r.index]? = some o) :
    r.outputs = List.replicate r.index .blank ++ [o] := by
  simp only [outputs, coveredOutputs, h, take_one_drop_of_getElem? ho]

/-- Agreement on what the original digest covers. -/
structure Agree (a b : Request) : Prop where
  hashType : a.hashType = b.hashType
  version : a.tx.version = b.tx.version
  lockTime : a.tx.lockTime = b.tx.lockTime
  outpoint : a.input.outpoint = b.input.outpoint
  sequence : a.input.sequence = b.input.sequence
  code : scriptCode a.utxo.script = scriptCode b.utxo.script
  index : a.hashType.anyoneCanPay = false → a.index = b.index
  outpoints : a.hashType.anyoneCanPay = false →
    a.tx.inputs.map Input.outpoint = b.tx.inputs.map Input.outpoint
  sequences : a.hashType.anyoneCanPay = false → a.coverage = .all →
    a.tx.inputs.map Input.sequence = b.tx.inputs.map Input.sequence
  outputs : a.coverage = .all → a.tx.outputs = b.tx.outputs
  output : a.coverage = .single →
    a.index = b.index ∧ a.tx.outputs[a.index]? = b.tx.outputs[b.index]?

theorem inputs_eq_of_agree (h : Agree a b) : a.inputs = b.inputs := by
  have hcode : a.code = b.code := h.code
  have hcoverage := SigningRequest.coverage_eq h.hashType
  cases hfree : a.hashType.anyoneCanPay with
  | true =>
      have hfree' : b.hashType.anyoneCanPay = true := h.hashType ▸ hfree
      rw [inputs_of_free hfree, inputs_of_free hfree', h.outpoint, hcode, h.sequence]
  | false =>
      have hfree' : b.hashType.anyoneCanPay = false := h.hashType ▸ hfree
      have hindex := h.index hfree
      have hlength : a.tx.inputs.length = b.tx.inputs.length := by
        simpa using congrArg List.length (h.outpoints hfree)
      rw [inputs_of_fixed hfree, inputs_of_fixed hfree', hcode, hcoverage, hindex]
      refine List.ext_getElem (by simpa using hlength) fun i hi hi' => ?_
      rw [List.length_mapIdx] at hi hi'
      rw [List.getElem_mapIdx, List.getElem_mapIdx]
      refine coverInput_congr (getElem_of_map_eq (h.outpoints hfree) hi hi') ?_
      -- Only two kinds of sequence are kept: that of the signed input, and all under full coverage.
      rintro (rfl | hall)
      · simpa [Spend.input, hindex] using h.sequence
      · exact getElem_of_map_eq (h.sequences hfree (hcoverage.trans hall)) hi hi'

theorem outputs_eq_of_agree (h : Agree a b) : a.outputs = b.outputs := by
  have hcoverage := SigningRequest.coverage_eq h.hashType
  cases hc : a.coverage with
  | all =>
      have hb : b.coverage = .all := hcoverage ▸ hc
      simp only [outputs, coveredOutputs, hc, hb, h.outputs hc]
  | none =>
      have hb : b.coverage = .none := hcoverage ▸ hc
      simp only [outputs, coveredOutputs, hc, hb]
  | single =>
      have hb : b.coverage = .single := hcoverage ▸ hc
      obtain ⟨hindex, houtput⟩ := h.output hc
      obtain ⟨o, ha⟩ : ∃ o, a.tx.outputs[a.index]? = some o :=
        ⟨_, List.getElem?_eq_getElem (a.beside hc)⟩
      rw [outputs_of_single hc ha, outputs_of_single hb (houtput ▸ ha), hindex]

theorem message_eq_of_agree (h : Agree a b) : a.message = b.message := by
  rw [message_eq, message_eq, trimmed_eq, trimmed_eq, inputs_eq_of_agree h, outputs_eq_of_agree h,
    h.version, h.lockTime, h.hashType]

/-- The original digest of a request that has something to sign is the hash of its message, and it
depends only on what its hash type covers: neither on unlocking scripts, nor on the value of the
spent output, nor on the inputs, sequences and outputs that the hash type leaves out. -/
theorem signatureDigest_eq_of_agree (h : Agree a b) (hfork : a.hashType.hasForkId = false) :
    a.tx.signatureDigest a.utxo a.index a.hashType = .ok (Hash.sha256d a.message) ∧
      b.tx.signatureDigest b.utxo b.index b.hashType = .ok (Hash.sha256d a.message) := by
  have hfork' : b.hashType.hasForkId = false := h.hashType ▸ hfork
  refine ⟨signatureDigest_eq hfork, ?_⟩
  rw [signatureDigest_eq hfork', message_eq_of_agree h]

/-- A signature over the second input and the output beside it, with the others free. -/
def loneInput : Request where
  tx := ⟨2, [.unsigned ⟨.zero, 0⟩, ⟨⟨.zero, 1⟩, [0x00], 7⟩], [.blank, ⟨9, [0x51]⟩], 5⟩
  utxo := ⟨1000, [0xab, 0xac]⟩
  index := 1
  index_lt := by decide
  hashType := ⟨0x83⟩
  coverage := .single
  covers := by decide
  beside := by decide

/-- The same signature after more has been added and the free parts have been changed. -/
def joinedInput : Request where
  tx := ⟨2, [⟨⟨.zero, 8⟩, [], 3⟩, ⟨⟨.zero, 1⟩, [], 7⟩, .unsigned ⟨.zero, 4⟩],
    [⟨4, [0x52]⟩, ⟨9, [0x51]⟩, .blank], 5⟩
  utxo := ⟨2000, [0xac]⟩
  index := 1
  index_lt := by decide
  hashType := ⟨0x83⟩
  coverage := .single
  covers := by decide
  beside := by decide

theorem loneInput_agree_joinedInput : Agree loneInput joinedInput where
  hashType := rfl
  version := rfl
  lockTime := rfl
  outpoint := rfl
  sequence := rfl
  code := by decide +kernel
  index h := absurd h (by decide)
  outpoints h := absurd h (by decide)
  sequences h := absurd h (by decide)
  outputs h := absurd h (by decide)
  output _ := ⟨rfl, rfl⟩

theorem signatureDigest_loneInput_joinedInput :
    Agree loneInput joinedInput ∧ loneInput.hashType.hasForkId = false ∧
      loneInput.tx.signatureDigest loneInput.utxo 1 ⟨0x83⟩ =
        .ok (Hash.sha256d loneInput.message) ∧
      joinedInput.tx.signatureDigest joinedInput.utxo 1 ⟨0x83⟩ =
        .ok (Hash.sha256d loneInput.message) :=
  ⟨loneInput_agree_joinedInput, by decide,
    signatureDigest_eq_of_agree loneInput_agree_joinedInput (by decide)⟩

end Request

end OriginalDigest

namespace ForkIdDigest

theorem hashPrevouts_eq (tx : Transaction) :
    hashPrevouts tx = Hash.sha256d ((tx.inputs.map Input.outpoint).flatMap Outpoint.encode) := by
  rw [List.flatMap_map, hashPrevouts]

theorem hashSequence_eq (tx : Transaction) :
    hashSequence tx = Hash.sha256d ((tx.inputs.map Input.sequence).flatMap fun sequence =>
      LittleEndian.encode 4 sequence.toNat) := by
  rw [List.flatMap_map, hashSequence]

/-- Single coverage sees the output beside the input, or that there is none. -/
theorem coveredOutputs_single (tx : Transaction) (signed : Nat) :
    coveredOutputs tx signed .single =
      tx.outputs[signed]?.elim Digest.zero fun o => Hash.sha256d ([o].flatMap Output.encode) := by
  unfold coveredOutputs
  cases ho : tx.outputs[signed]? with
  | none =>
      have hout : ¬ signed < tx.outputs.length := Nat.not_lt.2 (List.getElem?_eq_none_iff.1 ho)
      simp only [if_neg hout, Option.elim_none]
  | some o =>
      have hin : signed < tx.outputs.length := (List.getElem?_eq_some_iff.1 ho).1
      simp only [if_pos hin, hashOutputAt, take_one_drop_of_getElem? ho, Option.elim_some]

/-- Agreement on what the digest of the fork covers. The places of the inputs may differ; under
single coverage the same output stands beside both of them, or none. -/
structure Agree (a b : SigningRequest) : Prop where
  hashType : a.hashType = b.hashType
  version : a.tx.version = b.tx.version
  lockTime : a.tx.lockTime = b.tx.lockTime
  utxo : a.utxo = b.utxo
  outpoint : a.input.outpoint = b.input.outpoint
  sequence : a.input.sequence = b.input.sequence
  outpoints : a.hashType.anyoneCanPay = false →
    a.tx.inputs.map Input.outpoint = b.tx.inputs.map Input.outpoint
  sequences : a.hashType.anyoneCanPay = false → a.coverage = .all →
    a.tx.inputs.map Input.sequence = b.tx.inputs.map Input.sequence
  outputs : a.coverage = .all → a.tx.outputs = b.tx.outputs
  output : a.coverage = .single → a.tx.outputs[a.index]? = b.tx.outputs[b.index]?

variable {a b : SigningRequest}

/-- What is hashed for the fork when a request is signed. -/
def requestMessage (r : SigningRequest) : Bytes :=
  message r.tx r.utxo r.index r.input r.hashType r.coverage

theorem digest_eq (r : SigningRequest) :
    digest r.tx r.utxo r.index r.hashType = .ok (Hash.sha256d (requestMessage r)) := by
  unfold digest preimage HashType.validate
  rw [r.covers, r.getElem?_inputs]
  rfl

theorem signatureDigest_eq {r : SigningRequest} (hfork : r.hashType.hasForkId = true) :
    r.tx.signatureDigest r.utxo r.index r.hashType = .ok (Hash.sha256d (requestMessage r)) := by
  unfold Transaction.signatureDigest
  rw [hfork, if_pos rfl, digest_eq]

theorem coveredPrevouts_eq_of_agree (h : Agree a b) :
    coveredPrevouts a.tx a.hashType = coveredPrevouts b.tx b.hashType := by
  unfold coveredPrevouts
  rw [← h.hashType, hashPrevouts_eq, hashPrevouts_eq]
  cases hfree : a.hashType.anyoneCanPay with
  | true => rw [if_pos rfl, if_pos rfl]
  | false => rw [h.outpoints hfree]

theorem coveredSequence_eq_of_agree (h : Agree a b) :
    coveredSequence a.tx a.hashType a.coverage = coveredSequence b.tx b.hashType b.coverage := by
  unfold coveredSequence
  rw [← h.hashType, ← SigningRequest.coverage_eq h.hashType, hashSequence_eq, hashSequence_eq]
  split
  · rfl
  · rename_i hcovered
    simp only [Bool.or_eq_true, decide_eq_true_eq, not_or, Bool.not_eq_true,
      Decidable.not_not] at hcovered
    rw [h.sequences hcovered.1 hcovered.2]

theorem coveredOutputs_eq_of_agree (h : Agree a b) :
    coveredOutputs a.tx a.index a.coverage = coveredOutputs b.tx b.index b.coverage := by
  rw [← SigningRequest.coverage_eq h.hashType]
  cases hc : a.coverage with
  | all => simp only [coveredOutputs, hashOutputs, h.outputs hc]
  | none => simp only [coveredOutputs]
  | single => rw [coveredOutputs_single, coveredOutputs_single, h.output hc]

theorem message_eq_of_agree (h : Agree a b) : requestMessage a = requestMessage b := by
  unfold requestMessage message
  rw [coveredPrevouts_eq_of_agree h, coveredSequence_eq_of_agree h, coveredOutputs_eq_of_agree h,
    h.version, h.lockTime, h.utxo, h.outpoint, h.sequence, h.hashType]

/-- The digest of the fork is the hash of the message of a request, and it depends only on what the
hash type covers. -/
theorem signatureDigest_eq_of_covered (h : Agree a b) (hfork : a.hashType.hasForkId = true) :
    a.tx.signatureDigest a.utxo a.index a.hashType = .ok (Hash.sha256d (requestMessage a)) ∧
      b.tx.signatureDigest b.utxo b.index b.hashType = .ok (Hash.sha256d (requestMessage a)) := by
  have hfork' : b.hashType.hasForkId = true := h.hashType ▸ hfork
  refine ⟨signatureDigest_eq hfork, ?_⟩
  rw [signatureDigest_eq hfork', message_eq_of_agree h]

/-- A signature over the only input and the output beside it, with other inputs free. -/
def firstPair : SigningRequest where
  tx := ⟨2, [⟨⟨.zero, 1⟩, [], 7⟩], [⟨9, [0x51]⟩], 5⟩
  utxo := ⟨1000, [0x4c]⟩
  index := 0
  index_lt := by decide
  hashType := ⟨0xc3⟩
  coverage := .single
  covers := by decide

/-- The same input and output at the end of a larger transaction. -/
def lastPair : SigningRequest where
  tx := ⟨2, [.unsigned ⟨.zero, 4⟩, .unsigned ⟨.zero, 1⟩, ⟨⟨.zero, 1⟩, [0x51], 7⟩],
    [.blank, ⟨4, [0x52]⟩, ⟨9, [0x51]⟩], 5⟩
  utxo := ⟨1000, [0x4c]⟩
  index := 2
  index_lt := by decide
  hashType := ⟨0xc3⟩
  coverage := .single
  covers := by decide

theorem firstPair_agree_lastPair : Agree firstPair lastPair where
  hashType := rfl
  version := rfl
  lockTime := rfl
  utxo := rfl
  outpoint := rfl
  sequence := rfl
  outpoints h := absurd h (by decide)
  sequences h := absurd h (by decide)
  outputs h := absurd h (by decide)
  output _ := rfl

theorem signatureDigest_firstPair_lastPair :
    Agree firstPair lastPair ∧ firstPair.hashType.hasForkId = true ∧
      firstPair.tx.signatureDigest firstPair.utxo 0 ⟨0xc3⟩ =
        .ok (Hash.sha256d (requestMessage firstPair)) ∧
      lastPair.tx.signatureDigest lastPair.utxo 2 ⟨0xc3⟩ =
        .ok (Hash.sha256d (requestMessage firstPair)) :=
  ⟨firstPair_agree_lastPair, by decide,
    signatureDigest_eq_of_covered firstPair_agree_lastPair (by decide)⟩

end ForkIdDigest

end TxScript
