import TxScript.Proofs.Tx.ForkMessage
import TxScript.Proofs.Tx.ScriptCode

/-!
# The original message as a stream

The original digest is also computed without a trimmed transaction, by writing its fields one after
another. Both ways write the same bytes when the stream has blank outputs, of the value zero, in
front of the single one. A stream with null outputs there, whose value is the largest number there
is, has the same bytes only where no output stands in front.
-/

namespace TxScript

/-- The output that stands for none. -/
def Output.null : Output := ⟨0xffffffffffffffff, []⟩

namespace OriginalDigest.Request

variable {r : Request} {s : Script} {placeholder other : Output}

/-! ## Writing field by field -/

/-- The place of the input that is written in the n-th position. -/
def place (r : Request) (n : Nat) : Nat :=
  if r.hashType.anyoneCanPay then r.index else n

def inputCount (r : Request) : Nat :=
  if r.hashType.anyoneCanPay then 1 else r.tx.inputs.length

/-- The bytes of the chunks of the spent script, but for the code separators. -/
def streamCode (s : Script) : Bytes :=
  (s.chunks.filter (· ≠ .op .codeSeparator)).flatMap Chunk.encode

def streamInput (r : Request) (s : Script) (n : Nat) : Bytes :=
  r.tx.inputs[r.place n]?.elim [] fun input =>
    input.outpoint.encode
      ++ (if r.place n = r.index then CompactSize.encode (streamCode s).length ++ streamCode s
        else CompactSize.encode 0)
      ++ LittleEndian.encode 4
        (if r.place n ≠ r.index ∧ r.coverage ≠ .all then 0 else input.sequence.toNat)

def outputCount (r : Request) : Nat :=
  match r.coverage with
  | .all => r.tx.outputs.length
  | .none => 0
  | .single => r.index + 1

def streamOutput (r : Request) (placeholder : Output) (n : Nat) : Bytes :=
  if r.coverage = .single ∧ n ≠ r.index then placeholder.encode
  else r.tx.outputs[n]?.elim [] Output.encode

def stream (r : Request) (s : Script) (placeholder : Output) : Bytes :=
  LittleEndian.encode 4 r.tx.version.toNat
    ++ CompactSize.encode r.inputCount
    ++ (List.range r.inputCount).flatMap (r.streamInput s)
    ++ CompactSize.encode r.outputCount
    ++ (List.range r.outputCount).flatMap (r.streamOutput placeholder)
    ++ LittleEndian.encode 4 r.tx.lockTime.toNat
    ++ LittleEndian.encode 4 r.hashType.byte.toNat

/-! ## The same bytes -/

/-- A row is written member by member when the bytes at each place are those of the member there. -/
theorem flatMap_range_eq {α β : Type} {as : List α} {f : α → List β} {g : Nat → List β}
    (h : ∀ n a, as[n]? = some a → g n = f a) :
    (List.range as.length).flatMap g = as.flatMap f := by
  rw [List.flatMap_def, List.flatMap_def]
  refine congrArg List.flatten (List.ext_getElem (by simp) fun n hn hn' => ?_)
  rw [List.length_map] at hn'
  rw [List.getElem_map, List.getElem_map, List.getElem_range]
  exact h n as[n] (List.getElem?_eq_getElem hn')

theorem code_eq_streamCode (h : Script.parse r.utxo.script = .ok s) : r.code = streamCode s := by
  rw [code, scriptCode_of_parse h, Script.bytes, Script.chunks_withoutCodeSeparators]
  rfl

theorem length_inputs (r : Request) : r.inputs.length = r.inputCount := by
  unfold inputCount
  cases hfree : r.hashType.anyoneCanPay with
  | true => simp [inputs_of_free hfree]
  | false => simp [inputs_of_fixed hfree]

/-- The covered inputs are those of the transaction at the places that are written. -/
theorem exists_of_getElem?_inputs {n : Nat} {i : Input} (h : r.inputs[n]? = some i) :
    ∃ input, r.tx.inputs[r.place n]? = some input ∧
      i = coverInput r.coverage r.code r.index (r.place n) input := by
  unfold place
  cases hfree : r.hashType.anyoneCanPay with
  | true =>
      rw [inputs_of_free hfree, List.getElem?_singleton] at h
      split at h
      · cases h
        exact ⟨r.input, r.getElem?_inputs, by simp [coverInput_eq]⟩
      · cases h
  | false =>
      rw [inputs_of_fixed hfree, List.getElem?_mapIdx] at h
      obtain ⟨input, hinput, rfl⟩ := Option.map_eq_some_iff.1 h
      exact ⟨input, hinput, rfl⟩

theorem streamInput_eq (hcode : r.code = streamCode s) {n : Nat} {i : Input}
    (h : r.inputs[n]? = some i) : r.streamInput s n = i.encode := by
  obtain ⟨input, hinput, rfl⟩ := exists_of_getElem?_inputs h
  rw [streamInput, hinput, Option.elim_some, coverInput_eq, hcode]
  unfold Input.encode Wire.encodeVarBytes
  by_cases hsigned : r.place n = r.index
  · simp [hsigned]
  · by_cases hall : r.coverage = .all
    · simp [hsigned, hall]
    · simp [hsigned, hall]

/-- The outputs as they are covered, with another output in the places in front of the single
one. -/
def outputsBehind (r : Request) (placeholder : Output) : List Output :=
  match r.coverage with
  | .all => r.tx.outputs
  | .none => []
  | .single => List.replicate r.index placeholder ++ (r.tx.outputs.drop r.index).take 1

theorem outputsBehind_blank (r : Request) : r.outputsBehind .blank = r.outputs := rfl

theorem length_outputsBehind (r : Request) (placeholder : Output) :
    (r.outputsBehind placeholder).length = r.outputCount := by
  unfold outputCount outputsBehind
  cases hc : r.coverage with
  | all => rfl
  | none => rfl
  | single =>
      have hbeside := r.beside hc
      simp only [List.length_append, List.length_replicate, List.length_take, List.length_drop]
      omega

theorem streamOutput_eq {n : Nat} {o : Output} (h : (r.outputsBehind placeholder)[n]? = some o) :
    r.streamOutput placeholder n = o.encode := by
  unfold streamOutput
  unfold outputsBehind at h
  cases hc : r.coverage with
  | all =>
      have hout : r.tx.outputs[n]? = some o := by simpa [hc] using h
      simp [hout]
  | none => simp [hc] at h
  | single =>
      obtain ⟨last, hlast⟩ : ∃ last, r.tx.outputs[r.index]? = some last :=
        ⟨_, List.getElem?_eq_getElem (r.beside hc)⟩
      simp only [hc, take_one_drop_of_getElem? hlast, List.getElem?_append,
        List.length_replicate] at h
      split at h
      · rename_i hlt
        rw [List.getElem?_replicate_of_lt hlt] at h
        cases h
        exact if_pos ⟨rfl, Nat.ne_of_lt hlt⟩
      · rename_i hge
        rw [List.getElem?_singleton] at h
        split at h
        · have hn : n = r.index := by omega
          cases h
          simp [hn, hlast]
        · cases h

theorem stream_eq (s : Script) (placeholder : Output) :
    r.stream s placeholder =
      LittleEndian.encode 4 r.tx.version.toNat
        ++ CompactSize.encode r.inputCount
        ++ (List.range r.inputCount).flatMap (r.streamInput s)
        ++ CompactSize.encode r.outputCount
        ++ (r.outputsBehind placeholder).flatMap Output.encode
        ++ LittleEndian.encode 4 r.tx.lockTime.toNat
        ++ LittleEndian.encode 4 r.hashType.byte.toNat := by
  rw [stream, ← length_outputsBehind r placeholder, flatMap_range_eq fun n o => streamOutput_eq]

theorem message_eq_stream (hcode : r.code = streamCode s) : r.message = r.stream s .blank := by
  rw [message_eq, trimmed_eq, stream_eq, ← length_inputs, ← length_outputsBehind r .blank,
    flatMap_range_eq fun n i => streamInput_eq hcode, outputsBehind_blank]
  unfold Transaction.encode HashType.encode
  simp only [List.append_assoc]

/-! ## Placeholders -/

theorem eq_value_of_encode_append {a b : Bytes}
    (h : placeholder.encode ++ a = other.encode ++ b) : placeholder.value = other.value := by
  unfold Output.encode at h
  rw [List.append_assoc, List.append_assoc] at h
  exact LittleEndian.encode_u64_inj (List.append_inj h (by simp)).1

/-- What stands for the outputs that are left out shows in the bytes exactly when there are any. -/
theorem stream_eq_stream_iff (hne : placeholder.value ≠ other.value) :
    r.stream s placeholder = r.stream s other ↔ (r.coverage = .single → r.index = 0) := by
  rw [stream_eq, stream_eq]
  simp only [List.append_assoc, List.append_cancel_left_eq, List.append_cancel_right_eq]
  unfold outputsBehind
  cases hc : r.coverage with
  | all => simp
  | none => simp
  | single =>
      cases hindex : r.index with
      | zero => simp
      | succ count =>
          simp only [forall_const, Nat.add_one_ne_zero, iff_false]
          intro hsame
          rw [List.replicate_succ, List.replicate_succ, List.cons_append, List.cons_append,
            List.flatMap_cons, List.flatMap_cons] at hsame
          exact hne (eq_value_of_encode_append hsame)

/-- The original digest is the hash of the fields as they are streamed with blank outputs in front
of the single one. With null outputs there the bytes are the same exactly when no output stands in
front. -/
theorem signatureDigest_streams (h : Script.parse r.utxo.script = .ok s)
    (hfork : r.hashType.hasForkId = false) :
    r.tx.signatureDigest r.utxo r.index r.hashType = .ok (Hash.sha256d r.message) ∧
    r.message = r.stream s .blank ∧
    (r.message = r.stream s .null ↔ (r.coverage = .single → r.index = 0)) := by
  have hstream : r.message = r.stream s .blank := message_eq_stream (code_eq_streamCode h)
  have hvalue : Output.blank.value ≠ Output.null.value := by decide
  refine ⟨signatureDigest_eq hfork, hstream, ?_⟩
  rw [hstream]
  exact stream_eq_stream_iff hvalue

/-- The input at index 1 is written alone, and an output stands in front of the one beside it. -/
theorem signatureDigest_streams_loneInput :
    let s : Script := { chunks := [.op .codeSeparator, .op .checkSig] }
    (Script.parse loneInput.utxo.script = .ok s ∧ loneInput.hashType.hasForkId = false) ∧
    loneInput.tx.signatureDigest loneInput.utxo 1 ⟨0x83⟩ =
      .ok (Hash.sha256d (loneInput.stream s .blank)) ∧
    loneInput.message ≠ loneInput.stream s .null := by
  intro s
  have hread : Script.parse loneInput.utxo.script = .ok s :=
    Script.parse_eq_ok.2 (parseChunks_eq_ok.2 (by decide))
  have hfork : loneInput.hashType.hasForkId = false := by decide
  obtain ⟨hdigest, hblank, hnull⟩ := signatureDigest_streams hread hfork
  rw [hblank] at hdigest
  refine ⟨⟨hread, hfork⟩, hdigest, fun hsame => ?_⟩
  exact absurd (hnull.1 hsame rfl) (by decide)

/-- The second of two inputs, signed with the output beside it. -/
def secondOfTwo : Request where
  tx := ⟨1, [⟨⟨⟨⟨List.replicate 32 0x01, rfl⟩⟩, 0⟩, [], 7⟩,
      ⟨⟨⟨⟨List.replicate 32 0x02, rfl⟩⟩, 1⟩, [], 9⟩],
    [⟨10, [0x51]⟩, ⟨20, [0x52]⟩], 0⟩
  utxo := ⟨5, [0x51, 0xab, 0xac]⟩
  index := 1
  index_lt := by decide
  hashType := ⟨0x03⟩
  coverage := .single
  covers := by decide
  beside := by decide

/-- With a null output in front of the single one, another digest comes out. -/
theorem signatureDigest_ne_stream_of_secondOfTwo :
    let s : Script := { chunks := [.op ⟨0x51⟩, .op .codeSeparator, .op .checkSig] }
    Script.parse secondOfTwo.utxo.script = .ok s ∧ secondOfTwo.hashType.hasForkId = false ∧
    secondOfTwo.message ≠ secondOfTwo.stream s .null ∧
    secondOfTwo.tx.signatureDigest secondOfTwo.utxo 1 ⟨0x03⟩ ≠
      .ok (Hash.sha256d (secondOfTwo.stream s .null)) := by
  intro s
  have hread : Script.parse secondOfTwo.utxo.script = .ok s :=
    Script.parse_eq_ok.2 (parseChunks_eq_ok.2 (by decide))
  have hfork : secondOfTwo.hashType.hasForkId = false := by decide
  have hmessage : secondOfTwo.message = secondOfTwo.stream s .blank :=
    message_eq_stream (code_eq_streamCode hread)
  have hdigest : secondOfTwo.tx.signatureDigest secondOfTwo.utxo 1 ⟨0x03⟩ =
      .ok (Hash.sha256d (secondOfTwo.stream s .blank)) := hmessage ▸ signatureDigest_eq hfork
  have hother : Hash.sha256d (secondOfTwo.stream s .blank) ≠
      Hash.sha256d (secondOfTwo.stream s .null) := by decide +kernel
  refine ⟨hread, hfork, fun hsame => ?_, fun hsame => ?_⟩
  · rw [← hmessage, hsame] at hother
    exact hother rfl
  · rw [hdigest] at hsame
    exact hother (Except.ok.inj hsame)

end OriginalDigest.Request

end TxScript
