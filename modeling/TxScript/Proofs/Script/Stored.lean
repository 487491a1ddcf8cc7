import TxScript.Proofs.Json.Plain
import TxScript.Proofs.Results
import TxScript.Proofs.Script.Pushes
import TxScript.Script.Stored

/-!
# Both views of stored scripts

The bytes and the chunks of a stored script agree after every step, failed ones included, and each
step does to the stored script what the step on plain scripts does to its chunks.
-/

namespace TxScript

namespace StoredScript

/-- The scripts that steps can lead to, in any order and number. -/
inductive Built : StoredScript → Prop
  | empty : Built empty
  | parse {input : Bytes} {s : StoredScript} (h : parse input = .ok s) : Built s
  | ofHex {text : String} {s : StoredScript} (h : ofHex text = .ok s) : Built s
  | ofChunks {chunks : List Chunk} {s : StoredScript} (h : ofChunks chunks = .ok s) : Built s
  | ofAsm {text : String} {s : StoredScript} (h : ofAsm text = .ok s) : Built s
  | payToPublicKeyHash (hash : Digest 20) : Built (payToPublicKeyHash hash)
  | multisig {required : Nat} {keys : List Curve.PublicKey} {s : StoredScript}
    (h : multisig required keys = .ok s) : Built s
  | toP2sh {s : StoredScript} (h : Built s) : Built s.toP2sh
  | dropChunks {s : StoredScript} (h : Built s) (index : Nat) : Built (s.dropChunks index)
  | takeChunks {s : StoredScript} (h : Built s) (index : Nat) : Built (s.takeChunks index)
  | call {s : StoredScript} (h : Built s) (call : BuilderCall)
    (harguments : ∀ other ∈ call.arguments, Built other) : Built (call.left s)

end StoredScript

/-! ## Steps in place and steps on plain scripts -/

/-- The script with its bytes beside it. -/
def Script.stored (s : Script) : StoredScript :=
  .ofParts s.chunks

/-- The plain script with the chunks of a stored one, if these are canonical. -/
def StoredScript.script? (kept : StoredScript) : Option Script :=
  if h : ∀ c ∈ kept.chunks, c.Canonical then some ⟨kept.chunks, h⟩ else none

@[simp] theorem StoredScript.script?_stored (s : Script) : s.stored.script? = some s :=
  dif_pos s.canonical

/-- The same change of a plain script. -/
def BuilderCall.onScript? : BuilderCall → Script → Option (Except ScriptError Script)
  | .append op, s => some (s.append op)
  | .appendData data, s => some (s.appendData data)
  | .appendDataWith data enc, s => some (s.appendDataWith data enc)
  | .appendScript other, s => other.script?.map s.appendScript
  | .deleteData data, s => some (.ok (s.withoutData data))
  | .deleteOpcode op, s => some (.ok (s.withoutOpcode op))

/-- What becomes of a stored script when the plain one is changed like this. -/
def Script.inPlace (s : Script) (r : Except ScriptError Script) :
    EStateM.Result ScriptError StoredScript Unit :=
  match r with
  | .ok t => .ok () t.stored
  | .error e => .error e s.stored

namespace StoredScript

variable {s other : Script}

theorem append_stored (op : Opcode) : append op s.stored = s.inPlace (s.append op) := by
  unfold Script.append append
  by_cases hzero : op = .zero
  · subst hzero
    rfl
  · by_cases hneeds : Script.needsOperand op = true
    · rw [dif_pos hneeds, if_neg hzero, if_pos hneeds]
      rfl
    · rw [dif_neg hneeds, dif_neg hzero, if_neg hzero, if_neg hneeds]
      rfl

theorem appendDataWith_stored (data : Bytes) (enc : PushEncoding) :
    appendDataWith data enc s.stored = s.inPlace (s.appendDataWith data enc) := by
  unfold Script.appendDataWith appendDataWith
  by_cases hempty : data.isEmpty = true
  · simp only [hempty]
    rfl
  · rw [if_neg hempty, if_neg hempty]
    split
    · rename_i hpush
      simp only [hpush]
      rfl
    · rename_i hpush
      simp only [hpush]
      rfl

theorem appendData_stored (data : Bytes) :
    appendData data s.stored = s.inPlace (s.appendData data) :=
  appendDataWith_stored data _

theorem appendScript_stored :
    appendScript other.stored s.stored = s.inPlace (s.appendScript other) := by
  have hbytes : other.stored.bytes.isEmpty = other.isEmpty := rfl
  unfold Script.appendScript appendScript
  by_cases hempty : other.isEmpty = true
  · simp only [hbytes, hempty]
    rfl
  · simp only [hbytes, hempty]
    rfl

theorem deleteData_stored (data : Bytes) :
    deleteData data s.stored = s.inPlace (.ok (s.withoutData data)) := by
  unfold Script.withoutData deleteData
  by_cases hempty : data.isEmpty = true
  · simp only [hempty]
    rfl
  · simp only [hempty]
    rfl

theorem deleteOpcode_stored (op : Opcode) :
    deleteOpcode op s.stored = s.inPlace (.ok (s.withoutOpcode op)) := rfl

theorem appendToken_stored (token : String) :
    appendToken token s.stored = s.inPlace (s.appendToken token) := by
  unfold Script.appendToken appendToken
  cases Opcode.ofName? token with
  | some op => exact append_stored op
  | none =>
      cases Hex.decode token with
      | ok data => exact appendData_stored data
      | error cause => rfl

theorem made_appendTokens (tokens : List String) :
    made (appendTokens tokens s.stored) = (s.appendTokens tokens).map Script.stored := by
  induction tokens generalizing s with
  | nil => rfl
  | cons token rest ih =>
      have hfirst := appendToken_stored (s := s) token
      simp only [appendTokens, Script.appendTokens, bind, EStateM.bind]
      cases htoken : s.appendToken token with
      | error e =>
          rw [htoken] at hfirst
          rw [hfirst]
          rfl
      | ok t =>
          rw [htoken] at hfirst
          rw [hfirst]
          exact ih

theorem ofAsm_eq (text : String) : ofAsm text = (Script.ofAsm text).map Script.stored :=
  made_appendTokens (s := .empty) (Text.words text)

/-! ## Both views of every script -/

theorem call_stored {call : BuilderCall}
    (harguments : ∀ other ∈ call.arguments, ∃ t : Script, other = t.stored) :
    ∃ r, call.onScript? s = some r ∧ call.perform s.stored = s.inPlace r := by
  cases call with
  | append op => exact ⟨_, rfl, append_stored op⟩
  | appendData data => exact ⟨_, rfl, appendData_stored data⟩
  | appendDataWith data enc => exact ⟨_, rfl, appendDataWith_stored data enc⟩
  | appendScript other =>
      obtain ⟨t, rfl⟩ := harguments other List.mem_cons_self
      exact ⟨_, congrArg (Option.map s.appendScript) (script?_stored t), appendScript_stored⟩
  | deleteData data => exact ⟨_, rfl, deleteData_stored data⟩
  | deleteOpcode op => exact ⟨_, rfl, deleteOpcode_stored op⟩

theorem parse_eq (input : Bytes) : parse input = (Script.parse input).map Script.stored := by
  unfold parse
  cases hread : Script.parse input with
  | error e =>
      rw [Script.parse_eq_error.1 hread]
      rfl
  | ok s =>
      rw [Script.parse_eq_ok.1 hread, ← Script.bytes_of_parse hread]
      rfl

theorem exists_script_of_map {e : Type} {r : Except e Script} {kept : StoredScript}
    (h : r.map Script.stored = .ok kept) : ∃ t : Script, kept = t.stored := by
  cases r with
  | error cause => cases h
  | ok t =>
      cases h
      exact ⟨t, rfl⟩

theorem exists_script_of_parse {input : Bytes} {kept : StoredScript}
    (h : parse input = .ok kept) : ∃ t : Script, kept = t.stored := by
  rw [parse_eq] at h
  exact exists_script_of_map h

/-- Whatever the steps, what they lead to is a script with its bytes beside it. -/
theorem Built.exists_script {kept : StoredScript} (h : Built kept) :
    ∃ t : Script, kept = t.stored := by
  induction h with
  | empty => exact ⟨.empty, rfl⟩
  | parse h => exact exists_script_of_parse h
  | @ofHex text kept h =>
      unfold StoredScript.ofHex at h
      cases hinput : Hex.decode text with
      | error cause =>
          rw [hinput] at h
          cases h
      | ok input =>
          rw [hinput] at h
          exact exists_script_of_parse (mapError_eq_ok.1 h)
  | ofChunks h => exact exists_script_of_parse (mapError_eq_ok.1 h)
  | @ofAsm text kept h =>
      rw [ofAsm_eq] at h
      exact exists_script_of_map h
  | payToPublicKeyHash hash => exact ⟨.payToPublicKeyHash hash, rfl⟩
  | @multisig required keys kept h => exact exists_script_of_map h
  | @toP2sh kept h ih => exact ⟨.payToScriptHash (Hash.hash160 kept.bytes), rfl⟩
  | dropChunks h index ih =>
      obtain ⟨t, rfl⟩ := ih
      exact ⟨t.dropChunks index, rfl⟩
  | takeChunks h index ih =>
      obtain ⟨t, rfl⟩ := ih
      exact ⟨t.takeChunks index, rfl⟩
  | call h call harguments ih iharguments =>
      obtain ⟨s, rfl⟩ := ih
      obtain ⟨r, -, hcall⟩ := call_stored (s := s) iharguments
      rw [BuilderCall.left, hcall]
      cases r with
      | error e => exact ⟨s, rfl⟩
      | ok t => exact ⟨t, rfl⟩

theorem parse_stored (s : Script) : parse s.stored.bytes = .ok s.stored := by
  rw [parse_eq, show s.stored.bytes = s.bytes from rfl, Script.parse_bytes]
  rfl

theorem ofHex_toHex_stored (s : Script) : ofHex s.stored.toHex = .ok s.stored := by
  unfold ofHex toHex
  rw [Hex.decode_encode]
  show (parse s.stored.bytes).mapError ScriptError.parse = _
  rw [parse_stored]
  rfl

theorem ofJsonText?_toJsonText_stored (s : Script) :
    ofJsonText? s.stored.toJsonText = some s.stored := by
  have hhex : ofHex s.stored.toHex = .ok s.stored := ofHex_toHex_stored s
  have hplain : ∀ c ∈ s.stored.toHex.toList, Json.IsPlain c := fun c hc =>
    Hex.isPlain_of_mem_encode hc
  have hparse := Json.parse?_quotePlain hplain
  simp only [ofJsonText?, toJsonText, hparse, Option.bind_eq_bind, Option.bind_some,
    Json.text?_chars, String.ofList_toList, hhex]
  rfl

/-- The two views of a script that steps have led to are one: its chunks have its bytes, which are
parsed as its chunks, and both of its text forms read back as it. A call that fails leaves it as it
was, and every call does to it what it does to the plain script. -/
theorem views_of_built {kept : StoredScript} (h : Built kept) :
    encodeChunks kept.chunks = kept.bytes ∧ parseChunks kept.bytes = .ok kept.chunks ∧
      ofHex kept.toHex = .ok kept ∧ ofJsonText? kept.toJsonText = some kept ∧
      ∃ s : Script, kept.script? = some s ∧
        ∀ call : BuilderCall, (∀ other ∈ call.arguments, Built other) →
          (∀ e left, call.perform kept = .error e left → left = kept) ∧
            ∃ r, call.onScript? s = some r ∧ call.perform kept = s.inPlace r := by
  obtain ⟨s, rfl⟩ := h.exists_script
  refine ⟨rfl, parseChunks_encodeChunks s.canonical, ofHex_toHex_stored s,
    ofJsonText?_toJsonText_stored s, s, script?_stored s, fun call harguments => ?_⟩
  obtain ⟨r, hplain, hcall⟩ :=
    call_stored (s := s) fun other hother => (harguments other hother).exists_script
  refine ⟨fun e left hleft => ?_, r, hplain, hcall⟩
  rw [hcall] at hleft
  cases r with
  | error cause =>
      cases hleft
      rfl
  | ok t => cases hleft

/-- A push that is not in its most compact encoding, an empty push behind it, then both again. -/
theorem views_of_built_long_push :
    let long := Script.stored { chunks := [.push .pushData2 [7]] }
    let pair := (BuilderCall.append .zero).left long
    let kept := (BuilderCall.appendScript pair).left pair
    let bare := ScriptError.bareOpcode Opcode.pushData1.name
    Built kept ∧
      kept.bytes = [0x4d, 1, 0, 7, 0x00, 0x4d, 1, 0, 7, 0x00] ∧
      encodeChunks kept.chunks = kept.bytes ∧ parseChunks kept.bytes = .ok kept.chunks ∧
      ofHex kept.toHex = .ok kept ∧ ofJsonText? kept.toJsonText = some kept ∧
      ∃ left, (BuilderCall.append .pushData1).perform kept = .error bare left ∧ left = kept := by
  intro long pair kept bare
  have hlong : Built long := .parse (parse_stored _)
  have hpair : Built pair := .call hlong _ (List.forall_mem_nil _)
  have hkept : Built kept := .call hpair _ (List.forall_mem_singleton.2 hpair)
  obtain ⟨hbytes, hchunks, hhex, hjson, s, -, hcalls⟩ := views_of_built hkept
  obtain ⟨hunchanged, -⟩ := hcalls (.append .pushData1) (List.forall_mem_nil _)
  have hrefused : (BuilderCall.append .pushData1).perform kept = .error bare kept := rfl
  exact ⟨hkept, by decide, hbytes, hchunks, hhex, hjson, kept, hrefused, hunchanged _ _ hrefused⟩

end StoredScript

end TxScript
