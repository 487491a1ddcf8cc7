import TxScript.Proofs.Script.Deletion
import TxScript.Proofs.Script.Fitting

/-!
# What building steps write

A step that adds to a script leaves its bytes as they are and writes its own behind them, although
the bytes of the whole script are made anew. A push whose encoding is left open takes as few bytes
as a push of its data can. Cutting a script in two cuts its bytes in two.
-/

namespace TxScript

variable {s : Script} {kept : StoredScript}

/-! ## The shortest push -/

/-- No encoding that has room for the data spends less on its length. -/
theorem PushEncoding.headerLength_minimal_le {enc : PushEncoding} {length : Nat}
    (h : length ≤ enc.capacity) : (minimal length).headerLength ≤ enc.headerLength := by
  unfold minimal
  cases enc with
  | implicit =>
      have hshort : length ≤ 75 := h
      simp [hshort]
  | pushData1 =>
      have hshort : length ≤ 0xff := h
      simp only [hshort, if_true]
      split <;> decide
  | pushData2 =>
      have hshort : length ≤ 0xffff := h
      simp only [hshort, if_true]
      repeat' split
      all_goals decide
  | pushData4 =>
      repeat' split
      all_goals decide

theorem Chunk.length_encode_pushMinimal_le {enc : PushEncoding} {data : Bytes}
    (h : data.length ≤ enc.capacity) :
    (pushMinimal data).encode.length ≤ (push enc data).encode.length := by
  have hheader := PushEncoding.headerLength_minimal_le h
  simp only [length_encode, pushMinimal, size, PushEncoding.fitted_minimal,
    PushEncoding.fitted_of_le h]
  omega

/-- Bytes that read as a push of the data and as nothing else, and that no shorter ones can stand
for. -/
structure ShortestPush (data piece : Bytes) : Prop where
  read : ∃ enc, parseChunks piece = .ok [.push enc data]
  shortest : ∀ longer enc, parseChunks longer = .ok [.push enc data] →
    piece.length ≤ longer.length

theorem shortestPush_encode {data : Bytes} (h : data.length ≤ 0xffffffff) :
    ShortestPush data (Chunk.pushMinimal data).encode where
  read := ⟨_, parseChunks_eq_singleton.2 ⟨rfl, Chunk.canonical_pushMinimal h⟩⟩
  shortest := by
    intro longer enc hread
    obtain ⟨rfl, hfits⟩ := parseChunks_eq_singleton.1 hread
    exact Chunk.length_encode_pushMinimal_le hfits

namespace StoredScript

/-! ## Writing behind a script -/

/-- The call succeeds when it is allowed to and not otherwise. It then leaves the bytes that are
there and writes those that are added behind them, and when it fails it changes nothing. -/
structure Extends (kept : StoredScript) (call : BuilderCall) (allowed : Prop) (added : Bytes) :
    Prop where
  succeeds : (∃ left, call.perform kept = .ok () left) ↔ allowed
  bytes_eq : ∀ left, call.perform kept = .ok () left → left.bytes = kept.bytes ++ added
  unchanged : ∀ e left, call.perform kept = .error e left → left = kept

/-- It is enough that the plain script grows by the bytes that are added. -/
theorem extends_stored {call : BuilderCall} {r : Except ScriptError Script} {allowed : Prop}
    {added : Bytes} (hcall : call.perform s.stored = s.inPlace r)
    (hallowed : allowed → ∃ t, r = .ok t ∧ t.bytes = s.bytes ++ added)
    (hrefused : ¬allowed → ∃ e, r = .error e) : Extends s.stored call allowed added := by
  by_cases h : allowed
  · obtain ⟨t, rfl, hbytes⟩ := hallowed h
    refine ⟨iff_of_true ⟨_, hcall⟩ h, fun left hleft => ?_, fun e left hleft => ?_⟩
    · rw [hcall] at hleft
      cases hleft
      exact hbytes
    · rw [hcall] at hleft
      cases hleft
  · obtain ⟨cause, rfl⟩ := hrefused h
    have hfails : ∀ left, call.perform s.stored ≠ .ok () left := by
      intro left hleft
      rw [hcall] at hleft
      cases hleft
    refine ⟨iff_of_false (fun ⟨left, hleft⟩ => hfails left hleft) h,
      fun left hleft => absurd hleft (hfails left), fun e left hleft => ?_⟩
    rw [hcall] at hleft
    cases hleft
    rfl

/-- Where a call is refused only when it has nothing to add, what it leaves is the same either way.
-/
theorem Extends.bytes_left {call : BuilderCall} {allowed : Prop} {added : Bytes}
    (h : Extends kept call allowed added) (hnothing : ¬allowed → added = []) :
    (call.left kept).bytes = kept.bytes ++ added := by
  unfold BuilderCall.left
  cases hperform : call.perform kept with
  | ok value left => exact h.bytes_eq left hperform
  | error e left =>
      have hrefused : ¬allowed := by
        intro hallowed
        obtain ⟨made, hmade⟩ := h.succeeds.2 hallowed
        rw [hperform] at hmade
        cases hmade
      rw [hnothing hrefused, List.append_nil]
      exact congrArg bytes (h.unchanged e left hperform)

/-- The opcode that pushes nothing is kept as an empty push, and its byte is the same. -/
theorem extends_append (op : Opcode) :
    Extends s.stored (.append op) (Script.needsOperand op = false) [op.byte] := by
  refine extends_stored (append_stored op) (fun h => ?_) fun h => ⟨.bareOpcode op.name, ?_⟩
  · by_cases hzero : op = .zero
    · subst hzero
      exact ⟨_, rfl, Script.bytes_push s (by decide)⟩
    · have hop : op.isPush = false := Script.isPush_of_needsOperand h hzero
      refine ⟨_, ?_, Script.bytes_push s (Chunk.canonical_op hop)⟩
      rw [Script.append, dif_neg (Bool.eq_false_iff.1 h), dif_neg hzero]
  · have hneeds : Script.needsOperand op = true := by simpa using h
    rw [Script.append, dif_pos hneeds]

theorem extends_appendDataWith (data : Bytes) (enc : PushEncoding) :
    Extends s.stored (.appendDataWith data enc) (data ≠ [] ∧ data.length ≤ enc.capacity)
      (enc.header data.length ++ data) := by
  refine extends_stored (appendDataWith_stored data enc) (fun h => ?_) fun h => ?_
  · obtain ⟨hne, hfits⟩ := h
    refine ⟨_, Script.appendDataWith_eq_ok.2 ⟨hne, hfits, rfl⟩, ?_⟩
    rw [Script.bytes_push, Chunk.encode, PushEncoding.fitted_of_le hfits]
  · cases hmade : s.appendDataWith data enc with
    | error e => exact ⟨e, rfl⟩
    | ok t =>
        obtain ⟨hne, hfits, -⟩ := Script.appendDataWith_eq_ok.1 hmade
        exact absurd ⟨hne, hfits⟩ h

theorem extends_appendData (data : Bytes) :
    Extends s.stored (.appendData data) (data ≠ [] ∧ data.length ≤ 0xffffffff)
      (Chunk.pushMinimal data).encode := by
  have hfits : data.length ≤ (PushEncoding.minimal data.length).capacity ↔
      data.length ≤ 0xffffffff :=
    ⟨fun h => Nat.le_trans h (PushEncoding.capacity_le _), PushEncoding.minimal_of_le⟩
  have hbytes : (Chunk.pushMinimal data).encode =
      (PushEncoding.minimal data.length).header data.length ++ data := by
    rw [Chunk.pushMinimal, Chunk.encode, PushEncoding.fitted_minimal]
  rw [← hfits, hbytes]
  have hwith := extends_appendDataWith (s := s) data (.minimal data.length)
  exact ⟨hwith.succeeds, hwith.bytes_eq, hwith.unchanged⟩

theorem extends_appendScript (s other : Script) :
    Extends s.stored (.appendScript other.stored) (other.stored.bytes ≠ []) other.stored.bytes := by
  refine extends_stored appendScript_stored (fun h => ?_) fun h => ⟨.emptyScript, ?_⟩
  · have hsome : other.isEmpty = false := List.isEmpty_eq_false_iff.2 h
    exact ⟨_, Script.appendScript_eq_ok hsome, Script.bytes_append s other⟩
  · have hnone : other.isEmpty = true := List.isEmpty_iff.2 (Classical.not_not.1 h)
    rw [Script.appendScript, hnone]
    rfl

/-! ## Cutting a script -/

theorem chunks_takeChunks_append_dropChunks (kept : StoredScript) (index : Nat) :
    (kept.takeChunks index).chunks ++ (kept.dropChunks index).chunks = kept.chunks :=
  List.take_append_drop index kept.chunks

theorem bytes_takeChunks_append_dropChunks (s : Script) (index : Nat) :
    (s.stored.takeChunks index).bytes ++ (s.stored.dropChunks index).bytes = s.stored.bytes := by
  have hchunks := chunks_takeChunks_append_dropChunks s.stored index
  exact (encodeChunks_append _ _).symm.trans (congrArg encodeChunks hchunks)

/-- Building steps write behind the bytes of a script that steps have led to: an opcode its one
byte, data the shortest push of it or the push in the encoding that is asked for, and a script its
bytes. Each succeeds exactly when there is something to write that will be read back. A script is
cut at any index into two that make it up. -/
theorem extends_of_built (h : Built kept) :
    (∀ op, Extends kept (.append op) (Script.needsOperand op = false) [op.byte]) ∧
    (∀ data : Bytes,
      Extends kept (.appendData data) (data ≠ [] ∧ data.length ≤ 0xffffffff)
          (Chunk.pushMinimal data).encode ∧
        (data.length ≤ 0xffffffff → ShortestPush data (Chunk.pushMinimal data).encode)) ∧
    (∀ (data : Bytes) enc,
      Extends kept (.appendDataWith data enc) (data ≠ [] ∧ data.length ≤ enc.capacity)
        (enc.header data.length ++ data)) ∧
    (∀ other, Built other →
      Extends kept (.appendScript other) (other.bytes ≠ []) other.bytes ∧
        ((BuilderCall.appendScript other).left kept).bytes = kept.bytes ++ other.bytes) ∧
    ∀ index, (kept.takeChunks index).bytes ++ (kept.dropChunks index).bytes = kept.bytes ∧
      (kept.takeChunks index).chunks ++ (kept.dropChunks index).chunks = kept.chunks := by
  obtain ⟨s, rfl⟩ := h.exists_script
  refine ⟨extends_append, fun data => ⟨extends_appendData data, shortestPush_encode⟩,
    extends_appendDataWith, fun other hother => ?_, fun index => ?_⟩
  · obtain ⟨t, rfl⟩ := hother.exists_script
    have hextends := extends_appendScript s t
    exact ⟨hextends, hextends.bytes_left Classical.not_not.1⟩
  · exact ⟨bytes_takeChunks_append_dropChunks s index,
      chunks_takeChunks_append_dropChunks s.stored index⟩

/-- Pushes that are not in their most compact encoding, and data that is one byte too long for the
most compact encoding of all. -/
theorem extends_of_built_mixed_pushes :
    let kept := Script.stored
      { chunks := [.push .pushData2 [7], .op .dup, .push .pushData1 [8, 9]] }
    let data : Bytes := List.replicate 76 5
    Built kept ∧ kept.bytes = [0x4d, 1, 0, 7, 0x76, 0x4c, 2, 8, 9] ∧
      Extends kept (.append .checkSig) (Script.needsOperand .checkSig = false) [0xac] ∧
      Extends kept (.appendData data) (data ≠ [] ∧ data.length ≤ 0xffffffff) (0x4c :: 76 :: data) ∧
      ShortestPush data (0x4c :: 76 :: data) ∧
      Extends kept (.appendDataWith data .implicit)
        (data ≠ [] ∧ data.length ≤ PushEncoding.implicit.capacity) (76 :: data) ∧
      Extends kept (.appendScript kept) (kept.bytes ≠ []) kept.bytes ∧
      (kept.takeChunks 1).bytes = [0x4d, 1, 0, 7] ∧
      (kept.takeChunks 1).bytes ++ (kept.dropChunks 1).bytes = kept.bytes ∧
      (kept.takeChunks 4).bytes ++ (kept.dropChunks 4).bytes = kept.bytes := by
  intro kept data
  have hkept : Built kept := .parse (parse_stored _)
  obtain ⟨happend, hdata, hwith, hscript, hcut⟩ := extends_of_built hkept
  obtain ⟨hextends, hshortest⟩ := hdata data
  exact ⟨hkept, by decide, happend .checkSig, hextends, hshortest (by decide),
    hwith data .implicit, (hscript kept hkept).1, by decide, (hcut 1).1, (hcut 4).1⟩

end StoredScript

end TxScript
