import TxScript.Script.Builder
import TxScript.Proofs.Script.Canonical

/-!
# Scripts that read back

A script of canonical chunks is read back from its bytes. Pushes in their most compact encoding are
canonical, and the ones of signatures and keys take one byte more than their data.
-/

namespace TxScript

variable {data : Bytes}

theorem PushEncoding.capacity_le (enc : PushEncoding) : enc.capacity ≤ 0xffffffff := by
  cases enc <;> decide

/-- There is no encoding to fall back to but the most compact one. -/
theorem PushEncoding.fitted_minimal (length : Nat) :
    (minimal length).fitted length = minimal length :=
  ite_id (minimal length)

/-- Only short data is its own push length, also where its encoding does not hold it. -/
theorem PushEncoding.le_of_fitted_eq_implicit {enc : PushEncoding} {length : Nat}
    (h : enc.fitted length = .implicit) : length ≤ 75 := by
  unfold fitted at h
  split at h
  · rename_i hfits
    rwa [h] at hfits
  · unfold minimal at h
    split at h
    · assumption
    · split at h
      · cases h
      · split at h <;> cases h

/-- The bytes that announce data are free. -/
theorem Opcode.isCounted_of_isPush {op : Opcode} (h : op.isPush = true) :
    op.isCounted = false := by
  have hle : op.byte ≤ 0x4e := of_decide_eq_true h
  exact decide_eq_false (UInt8.not_lt.2 (UInt8.le_trans hle (by decide)))

namespace Chunk

/-- However its length is spelled out, a push starts with a byte that announces data. -/
theorem isPush_opcode_push (enc : PushEncoding) (data : Bytes) :
    (push enc data).opcode.isPush = true := by
  show ((enc.fitted data.length).opcode data.length).isPush = true
  cases henc : enc.fitted data.length with
  | implicit =>
      have hshort := PushEncoding.le_of_fitted_eq_implicit henc
      have hsmall : data.length < UInt8.size := Nat.lt_of_le_of_lt hshort (by decide)
      have hbyte : UInt8.ofNat data.length ≤ 75 := by
        rw [UInt8.le_iff_toNat_le, UInt8.toNat_ofNat_of_lt' hsmall]
        exact hshort
      exact decide_eq_true (UInt8.le_trans hbyte (by decide))
  | _ => rfl

/-- A chunk that starts above the bytes that announce data is nothing but that opcode. -/
theorem eq_op_of_isPush_opcode {c : Chunk} {op : Opcode} (h : c.opcode = op)
    (hop : op.isPush = false) : c = .op op := by
  cases c with
  | op o => exact congrArg Chunk.op h
  | push enc data =>
      rw [← h, isPush_opcode_push] at hop
      cases hop

theorem length_encode_pushMinimal (h : data.length ≤ 75) :
    (pushMinimal data).encode.length = 1 + data.length := by
  simp [pushMinimal, encode, PushEncoding.minimal, h, PushEncoding.fitted,
    PushEncoding.capacity, PushEncoding.headerLength, PushEncoding.lengthWidth]

end Chunk

theorem length_encodeChunks_pushes {rows : List Bytes} (h : ∀ d ∈ rows, d.length ≤ 75) :
    (encodeChunks (rows.map Chunk.pushMinimal)).length ≤ 76 * rows.length := by
  induction rows with
  | nil => simp
  | cons d rest ih =>
      have hd := h d (by simp)
      have hpush : (Chunk.pushMinimal d).encode.length = 1 + d.length :=
        Chunk.length_encode_pushMinimal hd
      have hrest := ih fun e he => h e (by simp [he])
      simp only [List.map_cons, encodeChunks_cons, List.length_append, List.length_cons, hpush]
      omega

namespace Script

theorem parse_eq_ok {input : Bytes} {s : Script} :
    parse input = .ok s ↔ parseChunks input = .ok s.chunks := by
  rw [← map_chunks_parse]
  cases parse input with
  | error e => simp [Except.map]
  | ok t => simp [Except.map, Script.ext_iff]

theorem parse_eq_error {input : Bytes} {e : ParseError} :
    parse input = .error e ↔ parseChunks input = .error e := by
  rw [← map_chunks_parse]
  cases parse input with
  | error cause => simp [Except.map]
  | ok t => simp [Except.map]

@[simp] theorem parse_bytes (s : Script) : parse s.bytes = .ok s :=
  parse_eq_ok.2 (parseChunks_encodeChunks s.canonical)

theorem bytes_of_parse {input : Bytes} {s : Script} (h : parse input = .ok s) :
    s.bytes = input :=
  (encodeChunks_of_parseChunks (parse_eq_ok.1 h)).1

/-- There is always room for data in its most compact encoding. -/
theorem appendData_eq_ok (s : Script) (hne : data ≠ []) (h : data.length ≤ 0xffffffff) :
    s.appendData data = .ok (s.push (.pushMinimal data) (Chunk.canonical_pushMinimal h)) :=
  appendDataWith_eq_ok.2 ⟨hne, PushEncoding.minimal_of_le h, rfl⟩

end Script

end TxScript
