import TxScript.Proofs.Script.Pushes
import TxScript.Script.Assembly

/-!
# Scripts that are read from mnemonic text

The mnemonic form of a script is read chunk by chunk: single spaces stand between words, names
begin with a letter that is no digit, and data begins with a digit. So an assigned opcode reads back
as itself and data as its most compact push. What has no name of its own is refused, and so is the
opcode that stands for none.
-/

namespace TxScript

/-! ## Words -/

namespace Text

/-- Some characters, none of them blank. -/
def IsWord (text : String) : Prop :=
  text ≠ "" ∧ ∀ c ∈ text.toList, isBlank c = false

instance (text : String) : Decidable (IsWord text) :=
  inferInstanceAs (Decidable (text ≠ "" ∧ ∀ c ∈ text.toList, isBlank c = false))

variable {cs rest : List Char} {word : String} {texts : List String}

theorem pieces_of_solid (h : ∀ c ∈ cs, isBlank c = false) : pieces cs = [cs] := by
  induction cs with
  | nil => rfl
  | cons c cs ih =>
      obtain ⟨hc, hcs⟩ := List.forall_mem_cons.1 h
      rw [pieces, ih hcs, if_neg (by simp [hc])]
      rfl

theorem pieces_append_space (h : ∀ c ∈ cs, isBlank c = false) :
    pieces (cs ++ ' ' :: rest) = cs :: pieces rest := by
  induction cs with
  | nil => exact if_pos (by decide)
  | cons c cs ih =>
      obtain ⟨hc, hcs⟩ := List.forall_mem_cons.1 h
      rw [List.cons_append, pieces, ih hcs, if_neg (by simp [hc])]
      rfl

theorem isEmpty_toList_of_isWord (h : IsWord word) : word.toList.isEmpty = false := by
  rw [List.isEmpty_eq_false_iff]
  exact fun hnil => h.1 (String.toList_eq_nil_iff.1 hnil)

theorem words_intercalate (h : ∀ text ∈ texts, IsWord text) :
    words (" ".intercalate texts) = texts := by
  have hpieces : (pieces (" ".intercalate texts).toList).filter (!·.isEmpty)
      = texts.map String.toList := by
    induction texts with
    | nil => rfl
    | cons word texts ih =>
        obtain ⟨hword, htexts⟩ := List.forall_mem_cons.1 h
        have hkept := isEmpty_toList_of_isWord hword
        cases texts with
        | nil =>
            rw [String.intercalate_singleton, pieces_of_solid hword.2]
            simp [hkept]
        | cons next texts =>
            have hspace : (word ++ " " ++ " ".intercalate (next :: texts)).toList
                = word.toList ++ ' ' :: (" ".intercalate (next :: texts)).toList := by
              simp
            rw [String.intercalate_cons_cons, hspace, pieces_append_space hword.2,
              List.filter_cons, hkept, ih htexts]
            rfl
  rw [words, hpieces, List.map_map]
  exact List.map_id'' (fun _ => String.ofList_toList) texts

end Text

/-! ## Names -/

namespace Opcode

variable {op : Opcode} {name : String} {entry : OpcodeEntry}

theorem ofName?_name (h : entry ∈ opcodeTable) : ofName? entry.name = some ⟨entry.byte⟩ := by
  have table : ∀ entry ∈ opcodeTable, ofName? entry.name = some ⟨entry.byte⟩ := by decide +kernel
  exact table entry h

/-- Names begin with a letter that is no digit, and none begins like that of unassigned bytes. -/
theorem name_facts (h : entry ∈ opcodeTable) :
    entry.name.toList.head? = some 'O' ∧ entry.name.toList.any Text.isBlank = false ∧
      ¬ "OP_UNKNOWN_".toList <+: entry.name.toList := by
  have table : ∀ entry ∈ opcodeTable, entry.name.toList.head? = some 'O' ∧
      entry.name.toList.any Text.isBlank = false ∧
      ¬ "OP_UNKNOWN_".toList <+: entry.name.toList := by decide +kernel
  exact table entry h

theorem alias_facts {named : String × UInt8} (h : named ∈ opcodeAliases) :
    named.1.toList.head? = some 'O' ∧ ¬ "OP_UNKNOWN_".toList <+: named.1.toList ∧
      isUnassigned ⟨named.2⟩ = false := by
  have table : ∀ named ∈ opcodeAliases, named.1.toList.head? = some 'O' ∧
      ¬ "OP_UNKNOWN_".toList <+: named.1.toList ∧ isUnassigned ⟨named.2⟩ = false := by
    decide +kernel
  exact table named h

/-- A name that is found stands in one of the two tables. -/
theorem mem_of_ofName? (h : ofName? name = some op) :
    (name, op.byte) ∈ opcodeAliases ∨
      ∃ entry ∈ opcodeTable, entry.name = name ∧ op = ⟨entry.byte⟩ := by
  unfold ofName? at h
  split at h
  · rename_i found byte halias
    cases h
    have hname : found = name := by simpa using List.find?_some halias
    subst hname
    exact Or.inl (List.mem_of_find?_eq_some halias)
  · obtain ⟨entry, hentry, rfl⟩ := Option.map_eq_some_iff.1 h
    have hname : entry.name = name := by simpa using List.find?_some hentry
    exact Or.inr ⟨entry, List.mem_of_find?_eq_some hentry, hname, rfl⟩

theorem isUnassigned_entry (h : entry ∈ opcodeTable) : isUnassigned ⟨entry.byte⟩ = false := by
  rw [isUnassigned]
  cases hfound : entry? ⟨entry.byte⟩ with
  | none => exact absurd (List.find?_eq_none.1 hfound entry h) (by simp)
  | some found => exact Bool.and_false _

theorem isUnassigned_of_ofName? (h : ofName? name = some op) : op.isUnassigned = false := by
  rcases mem_of_ofName? h with halias | ⟨entry, hentry, -, rfl⟩
  · exact (alias_facts halias).2.2
  · exact isUnassigned_entry hentry

theorem head?_of_ofName? (h : ofName? name = some op) : name.toList.head? = some 'O' := by
  rcases mem_of_ofName? h with halias | ⟨entry, hentry, rfl, -⟩
  · exact (alias_facts halias).1
  · exact (name_facts hentry).1

/-- The mnemonics of unassigned bytes are not read. -/
theorem ofName?_unknown (rest : String) : ofName? ("OP_UNKNOWN_" ++ rest) = none := by
  rw [Option.eq_none_iff_forall_ne_some]
  intro op h
  have hbegins : "OP_UNKNOWN_".toList <+: ("OP_UNKNOWN_" ++ rest).toList := by
    rw [String.toList_append]
    exact List.prefix_append _ _
  rcases mem_of_ofName? h with halias | ⟨entry, hentry, hname, -⟩
  · exact (alias_facts halias).2.1 hbegins
  · rw [← hname] at hbegins
    exact (name_facts hentry).2.2 hbegins

/-- An opcode that announces no data has a name of its own, or none. -/
theorem mnemonic_cases (h : op.isPush = false) :
    (∃ entry ∈ opcodeTable, op = ⟨entry.byte⟩ ∧ op.mnemonic = entry.name) ∨
      op.isUnassigned = true ∧ op.mnemonic = "OP_UNKNOWN_" ++ Hex.encode [op.byte] := by
  have hdirect : op.isDirectPush = false := by
    rcases op with ⟨byte⟩
    simp only [isPush, isDirectPush, decide_eq_false_iff_not, UInt8.le_iff_toNat_le,
      UInt8.reduceToNat] at h ⊢
    omega
  cases hentry : op.entry? with
  | some entry =>
      have hbyte : entry.byte = op.byte := by simpa using List.find?_some hentry
      refine Or.inl ⟨entry, List.mem_of_find?_eq_some hentry, ?_, ?_⟩
      · rw [hbyte]
      · rw [mnemonic, hentry]
  | none =>
      refine Or.inr ⟨?_, ?_⟩
      · rw [isUnassigned, hdirect, hentry]
        rfl
      · rw [mnemonic, hentry, hdirect]
        rfl

end Opcode

/-! ## Words of chunks -/

namespace Chunk

/-- Whether the chunk has a form in words that is read. -/
def IsNamed : Chunk → Prop
  | .op o => o.isUnassigned = false ∧ o ≠ .invalid
  | .push _ _ => True

instance (c : Chunk) : Decidable c.IsNamed :=
  match c with
  | .op o => inferInstanceAs (Decidable (o.isUnassigned = false ∧ o ≠ .invalid))
  | .push _ _ => inferInstanceAs (Decidable True)

/-- The chunk with the same opcode or data, pushed in the most compact encoding. -/
def minimized : Chunk → Chunk
  | .op o => .op o
  | .push _ data => .pushMinimal data

/-- Whether the chunk is no push in a longer encoding than needed. -/
def IsMinimal : Chunk → Prop
  | .op _ => True
  | .push enc data => enc = .minimal data.length

instance (c : Chunk) : Decidable c.IsMinimal :=
  match c with
  | .op _ => inferInstanceAs (Decidable True)
  | .push enc data => inferInstanceAs (Decidable (enc = .minimal data.length))

variable {c : Chunk}

theorem minimized_eq_self_iff : c.minimized = c ↔ c.IsMinimal := by
  cases c with
  | op o => simp [minimized, IsMinimal]
  | push enc data => simp [minimized, pushMinimal, IsMinimal, eq_comm]

theorem isMinimal_minimized (c : Chunk) : c.minimized.IsMinimal := by
  cases c with
  | op o => trivial
  | push enc data => rfl

theorem canonical_minimized (h : c.Canonical) : c.minimized.Canonical := by
  cases c with
  | op o => exact h
  | push enc data => exact canonical_pushMinimal (Nat.le_trans h enc.capacity_le)

theorem isWord_mnemonic (h : c.Canonical) : Text.IsWord c.mnemonic := by
  have hname {entry : OpcodeEntry} (hentry : entry ∈ opcodeTable) : Text.IsWord entry.name := by
    obtain ⟨hhead, hsolid, -⟩ := Opcode.name_facts hentry
    exact ⟨fun hnil => by simp [hnil] at hhead, by simpa using hsolid⟩
  have hdata (bs : Bytes) : ∀ c ∈ (Hex.encode bs).toList, Text.isBlank c = false := by
    have hdigit : ∀ n : Fin 16, Text.isBlank (Hex.digit n) = false := by decide
    intro c hc
    obtain ⟨n, rfl⟩ := Hex.exists_digit_of_mem_encode hc
    exact hdigit n
  cases c with
  | op o =>
      rw [mnemonic]
      rcases Opcode.mnemonic_cases h with ⟨entry, hentry, -, hword⟩ | ⟨-, hword⟩
      · rw [hword]
        exact hname hentry
      · rw [hword]
        refine ⟨fun hnil => by simp at hnil, ?_⟩
        have hbegins : "OP_UNKNOWN_".toList.any Text.isBlank = false := by decide
        rw [String.toList_append, List.forall_mem_append]
        exact ⟨by simpa only [List.any_eq_false, Bool.not_eq_true] using hbegins, hdata _⟩
  | push enc data =>
      rw [mnemonic]
      cases data with
      | nil => exact @hname ⟨0x00, "OP_0", .stack (.constant 0), .always⟩ (by decide)
      | cons b rest =>
          refine ⟨fun hnil => ?_, hdata _⟩
          have hchars := congrArg String.toList hnil
          simp [Hex.encode, Hex.encodeChars] at hchars

end Chunk

/-! ## Reading words back -/

namespace Script

variable {s t u : Script} {c : Chunk} {cs : List Chunk} {token text : String}

/-- The script with every push in its most compact encoding. -/
def minimized (s : Script) : Script :=
  ⟨s.chunks.map Chunk.minimized,
    List.forall_mem_map.2 fun c hc => Chunk.canonical_minimized (s.canonical c hc)⟩

theorem append_eq_ok {op : Opcode} (hpush : op.isPush = false) (h : op ≠ .invalid) :
    s.append op = .ok (s.push (.op op) (Chunk.canonical_op hpush)) := by
  have hbyte : ¬ op.byte ≤ 0x4e := by simpa [Opcode.isPush] using hpush
  have hneeds : needsOperand op = false := by
    have hdirect : op.isDirectPush = false :=
      decide_eq_false fun hin => hbyte (UInt8.le_trans hin.2 (by decide))
    have hne {other : Opcode} (hother : other.byte ≤ 0x4e) : (op == other) = false :=
      beq_eq_false_iff_ne.2 fun heq => hbyte (heq ▸ hother)
    rw [needsOperand, hdirect, hne (by decide), hne (by decide), hne (by decide),
      beq_eq_false_iff_ne.2 h]
    rfl
  have hzero : op ≠ .zero := fun heq => hbyte (heq ▸ by decide)
  rw [append, dif_neg (Bool.eq_false_iff.1 hneeds), dif_neg hzero]

/-- The word of a named chunk stands for the chunk, in its most compact form. -/
theorem appendToken_mnemonic (hc : c.Canonical) (h : c.IsNamed) :
    s.appendToken c.mnemonic = .ok (s.push c.minimized (Chunk.canonical_minimized hc)) := by
  cases c with
  | op o =>
      rw [Chunk.mnemonic, appendToken]
      rcases Opcode.mnemonic_cases hc with ⟨entry, hentry, ho, hword⟩ | ⟨hunassigned, -⟩
      · rw [hword, Opcode.ofName?_name hentry, ← ho]
        exact append_eq_ok hc h.2
      · rw [h.1] at hunassigned
        cases hunassigned
  | push enc data =>
      have hfits : data.length ≤ enc.capacity := hc
      have hlength : data.length ≤ 0xffffffff := Nat.le_trans hfits enc.capacity_le
      cases data with
      | nil =>
          have hname : Opcode.ofName? Opcode.zero.name = some .zero :=
            @Opcode.ofName?_name ⟨0x00, "OP_0", .stack (.constant 0), .always⟩ (by decide)
          rw [Chunk.mnemonic, appendToken]
          simp only [List.isEmpty_nil, if_true, hname]
          rfl
      | cons b rest =>
          have hnone : Opcode.ofName? (Hex.encode (b :: rest)) = none := by
            rw [Option.eq_none_iff_forall_ne_some]
            intro op hop
            have hdigit : ∀ n : Fin 16, Hex.digit n ≠ 'O' := by decide
            have hhead := List.mem_of_head? (Opcode.head?_of_ofName? hop)
            obtain ⟨n, hn⟩ := Hex.exists_digit_of_mem_encode hhead
            exact hdigit n hn.symm
          rw [Chunk.mnemonic, appendToken]
          simp only [List.isEmpty_cons, Bool.false_eq_true, if_false, hnone, Hex.decode_encode]
          exact appendData_eq_ok s (List.cons_ne_nil b rest) hlength

theorem appendToken_mnemonic_error (hc : c.Canonical) (h : ¬ c.IsNamed) :
    ∃ e, s.appendToken c.mnemonic = .error e := by
  cases c with
  | op o =>
      rw [Chunk.mnemonic, appendToken]
      rcases Opcode.mnemonic_cases hc with ⟨entry, hentry, ho, hword⟩ | ⟨-, hword⟩
      · have hassigned : o.isUnassigned = false := ho ▸ Opcode.isUnassigned_entry hentry
        have hinvalid : o = .invalid := Decidable.byContradiction fun hne => h ⟨hassigned, hne⟩
        rw [hword, Opcode.ofName?_name hentry, ← ho, hinvalid]
        exact ⟨_, rfl⟩
      · rw [hword, Opcode.ofName?_unknown]
        have hchars : ("OP_UNKNOWN_" ++ Hex.encode [o.byte]).toList
            = 'O' :: ("P_UNKNOWN_" ++ Hex.encode [o.byte]).toList := by
          simp
        obtain ⟨e, he⟩ := Hex.exists_decode_error hchars (by decide)
        exact ⟨_, by rw [he]⟩
  | push enc data => exact absurd trivial h

theorem appendTokens_mnemonics (hcs : ∀ c ∈ cs, c.Canonical) (h : ∀ c ∈ cs, c.IsNamed) :
    s.appendTokens (cs.map Chunk.mnemonic) = .ok (s ++ minimized ⟨cs, hcs⟩) := by
  induction cs generalizing s with
  | nil => exact congrArg Except.ok (Script.ext (List.append_nil _).symm)
  | cons c cs ih =>
      obtain ⟨hc, hrest⟩ := List.forall_mem_cons.1 hcs
      obtain ⟨hnamed, h⟩ := List.forall_mem_cons.1 h
      simp only [List.map_cons, appendTokens, appendToken_mnemonic hc hnamed, ih hrest h]
      exact congrArg Except.ok (Script.ext (List.append_assoc _ _ _))

theorem isNamed_of_appendTokens (hcs : ∀ c ∈ cs, c.Canonical)
    (h : s.appendTokens (cs.map Chunk.mnemonic) = .ok u) : ∀ c ∈ cs, c.IsNamed := by
  induction cs generalizing s with
  | nil => exact nofun
  | cons c cs ih =>
      obtain ⟨hc, hcs⟩ := List.forall_mem_cons.1 hcs
      rw [List.map_cons, appendTokens] at h
      by_cases hnamed : c.IsNamed
      · simp only [appendToken_mnemonic hc hnamed] at h
        exact List.forall_mem_cons.2 ⟨hnamed, ih hcs h⟩
      · obtain ⟨e, he⟩ := appendToken_mnemonic_error (s := s) hc hnamed
        simp only [he] at h
        cases h

theorem ofAsm_toAsm_eq (s : Script) :
    ofAsm s.toAsm = empty.appendTokens (s.chunks.map Chunk.mnemonic) := by
  have hwords : ∀ word ∈ s.chunks.map Chunk.mnemonic, Text.IsWord word := by
    intro word hword
    obtain ⟨c, hc, rfl⟩ := List.mem_map.1 hword
    exact Chunk.isWord_mnemonic (s.canonical c hc)
  rw [ofAsm, toAsm, Text.words_intercalate hwords]

theorem ofAsm_toAsm_of_named (h : ∀ c ∈ s.chunks, c.IsNamed) :
    ofAsm s.toAsm = .ok s.minimized := by
  rw [ofAsm_toAsm_eq, appendTokens_mnemonics s.canonical h]
  rfl

theorem isNamed_of_ofAsm_toAsm (h : ofAsm s.toAsm = .ok u) : ∀ c ∈ s.chunks, c.IsNamed := by
  rw [ofAsm_toAsm_eq] at h
  exact isNamed_of_appendTokens s.canonical h

/-! ## Scripts that come from words -/

theorem exists_of_appendToken (h : s.appendToken token = .ok t) :
    ∃ c : Chunk, t.chunks = s.chunks ++ [c] ∧ c.IsNamed ∧ c.IsMinimal := by
  unfold appendToken at h
  split at h
  · rename_i op hop
    unfold append at h
    split at h
    · cases h
    · rename_i hneeds
      split at h
      · cases h
        exact ⟨_, rfl, trivial, rfl⟩
      · cases h
        have hne : op ≠ .invalid := by
          rintro rfl
          exact hneeds (by decide)
        exact ⟨.op op, rfl, ⟨Opcode.isUnassigned_of_ofName? hop, hne⟩, trivial⟩
  · split at h
    · obtain ⟨-, -, rfl⟩ := appendDataWith_eq_ok.1 h
      exact ⟨_, rfl, trivial, rfl⟩
    · cases h

theorem named_and_minimal_of_appendTokens {tokens : List String}
    (hs : ∀ c ∈ s.chunks, c.IsNamed ∧ c.IsMinimal) (h : s.appendTokens tokens = .ok t) :
    ∀ c ∈ t.chunks, c.IsNamed ∧ c.IsMinimal := by
  induction tokens generalizing s with
  | nil =>
      cases h
      exact hs
  | cons token rest ih =>
      rw [appendTokens] at h
      split at h
      · rename_i next hnext
        obtain ⟨c, hchunks, hc⟩ := exists_of_appendToken hnext
        refine ih ?_ h
        rw [hchunks]
        exact List.forall_mem_append.2 ⟨hs, List.forall_mem_singleton.2 hc⟩
      · cases h

theorem minimized_eq_self_iff : s.minimized = s ↔ ∀ c ∈ s.chunks, c.IsMinimal := by
  have hself : s.chunks.map Chunk.minimized = s.chunks.map id ↔
      ∀ c ∈ s.chunks, c.minimized = id c := List.map_inj_left
  rw [List.map_id] at hself
  rw [Script.ext_iff]
  exact hself.trans (forall₂_congr fun c _ => Chunk.minimized_eq_self_iff)

/-- A script that was read from bytes is read back from its mnemonic form unless it has an
unassigned opcode or the one that stands for none. What comes back has the same opcodes and the same
data in the same order, with every push in its most compact encoding; so it is the same script
exactly when all pushes were in theirs. A script that was read from words is always read back from
its mnemonic form. -/
theorem ofAsm_toAsm :
    (∀ (input : Bytes) (s : Script), parse input = .ok s →
      ((∃ u, ofAsm s.toAsm = .ok u) ↔
        ∀ o, Chunk.op o ∈ s.chunks → o.isUnassigned = false ∧ o ≠ .invalid) ∧
      ∀ u, ofAsm s.toAsm = .ok u → u.chunks = s.chunks.map Chunk.minimized ∧
        (∀ c ∈ u.chunks, c.IsMinimal) ∧ (u = s ↔ ∀ c ∈ s.chunks, c.IsMinimal)) ∧
    ∀ (text : String) (s : Script), ofAsm text = .ok s → ofAsm s.toAsm = .ok s := by
  constructor
  · intro input s _
    refine ⟨⟨?_, ?_⟩, ?_⟩
    · intro h o ho
      obtain ⟨u, hu⟩ := h
      exact isNamed_of_ofAsm_toAsm hu (.op o) ho
    · intro h
      refine ⟨_, ofAsm_toAsm_of_named fun c hc => ?_⟩
      cases c with
      | op o => exact h o hc
      | push enc data => trivial
    · intro u hu
      rw [ofAsm_toAsm_of_named (isNamed_of_ofAsm_toAsm hu)] at hu
      cases hu
      exact ⟨rfl, List.forall_mem_map.2 fun c _ => c.isMinimal_minimized, minimized_eq_self_iff⟩
  · intro text s htext
    have hchunks := named_and_minimal_of_appendTokens (s := empty) nofun htext
    rw [ofAsm_toAsm_of_named fun c hc => (hchunks c hc).1,
      minimized_eq_self_iff.2 fun c hc => (hchunks c hc).2]

/-- Two pushes in longer encodings than needed come back in their shortest, as does the script that
is read from other words for the same. -/
theorem ofAsm_toAsm_long_pushes :
    let long : Script :=
      { chunks := [.op .dup, .push .pushData2 [0xab, 0x0c], .push .pushData1 [], .op ⟨0x51⟩] }
    let short : Script :=
      { chunks := [.op .dup, .push .implicit [0xab, 0x0c], .push .implicit [], .op ⟨0x51⟩] }
    parse long.bytes = .ok long ∧ long.toAsm = "OP_DUP ab0c OP_0 OP_1" ∧
      ofAsm long.toAsm = .ok short ∧ short ≠ long ∧
      ofAsm " OP_DUP AB0c\n\tOP_FALSE OP_TRUE" = .ok short ∧ ofAsm short.toAsm = .ok short := by
  intro long short
  have hparse : parse long.bytes = .ok long := parse_bytes long
  have htext : ofAsm " OP_DUP AB0c\n\tOP_FALSE OP_TRUE" = .ok short := by rfl
  obtain ⟨hbytes, hwords⟩ := ofAsm_toAsm
  obtain ⟨hiff, hback⟩ := hbytes long.bytes long hparse
  have hnamed : ∀ c ∈ long.chunks, c.IsNamed := by decide +kernel
  obtain ⟨u, hu⟩ := hiff.2 fun o ho => hnamed (.op o) ho
  obtain ⟨hchunks, -, hsame⟩ := hback u hu
  have hshort : u = short := Script.ext hchunks
  have hlong : ¬ ∀ c ∈ long.chunks, c.IsMinimal := by decide
  rw [hshort] at hu hsame
  exact ⟨hparse, by rfl, hu, fun h => hlong (hsame.1 h), htext, hwords _ short htext⟩

end Script

end TxScript
