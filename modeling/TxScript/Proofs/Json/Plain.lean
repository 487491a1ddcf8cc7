import TxScript.Json.Reading

/-!
# Plain strings

A character is plain when it stands for itself between quotes. A text of plain characters is read
back from its quoted form, and hexadecimal text is plain.
-/

namespace TxScript

namespace Json

/-- Neither a quote nor a backslash nor a control character. -/
def IsPlain (c : Char) : Prop :=
  c ≠ '"' ∧ c ≠ '\\' ∧ 0x20 ≤ c.toNat

instance (c : Char) : Decidable (IsPlain c) :=
  inferInstanceAs (Decidable (c ≠ '"' ∧ c ≠ '\\' ∧ 0x20 ≤ c.toNat))

variable {c : Char} {cs rest : List Char}

theorem readItems_plain_cons (h : IsPlain c) :
    readItems (c :: rest) =
      (readItems rest).map fun read => (StringItem.char c :: read.1, read.2) := by
  obtain ⟨hquote, hescape, hprinted⟩ := h
  rw [readItems]
  · rw [if_neg (Nat.not_lt.2 hprinted)]
    cases readItems rest <;> rfl
  · exact hquote
  · intro a b d e more he
    exact absurd he hescape
  · intro e more he
    exact absurd he hescape

theorem readItems_plain (h : ∀ c ∈ cs, IsPlain c) :
    readItems (cs ++ '"' :: rest) = some (cs.map .char, rest) := by
  induction cs with
  | nil => rfl
  | cons c cs ih =>
      rw [List.cons_append, readItems_plain_cons (h c List.mem_cons_self),
        ih fun d hd => h d (List.mem_cons_of_mem c hd)]
      rfl

theorem characters?_chars (cs : List Char) : characters? (cs.map .char) = some cs := by
  induction cs with
  | nil => rfl
  | cons c cs ih => rw [List.map_cons, characters?, ih]; rfl

/-- A text of plain characters is the string that its quoted form says. -/
theorem parse?_quotePlain {text : String} (h : ∀ c ∈ text.toList, IsPlain c) :
    parse? (quotePlain text) = some (.string (text.toList.map .char)) := by
  have hchars : (quotePlain text).toList = '"' :: (text.toList ++ ['"']) := by
    simp [quotePlain]
  have hitems : readItems (text.toList ++ ['"']) = some (text.toList.map .char, []) :=
    readItems_plain h
  have hvalue (nesting : Nat) : readValue (nesting + 1) ('"' :: (text.toList ++ ['"'])) =
      some (.string (text.toList.map .char), []) := by
    rw [readValue, hitems]
    rfl
  have hskip : skipSpace ('"' :: (text.toList ++ ['"'])) = '"' :: (text.toList ++ ['"']) := rfl
  simp only [parse?, hchars, hskip, hvalue]
  rfl

theorem text?_chars (cs : List Char) :
    Value.text? (.string (cs.map .char)) = some (.ofList cs) := by
  rw [Value.text?, Json.text?, characters?_chars]
  rfl

end Json

/-- Digits are plain. -/
theorem Hex.isPlain_of_mem_encode {bs : Bytes} {c : Char} (h : c ∈ (encode bs).toList) :
    Json.IsPlain c := by
  have hdigit : ∀ n : Fin 16, Json.IsPlain (digit n) := by decide
  obtain ⟨n, rfl⟩ := exists_digit_of_mem_encode h
  exact hdigit n

end TxScript
