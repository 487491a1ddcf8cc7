import TxScript.Proofs.Wire.Forms

/-!
# Items with one compact size

Inputs and outputs are items with one compact size in them, which can have any form with room for
it. A row of such items is taken back from what it is written as, with its forms, and it is as short
as it can be only where all of its forms are the shortest ones.
-/

namespace TxScript

open CompactSize (Form)

/-- How items of a kind are written that have one compact size in them. -/
structure Layout (α : Type) where
  before : α → Bytes
  /-- The number that the compact size says. -/
  size : α → Nat
  behind : α → Bytes

namespace Layout

variable {ε α : Type} (layout : Layout α)

def write (form : Form) (a : α) : Bytes :=
  layout.before a ++ (form.encode (layout.size a) ++ layout.behind a)

/-- The item with the form that the writer picks. -/
def encode (a : α) : Bytes :=
  layout.write (.shortest (layout.size a)) a

/-- Items one after another, each with the form of its compact size. -/
def writeRow (row : List (Form × α)) : Bytes :=
  row.flatMap fun item => layout.write item.1 item.2

/-- The compact sizes in a row of items, each with its form. -/
def sizes (row : List (Form × α)) : List (Form × Nat) :=
  row.map fun item => (item.1, layout.size item.2)

/-- The reader takes an item in every form with room for its compact size, and nothing else. -/
structure ReadBy (r : Reader ε α) : Prop where
  eq_ok : ∀ {input rest a}, r input = .ok a rest ↔
    ∃ form : Form, layout.size a < form.limit ∧ input = layout.write form a ++ rest

end Layout

/-- Every compact size of some has a form with room for it. -/
def FormsFit (sizes : List (Form × Nat)) : Prop :=
  ∀ size ∈ sizes, size.2 < size.1.limit

/-- Every compact size of some has its shortest form. -/
def FormsShortest (sizes : List (Form × Nat)) : Prop :=
  ∀ size ∈ sizes, size.1 = Form.shortest size.2

instance (sizes : List (Form × Nat)) : Decidable (FormsFit sizes) :=
  inferInstanceAs (Decidable (∀ size ∈ sizes, size.2 < size.1.limit))

instance (sizes : List (Form × Nat)) : Decidable (FormsShortest sizes) :=
  inferInstanceAs (Decidable (∀ size ∈ sizes, size.1 = Form.shortest size.2))

theorem formsFit_cons {form : Form} {n : Nat} {sizes : List (Form × Nat)} :
    FormsFit ((form, n) :: sizes) ↔ n < form.limit ∧ FormsFit sizes :=
  List.forall_mem_cons

theorem formsShortest_cons {form : Form} {n : Nat} {sizes : List (Form × Nat)} :
    FormsShortest ((form, n) :: sizes) ↔ form = Form.shortest n ∧ FormsShortest sizes :=
  List.forall_mem_cons

theorem formsFit_append {as bs : List (Form × Nat)} :
    FormsFit (as ++ bs) ↔ FormsFit as ∧ FormsFit bs :=
  List.forall_mem_append

theorem formsShortest_append {as bs : List (Form × Nat)} :
    FormsShortest (as ++ bs) ↔ FormsShortest as ∧ FormsShortest bs :=
  List.forall_mem_append

namespace Layout

variable {ε α : Type} {layout : Layout α} {r : Reader ε α} {form other : Form} {a b : α}
variable {row row' : List (Form × α)} {input rest left : Bytes}

theorem writeRow_cons (item : Form × α) :
    layout.writeRow (item :: row) = layout.write item.1 item.2 ++ layout.writeRow row :=
  List.flatMap_cons

/-! ## Reading rows -/

theorem ReadBy.repeated_eq_ok (h : layout.ReadBy r) {count : Nat} {as : List α} :
    r.repeated count input = .ok as rest ↔
      ∃ row, row.length = count ∧ row.map Prod.snd = as ∧ FormsFit (layout.sizes row) ∧
        input = layout.writeRow row ++ rest := by
  induction count generalizing input as with
  | zero =>
      constructor
      · intro hread
        cases hread
        exact ⟨[], rfl, rfl, List.forall_mem_nil _, rfl⟩
      · rintro ⟨row, hcount, rfl, -, rfl⟩
        obtain rfl := List.eq_nil_of_length_eq_zero hcount
        rfl
  | succ count ih =>
      constructor
      · intro hread
        obtain ⟨a, middle, ha, hrest⟩ := Reader.bind_eq_ok.1 hread
        obtain ⟨as', last, has, hpure⟩ := Reader.bind_eq_ok.1 hrest
        cases hpure
        obtain ⟨form, hform, rfl⟩ := h.eq_ok.1 ha
        obtain ⟨row, rfl, rfl, hrow, rfl⟩ := ih.1 has
        refine ⟨(form, a) :: row, rfl, rfl, formsFit_cons.2 ⟨hform, hrow⟩, ?_⟩
        rw [writeRow_cons, List.append_assoc]
      · rintro ⟨row, hcount, rfl, hrow, rfl⟩
        obtain ⟨⟨form, a⟩, row, rfl⟩ := List.exists_cons_of_length_eq_add_one hcount
        obtain ⟨hform, hrow⟩ := formsFit_cons.1 hrow
        have hcount : row.length = count := Nat.succ.inj hcount
        have ha : r (layout.write form a ++ (layout.writeRow row ++ rest)) =
            .ok a (layout.writeRow row ++ rest) := h.eq_ok.2 ⟨form, hform, rfl⟩
        have has := ih.2 ⟨row, hcount, rfl, hrow, rfl⟩
        rw [writeRow_cons, List.append_assoc]
        exact (Reader.bind_of_ok ha).trans (Reader.bind_of_ok has)

/-! ## One way to write -/

theorem length_write (form : Form) (a : α) :
    (layout.write form a).length =
      (layout.before a).length + form.size + (layout.behind a).length := by
  simp [write, Nat.add_assoc]

/-- Read back, the two give the same item and leave the same bytes; then their lengths agree, and
with them the forms. -/
theorem ReadBy.write_append_inj (h : layout.ReadBy r) (ha : layout.size a < form.limit)
    (hb : layout.size b < other.limit)
    (heq : layout.write form a ++ rest = layout.write other b ++ left) :
    (form, a) = (other, b) ∧ rest = left := by
  have hread : r (layout.write form a ++ rest) = .ok a rest := h.eq_ok.2 ⟨form, ha, rfl⟩
  rw [heq, h.eq_ok.2 ⟨other, hb, rfl⟩] at hread
  injection hread with hitem hrest
  subst hitem hrest
  have hlength := congrArg List.length (List.append_cancel_right heq)
  rw [length_write, length_write] at hlength
  have hform : form = other := Form.eq_of_size_eq (by omega)
  exact ⟨by rw [hform], rfl⟩

theorem ReadBy.writeRow_append_inj (h : layout.ReadBy r) (hrow : FormsFit (layout.sizes row))
    (hrow' : FormsFit (layout.sizes row')) (hcount : row.length = row'.length)
    (heq : layout.writeRow row ++ rest = layout.writeRow row' ++ left) :
    row = row' ∧ rest = left := by
  induction row generalizing row' with
  | nil =>
      obtain rfl := List.eq_nil_of_length_eq_zero hcount.symm
      exact ⟨rfl, heq⟩
  | cons item row ih =>
      obtain ⟨item', row', rfl⟩ := List.exists_cons_of_length_eq_add_one hcount.symm
      obtain ⟨hitem, hrow⟩ := formsFit_cons.1 hrow
      obtain ⟨hitem', hrow'⟩ := formsFit_cons.1 hrow'
      rw [writeRow_cons, writeRow_cons, List.append_assoc, List.append_assoc] at heq
      obtain ⟨hfirst, hbehind⟩ := h.write_append_inj hitem hitem' heq
      obtain ⟨rfl, hrest⟩ := ih hrow hrow' (Nat.succ.inj hcount) hbehind
      exact ⟨by rw [show item = item' from hfirst], hrest⟩

/-! ## Lengths -/

theorem length_encode_le (h : layout.size a < form.limit) :
    (layout.encode a).length ≤ (layout.write form a).length := by
  have hsize := Form.size_shortest_le h
  rw [encode, length_write, length_write]
  omega

theorem length_encodeRow_le (h : FormsFit (layout.sizes row)) :
    ((row.map Prod.snd).flatMap layout.encode).length ≤ (layout.writeRow row).length := by
  induction row with
  | nil => exact Nat.le_refl _
  | cons item row ih =>
      obtain ⟨hitem, hrow⟩ := formsFit_cons.1 h
      have hfirst := length_encode_le hitem
      have hbehind := ih hrow
      simp only [writeRow_cons, List.map_cons, List.flatMap_cons, List.length_append]
      omega

/-- No form can be longer than the shortest without the row being longer. -/
theorem formsShortest_of_length_eq (h : FormsFit (layout.sizes row))
    (hlength : ((row.map Prod.snd).flatMap layout.encode).length = (layout.writeRow row).length) :
    FormsShortest (layout.sizes row) := by
  induction row with
  | nil => exact List.forall_mem_nil _
  | cons item row ih =>
      obtain ⟨hitem, hrow⟩ := formsFit_cons.1 h
      have hfirst := length_encode_le hitem
      have hbehind := length_encodeRow_le hrow
      simp only [writeRow_cons, List.map_cons, List.flatMap_cons, List.length_append] at hlength
      have hsize : (layout.encode item.2).length = (layout.write item.1 item.2).length := by omega
      rw [encode, length_write, length_write] at hsize
      have hform : item.1 = Form.shortest (layout.size item.2) := Form.eq_of_size_eq (by omega)
      exact formsShortest_cons.2 ⟨hform, ih hrow (by omega)⟩

theorem encodeRow_of_formsShortest (h : FormsShortest (layout.sizes row)) :
    (row.map Prod.snd).flatMap layout.encode = layout.writeRow row := by
  induction row with
  | nil => rfl
  | cons item row ih =>
      obtain ⟨hitem, hrow⟩ := formsShortest_cons.1 h
      have hfirst : layout.encode item.2 = layout.write item.1 item.2 := by rw [encode, ← hitem]
      rw [List.map_cons, List.flatMap_cons, hfirst, ih hrow, writeRow_cons]

end Layout

end TxScript
