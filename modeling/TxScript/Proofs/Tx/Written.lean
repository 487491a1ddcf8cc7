import TxScript.Proofs.Tx.Boundaries
import TxScript.Proofs.Wire.Layout

/-!
# Transactions as written

The reader takes compact sizes in every form, so a transaction can be written in many ways. Here the
forms stand beside the fields. What the reader takes is written in exactly one way, and among all
ways to write a transaction, the one with only shortest forms is the shortest: it is what the
transaction is written as again.
-/

namespace TxScript

open CompactSize (Form)

/-! ## Inputs and outputs -/

theorem TxField.read_eq_ok {α : Type} {r : Reader Wire.ReadError α} {input rest : Bytes} {a : α}
    (field : TxField) : field.read r input = .ok a rest ↔ r input = .ok a rest := by
  unfold TxField.read Reader.mapError
  cases r input <;> simp

theorem TxId.read_eq_ok {input rest : Bytes} {id : TxId} :
    TxId.read input = .ok id rest ↔ input = id.bytes ++ rest := by
  constructor
  · intro h
    unfold TxId.read at h
    cases htake : Wire.take 32 input with
    | error e left => simp [htake] at h
    | ok bs left =>
        obtain ⟨hlength, rfl⟩ := Wire.take_eq_ok.1 htake
        have hdigest : (Digest.ofBytes? bs : Option (Digest 32)) = some ⟨bs, hlength⟩ :=
          Digest.ofBytes?_bytes ⟨bs, hlength⟩
        simp only [htake, hdigest] at h
        cases h
        rfl
  · rintro rfl
    exact id.read_append rest

theorem Outpoint.read_eq_ok {input rest : Bytes} {o : Outpoint} :
    Outpoint.read input = .ok o rest ↔ input = o.encode ++ rest := by
  constructor
  · intro h
    obtain ⟨txid, middle, hid, hindex⟩ := Reader.bind_eq_ok.1 h
    obtain ⟨index, last, hindex, hpure⟩ := Reader.bind_eq_ok.1 hindex
    cases hpure
    obtain rfl := Wire.u32_eq_ok.1 ((TxField.read_eq_ok _).1 hindex)
    obtain rfl := TxId.read_eq_ok.1 ((TxField.read_eq_ok _).1 hid)
    rw [Outpoint.encode, List.append_assoc]
  · rintro rfl
    exact o.read_append rest

def Input.layout : Layout Input where
  before i := i.outpoint.encode
  size i := i.script.length
  behind i := i.script ++ LittleEndian.encode 4 i.sequence.toNat

def Output.layout : Layout Output where
  before o := LittleEndian.encode 8 o.value.toNat
  size o := o.script.length
  behind o := o.script

theorem Input.layout_encode : layout.encode = Input.encode := by
  funext i
  simp only [Layout.encode, Layout.write, layout, Form.encode_shortest, Input.encode,
    Wire.encodeVarBytes, List.append_assoc]

theorem Output.layout_encode : layout.encode = Output.encode := by
  funext o
  simp only [Layout.encode, Layout.write, layout, Form.encode_shortest, Output.encode,
    Wire.encodeVarBytes]

theorem Input.layout_readBy : Input.layout.ReadBy Input.read where
  eq_ok {input rest i} := by
    constructor
    · intro h
      obtain ⟨outpoint, middle, ho, h⟩ := Reader.bind_eq_ok.1 h
      obtain ⟨script, last, hscript, h⟩ := Reader.bind_eq_ok.1 h
      obtain ⟨sequence, left, hsequence, hpure⟩ := Reader.bind_eq_ok.1 h
      cases hpure
      obtain rfl := Wire.u32_eq_ok.1 ((TxField.read_eq_ok _).1 hsequence)
      obtain ⟨form, hform, rfl⟩ := Wire.varBytes_eq_ok.1 ((TxField.read_eq_ok _).1 hscript)
      obtain rfl := Outpoint.read_eq_ok.1 ho
      exact ⟨form, hform, by simp only [Layout.write, layout, List.append_assoc]⟩
    · rintro ⟨form, hform, rfl⟩
      have hscript := Wire.varBytes_eq_ok.2
        ⟨form, hform, (rfl : _ = form.encode i.script.length ++
          (i.script ++ (LittleEndian.encode 4 i.sequence.toNat ++ rest)))⟩
      simp only [Layout.write, layout, List.append_assoc]
      unfold Input.read
      rw [Reader.bind_of_ok (i.outpoint.read_append _),
        Reader.bind_of_ok (TxField.unlockingScript.read_of_ok hscript),
        Reader.bind_of_ok (TxField.sequence.read_of_ok (Wire.u32_append i.sequence rest))]
      rfl

theorem Output.layout_readBy : Output.layout.ReadBy Output.read where
  eq_ok {input rest o} := by
    constructor
    · intro h
      obtain ⟨value, middle, hvalue, h⟩ := Reader.bind_eq_ok.1 h
      obtain ⟨script, last, hscript, hpure⟩ := Reader.bind_eq_ok.1 h
      cases hpure
      obtain ⟨form, hform, rfl⟩ := Wire.varBytes_eq_ok.1 ((TxField.read_eq_ok _).1 hscript)
      obtain rfl := Wire.u64_eq_ok.1 ((TxField.read_eq_ok _).1 hvalue)
      exact ⟨form, hform, by simp only [Layout.write, layout, List.append_assoc]⟩
    · rintro ⟨form, hform, rfl⟩
      have hscript := Wire.varBytes_eq_ok.2
        ⟨form, hform, (rfl : _ = form.encode o.script.length ++ (o.script ++ rest))⟩
      simp only [Layout.write, layout, List.append_assoc]
      unfold Output.read
      rw [Reader.bind_of_ok (TxField.value.read_of_ok (Wire.u64_append o.value _)),
        Reader.bind_of_ok (TxField.lockingScript.read_of_ok hscript)]
      rfl

/-! ## Transactions -/

/-- A transaction with the form of each of its compact sizes. -/
structure WrittenTransaction where
  version : UInt32
  inputCount : Form
  inputs : List (Form × Input)
  outputCount : Form
  outputs : List (Form × Output)
  lockTime : UInt32
  deriving DecidableEq

namespace WrittenTransaction

/-- The transaction that is written. -/
def transaction (w : WrittenTransaction) : Transaction where
  version := w.version
  inputs := w.inputs.map Prod.snd
  outputs := w.outputs.map Prod.snd
  lockTime := w.lockTime

def encode (w : WrittenTransaction) : Bytes :=
  LittleEndian.encode 4 w.version.toNat
    ++ (w.inputCount.encode w.inputs.length ++ (Input.layout.writeRow w.inputs
    ++ (w.outputCount.encode w.outputs.length ++ (Output.layout.writeRow w.outputs
    ++ LittleEndian.encode 4 w.lockTime.toNat))))

/-- The compact sizes with their forms: the two counts and the lengths of all scripts. -/
def sizes (w : WrittenTransaction) : List (Form × Nat) :=
  (w.inputCount, w.inputs.length) :: Input.layout.sizes w.inputs
    ++ (w.outputCount, w.outputs.length) :: Output.layout.sizes w.outputs

/-- The bytes are those of the transaction in forms with room for its compact sizes. -/
structure Spells (w : WrittenTransaction) (bytes : Bytes) : Prop where
  fit : FormsFit w.sizes
  encode_eq : w.encode = bytes

instance (w : WrittenTransaction) (bytes : Bytes) : Decidable (w.Spells bytes) :=
  decidable_of_iff (FormsFit w.sizes ∧ w.encode = bytes)
    ⟨fun h => ⟨h.1, h.2⟩, fun h => ⟨h.fit, h.encode_eq⟩⟩

/-- All compact sizes have their shortest forms. -/
def Shortest (w : WrittenTransaction) : Prop :=
  FormsShortest w.sizes

instance (w : WrittenTransaction) : Decidable w.Shortest :=
  inferInstanceAs (Decidable (FormsShortest w.sizes))

variable {w other : WrittenTransaction} {tx : Transaction} {input rest left : Bytes}

theorem formsFit_sizes :
    FormsFit w.sizes ↔
      (w.inputs.length < w.inputCount.limit ∧ FormsFit (Input.layout.sizes w.inputs)) ∧
        w.outputs.length < w.outputCount.limit ∧ FormsFit (Output.layout.sizes w.outputs) := by
  rw [sizes, formsFit_append, formsFit_cons, formsFit_cons]

theorem shortest_iff :
    w.Shortest ↔
      (w.inputCount = .shortest w.inputs.length ∧ FormsShortest (Input.layout.sizes w.inputs)) ∧
        w.outputCount = .shortest w.outputs.length ∧
          FormsShortest (Output.layout.sizes w.outputs) := by
  rw [Shortest, sizes, formsShortest_append, formsShortest_cons, formsShortest_cons]

/-! ### What is read -/

theorem read_eq_ok :
    Transaction.read input = .ok tx rest ↔
      ∃ w : WrittenTransaction, FormsFit w.sizes ∧ w.transaction = tx ∧
        input = w.encode ++ rest := by
  constructor
  · intro h
    obtain ⟨version, _, hversion, h⟩ := Reader.bind_eq_ok.1 h
    obtain ⟨inputCount, _, hinputCount, h⟩ := Reader.bind_eq_ok.1 h
    obtain ⟨inputs, _, hinputs, h⟩ := Reader.bind_eq_ok.1 h
    obtain ⟨outputCount, _, houtputCount, h⟩ := Reader.bind_eq_ok.1 h
    obtain ⟨outputs, _, houtputs, h⟩ := Reader.bind_eq_ok.1 h
    obtain ⟨lockTime, _, hlockTime, hpure⟩ := Reader.bind_eq_ok.1 h
    cases hpure
    obtain rfl := Wire.u32_eq_ok.1 ((TxField.read_eq_ok _).1 hlockTime)
    obtain ⟨outputRow, rfl, rfl, houtputRow, rfl⟩ :=
      Output.layout_readBy.repeated_eq_ok.1 houtputs
    obtain ⟨outputForm, houtputForm, rfl⟩ :=
      CompactSize.read_eq_ok.1 ((TxField.read_eq_ok _).1 houtputCount)
    obtain ⟨inputRow, rfl, rfl, hinputRow, rfl⟩ := Input.layout_readBy.repeated_eq_ok.1 hinputs
    obtain ⟨inputForm, hinputForm, rfl⟩ :=
      CompactSize.read_eq_ok.1 ((TxField.read_eq_ok _).1 hinputCount)
    obtain rfl := Wire.u32_eq_ok.1 ((TxField.read_eq_ok _).1 hversion)
    refine ⟨⟨version, inputForm, inputRow, outputForm, outputRow, lockTime⟩,
      formsFit_sizes.2 ⟨⟨hinputForm, hinputRow⟩, houtputForm, houtputRow⟩, rfl, ?_⟩
    simp only [encode, List.append_assoc]
  · rintro ⟨w, hfit, rfl, rfl⟩
    obtain ⟨⟨hinputForm, hinputRow⟩, houtputForm, houtputRow⟩ := formsFit_sizes.1 hfit
    have hinputs := Input.layout_readBy.repeated_eq_ok.2 ⟨w.inputs, rfl, rfl, hinputRow,
      (rfl : _ = Input.layout.writeRow w.inputs ++ (w.outputCount.encode w.outputs.length ++
        (Output.layout.writeRow w.outputs ++
          (LittleEndian.encode 4 w.lockTime.toNat ++ rest))))⟩
    have houtputs := Output.layout_readBy.repeated_eq_ok.2 ⟨w.outputs, rfl, rfl, houtputRow,
      (rfl : _ = Output.layout.writeRow w.outputs ++
        (LittleEndian.encode 4 w.lockTime.toNat ++ rest))⟩
    simp only [encode, List.append_assoc]
    unfold Transaction.read
    rw [Reader.bind_of_ok (TxField.version.read_of_ok (Wire.u32_append w.version _)),
      Reader.bind_of_ok (TxField.inputCount.read_of_ok (CompactSize.read_form hinputForm _)),
      Reader.bind_of_ok hinputs,
      Reader.bind_of_ok (TxField.outputCount.read_of_ok (CompactSize.read_form houtputForm _)),
      Reader.bind_of_ok houtputs,
      Reader.bind_of_ok (TxField.lockTime.read_of_ok (Wire.u32_append w.lockTime rest))]
    rfl

/-- No bytes are written in two ways. -/
theorem encode_inj (hw : FormsFit w.sizes) (hother : FormsFit other.sizes)
    (h : w.encode = other.encode) : w = other := by
  obtain ⟨⟨hinputForm, hinputRow⟩, houtputForm, houtputRow⟩ := formsFit_sizes.1 hw
  obtain ⟨⟨hinputForm', hinputRow'⟩, houtputForm', houtputRow'⟩ := formsFit_sizes.1 hother
  have hversion := congrArg Wire.u32 h
  rw [encode, encode, Wire.u32_append, Wire.u32_append] at hversion
  injection hversion with hversion hrest
  obtain ⟨hinputCount, hinputs, hrest⟩ :=
    Form.encode_append_inj hinputForm hinputForm' hrest
  obtain ⟨hinputs, hrest⟩ :=
    Input.layout_readBy.writeRow_append_inj hinputRow hinputRow' hinputs hrest
  obtain ⟨houtputCount, houtputs, hrest⟩ :=
    Form.encode_append_inj houtputForm houtputForm' hrest
  obtain ⟨houtputs, hrest⟩ :=
    Output.layout_readBy.writeRow_append_inj houtputRow houtputRow' houtputs hrest
  have hlockTime := congrArg Wire.u32 (congrArg (· ++ []) hrest)
  simp only [Wire.u32_append] at hlockTime
  injection hlockTime with hlockTime
  cases w
  cases other
  simp_all only

/-! ### Lengths -/

theorem encode_transaction (w : WrittenTransaction) :
    w.transaction.encode =
      LittleEndian.encode 4 w.version.toNat
        ++ ((Form.shortest w.inputs.length).encode w.inputs.length
        ++ ((w.inputs.map Prod.snd).flatMap Input.layout.encode
        ++ ((Form.shortest w.outputs.length).encode w.outputs.length
        ++ ((w.outputs.map Prod.snd).flatMap Output.layout.encode
        ++ LittleEndian.encode 4 w.lockTime.toNat)))) := by
  simp only [Transaction.encode, transaction, List.length_map, Form.encode_shortest,
    Input.layout_encode, Output.layout_encode, List.append_assoc]

theorem length_encode (w : WrittenTransaction) :
    w.encode.length =
      8 + w.inputCount.size + (Input.layout.writeRow w.inputs).length
        + w.outputCount.size + (Output.layout.writeRow w.outputs).length := by
  simp only [encode, List.length_append, LittleEndian.length_encode, Form.length_encode]
  omega

theorem length_encode_transaction (w : WrittenTransaction) :
    w.transaction.encode.length =
      8 + (Form.shortest w.inputs.length).size
        + ((w.inputs.map Prod.snd).flatMap Input.layout.encode).length
        + (Form.shortest w.outputs.length).size
        + ((w.outputs.map Prod.snd).flatMap Output.layout.encode).length := by
  simp only [encode_transaction, List.length_append, LittleEndian.length_encode,
    Form.length_encode]
  omega

/-- No way to write a transaction is shorter than the one of the writer. -/
theorem length_encode_transaction_le (h : FormsFit w.sizes) :
    w.transaction.encode.length ≤ w.encode.length := by
  obtain ⟨⟨hinputForm, hinputRow⟩, houtputForm, houtputRow⟩ := formsFit_sizes.1 h
  have hinputCount := Form.size_shortest_le hinputForm
  have houtputCount := Form.size_shortest_le houtputForm
  have hinputs := Layout.length_encodeRow_le hinputRow
  have houtputs := Layout.length_encodeRow_le houtputRow
  rw [length_encode, length_encode_transaction]
  omega

theorem shortest_of_length_eq (h : FormsFit w.sizes)
    (hlength : w.transaction.encode.length = w.encode.length) : w.Shortest := by
  obtain ⟨⟨hinputForm, hinputRow⟩, houtputForm, houtputRow⟩ := formsFit_sizes.1 h
  have hinputCount := Form.size_shortest_le hinputForm
  have houtputCount := Form.size_shortest_le houtputForm
  have hinputs := Layout.length_encodeRow_le hinputRow
  have houtputs := Layout.length_encodeRow_le houtputRow
  rw [length_encode, length_encode_transaction] at hlength
  -- None of the four parts can make up for another one that is longer.
  refine shortest_iff.2 ⟨⟨Form.eq_of_size_eq (by omega), ?_⟩, Form.eq_of_size_eq (by omega), ?_⟩
  · exact Layout.formsShortest_of_length_eq hinputRow (by omega)
  · exact Layout.formsShortest_of_length_eq houtputRow (by omega)

theorem encode_of_shortest (h : w.Shortest) : w.transaction.encode = w.encode := by
  obtain ⟨⟨hinputCount, hinputs⟩, houtputCount, houtputs⟩ := shortest_iff.1 h
  rw [encode_transaction, Layout.encodeRow_of_formsShortest hinputs,
    Layout.encodeRow_of_formsShortest houtputs, ← hinputCount, ← houtputCount, encode]

theorem fits_transaction (h : FormsFit w.sizes) : w.transaction.Fits := by
  obtain ⟨⟨hinputForm, hinputRow⟩, houtputForm, houtputRow⟩ := formsFit_sizes.1 h
  constructor
  · rw [transaction, List.length_map]
    exact Nat.lt_of_lt_of_le hinputForm (Form.limit_le _)
  · rw [transaction, List.length_map]
    exact Nat.lt_of_lt_of_le houtputForm (Form.limit_le _)
  · intro i hi
    obtain ⟨item, hitem, rfl⟩ := List.mem_map.1 hi
    exact Nat.lt_of_lt_of_le (hinputRow _ (List.mem_map_of_mem hitem)) (Form.limit_le _)
  · intro o ho
    obtain ⟨item, hitem, rfl⟩ := List.mem_map.1 ho
    exact Nat.lt_of_lt_of_le (houtputRow _ (List.mem_map_of_mem hitem)) (Form.limit_le _)

end WrittenTransaction

namespace Transaction

variable {tx : Transaction} {input : Bytes}

theorem ofBytes_eq_ok :
    ofBytes input = .ok tx ↔
      ∃ w : WrittenTransaction, w.Spells input ∧ w.transaction = tx := by
  constructor
  · intro h
    unfold ofBytes at h
    cases hread : read input with
    | error e left => simp [hread] at h
    | ok other left =>
        simp only [hread, List.isEmpty_iff] at h
        split at h
        · rename_i hleft
          cases h
          obtain ⟨w, hfit, htx, hbytes⟩ := WrittenTransaction.read_eq_ok.1 hread
          rw [hleft, List.append_nil] at hbytes
          exact ⟨w, ⟨hfit, hbytes.symm⟩, htx⟩
        · cases h
  · rintro ⟨w, ⟨hfit, rfl⟩, rfl⟩
    have hread := WrittenTransaction.read_eq_ok.2 ⟨w, hfit, rfl, (List.append_nil _).symm⟩
    simp [ofBytes, hread]

/-- Bytes that are read as a transaction spell it in exactly one way. It is written again in no more
bytes, which read back as it. They are the same bytes exactly when there are as many of them, and
exactly when all compact sizes had their shortest forms; then the id is the double hash of the bytes
that were read. -/
theorem encode_of_ofBytes (h : ofBytes input = .ok tx) :
    tx.encode.length ≤ input.length ∧ ofBytes tx.encode = .ok tx ∧
      ∃ w : WrittenTransaction, (∀ other : WrittenTransaction, other.Spells input ↔ other = w) ∧
        w.transaction = tx ∧
        (tx.encode = input ↔ tx.encode.length = input.length) ∧
        (tx.encode = input ↔ w.Shortest) ∧
        (w.Shortest → tx.id.digest = Hash.sha256d input) := by
  obtain ⟨w, hspells, rfl⟩ := ofBytes_eq_ok.1 h
  obtain ⟨hfit, rfl⟩ := hspells
  have honly (other : WrittenTransaction) : other.Spells w.encode ↔ other = w := by
    constructor
    · rintro ⟨hother, hencode⟩
      exact WrittenTransaction.encode_inj hother hfit hencode
    · rintro rfl
      exact ⟨hfit, rfl⟩
  have hsame : w.Shortest → w.transaction.encode = w.encode := WrittenTransaction.encode_of_shortest
  have hshortest := WrittenTransaction.shortest_of_length_eq hfit
  refine ⟨WrittenTransaction.length_encode_transaction_le hfit,
    ofBytes_encode (WrittenTransaction.fits_transaction hfit), w, honly, rfl,
    ⟨congrArg List.length, fun hlength => hsame (hshortest hlength)⟩,
    ⟨fun hbytes => hshortest (congrArg List.length hbytes), hsame⟩, fun hforms => ?_⟩
  rw [id, hsame hforms]
  rfl

/-- One of the four forms at each of its compact sizes, and only one of them the shortest. -/
def longForms : WrittenTransaction where
  version := 1
  inputCount := .two
  inputs := [(.eight, ⟨.null, [0x51], 0⟩)]
  outputCount := .alone
  outputs := [(.four, ⟨7, []⟩)]
  lockTime := 0

theorem encode_of_ofBytes_longForms :
    let tx := longForms.transaction
    ofBytes longForms.encode = .ok tx ∧ tx.encode.length ≤ longForms.encode.length ∧
      ofBytes tx.encode = .ok tx ∧ tx.encode ≠ longForms.encode ∧ ¬ longForms.Shortest ∧
      tx.id.digest = Hash.sha256d tx.encode := by
  intro tx
  have hspells : longForms.Spells longForms.encode := by decide
  have hlong : ¬ longForms.Shortest := by decide
  have hread : ofBytes longForms.encode = .ok tx := ofBytes_eq_ok.2 ⟨longForms, hspells, rfl⟩
  obtain ⟨hlength, hagain, w, honly, -, -, hforms, -⟩ := encode_of_ofBytes hread
  obtain rfl := (honly longForms).1 hspells
  obtain ⟨-, -, w, -, -, -, hshortest, hid⟩ := encode_of_ofBytes hagain
  exact ⟨hread, hlength, hagain, mt hforms.1 hlong, hlong, hid (hshortest.1 rfl)⟩

end Transaction

end TxScript
