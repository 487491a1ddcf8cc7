import TxScript.Proofs.Machine.Budget
import TxScript.Proofs.Machine.Reencoding
import TxScript.Proofs.Script.Pushes

/-!
# Scripts of constants

Whether a script is one of constants is told by the first bytes of its chunks alone. Such a script
pushes one element for each chunk, whatever is on the stacks, and counts nothing. It is refused where
data is too long to be an element, and at the one opcode among the constants that is none. Every
other script that runs to its end counts something.
-/

namespace TxScript

/-- The opcode between those of minus one and one. -/
def Opcode.reserved : Opcode := ⟨0x50⟩

/-- The element that a constant is: the data of a push, or the number that an opcode stands for. -/
def Chunk.element : Chunk → Bytes
  | .push _ data => data
  | .op o => Number.encode ((o.byte.toNat : Int) - Opcode.reserved.byte.toNat)

/-- The opcodes of numbers stand in the order of the numbers. -/
theorem Opcode.constant_facts {op : Opcode} (hpush : op.isPush = false)
    (hfree : op.isCounted = false) (hreserved : op ≠ .reserved) :
    op.operation = .stack (.constant ((op.byte.toNat : Int) - reserved.byte.toNat)) ∧
      op.availability = .always := by
  have table : ∀ k : Fin 18, Opcode.mk (UInt8.ofNat (0x4f + k)) ≠ reserved →
      Opcode.operation ⟨UInt8.ofNat (0x4f + k)⟩ =
        .stack (.constant (((UInt8.ofNat (0x4f + k)).toNat : Int) - reserved.byte.toNat)) ∧
      Opcode.availability ⟨UInt8.ofNat (0x4f + k)⟩ = .always := by decide +kernel
  rcases op with ⟨byte⟩
  simp only [isPush, isCounted, sixteen, decide_eq_false_iff_not, UInt8.le_iff_toNat_le,
    UInt8.lt_iff_toNat_lt, UInt8.reduceToNat] at hpush hfree
  have hbyte : UInt8.ofNat (0x4f + (byte.toNat - 0x4f)) = byte := by
    rw [Nat.add_sub_cancel' (by omega), UInt8.ofNat_toNat]
  have hfacts := table ⟨byte.toNat - 0x4f, by omega⟩
  simp only [hbyte] at hfacts
  exact hfacts hreserved

theorem Script.isDataOnly_iff {script : Script} :
    script.isDataOnly = true ↔ ∀ c ∈ script.chunks, c.isCounted = false := by
  simp only [isDataOnly, List.all_eq_true, Chunk.isCounted_opcode, Bool.not_eq_true']

namespace Machine

variable {env : Env} {s t : State} {c : Chunk} {cs before after : List Chunk} {script : Script}
  {e : ExecError}

/-- Why a constant is refused. -/
def constantFault? (env : Env) : Chunk → Option ExecError
  | .push _ data => if env.config.maxElementSize < data.length then some .elementTooLarge else none
  | .op o => if o = .reserved then some (.notExecutable o.mnemonic) else none

/-- The state with elements pushed one after another. -/
def State.pushed (s : State) (elements : List Bytes) : State :=
  { s with main := elements.reverse ++ s.main }

theorem State.pushed_cons (element : Bytes) (elements : List Bytes) :
    (s.pushed [element]).pushed elements = s.pushed (element :: elements) := by
  simp [State.pushed]

/-! ## One constant -/

theorem step_reserved (hx : s.executing = true) :
    step env s (.op .reserved) = halt (.notExecutable Opcode.reserved.mnemonic) s := by
  have hon : Opcode.reserved.isDisabled env.config.monolith = false := rfl
  have hop : Opcode.reserved.operation = .reserved := by decide
  show stepCounted env .reserved s = _
  simp [stepCounted, hon, hx, perform, hop]

/-- Of the state, a constant sees no more than that its branch runs. -/
theorem step_of_constant (hx : s.executing = true) (hcanonical : c.Canonical)
    (hfree : c.isCounted = false) :
    step env s c =
      (constantFault? env c).elim (.ok (s.pushed [c.element])) fun e => halt e s := by
  cases c with
  | push enc data =>
      simp only [step, hx, if_true, State.pushData, constantFault?]
      split <;> rfl
  | op o =>
      by_cases hreserved : o = .reserved
      · subst hreserved
        exact step_reserved hx
      · obtain ⟨hop, halways⟩ := Opcode.constant_facts hcanonical hfree hreserved
        have hon : o.isDisabled env.config.monolith = false := by
          rw [Opcode.isDisabled, halways]
        rw [step_constant hx hop hfree hon, constantFault?, if_neg hreserved]
        rfl

/-! ## Rows of constants -/

/-- A canonical row of constants. -/
def Constants (cs : List Chunk) : Prop :=
  ∀ c ∈ cs, c.Canonical ∧ c.isCounted = false

theorem constants_of_isDataOnly (hdata : script.isDataOnly = true) : Constants script.chunks :=
  fun c hc => ⟨script.canonical c hc, Script.isDataOnly_iff.1 hdata c hc⟩

theorem execute_constants (hx : s.executing = true) (hcs : Constants cs)
    (hnone : ∀ c ∈ cs, constantFault? env c = none) :
    execute env cs s = .ok (s.pushed (cs.map Chunk.element)) := by
  induction cs generalizing s with
  | nil => rfl
  | cons c cs ih =>
      obtain ⟨⟨hcanonical, hfree⟩, hrest⟩ := List.forall_mem_cons.1 hcs
      obtain ⟨hfirst, hnone⟩ := List.forall_mem_cons.1 hnone
      have hx' : (s.pushed [c.element]).executing = true := hx
      rw [execute_cons, step_of_constant hx hcanonical hfree, hfirst]
      show execute env cs (s.pushed [c.element]) = _
      rw [ih hx' hrest hnone, State.pushed_cons]
      rfl

/-- What stands behind the first constant that is refused does not matter. -/
theorem execute_constants_error (hx : s.executing = true)
    (hcs : Constants (before ++ c :: after))
    (hnone : ∀ b ∈ before, constantFault? env b = none) (hsome : constantFault? env c = some e) :
    execute env (before ++ c :: after) s = halt e (s.pushed (before.map Chunk.element)) := by
  obtain ⟨hbefore, hrest⟩ := List.forall_mem_append.1 hcs
  obtain ⟨⟨hcanonical, hfree⟩, -⟩ := List.forall_mem_cons.1 hrest
  have hx' : (s.pushed (before.map Chunk.element)).executing = true := hx
  rw [execute_append, execute_constants hx hbefore hnone]
  show execute env (c :: after) _ = _
  rw [execute_cons, step_of_constant hx' hcanonical hfree, hsome]
  rfl

/-- Either no constant of a row is refused, or there is a first one. -/
theorem first_constantFault (env : Env) (cs : List Chunk) :
    (∀ c ∈ cs, constantFault? env c = none) ∨
      ∃ before c after e, cs = before ++ c :: after ∧
        (∀ b ∈ before, constantFault? env b = none) ∧ constantFault? env c = some e := by
  induction cs with
  | nil => exact .inl (List.forall_mem_nil _)
  | cons c cs ih =>
      cases hfirst : constantFault? env c with
      | some e => exact .inr ⟨[], c, cs, e, rfl, List.forall_mem_nil _, hfirst⟩
      | none =>
          rcases ih with hnone | ⟨before, d, after, e, rfl, hbefore, hsome⟩
          · exact .inl (List.forall_mem_cons.2 ⟨hfirst, hnone⟩)
          · exact .inr ⟨c :: before, d, after, e, rfl,
              List.forall_mem_cons.2 ⟨hfirst, hbefore⟩, hsome⟩

theorem execute_constants_eq_ok (hx : s.executing = true) (hcs : Constants cs) :
    execute env cs s = .ok t ↔
      (∀ c ∈ cs, constantFault? env c = none) ∧ t = s.pushed (cs.map Chunk.element) := by
  constructor
  · intro h
    rcases first_constantFault env cs with hnone | ⟨before, c, after, e, rfl, hbefore, hsome⟩
    · rw [execute_constants hx hcs hnone] at h
      exact ⟨hnone, (Except.ok.inj h).symm⟩
    · rw [execute_constants_error hx hcs hbefore hsome] at h
      cases h
  · rintro ⟨hnone, rfl⟩
    exact execute_constants hx hcs hnone

theorem execute_constants_eq_error (hx : s.executing = true) (hcs : Constants cs)
    {halted : Halt ExecError} :
    execute env cs s = .error halted ↔
      ∃ before c after, cs = before ++ c :: after ∧
        (∀ b ∈ before, constantFault? env b = none) ∧ constantFault? env c = some halted.error ∧
        halted.state = s.pushed (before.map Chunk.element) := by
  constructor
  · intro h
    rcases first_constantFault env cs with hnone | ⟨before, c, after, e, rfl, hbefore, hsome⟩
    · rw [execute_constants hx hcs hnone] at h
      cases h
    · rw [execute_constants_error hx hcs hbefore hsome] at h
      cases h
      exact ⟨before, c, after, rfl, hbefore, hsome, rfl⟩
  · rintro ⟨before, c, after, rfl, hbefore, hsome, hstate⟩
    rw [execute_constants_error hx hcs hbefore hsome, ← hstate]
    rfl

/-! ## What runs without counting -/

/-- Whatever counts keys counts as an operation itself. -/
theorem keysRead_of_free (hfree : c.isCounted = false) : keysRead s c = 0 := by
  cases c with
  | push enc data => rfl
  | op o =>
      have hplain : o.isMultisigCheck = false := by
        cases hcheck : o.isMultisigCheck with
        | false => rfl
        | true =>
            rcases (by simpa [Opcode.isMultisigCheck] using hcheck :
              o = .checkMultisig ∨ o = .checkMultisigVerify) with rfl | rfl
            · cases hfree
            · cases hfree
      simp [keysRead, hplain]

theorem keysChecked_of_free (hfree : ∀ c ∈ cs, c.isCounted = false) :
    keysChecked env cs s = 0 := by
  induction cs generalizing s with
  | nil => rfl
  | cons c cs ih =>
      obtain ⟨hfirst, hrest⟩ := List.forall_mem_cons.1 hfree
      rw [keysChecked, keysRead_of_free hfirst, Nat.zero_add]
      cases step env s c with
      | ok t => exact ih hrest
      | error halted => rfl

theorem isDataOnly_iff_of_run (h : run env script s = .ok t) :
    script.isDataOnly = true ↔ t.opCount = 0 := by
  have hnone : countedOps script.chunks = 0 ↔ script.isDataOnly = true := by
    rw [Script.isDataOnly_iff, countedOps, List.countP_eq_zero]
    simp only [Bool.not_eq_true]
  -- Keys are counted beside the chunks, but only by chunks that are counted themselves.
  rw [opCount_of_run h, Nat.add_eq_zero_iff, hnone]
  exact ⟨fun hdata => ⟨hdata, keysChecked_of_free (Script.isDataOnly_iff.1 hdata)⟩, And.left⟩

/-- A script of constants pushes the elements that its chunks are, on whatever stack it
finds, and leaves the second stack, the branches and the count as they are, as far as it comes. It
comes to its end unless one of its chunks is refused, and otherwise to the first that is. Of all
scripts that run to their ends, those of constants are the ones that have counted nothing. -/
theorem execute_and_run_of_constants (env : Env) :
    (∀ script : Script, script.isDataOnly = true →
      ∀ s : State, s.executing = true →
        (∀ before after, script.chunks = before ++ after →
          (∀ b ∈ before, constantFault? env b = none) →
          execute env before s = .ok (s.pushed (before.map Chunk.element))) ∧
        (∀ t, execute env script.chunks s = .ok t ↔
          (∀ c ∈ script.chunks, constantFault? env c = none) ∧
            t = s.pushed (script.chunks.map Chunk.element)) ∧
        ∀ halted, execute env script.chunks s = .error halted ↔
          ∃ before c after, script.chunks = before ++ c :: after ∧
            (∀ b ∈ before, constantFault? env b = none) ∧
            constantFault? env c = some halted.error ∧
            halted.state = s.pushed (before.map Chunk.element)) ∧
    ∀ script s t, run env script s = .ok t → (script.isDataOnly = true ↔ t.opCount = 0) := by
  refine ⟨fun script hdata s hx => ?_, fun script s t => isDataOnly_iff_of_run⟩
  have hcs : Constants script.chunks := constants_of_isDataOnly hdata
  refine ⟨fun before after hsplit hnone => ?_, fun t => execute_constants_eq_ok hx hcs,
    fun halted => execute_constants_eq_error hx hcs⟩
  rw [hsplit] at hcs
  exact execute_constants hx (List.forall_mem_append.1 hcs).1 hnone

/-- Inside two open branches, with room for elements of two bytes: all kinds of constants, up to the
reserved opcode and up to data that is too long, over a stack that stays. Without these they run to
the end and count nothing, while a script that drops its one constant again has counted. -/
theorem execute_and_run_of_all_constants :
    let env : Env := { config := { maxElementSize := 2 } }
    let s : State := { main := [[9]], alt := [[8]], branches := [true, true], opCount := 5 }
    let front : Script :=
      { chunks := [.push .pushData2 [7, 7], .op ⟨0x4f⟩, .push .implicit [], .op ⟨0x60⟩] }
    let elements : Stack := [[16], [], [0x81], [7, 7], [9]]
    let reserved : Script := front ++ { chunks := [.op .reserved, .op ⟨0x51⟩] }
    let long : Script := front ++ { chunks := [.push .implicit [1, 2, 3], .op .reserved] }
    let free : State := { main := [[9]], alt := [[8]], opCount := 5 }
    let dropped : Script := { chunks := [.op ⟨0x51⟩, .op ⟨0x75⟩] }
    (reserved.isDataOnly = true ∧ long.isDataOnly = true) ∧
    s.executing = true ∧
    execute env front.chunks s = .ok { s with main := elements } ∧
    execute env reserved.chunks s =
      .error ⟨.notExecutable "OP_RESERVED", { s with main := elements }⟩ ∧
    execute env long.chunks s = .error ⟨.elementTooLarge, { s with main := elements }⟩ ∧
    (run env front free = .ok { main := elements } ∧ front.isDataOnly = true) ∧
    run env dropped free = .ok { main := [[9]], opCount := 1 } ∧ dropped.isDataOnly = false := by
  intro env s front elements reserved long free dropped
  have hreserved : reserved.isDataOnly = true := by decide
  have hlong : long.isDataOnly = true := by decide
  have hnone : ∀ b ∈ front.chunks, constantFault? env b = none := by decide
  have hpushed : s.pushed (front.chunks.map Chunk.element) = { s with main := elements } := by
    decide +kernel
  have hrun : run env front free = .ok { main := elements } :=
    eq_ok_of_toOption (by decide +kernel)
  have hdropped : run env dropped free = .ok { main := [[9]], opCount := 1 } :=
    eq_ok_of_toOption (by decide +kernel)
  obtain ⟨hconstants, hcounts⟩ := execute_and_run_of_constants env
  obtain ⟨hfront, -, hstops⟩ := hconstants reserved hreserved s rfl
  obtain ⟨-, -, hstopsLong⟩ := hconstants long hlong s rfl
  refine ⟨⟨hreserved, hlong⟩, rfl, ?_, ?_, ?_, ⟨hrun, (hcounts _ _ _ hrun).2 rfl⟩, hdropped, ?_⟩
  · rw [hfront front.chunks _ rfl hnone, hpushed]
  · exact (hstops _).2 ⟨front.chunks, _, _, rfl, hnone, by decide, hpushed.symm⟩
  · exact (hstopsLong _).2 ⟨front.chunks, _, _, rfl, hnone, by decide, hpushed.symm⟩
  · rw [Bool.eq_false_iff]
    exact fun hdata => absurd ((hcounts _ _ _ hdropped).1 hdata) (by decide)

end Machine

end TxScript
