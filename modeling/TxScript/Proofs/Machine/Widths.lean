import TxScript.Proofs.Machine.StackBounds
import TxScript.Proofs.Machine.Step

/-!
# Numbers of a given width

A number has one spelling of each width that is great enough, and zero has two. Stretching gives
that spelling, without a sign for zero, and reducing takes it back to the shortest one. So the two
opcodes that change the width undo each other, except for the sign of a zero.
-/

namespace TxScript

theorem LittleEndian.decode_inj {as bs : Bytes} (hlength : as.length = bs.length)
    (h : decode as = decode bs) : as = bs := by
  rw [← encode_decode as, ← encode_decode bs, hlength, h]

namespace Number

variable {bs cs : Bytes} {size : Nat}

/-- The spellings of zero that have a sign. -/
def IsNegativeZero (bs : Bytes) : Prop :=
  isNegative bs = true ∧ value bs = 0

instance (bs : Bytes) : Decidable (IsNegativeZero bs) :=
  inferInstanceAs (Decidable (_ ∧ _))

/-! ## One spelling of each width -/

theorem eq_of_seven_bits {a b : UInt8} (hdigits : a &&& 0x7f = b &&& 0x7f)
    (hsign : decide (0x80 ≤ a) = decide (0x80 ≤ b)) : a = b := by
  rw [← join_seven_bits a, ← join_seven_bits b, hdigits, hsign]

/-- A width, a sign and a magnitude leave no choice. -/
theorem eq_of_magnitude_eq (hlength : bs.length = cs.length)
    (hsign : isNegative bs = isNegative cs) (h : magnitude bs = magnitude cs) : bs = cs := by
  rcases List.eq_nil_or_concat bs with rfl | ⟨low, last, rfl⟩
  · exact (List.eq_nil_of_length_eq_zero hlength.symm).symm
  · rcases List.eq_nil_or_concat cs with rfl | ⟨low', last', rfl⟩
    · simp at hlength
    · simp only [List.concat_eq_append] at hlength hsign h ⊢
      rw [magnitude_eq_decode, magnitude_eq_decode] at h
      have hdigits := LittleEndian.decode_inj (by simpa using hlength) h
      obtain ⟨rfl, hlast⟩ := List.append_inj' hdigits rfl
      rw [isNegative_concat, isNegative_concat] at hsign
      rw [eq_of_seven_bits (List.head_eq_of_cons_eq hlast) hsign]

/-- The sign that is spelled is that of the number, unless the number is zero. -/
theorem isNegative_eq (h : ¬ IsNegativeZero bs) : isNegative bs = decide (value bs < 0) := by
  cases hsign : isNegative bs with
  | true =>
      have hne : value bs ≠ 0 := fun hzero => h ⟨hsign, hzero⟩
      have hneg : value bs = -(magnitude bs : Int) := if_pos hsign
      rw [eq_comm, decide_eq_true_iff]
      omega
  | false =>
      have hpos : value bs = magnitude bs := by simp [value, hsign]
      rw [eq_comm, decide_eq_false_iff_not]
      omega

/-- But for the sign of a zero, a number has one spelling of each width. -/
theorem eq_of_value_eq (hlength : bs.length = cs.length) (h : value bs = value cs)
    (hbs : ¬ IsNegativeZero bs) (hcs : ¬ IsNegativeZero cs) : bs = cs := by
  refine eq_of_magnitude_eq hlength ?_ ?_
  · rw [isNegative_eq hbs, isNegative_eq hcs, h]
  · rw [← natAbs_value, ← natAbs_value, h]

theorem value_zeros (size : Nat) : value (List.replicate size 0) = 0 := by
  cases size with
  | zero => rfl
  | succ size =>
      have hmagnitude : magnitude (List.replicate size 0 ++ [0]) = 0 := by
        rw [magnitude_of_sign rfl, LittleEndian.decode_zeros]
      have hvalue := natAbs_value (List.replicate size 0 ++ [0])
      rw [hmagnitude] at hvalue
      rw [List.replicate_succ', Int.natAbs_eq_zero.1 hvalue]

theorem not_isNegativeZero_zeros (size : Nat) : ¬ IsNegativeZero (List.replicate size 0) := by
  rintro ⟨hsign, -⟩
  cases size with
  | zero => cases hsign
  | succ size =>
      rw [List.replicate_succ', isNegative_concat] at hsign
      cases hsign

/-! ## Stretching -/

set_option maxRecDepth 4000 in
theorem sign_bit_facts (last : UInt8) :
    (last &&& 0x80) &&& 0x7f = 0 ∧ decide (0x80 ≤ last &&& 0x80) = decide (0x80 ≤ last) := by
  revert last
  decide

/-- Zeros go between the digits and the sign. -/
theorem stretch_concat (low : Bytes) (last : UInt8) (h : low.length + 1 < size) :
    stretch size (low ++ [last])
      = low ++ [last &&& 0x7f] ++ List.replicate (size - low.length - 2) 0 ++ [last &&& 0x80] := by
  unfold stretch
  rw [List.reverse_append, List.reverse_singleton, List.singleton_append]
  have hwidth : size - (low ++ [last]).length - 1 = size - low.length - 2 := by
    rw [List.length_append, List.length_singleton]
    omega
  have hlt : (low ++ [last]).length < size := by simpa using h
  simp only [if_pos hlt, hwidth, List.reverse_reverse, List.append_assoc, List.cons_append,
    List.nil_append]

theorem stretch_of_length_eq (h : bs.length = size) (hne : bs ≠ []) : stretch size bs = bs := by
  unfold stretch
  split
  · rename_i hnil
    exact absurd (List.reverse_eq_nil_iff.1 hnil) hne
  · rw [if_neg (by omega)]

/-- Stretching keeps the number, and gives no zero a sign that had none. -/
theorem stretch_spells (h : bs.length ≤ size) :
    value (stretch size bs) = value bs ∧
      (IsNegativeZero (stretch size bs) → IsNegativeZero bs) := by
  rcases List.eq_nil_or_concat bs with rfl | ⟨low, last, rfl⟩
  · exact ⟨value_zeros size, fun hzero => absurd hzero (not_isNegativeZero_zeros size)⟩
  · rw [List.concat_eq_append] at h ⊢
    rcases Nat.lt_or_eq_of_le h with hlt | heq
    · obtain ⟨hbits, hsign⟩ := sign_bit_facts last
      have hnegative : isNegative (stretch size (low ++ [last])) = isNegative (low ++ [last]) := by
        rw [stretch_concat low last (by simpa using hlt), isNegative_concat, isNegative_concat,
          hsign]
      have hvalue : value (stretch size (low ++ [last])) = value (low ++ [last]) := by
        rw [value, value, hnegative, stretch_concat low last (by simpa using hlt),
          magnitude_of_sign hbits, LittleEndian.decode_append_zeros, magnitude_eq_decode]
      exact ⟨hvalue, fun hzero => ⟨hnegative ▸ hzero.1, hvalue ▸ hzero.2⟩⟩
    · rw [stretch_of_length_eq heq (by simp)]
      exact ⟨rfl, id⟩

/-- A shortest spelling is never that of a zero with a sign. -/
theorem not_isNegativeZero_minimize (bs : Bytes) : ¬ IsNegativeZero (minimize bs) := by
  rintro ⟨hsign, hzero⟩
  rw [← encode_value, ← value_minimize, hzero, encode_zero] at hsign
  cases hsign

/-- What a number is stretched to is its one spelling of that width. -/
theorem eq_stretch_minimize_iff (h : (minimize bs).length ≤ size) :
    cs = stretch size (minimize bs) ↔
      cs.length = size ∧ value cs = value bs ∧ ¬ IsNegativeZero cs := by
  obtain ⟨hvalue, hzero⟩ := stretch_spells h
  rw [value_minimize] at hvalue
  have hlength := length_stretch h
  have hsigned := mt hzero (not_isNegativeZero_minimize bs)
  constructor
  · rintro rfl
    exact ⟨hlength, hvalue, hsigned⟩
  · rintro ⟨hcs, hnumber, hunsigned⟩
    exact eq_of_value_eq (hcs.trans hlength.symm) (hnumber.trans hvalue.symm) hunsigned hsigned

theorem minimize_minimize (bs : Bytes) : minimize (minimize bs) = minimize bs :=
  minimize_eq_minimize_iff.2 (value_minimize bs)

/-- Brought back to its width, a spelling is the same, unless it gave a sign to zero. -/
theorem stretch_minimize_length (bs : Bytes) :
    stretch bs.length (minimize bs) =
      if IsNegativeZero bs then List.replicate bs.length 0 else bs := by
  refine ((eq_stretch_minimize_iff (shortens_minimize bs).length_le).2 ?_).symm
  split
  · rename_i hzero
    exact ⟨List.length_replicate, (value_zeros _).trans hzero.2.symm, not_isNegativeZero_zeros _⟩
  · rename_i hunsigned
    exact ⟨rfl, rfl, hunsigned⟩

/-- A width that is an operand can be spelled as one. -/
theorem spells_encode_natCast {n : Nat} (h : n ≤ 0x7fffffff) : Spells (encode n) n := by
  have hlimit : LittleEndian.limit operandWidth = 0x100000000 := by decide
  exact ⟨length_encode_le_of_half (by omega), value_encode n⟩

end Number

/-! ## The opcodes -/

namespace Opcode

def numToBin : Opcode := ⟨0x80⟩
def binToNum : Opcode := ⟨0x81⟩

end Opcode

namespace Machine

open Number

variable {env : Env} {s t : State} {limit : Nat} {size x : Bytes} {below main : Stack}

/-- The width is an operand that leaves room for the number and is no greater than an element may
be. -/
def AllowsWidth (limit : Nat) (size x : Bytes) (n : Nat) : Prop :=
  Spells size n ∧ (minimize x).length ≤ n ∧ n ≤ limit

theorem applyNumToBin_of_allowed {n : Nat} (h : AllowsWidth limit size x n) :
    applyNumToBin limit (size :: x :: below) = .ok (stretch n (minimize x) :: below) := by
  obtain ⟨hsize, hroom, hlimit⟩ := h
  have hrange : ¬ ((n : Int) < 0 ∨ (limit : Int) < n) := by omega
  have hfits : ¬ (n : Int) < (minimize x).length := by omega
  simp only [applyNumToBin, operand?_eq_some_iff.2 hsize, if_neg hrange, if_neg hfits,
    Int.toNat_natCast]

/-- Nothing is taken off before the width is found to be allowed. -/
theorem applyNumToBin_of_not_allowed (h : ∀ n, ¬ AllowsWidth limit size x n) :
    ∃ e, applyNumToBin limit (size :: x :: below) = .error ⟨e, size :: x :: below⟩ := by
  simp only [applyNumToBin]
  cases hsize : operand? size with
  | none => exact ⟨_, rfl⟩
  | some n =>
      dsimp only
      split
      · exact ⟨_, rfl⟩
      · rename_i hrange
        split
        · exact ⟨_, rfl⟩
        · rename_i hfits
          have hspells : Spells size n.toNat := by
            rw [Int.toNat_of_nonneg (by omega)]
            exact operand?_eq_some_iff.1 hsize
          exact absurd ⟨hspells, by omega, by omega⟩ (h n.toNat)

theorem applyBinToNum_cons :
    applyBinToNum (x :: below) =
      if (minimize x).length ≤ operandWidth then .ok (minimize x :: below)
      else .error ⟨.notANumber, below⟩ := by
  simp only [applyBinToNum]
  split
  · rw [if_neg (by omega)]
  · rw [if_pos (by omega)]

theorem perform_numToBin :
    perform env .numToBin s = s.withMain (applyNumToBin env.config.maxElementSize s.main) := by
  rw [perform, (by decide : Opcode.numToBin.operation = .stack .numToBin)]
  rfl

theorem perform_binToNum : perform env .binToNum s = s.withMain (applyBinToNum s.main) := by
  rw [perform, (by decide : Opcode.binToNum.operation = .stack .binToNum)]
  rfl

/-- Either opcode runs where those of its kind are enabled. -/
theorem admits_of_monolith {op : Opcode} (hop : op = .numToBin ∨ op = .binToNum)
    (hmonolith : env.config.monolith = true) (hexecuting : s.executing = true)
    (hroom : s.opCount < env.config.maxOps) : Admits env s op := by
  refine ⟨hexecuting, ?_, ?_, hroom⟩
  · rcases hop with rfl | rfl <;> decide
  · rw [hmonolith]
    rcases hop with rfl | rfl <;> decide

/-- A number is brought to each width that is an operand, has room for it and is no greater than an
element may be, and to no other; a refusal leaves everything as it was. What it is brought to is its
one spelling of that width, with no sign for zero. Reducing it gives the shortest spelling again, if
that is short enough for an operand. The other way round, an element that was reduced is restored by
its own width, except for a zero with a sign. Where the opcodes brought back are enabled, the chunks
do this after they are counted. -/
theorem perform_numToBin_and_binToNum (env : Env) (s : State) (x : Bytes) :
    (∀ size (n : Nat), Spells size n → (minimize x).length ≤ n → n ≤ env.config.maxElementSize →
      ∃ r : Bytes, r.length = n ∧ value r = value x ∧ ¬ IsNegativeZero r ∧
        perform env .numToBin { s with main := size :: x :: s.main }
          = .ok { s with main := r :: s.main } ∧
        perform env .binToNum { s with main := r :: s.main } =
          if (minimize x).length ≤ operandWidth then .ok { s with main := minimize x :: s.main }
          else halt .notANumber s) ∧
    (∀ size, (∀ n : Nat, Spells size n →
        ¬ ((minimize x).length ≤ n ∧ n ≤ env.config.maxElementSize)) →
      ∃ e, perform env .numToBin { s with main := size :: x :: s.main }
        = .error ⟨e, { s with main := size :: x :: s.main }⟩) ∧
    (∀ t, perform env .binToNum { s with main := x :: s.main } = .ok t →
      x.length ≤ env.config.maxElementSize → ∀ size, Spells size x.length →
      perform env .numToBin { t with main := size :: t.main }
        = .ok { s with
            main := (if IsNegativeZero x then List.replicate x.length 0 else x) :: s.main }) ∧
    (env.config.maxElementSize ≤ 0x7fffffff → x.length ≤ env.config.maxElementSize →
      Spells (encode x.length) x.length) ∧
    ∀ op, op = .numToBin ∨ op = .binToNum → env.config.monolith = true → s.executing = true →
      s.opCount < env.config.maxOps → step env s (.op op) = perform env op s.counted := by
  refine ⟨?_, ?_, ?_, ?_, fun op hop hmonolith hexecuting hroom =>
    step_of_admits (admits_of_monolith hop hmonolith hexecuting hroom)⟩
  · intro size n hsize hroom hlimit
    obtain ⟨hlength, hvalue, hunsigned⟩ := (eq_stretch_minimize_iff hroom).1 rfl
    refine ⟨_, hlength, hvalue, hunsigned, ?_, ?_⟩
    · rw [perform_numToBin, applyNumToBin_of_allowed ⟨hsize, hroom, hlimit⟩]
      rfl
    · rw [perform_binToNum, applyBinToNum_cons, minimize_eq_minimize_iff.2 hvalue]
      split <;> rfl
  · intro size hrefused
    obtain ⟨e, hfails⟩ := applyNumToBin_of_not_allowed fun n h => hrefused n h.1 h.2
    exact ⟨e, by rw [perform_numToBin, hfails]; rfl⟩
  · intro t hread hwidth size hsize
    rw [perform_binToNum, applyBinToNum_cons] at hread
    split at hread
    · cases hread
      have hallowed : AllowsWidth env.config.maxElementSize size (minimize x) x.length := by
        refine ⟨hsize, ?_, hwidth⟩
        rw [minimize_minimize]
        exact (shortens_minimize x).length_le
      rw [perform_numToBin, applyNumToBin_of_allowed hallowed, minimize_minimize,
        stretch_minimize_length]
      rfl
    · cases hread
  · exact fun hlimit hwidth => spells_encode_natCast (Nat.le_trans hwidth hlimit)

/-- A number whose sign stands in a byte of its own, at a width with zeros to spare and at one that
is too small; and a zero that loses its sign. -/
theorem perform_numToBin_and_binToNum_signs :
    let x : Bytes := [0xff, 0x80]
    let narrow : State := { main := [[0x01], x] }
    let zero : Bytes := [0x00, 0x80]
    (∃ r : Bytes, r.length = 4 ∧ value r = -255 ∧
      perform {} .numToBin { main := [[0x04, 0x00], x] } = .ok { main := [r] } ∧
      perform {} .binToNum { main := [r] } = .ok { main := [x] }) ∧
    (∃ e, perform {} .numToBin narrow = .error ⟨e, narrow⟩) ∧
    perform {} .binToNum { main := [zero] } = .ok { main := [[]] } ∧
    perform {} .numToBin { main := [[0x02], []] } = .ok { main := [[0x00, 0x00]] } := by
  intro x narrow zero
  obtain ⟨hbrought, hrefused, -⟩ := perform_numToBin_and_binToNum {} {} x
  obtain ⟨-, -, hrestored, -⟩ := perform_numToBin_and_binToNum {} {} zero
  have hreduced : perform {} .binToNum { main := [zero] } = .ok { main := [[]] } :=
    eq_ok_of_toOption (by decide +kernel)
  refine ⟨?_, ?_, hreduced, ?_⟩
  · obtain ⟨r, hlength, hvalue, -, hstretched, hback⟩ :=
      hbrought [0x04, 0x00] 4 (by decide) (by decide +kernel) (by decide)
    exact ⟨r, hlength, hvalue.trans (by decide), hstretched, hback⟩
  · refine hrefused [0x01] fun n hn hallowed => ?_
    have hone : (n : Int) = 1 := hn.2.symm
    have hroom : 2 ≤ n := hallowed.1
    omega
  · exact hrestored _ hreduced (by decide) [0x02] (by decide)

end Machine

end TxScript
