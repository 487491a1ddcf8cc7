import TxScript.Proofs.Machine.Matching
import TxScript.Proofs.Machine.MultisigOperands
import TxScript.Proofs.Machine.Verdict
import TxScript.Proofs.Script.MultisigForm

/-!
# Multisig

The locking script pushes two counts and the keys between them, and one opcode takes all of it off
again together with the signatures and one element more. It goes through wherever the stack is high
enough, and it ends true exactly when the signatures belong to keys in the order of the keys.
-/

namespace TxScript.Machine

variable {env : Env} {time : UInt32} {checker : Option Checker} {c : Checker} {s t : State}
  {main : Stack} {op : Opcode} {required n : Nat} {keys : List Curve.PublicKey}

/-! ## Counts -/

theorem ofSmallInteger?_eq_some (h : Opcode.ofSmallInteger? n = some op) :
    n ≤ 16 ∧ op.isCounted = false ∧ op.isDisabled true = false ∧
      op.operation = .stack (.constant n) := by
  have hsmall : n ≤ 16 := by
    unfold Opcode.ofSmallInteger? at h
    split at h
    · omega
    · split at h
      · assumption
      · cases h
  have table : ∀ k : Fin 17, ∀ o ∈ Opcode.ofSmallInteger? k, o.isCounted = false ∧
      o.isDisabled true = false ∧ o.operation = .stack (.constant (k : Nat)) := by decide
  exact ⟨hsmall, table ⟨n, by omega⟩ op h⟩

theorem step_smallInteger (h : Opcode.ofSmallInteger? n = some op) (hb : s.branches = []) :
    step (.withDefaults time checker) s (.op op) =
      .ok { s with main := Number.encode n :: s.main } := by
  rcases ofSmallInteger?_eq_some h with ⟨-, hfree, hon, hop⟩
  exact step_constant (executing_of_branches_nil hb) hop hfree hon

theorem spells_encode_small (h : n ≤ 16) : Number.Spells (Number.encode n) n := by
  have table : ∀ k : Fin 17, Number.Spells (Number.encode (k : Nat)) (k : Nat) := by
    decide +kernel
  exact table ⟨n, by omega⟩

/-! ## The opcode -/

/-- The stack that the opcode finds: the count of the keys on top, the keys with the last one first,
the count of the signatures, and what the unlocking script left. -/
def operands (required : Nat) (data : List Bytes) (main : Stack) : Stack :=
  Number.encode data.length :: (data.reverse ++ Number.encode required :: main)

/-- The counts that the locking script pushes leave one way to take the stack apart. -/
theorem operands_eq_stack {data : List Bytes} {o : MultisigOperands} (hn : data.length ≤ 16)
    (hr : required ≤ data.length)
    (hkeys : Number.Spells o.keyCount o.keys.length)
    (hsignatures : Number.Spells o.signatureCount o.signatures.length)
    (h : operands required data main = o.stack) :
    o.keys = data ∧ o.signatures.length = required ∧
      main = o.signatures.reverse ++ o.dummy :: o.rest := by
  obtain ⟨hkeyCount, hbelow⟩ := List.cons.inj h
  have hcount : o.keys.length = data.length := by
    have hspells := spells_encode_small hn
    rw [hkeyCount] at hspells
    exact_mod_cast hkeys.unique hspells
  obtain ⟨hrow, hlow⟩ := List.append_inj hbelow (by simp [hcount])
  obtain ⟨hrequired, rfl⟩ := List.cons.inj hlow
  have hcount : o.signatures.length = required := by
    have hspells := spells_encode_small (Nat.le_trans hr hn)
    rw [hrequired] at hspells
    exact_mod_cast hsignatures.unique hspells
  exact ⟨(List.reverse_injective hrow).symm, hcount, rfl⟩

/-- With the keys and the counts in place the opcode succeeds wherever there are enough elements
below them and a transaction to ask, and puts down whether the signatures match. -/
theorem checkMultisig_operands_eq_ok {data : List Bytes} (hn : data.length ≤ 16)
    (hr : required ≤ data.length) (hroom : s.opCount + data.length ≤ 201)
    (hmain : s.main = operands required data main) :
    checkMultisig (.withDefaults time checker) false s = .ok t ↔
      ∃ signatures dummy rest c, main = signatures ++ dummy :: rest ∧
        signatures.length = required ∧ checker = some c ∧
        t = { s with
          main := Number.ofBool (matchSignatures c.holds signatures.reverse data) :: rest
          opCount := s.opCount + data.length } := by
  rw [checkMultisig_eq_ok]
  constructor
  · intro h
    obtain ⟨o, c, ho, hc, rfl⟩ := h
    obtain ⟨rfl, hcount, rfl⟩ := operands_eq_stack hn hr ho.keyCount ho.signatureCount
      (hmain.symm.trans ho.main_eq)
    exact ⟨o.signatures.reverse, o.dummy, o.rest, c, rfl, by rw [List.length_reverse, hcount], hc,
      by rw [List.reverse_reverse]; rfl⟩
  · intro h
    obtain ⟨signatures, dummy, rest, c, rfl, rfl, hc, rfl⟩ := h
    let o : MultisigOperands := ⟨Number.encode data.length, data, Number.encode signatures.length,
      signatures.reverse, dummy, rest⟩
    have hstack : s.main = o.stack := by
      simp [hmain, operands, o, MultisigOperands.stack]
    exact ⟨o, c, ⟨hstack, spells_encode_small hn,
      by simpa [o] using spells_encode_small (Nat.le_trans hr hn), by simpa [o] using hr,
      Nat.le_trans hn (by decide : 16 ≤ 20), hroom⟩, hc, rfl⟩

/-! ## The script -/

/-- The chunks of a multisig script with the given opcodes for its counts. -/
def multisigChunks (m n : Opcode) (data : List Bytes) : List Chunk :=
  .op m :: data.map Chunk.pushMinimal ++ [.op n, .op .checkMultisig]

theorem execute_multisig_eq_ok {m n : Opcode} {data : List Bytes}
    (hm : Opcode.ofSmallInteger? required = some m)
    (hn : Opcode.ofSmallInteger? data.length = some n) (hr : required ≤ data.length)
    (hshort : ∀ d ∈ data, d.length ≤ 520) :
    execute (.withDefaults time checker) (multisigChunks m n data) { main := main } = .ok t ↔
      ∃ signatures dummy rest c, main = signatures ++ dummy :: rest ∧
        signatures.length = required ∧ checker = some c ∧
        t = {
          main := Number.ofBool (matchSignatures c.holds signatures.reverse data) :: rest
          opCount := 1 + data.length } := by
  have hsmall := (ofSmallInteger?_eq_some hn).1
  let pushed : State := { main := operands required data main }
  have hadmits : Admits (.withDefaults time checker) pushed .checkMultisig :=
    admits_withDefaults (by decide) rfl (by simp [pushed])
  have hpushes : execute (.withDefaults time checker)
      (.op m :: data.map Chunk.pushMinimal ++ [.op n]) { main := main } = .ok pushed := by
    rw [execute_append, execute_cons, step_smallInteger hm rfl]
    show (execute _ (data.map Chunk.pushMinimal) _ >>= _) = _
    rw [execute_pushes rfl hshort]
    show execute _ [.op n] _ = _
    rw [execute_singleton, step_smallInteger hn rfl]
    rfl
  have hsplit : multisigChunks m n data =
      (.op m :: data.map Chunk.pushMinimal ++ [.op n]) ++ [.op .checkMultisig] := by
    simp [multisigChunks]
  rw [hsplit, execute_append, hpushes]
  show execute _ [.op .checkMultisig] pushed = _ ↔ _
  rw [execute_singleton, step_checkMultisig hadmits]
  have hroom : pushed.counted.opCount + data.length ≤ 201 := by
    simp only [State.counted, pushed]
    omega
  exact checkMultisig_operands_eq_ok hsmall hr hroom rfl

/-! ## Sizes -/

theorem size_multisig {lock : Script} {m n : Opcode} {data : List Bytes}
    (hlock : lock.chunks = multisigChunks m n data) (h : ∀ d ∈ data, d.length ≤ 75) :
    lock.size ≤ 76 * data.length + 3 := by
  have hpushes := length_encodeChunks_pushes h
  simp only [Script.size, Script.bytes, hlock, multisigChunks, encodeChunks_cons,
    encodeChunks_append, List.cons_append, List.length_append, encodeChunks_nil, Chunk.encode,
    List.length_cons, List.length_nil]
  omega

/-! ## The verdict -/

/-- Both counts are small, so the script of one to sixteen keys exists. -/
theorem multisig_eq_ok (hpos : 1 ≤ required) (hr : required ≤ keys.length)
    (hk : keys.length ≤ 16) :
    ∃ lock m n, Script.multisig required keys = .ok lock ∧
      Opcode.ofSmallInteger? required = some m ∧
      Opcode.ofSmallInteger? (keys.map Curve.PublicKey.toBytes).length = some n ∧
      lock.chunks = multisigChunks m n (keys.map Curve.PublicKey.toBytes) := by
  obtain ⟨lock, hlock⟩ := Script.exists_multisig_eq_ok.2 ⟨hpos, hr, hk⟩
  obtain ⟨m, n, hm, hn, hchunks⟩ := (Script.multisig_eq_ok.1 hlock).chunks
  refine ⟨lock, m, n, hlock, hm, by rwa [List.length_map], ?_⟩
  rw [hchunks, multisigChunks, List.map_map]
  rfl

theorem scriptHash?_eq_none {chunks : List Chunk} (h : chunks.length ≠ 3) :
    scriptHash? chunks = none := by
  unfold scriptHash?
  split
  · simp at h
  · rfl

theorem isPayToScriptHash_multisig {lock : Script} {m n : Opcode} {data : List Bytes}
    (hlock : lock.chunks = multisigChunks m n data) (h : 1 ≤ data.length) :
    lock.isPayToScriptHash = false := by
  have hlength : lock.chunks.length ≠ 3 := by
    simp only [hlock, multisigChunks, List.length_append, List.length_cons, List.length_map,
      List.length_nil]
    omega
  rw [Script.isPayToScriptHash, scriptHash?_eq_none hlength]
  rfl

theorem runToTrue_multisig_iff {lock : Script} {m n : Opcode} {data : List Bytes}
    (hlock : lock.chunks = multisigChunks m n data) (hb : s.branches = [])
    (hm : Opcode.ofSmallInteger? required = some m)
    (hn : Opcode.ofSmallInteger? data.length = some n) (hr : required ≤ data.length)
    (hshort : ∀ d ∈ data, d.length ≤ 75) :
    (∃ t, runToTrue (.withDefaults time checker) lock s = .ok t) ↔
      ∃ signatures dummy rest c, s.main = signatures ++ dummy :: rest ∧
        signatures.length = required ∧ checker = some c ∧
        matchSignatures c.holds signatures.reverse data = true := by
  have hpushable : ∀ d ∈ data, d.length ≤ 520 := fun d hd =>
    Nat.le_trans (hshort d hd) (by decide)
  have hexec := fun u => @execute_multisig_eq_ok time checker u s.main required m n data hm hn hr
    hpushable
  have hsize : lock.size ≤ 10000 := by
    have hsmall := (ofSmallInteger?_eq_some hn).1
    have hbytes := size_multisig hlock hshort
    omega
  rw [exists_runToTrue_iff hb hsize, hlock]
  constructor
  · intro h
    rcases h with ⟨t, hdone, -, hends⟩
    rcases (hexec t).1 hdone with ⟨signatures, dummy, rest, c, hmain, hlength, hc, rfl⟩
    exact ⟨signatures, dummy, rest, c, hmain, hlength, hc, (State.endsTrue_of_ofBool rfl).1 hends⟩
  · intro h
    rcases h with ⟨signatures, dummy, rest, c, hmain, hlength, hc, hmatch⟩
    have hdone := (hexec _).2 ⟨signatures, dummy, rest, c, hmain, hlength, hc, rfl⟩
    exact ⟨_, hdone, rfl, (State.endsTrue_of_ofBool rfl).2 hmatch⟩

/-- A list of known length is a row of so many elements. -/
theorem exists_eq_ofFn {α : Type} {count : Nat} {xs : List α} (h : xs.length = count) :
    ∃ f : Fin count → α, xs = List.ofFn f := by
  subst h
  exact ⟨xs.get, (List.ofFn_get xs).symm⟩

/-- A multisig output is spent by exactly those unlocking scripts that leave one signature for each
that is required, over one element more, such that the signatures belong to keys in the order of
the keys. A signature that cannot be checked against a key is none of it. -/
theorem accepts_multisig_iff_matched (required : Nat) (keys : List Curve.PublicKey) (c : Checker)
    (unlock : Script) (time : UInt32) (hpos : 1 ≤ required) (hr : required ≤ keys.length)
    (hk : keys.length ≤ 16) :
    ∃ lock, Script.multisig required keys = .ok lock ∧
      (Accepts (.withDefaults time (some c)) lock unlock ↔
        ∃ u dummy rest, ∃ signatures : Fin required → Bytes,
          run (.withDefaults time (some c)) unlock {} = .ok u ∧
          u.main = (List.ofFn signatures).reverse ++ dummy :: rest ∧
          ∃ place : Fin required → Fin keys.length, StrictMono place ∧
            ∀ j, c.check (signatures j) (keys.get (place j)).toBytes = .ok true) := by
  rcases multisig_eq_ok hpos hr hk with ⟨lock, m, n, hlock, hm, hn, hchunks⟩
  refine ⟨lock, hlock, ?_⟩
  have hshort : ∀ d ∈ keys.map Curve.PublicKey.toBytes, d.length ≤ 75 := by
    intro d hd
    rcases List.mem_map.1 hd with ⟨key, -, rfl⟩
    exact Nat.le_trans key.length_toBytes_le (by decide)
  have hlocked := fun u (hb : State.branches u = []) =>
    @runToTrue_multisig_iff time (some c) u required lock m n _ hchunks hb hm hn
      (by simpa using hr) hshort
  rw [accepts_iff_of_no_redeem
    (by rw [isPayToScriptHash_multisig hchunks (by rw [List.length_map]; omega),
      Bool.and_false]) hlocked]
  constructor
  · intro h
    rcases h with ⟨u, hu, taken, dummy, rest, _, hmain, hlength, ⟨⟩, hmatch⟩
    have hcount : taken.reverse.length = required := by simpa using hlength
    rcases exists_eq_ofFn hcount with ⟨signatures, hsignatures⟩
    rw [hsignatures] at hmatch
    rcases matchSignatures_map_iff_strictMono.1 hmatch with ⟨place, hmono, hvalid⟩
    refine ⟨u, dummy, rest, signatures, hu, ?_, place, hmono, fun j =>
      Checker.holds_eq_true_iff.1 (hvalid j)⟩
    rw [hmain, ← hsignatures, List.reverse_reverse]
  · intro h
    rcases h with ⟨u, dummy, rest, signatures, hu, hmain, place, hmono, hvalid⟩
    have hmatch : matchSignatures c.holds (List.ofFn signatures).reverse.reverse
        (keys.map Curve.PublicKey.toBytes) = true := by
      rw [List.reverse_reverse]
      exact matchSignatures_map_iff_strictMono.2 ⟨place, hmono, fun j =>
        Checker.holds_eq_true_iff.2 (hvalid j)⟩
    exact ⟨u, hu, _, dummy, rest, c, hmain, by simp, rfl, hmatch⟩

/-- Two of three keys, the middle one, which is that of the secret two, left out. The signatures are
those that spell the length of the key. -/
theorem accepts_multisig_two_of_three :
    let two : Curve.PublicKey :=
      { x := ⟨0xc6047f9441ed7d6d3045406e95c07cd85c778e4b8cef3ca7abac09b95c709ee5, by decide⟩
        y := ⟨0x1ae168fea63dc339a3c58419466ceaeef7f632653266d0e1236431a950cfe52a, by decide⟩
        onCurve := by decide +kernel
        compressed := true }
    let keys : List Curve.PublicKey := [.generator, two, Curve.PublicKey.generator.uncompressed]
    let c : Checker :=
      { check := fun signature key => .ok (decide (signature = [UInt8.ofNat key.length]))
        lockTime := 0
        version := 2
        sequence := 0 }
    let unlock : Script := { chunks := [.pushMinimal [], .pushMinimal [33], .pushMinimal [65]] }
    ∃ lock, Script.multisig 2 keys = .ok lock ∧ Accepts (.withDefaults 0 (some c)) lock unlock := by
  intro two keys c unlock
  obtain ⟨lock, hlock, haccepts⟩ := accepts_multisig_iff_matched 2 keys c unlock 0 (by decide)
    (by decide) (by decide)
  have hunlock : run (.withDefaults 0 (some c)) unlock {} =
      .ok { main := [[65], [33], []] } := by rfl
  refine ⟨lock, hlock, haccepts.2 ⟨_, [], [], ![[33], [65]], hunlock, rfl, ![0, 2], ?_, ?_⟩⟩
  · decide
  · exact Fin.forall_fin_two.2 ⟨rfl, rfl⟩

end TxScript.Machine
