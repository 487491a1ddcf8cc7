import TxScript.Proofs.Tx.OriginalMessage

/-!
# What the message of the fork determines

The message of the fork is a row of fields of fixed widths around one script, and the script stands
behind its length. Equal messages therefore come from requests that agree field by field. Both
digests close what they hash with the hash type, so no message of one is ever a message of the
other.
-/

namespace TxScript

/-! ## Fields -/

theorem LittleEndian.encode_u32_inj {m n : UInt32} (h : encode 4 m.toNat = encode 4 n.toNat) :
    m = n := by
  have hm : m.toNat < limit 4 := m.toNat_lt
  have hn : n.toNat < limit 4 := n.toNat_lt
  exact UInt32.toNat_inj.1 (encode_inj hm hn h)

theorem LittleEndian.encode_u64_inj {m n : UInt64} (h : encode 8 m.toNat = encode 8 n.toNat) :
    m = n := by
  have hm : m.toNat < limit 8 := m.toNat_lt
  have hn : n.toNat < limit 8 := n.toNat_lt
  exact UInt64.toNat_inj.1 (encode_inj hm hn h)

theorem Outpoint.length_encode (o : Outpoint) : o.encode.length = 36 := by
  simp [encode]

theorem Outpoint.encode_inj {o u : Outpoint} (h : o.encode = u.encode) : o = u := by
  have hread : Outpoint.read (o.encode ++ []) = Outpoint.read (u.encode ++ []) := by rw [h]
  rw [o.read_append, u.read_append] at hread
  injection hread

theorem HashType.length_encode (t : HashType) : t.encode.length = 4 :=
  LittleEndian.length_encode 4 _

theorem CompactSize.size_mono {m n : Nat} (h : m ≤ n) : size m ≤ size n := by
  unfold size
  repeat' split
  all_goals omega

/-- Whatever their lengths, two byte strings differ when they stand behind their lengths too. -/
theorem Wire.encodeVarBytes_inj {as bs : Bytes} (h : encodeVarBytes as = encodeVarBytes bs) :
    as = bs := by
  have htotal : CompactSize.size as.length + as.length =
      CompactSize.size bs.length + bs.length := by
    simpa [encodeVarBytes, CompactSize.length_encode] using congrArg List.length h
  have hlength : as.length = bs.length := by
    rcases Nat.lt_trichotomy as.length bs.length with hlt | heq | hgt
    · have hmono := CompactSize.size_mono (Nat.le_of_lt hlt)
      omega
    · exact heq
    · have hmono := CompactSize.size_mono (Nat.le_of_lt hgt)
      omega
  exact (List.append_inj' h hlength).2

namespace ForkIdDigest

/-! ## The message of the fork -/

/-- A request is accepted when its coverage is a defined one and there is an input to sign. -/
theorem preimage_eq_ok {tx : Transaction} {utxo : Output} {index : Nat} {t : HashType}
    {bytes : Bytes} :
    preimage tx utxo index t = .ok bytes ↔
      ∃ r : SigningRequest, (r.tx, r.utxo, r.index, r.hashType) = (tx, utxo, index, t) ∧
        bytes = requestMessage r := by
  unfold preimage HashType.validate
  constructor
  · intro h
    cases hc : t.coverage? with
    | none => simp [hc, bind, Except.bind] at h
    | some coverage =>
        cases hi : tx.inputs[index]? with
        | none => simp [hc, hi, bind, Except.bind] at h
        | some input =>
            obtain ⟨hlt, rfl⟩ := List.getElem?_eq_some_iff.1 hi
            simp only [hc, hi, bind, Except.bind, pure, Except.pure, Except.ok.injEq] at h
            exact ⟨⟨⟨tx, utxo, index, hlt⟩, t, coverage, hc⟩, rfl, h.symm⟩
  · rintro ⟨r, hr, rfl⟩
    cases hr
    rw [r.covers, r.getElem?_inputs]
    rfl

/-- Agreement on every field of the message. -/
structure SameFields (a b : SigningRequest) : Prop where
  hashType : a.hashType = b.hashType
  version : a.tx.version = b.tx.version
  lockTime : a.tx.lockTime = b.tx.lockTime
  outpoint : a.input.outpoint = b.input.outpoint
  sequence : a.input.sequence = b.input.sequence
  value : a.utxo.value = b.utxo.value
  script : a.utxo.script = b.utxo.script
  prevouts : coveredPrevouts a.tx a.hashType = coveredPrevouts b.tx b.hashType
  sequences : coveredSequence a.tx a.hashType a.coverage =
    coveredSequence b.tx b.hashType b.coverage
  outputs : coveredOutputs a.tx a.index a.coverage = coveredOutputs b.tx b.index b.coverage

theorem sameFields_of_message_eq {a b : SigningRequest} (h : requestMessage a = requestMessage b) :
    SameFields a b := by
  have hdigest (d d' : Digest 32) : d.bytes.length = d'.bytes.length := by
    rw [d.length_bytes, d'.length_bytes]
  have hnumber (width m n : Nat) : (LittleEndian.encode width m).length =
      (LittleEndian.encode width n).length := by
    rw [LittleEndian.length_encode, LittleEndian.length_encode]
  have hspent : a.input.outpoint.encode.length = b.input.outpoint.encode.length := by
    rw [Outpoint.length_encode, Outpoint.length_encode]
  unfold requestMessage message at h
  -- The fields behind the script have fixed widths, and so do those before it.
  obtain ⟨h, htype⟩ := List.append_inj' h (hnumber 4 _ _)
  obtain ⟨h, hlock⟩ := List.append_inj' h (hnumber 4 _ _)
  obtain ⟨h, houtputs⟩ := List.append_inj' h (hdigest _ _)
  obtain ⟨h, hsequence⟩ := List.append_inj' h (hnumber 4 _ _)
  obtain ⟨h, hvalue⟩ := List.append_inj' h (hnumber 8 _ _)
  obtain ⟨h, hscript⟩ := List.append_inj h (by simp [Outpoint.length_encode, Digest.length_bytes])
  obtain ⟨h, houtpoint⟩ := List.append_inj' h hspent
  obtain ⟨h, hsequences⟩ := List.append_inj' h (hdigest _ _)
  obtain ⟨hversion, hprevouts⟩ := List.append_inj' h (hdigest _ _)
  exact
    { hashType := HashType.encode_inj htype
      version := LittleEndian.encode_u32_inj hversion
      lockTime := LittleEndian.encode_u32_inj hlock
      outpoint := Outpoint.encode_inj houtpoint
      sequence := LittleEndian.encode_u32_inj hsequence
      value := LittleEndian.encode_u64_inj hvalue
      script := Wire.encodeVarBytes_inj hscript
      prevouts := Digest.ext hprevouts
      sequences := Digest.ext hsequences
      outputs := Digest.ext houtputs }

end ForkIdDigest

/-! ## Both digests -/

namespace Transaction

variable {tx tx' : Transaction} {utxo utxo' : Output} {index index' : Nat} {t t' : HashType}
  {bytes : Bytes}

/-- The digest is the hash of the signed bytes, or one. -/
theorem signatureDigest_eq_signedBytes (tx : Transaction) (utxo : Output) (index : Nat)
    (t : HashType) :
    tx.signatureDigest utxo index t =
      (tx.signedBytes? utxo index t).map fun bytes? =>
        bytes?.elim OriginalDigest.one Hash.sha256d := by
  unfold signatureDigest signedBytes?
  by_cases hfork : t.hasForkId = true
  · rw [if_pos hfork, if_pos hfork]
    unfold ForkIdDigest.digest
    cases ForkIdDigest.preimage tx utxo index t <;> rfl
  · rw [if_neg hfork, if_neg hfork]
    unfold OriginalDigest.digest
    cases t.validate with
    | error e => rfl
    | ok coverage =>
        by_cases htarget : OriginalDigest.hasTarget tx index coverage = true
        · simp [htarget, bind, Except.bind, pure, Except.pure, Except.map]
        · simp [htarget, bind, Except.bind, pure, Except.pure, Except.map]

theorem signedBytes_of_fork {r : SigningRequest} (h : r.hashType.hasForkId = true) :
    r.tx.signedBytes? r.utxo r.index r.hashType =
      .ok (some (ForkIdDigest.requestMessage r)) := by
  unfold signedBytes?
  rw [if_pos h, ForkIdDigest.preimage_eq_ok.2 ⟨r, rfl, rfl⟩]
  rfl

theorem signedBytes_of_original {r : OriginalDigest.Request}
    (h : r.hashType.hasForkId = false) :
    r.tx.signedBytes? r.utxo r.index r.hashType = .ok (some r.message) := by
  unfold signedBytes? HashType.validate
  rw [h, r.covers]
  show (if OriginalDigest.hasTarget r.tx r.index r.coverage then _ else _) = _
  rw [if_pos r.hasTarget]
  rfl

/-- Whatever is hashed ends in the hash type. -/
theorem exists_append_of_signedBytes (h : tx.signedBytes? utxo index t = .ok (some bytes)) :
    ∃ front, bytes = front ++ t.encode := by
  unfold signedBytes? at h
  by_cases hfork : t.hasForkId = true
  · rw [if_pos hfork] at h
    cases hp : ForkIdDigest.preimage tx utxo index t with
    | error e => simp [hp, bind, Except.bind] at h
    | ok message =>
        obtain ⟨r, hr, rfl⟩ := ForkIdDigest.preimage_eq_ok.1 hp
        cases hr
        simp only [hp, bind, Except.bind, pure, Except.pure, Except.ok.injEq,
          Option.some.injEq] at h
        exact ⟨_, h.symm⟩
  · rw [if_neg hfork] at h
    cases hv : t.validate with
    | error e => simp [hv, bind, Except.bind] at h
    | ok coverage =>
        by_cases htarget : OriginalDigest.hasTarget tx index coverage = true
        · simp only [hv, htarget, if_true, bind, Except.bind, pure, Except.pure, Except.ok.injEq,
            Option.some.injEq] at h
          exact ⟨_, h.symm⟩
        · simp [hv, htarget, bind, Except.bind, pure, Except.pure] at h

theorem hashType_eq_of_signedBytes (h : tx.signedBytes? utxo index t = .ok (some bytes))
    (h' : tx'.signedBytes? utxo' index' t' = .ok (some bytes)) : t = t' := by
  obtain ⟨front, hfront⟩ := exists_append_of_signedBytes h
  obtain ⟨front', hfront'⟩ := exists_append_of_signedBytes h'
  rw [hfront] at hfront'
  have hlength : t.encode.length = t'.encode.length := by
    rw [HashType.length_encode, HashType.length_encode]
  exact HashType.encode_inj (List.append_inj' hfront' hlength).2

/-- The fork accepts exactly the signing requests, and equal messages come from requests that agree
on every field of the message. What is hashed for a signature, of which the digest is the hash,
tells which of the two digests it belongs to: no message of the fork is one of the original
digest. -/
theorem fields_and_algorithm_of_signedBytes :
    (∀ {tx : Transaction} {utxo : Output} {index : Nat} {t : HashType} {bytes : Bytes},
      ForkIdDigest.preimage tx utxo index t = .ok bytes ↔
        ∃ r : SigningRequest, (r.tx, r.utxo, r.index, r.hashType) = (tx, utxo, index, t) ∧
          bytes = ForkIdDigest.requestMessage r) ∧
    (∀ {a b : SigningRequest}, ForkIdDigest.requestMessage a = ForkIdDigest.requestMessage b →
      ForkIdDigest.SameFields a b) ∧
    (∀ (tx : Transaction) (utxo : Output) (index : Nat) (t : HashType),
      tx.signatureDigest utxo index t =
        (tx.signedBytes? utxo index t).map fun bytes? =>
          bytes?.elim OriginalDigest.one Hash.sha256d) ∧
    (∀ {tx tx' : Transaction} {utxo utxo' : Output} {index index' : Nat} {t t' : HashType}
      {bytes : Bytes}, tx.signedBytes? utxo index t = .ok (some bytes) →
      tx'.signedBytes? utxo' index' t' = .ok (some bytes) → t.hasForkId = t'.hasForkId) := by
  refine ⟨ForkIdDigest.preimage_eq_ok, ForkIdDigest.sameFields_of_message_eq,
    signatureDigest_eq_signedBytes, fun h h' => ?_⟩
  rw [hashType_eq_of_signedBytes h h']

/-- The two requests of the fork have one message. That of the original digest is another one. -/
theorem fields_and_algorithm_of_pairs :
    let fork := ForkIdDigest.firstPair
    let other := ForkIdDigest.lastPair
    let original := OriginalDigest.Request.loneInput
    (ForkIdDigest.requestMessage fork = ForkIdDigest.requestMessage other ∧
      ForkIdDigest.SameFields fork other) ∧
    fork.tx.signedBytes? fork.utxo fork.index fork.hashType =
      .ok (some (ForkIdDigest.requestMessage fork)) ∧
    original.tx.signedBytes? original.utxo original.index original.hashType =
      .ok (some original.message) ∧
    ForkIdDigest.requestMessage fork ≠ original.message := by
  intro fork other original
  have hmessage := ForkIdDigest.message_eq_of_agree ForkIdDigest.firstPair_agree_lastPair
  have hfork := signedBytes_of_fork (r := fork) (by decide)
  have horiginal := signedBytes_of_original (r := original) (by decide)
  obtain ⟨-, hfields, -, halgorithm⟩ := fields_and_algorithm_of_signedBytes
  refine ⟨⟨hmessage, hfields hmessage⟩, hfork, horiginal, fun hsame => ?_⟩
  rw [← hsame] at horiginal
  exact absurd (halgorithm hfork horiginal) (by decide)

end Transaction

end TxScript
