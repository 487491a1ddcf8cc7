import TxScript.Curve.Point
import TxScript.Hash.Ripemd160

/-!
# Public keys

A public key is a point together with the form in which it is written: 33 bytes with the parity of
the second coordinate, or 65 bytes with both coordinates. Scripts commit to the hash of the written
form, so a key remembers the form that it was read in.
-/

namespace TxScript.Curve

/-- Why bytes or text are no key. -/
inductive KeyError where
  | hex (cause : Hex.Error)
  | privateLength (length : Nat)
  | privateOutOfRange
  | publicLength (length : Nat)
  | notAPoint
  deriving DecidableEq, Repr

def KeyError.message : KeyError → String
  | .hex cause => "invalid hex: " ++ cause.message
  | .privateLength n => "invalid private key: expected 32 bytes, got " ++ toString n
  | .privateOutOfRange => "invalid private key: signature error"
  | .publicLength n => "invalid public key: unexpected public key length " ++ toString n
  | .notAPoint => "invalid public key: signature error"

/-- A point of the curve other than infinity, and the form in which it is written. -/
structure PublicKey where
  x : FieldElement
  y : FieldElement
  onCurve : Point.OnCurve x y
  compressed : Bool
  deriving DecidableEq, Repr

namespace PublicKey

def point (key : PublicKey) : Point :=
  .affine key.x key.y

/-- The key of a point, which has to lie on the curve. Infinity is no key. -/
def ofPoint? (compressed : Bool) : Point → Option PublicKey
  | .infinity => none
  | .affine x y => if h : Point.OnCurve x y then some ⟨x, y, h, compressed⟩ else none

theorem ofPoint?_eq_some {compressed : Bool} {p : Point} {key : PublicKey} :
    ofPoint? compressed p = some key ↔ key.point = p ∧ key.compressed = compressed := by
  rcases key with ⟨x, y, hcurve, own⟩
  cases p with
  | infinity => simp [ofPoint?, point]
  | affine x' y' =>
    by_cases h : Point.OnCurve x' y'
    · simp [ofPoint?, point, h, eq_comm, and_assoc]
    · have hne : ¬ (x = x' ∧ y = y') := by
        rintro ⟨rfl, rfl⟩
        exact h hcurve
      simp [ofPoint?, point, h, hne]

/-- The generator, in the short form. -/
def generator : PublicKey :=
  ⟨Point.generatorX, Point.generatorY, by decide, true⟩

def readCompressed (tag : UInt8) (rest : Bytes) : Option Point := do
  let odd ← if tag = 0x02 ∨ tag = 0x05 then some false else if tag = 0x03 then some true else none
  let x ← FieldElement.ofBytes? rest
  Point.ofX? x odd

def readUncompressed (tag : UInt8) (rest : Bytes) : Option Point :=
  if tag = 0x04 then do
    let x ← FieldElement.ofBytes? (rest.take 32)
    let y ← FieldElement.ofBytes? (rest.drop 32)
    some (.affine x y)
  else none

/-- Reads either form. The tag 05 on 33 bytes, which leaves the parity out, stands for the even
point. -/
def ofBytes (bs : Bytes) : Except KeyError PublicKey :=
  match bs with
  | [] => .error (.publicLength 0)
  | tag :: rest =>
    if rest.length = 32 then
      match (readCompressed tag rest).bind (ofPoint? true) with
      | some key => .ok key
      | none => .error .notAPoint
    else if rest.length = 64 then
      match (readUncompressed tag rest).bind (ofPoint? false) with
      | some key => .ok key
      | none => .error .notAPoint
    else .error (.publicLength (rest.length + 1))

def ofHex (text : String) : Except KeyError PublicKey :=
  match Hex.decode text with
  | .ok bs => ofBytes bs
  | .error e => .error (.hex e)

/-- The short form. -/
def compressedBytes (key : PublicKey) : Bytes :=
  (if key.y.val % 2 = 1 then 0x03 else 0x02) :: key.x.toBytes

def uncompressedBytes (key : PublicKey) : Bytes :=
  0x04 :: (key.x.toBytes ++ key.y.toBytes)

/-- The key in its own form. -/
def toBytes (key : PublicKey) : Bytes :=
  if key.compressed then key.compressedBytes else key.uncompressedBytes

theorem length_toBytes_le (key : PublicKey) : key.toBytes.length ≤ 65 := by
  unfold toBytes
  split <;> simp [compressedBytes, uncompressedBytes, FieldElement.toBytes]

theorem toBytes_ne_nil (key : PublicKey) : key.toBytes ≠ [] := by
  unfold toBytes
  split <;> simp [compressedBytes, uncompressedBytes]

def toHex (key : PublicKey) : String :=
  Hex.encode key.toBytes

/-- The hash of the key in its own form. -/
def hash160 (key : PublicKey) : Digest 20 :=
  Hash.hash160 key.toBytes

/-- The same point, to be written in the long form. -/
def uncompressed (key : PublicKey) : PublicKey :=
  { key with compressed := false }

/-- Two keys agree when their points do, in whatever form they are written. -/
def samePoint (a b : PublicKey) : Bool :=
  decide (a.point = b.point)

end PublicKey

end TxScript.Curve
