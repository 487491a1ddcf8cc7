import TxScript.Bytes.Basic

/-!
# Messages in blocks

The hash functions of this library work on blocks of 64 bytes. A message is closed by one set bit,
filled up with zeros, and ends with its length in bits on eight bytes; the functions differ in the
byte order of that length.
-/

namespace TxScript.Hash

/-- Zero bytes between the closing bit and the length. -/
def fillLength (messageLength : Nat) : Nat :=
  (119 - messageLength % 64) % 64

def pad (encodeLength : Nat → Bytes) (message : Bytes) : Bytes :=
  message ++ 0x80 :: List.replicate (fillLength message.length) 0
    ++ encodeLength (8 * message.length)

/-- Feeds a state with `count` blocks, one after another. -/
def foldBlocks {σ : Type} (step : σ → Bytes → σ) : (count : Nat) → σ → Bytes → σ
  | 0, state, _ => state
  | count + 1, state, message =>
    foldBlocks step count (step state (message.take 64)) (message.drop 64)

/-- The state after all blocks of a padded message. -/
def digestBlocks {σ : Type} (step : σ → Bytes → σ) (start : σ) (padded : Bytes) : σ :=
  foldBlocks step (padded.length / 64) start padded

/-- Splits bytes into 32-bit words with the given reading of four bytes. -/
def words (decode : Bytes → Nat) : Bytes → List UInt32
  | a :: b :: c :: d :: rest => UInt32.ofNat (decode [a, b, c, d]) :: words decode rest
  | _ => []

def rotateLeft (x : UInt32) (n : UInt32) : UInt32 :=
  (x <<< n) ||| (x >>> (32 - n))

def rotateRight (x : UInt32) (n : UInt32) : UInt32 :=
  (x >>> n) ||| (x <<< (32 - n))

end TxScript.Hash
