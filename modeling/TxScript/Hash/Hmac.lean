import TxScript.Hash.Sha256

/-!
# Keyed hashing

HMAC over SHA-256.
-/

namespace TxScript.Hash

/-- The key on a whole block: hashed first when it is longer than one. -/
def hmacBlock (key : Bytes) : Bytes :=
  let short := if key.length ≤ 64 then key else (sha256 key).bytes
  short ++ List.replicate (64 - short.length) 0

def hmacSha256 (key message : Bytes) : Bytes :=
  let block := hmacBlock key
  let inner := sha256 (block.map (· ^^^ 0x36) ++ message)
  (sha256 (block.map (· ^^^ 0x5c) ++ inner.bytes)).bytes

end TxScript.Hash
