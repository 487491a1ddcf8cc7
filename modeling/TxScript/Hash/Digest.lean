import TxScript.Bytes.Hex

/-!
# Digests

A digest is a byte string whose length is part of its type.
-/

namespace TxScript

structure Digest (size : Nat) where
  bytes : Bytes
  length_bytes : bytes.length = size
  deriving DecidableEq

namespace Digest

variable {size : Nat}

@[ext] theorem ext {a b : Digest size} (h : a.bytes = b.bytes) : a = b := by
  cases a; cases b; simp_all

def ofBytes? (bs : Bytes) : Option (Digest size) :=
  if h : bs.length = size then some ⟨bs, h⟩ else none

/-- The digest of zero bytes only. -/
def zero : Digest size :=
  ⟨List.replicate size 0, List.length_replicate⟩

def toHex (d : Digest size) : String :=
  Hex.encode d.bytes

theorem ofBytes?_bytes (d : Digest size) : ofBytes? d.bytes = some d := by
  simp [ofBytes?, d.length_bytes]

end Digest

end TxScript
