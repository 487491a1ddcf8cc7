import TxScript.Wire.CompactSize

/-!
# Items on the wire

Every wire format is a sequence of items of a few kinds. An item knows its bytes, and a kind knows
how to read an item of that kind back.
-/

namespace TxScript.Wire

inductive Item where
  | u8 (value : UInt8)
  | u16 (value : UInt16)
  | u32 (value : UInt32)
  | u64 (value : UInt64)
  | compactSize (value : UInt64)
  | bytes (data : Bytes)
  | varBytes (data : Bytes)
  deriving DecidableEq, Repr

def Item.encode : Item → Bytes
  | .u8 v => LittleEndian.encode 1 v.toNat
  | .u16 v => LittleEndian.encode 2 v.toNat
  | .u32 v => LittleEndian.encode 4 v.toNat
  | .u64 v => LittleEndian.encode 8 v.toNat
  | .compactSize v => CompactSize.encode v.toNat
  | .bytes data => data
  | .varBytes data => encodeVarBytes data

def encodeAll (items : List Item) : Bytes :=
  items.flatMap Item.encode

/-- What is held after one more item is written: nothing that is there already changes. A byte
string behind its length is written as the two of them. -/
def Item.write (held : Bytes) : Item → Bytes
  | .varBytes data => held ++ CompactSize.encode data.length ++ data
  | item => held ++ item.encode

/-- What a new writer holds after all of the items. -/
def written (items : List Item) : Bytes :=
  items.foldl Item.write []

/-- What a reader has to know in advance: the sort of item and, for plain bytes, how many. -/
inductive Kind where
  | u8
  | u16
  | u32
  | u64
  | compactSize
  | bytes (count : Nat)
  | varBytes
  deriving DecidableEq, Repr

def Item.kind : Item → Kind
  | .u8 _ => .u8
  | .u16 _ => .u16
  | .u32 _ => .u32
  | .u64 _ => .u64
  | .compactSize _ => .compactSize
  | .bytes data => .bytes data.length
  | .varBytes _ => .varBytes

def Kind.read : Kind → Reader ReadError Item
  | .u8 => return .u8 (← Wire.u8)
  | .u16 => return .u16 (← Wire.u16)
  | .u32 => return .u32 (← Wire.u32)
  | .u64 => return .u64 (← Wire.u64)
  | .compactSize => return .compactSize (UInt64.ofNat (← CompactSize.read))
  | .bytes count => return .bytes (← take count)
  | .varBytes => return .varBytes (← Wire.varBytes)

/-- Items of the given kinds, one after another. -/
def readAll : List Kind → Reader ReadError (List Item)
  | [] => return []
  | kind :: kinds => do
    let item ← kind.read
    let items ← readAll kinds
    return item :: items

/-- Reads one after another, whatever becomes of each. For each there is the result, and how many
bytes are left behind it. -/
def readEach : List Kind → Reader ReadError (List (Except ReadError Item × Nat))
  | [] => return []
  | kind :: kinds => do
    let result ← kind.read.attempt
    let left ← Reader.remaining
    let steps ← readEach kinds
    return (result, left) :: steps

end TxScript.Wire
