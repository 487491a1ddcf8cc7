import TxScript.Bytes.Basic

/-!
# Numbers on the stack

Stack elements spell numbers in sign and magnitude: little-endian bytes, with the sign in the top
bit of the last one. Zero is the empty string. Any spelling is read, and the shortest one written.
-/

namespace TxScript.Number

/-- Widest operand of arithmetic, in bytes. -/
def operandWidth : Nat := 4

/-- Widest operand of the lock-time checks, in bytes. -/
def lockTimeWidth : Nat := 5

/-- Widest number that is read at all, in bytes. -/
def registerWidth : Nat := 8

def isNegative (bs : Bytes) : Bool :=
  decide (0x80 ≤ bs.getLastD 0)

/-- The bytes without their sign bit, as one number. -/
def magnitude : Bytes → Nat
  | [] => 0
  | [top] => (top &&& 0x7f).toNat
  | b :: rest => b.toNat + 256 * magnitude rest

/-- The number that the bytes spell, when they are no more than `width` and fit a register. A
magnitude that fits no signed register would be held at the greatest one. -/
def decode? (width : Nat) (bs : Bytes) : Option Int :=
  if width < bs.length ∨ registerWidth < bs.length then none
  else
    let held : Int := min (magnitude bs) 0x7fffffffffffffff
    some (if isNegative bs then -held else held)

/-- Base-256 digits, least significant first, with none for zero. -/
def digits (n : Nat) : Bytes :=
  if n = 0 then [] else UInt8.ofNat n :: digits (n / 256)
  termination_by n

/-- Puts the sign into the last of some digits, or behind it where its top bit is taken. -/
def withSign (negative : Bool) : Bytes → Bytes
  | [] => []
  | [top] =>
    if 0x80 ≤ top then [top, if negative then 0x80 else 0x00]
    else [if negative then top ||| 0x80 else top]
  | b :: rest => b :: withSign negative rest

/-- The shortest spelling. -/
def encode (n : Int) : Bytes :=
  withSign (decide (n < 0)) (digits n.natAbs)

def clamp32 (n : Int) : Int :=
  max (-0x80000000) (min n 0x7fffffff)

/-- An operand of arithmetic: at most four bytes, held in 32 bits. -/
def operand? (bs : Bytes) : Option Int :=
  (decode? operandWidth bs).map clamp32

/-- The shortest spelling of the number that the bytes spell, whatever their length. -/
def minimize (bs : Bytes) : Bytes :=
  match bs.reverse with
  | [] => []
  | last :: rest =>
    if last &&& 0x7f ≠ 0 then bs
    else
      match rest.dropWhile (· = 0) with
      | [] => []
      | top :: low =>
        if 0x80 ≤ top then (last :: top :: low).reverse else ((top ||| last) :: low).reverse

/-- The spelling of the same number on `size` bytes, for a shortest spelling that is no longer. -/
def stretch (size : Nat) (bs : Bytes) : Bytes :=
  match bs.reverse with
  | [] => List.replicate size 0
  | last :: low =>
    if bs.length < size then
      low.reverse ++ (last &&& 0x7f) :: List.replicate (size - bs.length - 1) 0
        ++ [last &&& 0x80]
    else bs

/-- The truth of a stack element: some bit of it is set, apart from the sign. -/
def isTrue (bs : Bytes) : Bool :=
  match bs.reverse with
  | [] => false
  | last :: rest => last &&& 0x7f != 0 || rest.any (· != 0)

def ofBool (b : Bool) : Bytes :=
  if b then [0x01] else []

@[simp] theorem isTrue_ofBool (b : Bool) : isTrue (ofBool b) = b := by
  cases b <;> decide

@[simp] theorem encode_zero : encode 0 = [] := by
  simp [encode, digits, withSign]

end TxScript.Number
