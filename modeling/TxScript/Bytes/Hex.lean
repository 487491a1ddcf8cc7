import TxScript.Bytes.Basic

/-!
# Hexadecimal text

Bytes are written with two lower-case digits each. Reading takes digits of either case; it refuses
text with an odd number of bytes before it looks at the digits, and otherwise names the first byte
that is no digit. `decode_encode` says that written bytes read back.
-/

namespace TxScript.Hex

def digit (n : Nat) : Char :=
  if n < 10 then Char.ofNat (48 + n) else Char.ofNat (87 + n)

def encodeChars : Bytes → List Char
  | [] => []
  | b :: rest => digit (b.toNat / 16) :: digit (b.toNat % 16) :: encodeChars rest

def encode (bs : Bytes) : String :=
  String.ofList (encodeChars bs)

def digitValue? (c : Char) : Option Nat :=
  let n := c.toNat
  if 48 ≤ n ∧ n ≤ 57 then some (n - 48)
  else if 97 ≤ n ∧ n ≤ 102 then some (n - 87)
  else if 65 ≤ n ∧ n ≤ 70 then some (n - 55)
  else none

/-- Why a text is no hexadecimal form. -/
inductive Error where
  | oddLength
  /-- The byte at `position`, shown as the code point of the same number. -/
  | invalidDigit (byte : Char) (position : Nat)
  deriving DecidableEq, Repr

/-- The first byte of the UTF-8 form of a character. -/
def leadByte (c : Char) : Nat :=
  let n := c.toNat
  if n < 0x80 then n
  else if n < 0x800 then 0xc0 + n / 0x40
  else if n < 0x10000 then 0xe0 + n / 0x1000
  else 0xf0 + n / 0x40000

def readDigit (position : Nat) (c : Char) : Except Error Nat :=
  match digitValue? c with
  | some v => .ok v
  | none => .error (.invalidDigit (Char.ofNat (leadByte c)) position)

/-- Reads pairs of digits. Every character before the one that fails is a digit, hence one byte
long, so counting characters counts bytes. -/
def decodeChars : (position : Nat) → List Char → Except Error Bytes
  | _, [] => .ok []
  | position, [c] => do
    let _ ← readDigit position c
    .error .oddLength
  | position, c :: d :: rest => do
    let high ← readDigit position c
    let low ← readDigit (position + 1) d
    let bs ← decodeChars (position + 2) rest
    .ok (UInt8.ofNat (16 * high + low) :: bs)

/-- Number of bytes of the UTF-8 form. -/
def utf8Length : List Char → Nat
  | [] => 0
  | c :: rest => c.utf8Size + utf8Length rest

def decode (text : String) : Except Error Bytes :=
  let cs := text.toList
  if utf8Length cs % 2 = 1 then .error .oddLength else decodeChars 0 cs

/-- A character between single quotes, with control characters, the quote and the backslash
escaped. -/
def quoteChar (c : Char) : String :=
  let n := c.toNat
  let body :=
    if n = 0 then "\\0"
    else if n = 9 then "\\t"
    else if n = 10 then "\\n"
    else if n = 13 then "\\r"
    else if n = 39 then "\\'"
    else if n = 92 then "\\\\"
    else if n < 32 ∨ (127 ≤ n ∧ n ≤ 160) ∨ n = 173 then
      "\\u\x7b" ++ String.ofList (Nat.toDigits 16 n) ++ "\x7d"
    else String.singleton c
  "'" ++ body ++ "'"

def Error.message : Error → String
  | .oddLength => "Odd number of digits"
  | .invalidDigit byte position =>
    "Invalid character " ++ quoteChar byte ++ " at position " ++ toString position

theorem digitValue?_digit {n : Nat} (h : n < 16) : digitValue? (digit n) = some n := by
  have key : ∀ i : Fin 16, digitValue? (digit i.val) = some i.val := by decide
  exact key ⟨n, h⟩

theorem utf8Size_digit {n : Nat} (h : n < 16) : (digit n).utf8Size = 1 := by
  have key : ∀ i : Fin 16, (digit i.val).utf8Size = 1 := by decide
  exact key ⟨n, h⟩

theorem exists_digit_of_mem_encode {bs : Bytes} {c : Char} (h : c ∈ (encode bs).toList) :
    ∃ n : Fin 16, c = digit n := by
  rw [encode, String.toList_ofList] at h
  induction bs with
  | nil => cases h
  | cons b rest ih =>
    have hb := b.toNat_lt
    have hhigh : b.toNat / 16 < 16 := by omega
    have hlow : b.toNat % 16 < 16 := by omega
    rw [encodeChars, List.mem_cons, List.mem_cons] at h
    rcases h with rfl | rfl | hrest
    · exact ⟨⟨_, hhigh⟩, rfl⟩
    · exact ⟨⟨_, hlow⟩, rfl⟩
    · exact ih hrest

/-- A text that does not begin with a digit is no hexadecimal form. -/
theorem exists_decode_error {text : String} {c : Char} {rest : List Char}
    (htext : text.toList = c :: rest) (hc : digitValue? c = none) :
    ∃ e, decode text = .error e := by
  have hread : readDigit 0 c = .error (.invalidDigit (Char.ofNat (leadByte c)) 0) := by
    rw [readDigit, hc]
  unfold decode
  rw [htext]
  by_cases hodd : utf8Length (c :: rest) % 2 = 1
  · exact ⟨_, if_pos hodd⟩
  · simp only [if_neg hodd]
    cases rest with
    | nil => exact ⟨_, by rw [decodeChars, hread]; rfl⟩
    | cons d rest => exact ⟨_, by rw [decodeChars, hread]; rfl⟩

theorem decodeChars_encodeChars (position : Nat) (bs : Bytes) :
    decodeChars position (encodeChars bs) = .ok bs := by
  induction bs generalizing position with
  | nil => rfl
  | cons b rest ih =>
    have hb := b.toNat_lt
    have hhigh : b.toNat / 16 < 16 := by omega
    have hlow : b.toNat % 16 < 16 := by omega
    have hbyte : UInt8.ofNat (16 * (b.toNat / 16) + b.toNat % 16) = b := by
      rw [Nat.div_add_mod]
      exact UInt8.ofNat_toNat
    simp only [encodeChars, decodeChars, readDigit, digitValue?_digit hhigh,
      digitValue?_digit hlow, ih, bind, Except.bind, hbyte]

theorem utf8Length_encodeChars (bs : Bytes) : utf8Length (encodeChars bs) = 2 * bs.length := by
  induction bs with
  | nil => rfl
  | cons b rest ih =>
    have hb := b.toNat_lt
    have hhigh : b.toNat / 16 < 16 := by omega
    have hlow : b.toNat % 16 < 16 := by omega
    simp only [encodeChars, utf8Length, utf8Size_digit hhigh, utf8Size_digit hlow, ih,
      List.length_cons]
    omega

theorem decode_encode (bs : Bytes) : decode (encode bs) = .ok bs := by
  simp [decode, encode, utf8Length_encodeChars, decodeChars_encodeChars]

end TxScript.Hex
