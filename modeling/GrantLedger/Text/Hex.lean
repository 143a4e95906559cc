import GrantLedger.Bytes

/-!
# Hexadecimal text

Page cursors and payloads travel as text: two digits for each byte, the high half first. Writing
uses lowercase digits; reading takes either case and refuses an odd count or any other character.
-/

namespace GrantLedger.Hex

/-- The digit for a value below sixteen. -/
def digit (n : Nat) : Char :=
  if n < 10 then Char.ofNat ('0'.toNat + n) else Char.ofNat ('a'.toNat + (n - 10))

/-- The value of a digit. -/
def value? (c : Char) : Option Nat :=
  if '0' ≤ c ∧ c ≤ '9' then some (c.toNat - '0'.toNat)
  else if 'a' ≤ c ∧ c ≤ 'f' then some (c.toNat - 'a'.toNat + 10)
  else if 'A' ≤ c ∧ c ≤ 'F' then some (c.toNat - 'A'.toNat + 10)
  else none

/-- The two digits of each byte. -/
def encodeChars (b : Bytes) : List Char :=
  b.flatMap fun x => [digit (x.toNat / 16), digit (x.toNat % 16)]

/-- The bytes that pairs of digits stand for. -/
def decodeChars : List Char → Option Bytes
  | [] => some []
  | [_] => none
  | hi :: lo :: rest => do
    let h ← value? hi
    let l ← value? lo
    return UInt8.ofNat (16 * h + l) :: (← decodeChars rest)

/-- Write bytes as lowercase hexadecimal text. -/
def encode (b : Bytes) : String := String.ofList (encodeChars b)

/-- Read hexadecimal text in either case. -/
def decode? (s : String) : Option Bytes := decodeChars s.toList

theorem value?_digit {n : Nat} (h : n < 16) : value? (digit n) = some n := by
  revert n
  decide

theorem decodeChars_encodeChars (b : Bytes) : decodeChars (encodeChars b) = some b := by
  induction b with
  | nil => rfl
  | cons x b ih =>
    have hx : x.toNat < 256 := x.toNat_lt
    have joined : UInt8.ofNat (16 * (x.toNat / 16) + x.toNat % 16) = x := by
      rw [Nat.div_add_mod]; simp
    have split : encodeChars (x :: b) =
        digit (x.toNat / 16) :: digit (x.toNat % 16) :: encodeChars b := rfl
    simp only [split, decodeChars, value?_digit (show x.toNat / 16 < 16 by omega),
      value?_digit (show x.toNat % 16 < 16 by omega), ih, Option.bind_eq_bind, Option.bind_some,
      joined, Option.pure_def]

/-- What is written as hexadecimal text reads back. -/
@[simp] theorem decode?_encode (b : Bytes) : decode? (encode b) = some b := by
  simp [decode?, encode, decodeChars_encodeChars]

end GrantLedger.Hex
