import GrantLedger.Text.Hex

/-!
# Percent-encoded text

Paths and query strings carry bytes as `%` and two hexadecimal digits; a `%` that does not begin
such a triple stands for itself. The bytes of a path segment have to be UTF-8. In a query string
they need not be: each longest run that begins a character but does not complete it, and each other
stray byte, becomes the replacement character.
-/

namespace GrantLedger.Percent

/-- The byte `%`. -/
def mark : UInt8 := 0x25

/-- Undo percent-encoding. -/
def decode : Bytes → Bytes
  | [] => []
  | b :: rest =>
    if b = mark then
      match rest with
      | hi :: lo :: later =>
        match Hex.value? (Char.ofNat hi.toNat), Hex.value? (Char.ofNat lo.toNat) with
        | some h, some l => UInt8.ofNat (16 * h + l) :: decode later
        | _, _ => b :: decode (hi :: lo :: later)
      | [c] => b :: decode [c]
      | [] => [b]
    else b :: decode rest

/-- A character that has begun: how many bytes it still lacks, the range of the next, and its value
so far. -/
structure Partial where
  /-- The number of bytes still lacking. -/
  lacking : Nat
  /-- The least next byte. -/
  low : UInt8
  /-- The greatest next byte. -/
  high : UInt8
  /-- The value of the bytes so far. -/
  value : Nat

/-- The character that stands for malformed bytes. -/
def replacement : Char := Char.ofNat 0xFFFD

/-- What a byte at the start of a character means: a whole character, or the beginning of a longer
one. -/
def lead (b : UInt8) : Char ⊕ Partial :=
  let n := b.toNat
  if n < 0x80 then .inl (Char.ofNat n)
  else if 0xC2 ≤ n ∧ n ≤ 0xDF then .inr ⟨1, 0x80, 0xBF, n % 32⟩
  else if n = 0xE0 then .inr ⟨2, 0xA0, 0xBF, 0⟩
  else if n = 0xED then .inr ⟨2, 0x80, 0x9F, n % 16⟩
  else if 0xE1 ≤ n ∧ n ≤ 0xEF then .inr ⟨2, 0x80, 0xBF, n % 16⟩
  else if n = 0xF0 then .inr ⟨3, 0x90, 0xBF, 0⟩
  else if n = 0xF4 then .inr ⟨3, 0x80, 0x8F, n % 8⟩
  else if 0xF1 ≤ n ∧ n ≤ 0xF3 then .inr ⟨3, 0x80, 0xBF, n % 8⟩
  else .inl replacement

/-- The characters of bytes, the first of which may complete a character that has begun. -/
def lossyChars : Option Partial → Bytes → List Char
  | none, [] => []
  | some _, [] => [replacement]
  | begun, b :: rest =>
    let restart (begun : List Char) : List Char :=
      match lead b with
      | .inl c => begun ++ c :: lossyChars none rest
      | .inr p => begun ++ lossyChars (some p) rest
    match begun with
    | none => restart []
    | some p =>
      if p.low ≤ b ∧ b ≤ p.high then
        let value := 64 * p.value + b.toNat % 64
        if p.lacking = 1 then Char.ofNat value :: lossyChars none rest
        else lossyChars (some ⟨p.lacking - 1, 0x80, 0xBF, value⟩) rest
      else restart [replacement]

/-- The text of bytes, malformed ones replaced. -/
def lossyText (b : Bytes) : String := String.ofList (lossyChars none b)

/-- The text of a path segment, if its bytes are UTF-8. -/
def segmentText? (b : Bytes) : Option String := Bytes.text? (decode b)

/-- The text of a name or a value in a query string, where `+` is a space. -/
def queryText (b : Bytes) : String :=
  lossyText (decode (b.map fun x => if x = 0x2B then 0x20 else x))

end GrantLedger.Percent
