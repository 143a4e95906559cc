import GrantLedger.Text.Unprintable

/-!
# Quoted text

Texts as they are shown in descriptions of the ledger's parts: in double quotes, with the quote, the
backslash and all characters escaped that leave no mark of their own.
-/

namespace GrantLedger

/-- The lowercase hexadecimal digits of a code point, without leading zeros. -/
def codePointDigits (n : Nat) : List Char := Nat.toDigits 16 n

/-- A character as it stands in quoted text. -/
def quotedChar (c : Char) : List Char :=
  let n := c.toNat
  let mark := Char.ofNat 0x5C
  if n = 0x22 ∨ n = 0x5C then [mark, c]
  else if n = 0x0A then [mark, 'n']
  else if n = 0x0D then [mark, 'r']
  else if n = 0x09 then [mark, 't']
  else if n = 0 then [mark, '0']
  else if isUnprintable c then
    [mark, 'u', Char.ofNat 0x7B] ++ codePointDigits n ++ [Char.ofNat 0x7D]
  else [c]

/-- A text in quotes. -/
def quoted (s : String) : String := String.ofList ('"' :: s.toList.flatMap quotedChar ++ ['"'])

/-- Texts in quotes, listed in brackets. -/
def quotedList (texts : List String) : String :=
  "[" ++ String.intercalate ", " (texts.map quoted) ++ "]"

end GrantLedger
