/-!
# JSON text

The values that responses are made of, and their compact text: no blanks, fields in the order given.
Texts escape the quote, the backslash and the control characters below the space; all else stands as
it is.
-/

namespace GrantLedger

/-- A value of a response. -/
inductive Json where
  /-- No value. -/
  | null
  /-- A whole number. -/
  | number (n : Nat)
  /-- A text. -/
  | text (s : String)
  /-- A list. -/
  | list (items : List Json)
  /-- A record. -/
  | record (fields : List (String × Json))

namespace Json

/-- A number or nothing. -/
def ofNat? : Option Nat → Json
  | some n => number n
  | none => null

/-- A text or nothing. -/
def ofText? : Option String → Json
  | some s => text s
  | none => null

/-- The digit for a value below sixteen. -/
def hexDigit (n : Nat) : Char := "0123456789abcdef".toList.getD n '0'

/-- The code point of the backslash. -/
def backslash : Char := Char.ofNat 0x5C

/-- A character as it stands in a text. -/
def escapeChar (c : Char) : List Char :=
  let n := c.toNat
  if n = 0x22 then [backslash, c]
  else if n = 0x5C then [backslash, c]
  else if n = 0x08 then [backslash, 'b']
  else if n = 0x0C then [backslash, 'f']
  else if n = 0x0A then [backslash, 'n']
  else if n = 0x0D then [backslash, 'r']
  else if n = 0x09 then [backslash, 't']
  else if n < 0x20 then [backslash, 'u', '0', '0', hexDigit (n / 16), hexDigit (n % 16)]
  else [c]

/-- A text in quotes. -/
def quote (s : String) : String :=
  String.ofList ('"' :: s.toList.flatMap escapeChar ++ ['"'])

mutual

/-- The compact text of a value. -/
def compact : Json → String
  | null => "null"
  | number n => toString n
  | text s => quote s
  | list items => "[" ++ String.intercalate "," (compactItems items) ++ "]"
  | record fields => "\x7b" ++ String.intercalate "," (compactFields fields) ++ "\x7d"

/-- The compact texts of the items of a list. -/
def compactItems : List Json → List String
  | [] => []
  | v :: vs => v.compact :: compactItems vs

/-- The compact texts of the fields of a record. -/
def compactFields : List (String × Json) → List String
  | [] => []
  | (k, v) :: fs => (quote k ++ ":" ++ v.compact) :: compactFields fs

end

end Json

end GrantLedger
