import GrantLedger.Toml.Reader

/-!
# Blanks, comments and strings

The parts of a TOML text below its values. Strings come in four forms: basic strings know escapes
and literal strings do not, and both may span lines if their quotes are tripled. Line breaks in a
string are kept as line feeds, the one after the opening quotes is not kept, and up to two quotes
may stand before the closing ones.
-/

namespace GrantLedger.Toml

open Reader

/-- The quote around basic strings. -/
def doubleQuote : Char := Char.ofNat 0x22

/-- The quote around literal strings. -/
def singleQuote : Char := Char.ofNat 0x27

/-- The character that begins an escape. -/
def escapeMark : Char := Char.ofNat 0x5C

/-- The line feed. -/
def lineFeed : Char := Char.ofNat 0x0A

/-- The carriage return. -/
def carriageReturn : Char := Char.ofNat 0x0D

/-- Space and tab. -/
def isBlank (c : Char) : Bool := c.toNat = 0x20 || c.toNat = 0x09

/-- What may stand in a line of text: the tab and all that is no ASCII control character. -/
def isPlain (c : Char) : Bool := c.toNat = 0x09 || (0x20 ≤ c.toNat && c.toNat ≠ 0x7F)

/-- Decimal digits. -/
def isDigit (c : Char) : Bool := '0' ≤ c && c ≤ '9'

/-- Hexadecimal digits. -/
def isHexDigit (c : Char) : Bool := isDigit c || ('a' ≤ c && c ≤ 'f') || ('A' ≤ c && c ≤ 'F')

/-- The value of a digit in any radix up to sixteen. -/
def digitValue (c : Char) : Nat :=
  if isDigit c then c.toNat - '0'.toNat
  else if 'a' ≤ c then c.toNat - 'a'.toNat + 10
  else c.toNat - 'A'.toNat + 10

/-- The number that digits stand for. -/
def numberOf (radix : Nat) (ds : List Char) : Nat :=
  ds.foldl (fun n c => radix * n + digitValue c) 0

/-- Blanks within a line. -/
def blanks : Reader Unit := discard (span isBlank)

/-- The end of a line. -/
def newline : Reader Unit :=
  either (char lineFeed) do
    char carriageReturn
    char lineFeed

/-- A comment, up to the end of its line. -/
def comment : Reader Unit := do
  char (Char.ofNat 0x23)
  discard (span isPlain)

/-- The end of a line that holds nothing more: blanks and a comment at most. -/
def lineEnd : Reader Unit := do
  blanks
  discard (maybe comment)
  either newline atEnd

/-- Blanks, comments and line breaks in any order. -/
def gap : Reader Unit :=
  discard (many (either (discard (next isBlank)) (either newline comment)))

/-- A code point of `n` hexadecimal digits. -/
def codePoint (n : Nat) : Reader Char := fun cs =>
  let ds := cs.take n
  let v := numberOf 16 ds
  if ds.length = n ∧ ds.all isHexDigit ∧ v.isValidChar then some (Char.ofNat v, cs.drop n) else none

/-- An escape. -/
def escape : Reader Char := do
  char escapeMark
  let c ← next fun _ => true
  match c with
  | 'b' => return Char.ofNat 0x08
  | 't' => return Char.ofNat 0x09
  | 'n' => return lineFeed
  | 'f' => return Char.ofNat 0x0C
  | 'r' => return carriageReturn
  | 'u' => codePoint 4
  | 'U' => codePoint 8
  | c => do
    check (c == doubleQuote || c == escapeMark)
    return c

/-- A character of a basic string. -/
def basicChar : Reader Char :=
  either (next fun c => isPlain c && c != doubleQuote && c != escapeMark) escape

/-- A character of a literal string. -/
def literalChar : Reader Char := next fun c => isPlain c && c != singleQuote

/-- A string on one line. -/
def lineString (quote : Char) (item : Reader Char) : Reader String := do
  char quote
  let cs ← many item
  char quote
  return String.ofList cs

/-- A line break that is skipped together with all blanks and line breaks after it. -/
def foldedBreak : Reader Unit := do
  char escapeMark
  blanks
  newline
  discard (many (either (discard (next isBlank)) newline))

/-- The closing quotes of a string over several lines, with the quotes of the string that stand
right before them. -/
def closing (quote : Char) : Reader (List Char) := do
  let quotes ← span (· == quote)
  check (3 ≤ quotes.length && quotes.length ≤ 5)
  return quotes.drop 3

/-- Quotes within a string over several lines. -/
def innerQuotes (quote : Char) : Reader (List Char) := do
  let quotes ← span (· == quote)
  check (quotes.length = 1 || quotes.length = 2)
  return quotes

/-- A string that may span lines. -/
def blockString (quote : Char) (item : Reader (List Char)) : Reader String := do
  char quote
  char quote
  char quote
  discard (maybe newline)
  let parts ← many (either item (either (do newline; return [lineFeed]) (innerQuotes quote)))
  let tail ← closing quote
  return String.ofList (parts.flatten ++ tail)

/-- A part of a basic string that may span lines. -/
def basicPart : Reader (List Char) :=
  either (do return [← basicChar]) (do foldedBreak; return [])

/-- A part of a literal string that may span lines. -/
def literalPart : Reader (List Char) := do return [← literalChar]

/-- A string in any form. -/
def string : Reader String :=
  either (blockString doubleQuote basicPart)
    (either (blockString singleQuote literalPart)
      (either (lineString doubleQuote basicChar) (lineString singleQuote literalChar)))

end GrantLedger.Toml
