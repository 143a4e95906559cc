import GrantLedger.Toml.Text

/-!
# Numbers and moments

Integers of 64 bits in four radices, floating-point numbers, and dates and times. Underscores may
stand between two digits. Of a floating-point number only that it is one is kept; one that is too
large for a double is refused unless it is negative. Of a moment, too, only that it is one is kept.
-/

namespace GrantLedger.Toml

open Reader

/-- Digits, with single underscores between them. -/
def digits (isDigit : Char → Bool) : Reader (List Char) := do
  let d ← next isDigit
  let ds ← many do
    discard (maybe (char '_'))
    next isDigit
  return d :: ds

/-- A sign, if there is one; whether it is a minus. -/
def sign : Reader Bool := do
  return (← maybe (next fun c => c == '+' || c == '-')) == some '-'

/-- Decimal digits without a leading zero. -/
def plainDigits : Reader (List Char) := fun cs =>
  match cs with
  | '0' :: rest => some (['0'], rest)
  | _ => digits isDigit cs

/-- Whether a whole number fits in 64 bits. -/
def fits (n : Int) : Bool := Int64.minValue.toInt ≤ n && n ≤ Int64.maxValue.toInt

/-- A decimal integer. -/
def decimal : Reader Int := do
  let negative ← sign
  let n := numberOf 10 (← plainDigits)
  let v : Int := if negative then -n else n
  check (fits v)
  return v

/-- An integer in another radix, after the letters that announce it. -/
def radixInteger (mark : String) (radix : Nat) (isDigit : Char → Bool) : Reader Int := do
  literal mark
  let v : Int := numberOf radix (← digits isDigit)
  check (fits v)
  return v

/-- An integer. -/
def integer : Reader Int :=
  either (radixInteger "0x" 16 isHexDigit)
    (either (radixInteger "0o" 8 fun c => '0' ≤ c && c ≤ '7')
      (either (radixInteger "0b" 2 fun c => c == '0' || c == '1') decimal))

/-- Whether `m * 10 ^ e` is so large that it rounds to infinity: at least half a unit above the
largest double. -/
def overflows (m : Nat) (e : Int) : Bool :=
  let magnitude : Int := (toString m).length + e
  let border := (Nat.pow 2 54 - 1) * Nat.pow 2 970
  if m = 0 || magnitude < 300 then false
  else if 320 < magnitude then true
  else if 0 ≤ e then border ≤ m * Nat.pow 10 e.toNat
  else border * Nat.pow 10 (-e).toNat ≤ m

/-- The exponent of a floating-point number. -/
def exponent : Reader Int := do
  discard (next fun c => c == 'e' || c == 'E')
  let negative ← sign
  let n := numberOf 10 (← digits isDigit)
  return if negative then -n else n

/-- The digits after the point. -/
def fraction : Reader (List Char) := do
  char '.'
  digits isDigit

/-- A floating-point number in digits. -/
def digitFloat : Reader Unit := do
  let negative ← sign
  let whole ← plainDigits
  let frac ← maybe fraction
  let exp ← if frac.isSome then maybe exponent else some <$> exponent
  let frac := frac.getD []
  check (negative || !overflows (numberOf 10 (whole ++ frac)) (exp.getD 0 - frac.length))

/-- A floating-point number. -/
def float : Reader Unit :=
  either digitFloat do
    discard sign
    either (literal "inf") (literal "nan")

/-- A number of exactly `n` digits. -/
def fixed (n : Nat) : Reader Nat := fun cs =>
  let ds := cs.take n
  if ds.length = n ∧ ds.all isDigit then some (numberOf 10 ds, cs.drop n) else none

/-- A number of two digits between two bounds. -/
def twoDigits (low high : Nat) : Reader Nat := do
  let n ← fixed 2
  check (low ≤ n && n ≤ high)
  return n

/-- The number of days of a month. -/
def daysIn (year month : Nat) : Nat :=
  if month = 2 then
    if year % 4 = 0 ∧ (year % 100 ≠ 0 ∨ year % 400 = 0) then 29 else 28
  else if month ∈ [4, 6, 9, 11] then 30
  else 31

/-- A date. -/
def date : Reader Unit := do
  let year ← fixed 4
  char '-'
  let month ← twoDigits 1 12
  char '-'
  discard (twoDigits 1 (daysIn year month))

/-- A time of day. -/
def time : Reader Unit := do
  discard (twoDigits 0 23)
  char ':'
  discard (twoDigits 0 59)
  char ':'
  discard (twoDigits 0 60)
  discard (maybe do
    char '.'
    discard (next isDigit)
    discard (span isDigit))

/-- The distance from universal time. -/
def offset : Reader Unit :=
  either (discard (next fun c => c == 'Z' || c == 'z')) do
    discard (next fun c => c == '+' || c == '-')
    discard (twoDigits 0 23)
    char ':'
    discard (twoDigits 0 59)

/-- A date, a time of day, or both. -/
def moment : Reader Unit :=
  either
    (do
      date
      discard (maybe do
        discard (next fun c => c == 'T' || c == 't' || c == ' ')
        time
        discard (maybe offset)))
    time

end GrantLedger.Toml
