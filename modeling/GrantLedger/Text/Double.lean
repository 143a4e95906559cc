/-!
# Numbers as doubles are shown

A monitored value is kept as a double and shown in positional notation with the fewest digits that
read back as the same double, zeros filling the places after them. Up to 2^53 a whole number is
shown as itself; beyond, it is first rounded to 53 bits, to the even side on a tie.
-/

namespace GrantLedger

/-- A whole number in 53 bits: `mantissa * 2 ^ shift`. -/
structure Double where
  /-- The leading bits; all 53 of them when `shift` is positive. -/
  mantissa : Nat
  /-- The number of zero bits after them. -/
  shift : Nat
deriving DecidableEq

namespace Double

/-- The number of bits of a mantissa. -/
def precision : Nat := 53

/-- The quotient of a division, rounded to the nearest number and to the even one on a tie. -/
def roundDiv (n d : Nat) : Nat :=
  let q := n / d
  let r := n % d
  if 2 * r < d then q else if 2 * r = d ∧ q % 2 = 0 then q else q + 1

/-- The double nearest to a whole number. -/
def ofNat (n : Nat) : Double :=
  let shift := n.log2 + 1 - precision
  let m := roundDiv n (Nat.pow 2 shift)
  if m = Nat.pow 2 precision then ⟨Nat.pow 2 (precision - 1), shift + 1⟩ else ⟨m, shift⟩

/-- The value of a double. -/
def toNat (x : Double) : Nat := x.mantissa * Nat.pow 2 x.shift

/-- Whether `n` is nearer to `x` than to any other double, or on the border and rounds to it. -/
def covers (x : Double) (n : Nat) : Bool :=
  let gap := Nat.pow 2 x.shift
  let below :=
    if x.mantissa = Nat.pow 2 (precision - 1) ∧ 0 < x.shift then gap else 2 * gap
  let low := 4 * x.toNat - below
  let high := 4 * x.toNat + 2 * gap
  if x.mantissa % 2 = 0 then low ≤ 4 * n && 4 * n ≤ high else low < 4 * n && 4 * n < high

/-- The multiple of `10 ^ k` that stands for `x`, if there is one: of its two neighbours on that
grid the nearer one that `x` covers. -/
def onGrid (x : Double) (k : Nat) : Option Nat :=
  let v := x.toNat
  let step := Nat.pow 10 k
  let low := v / step * step
  let high := low + step
  match x.covers low, x.covers high with
  | true, true => some (if v - low ≤ high - v then low else high)
  | true, false => some low
  | false, true => some high
  | false, false => none

/-- The first hit on the grids `10 ^ k`, `10 ^ (k - 1)`, ..., `1`. -/
def coarsest (x : Double) : Nat → Nat
  | 0 => x.toNat
  | k + 1 => (x.onGrid (k + 1)).getD (x.coarsest k)

/-- A whole number as its double is shown. -/
def render (n : Nat) : String :=
  let x := ofNat n
  toString (x.coarsest (toString x.toNat).length)

end Double

end GrantLedger
