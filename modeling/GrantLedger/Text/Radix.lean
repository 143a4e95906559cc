/-!
# Numbers in a radix

A list of digits, the most significant first, stands for a number (`ofDigits`), and a number has one
list of digits without a leading zero (`digits`). `transcode` carries a list of digits over from one
radix to another and keeps the leading zeros, each as one zero digit; that makes it invertible on
lists, not only on numbers.
-/

namespace GrantLedger.Radix

/-- The number that digits in radix `base` stand for. -/
def ofDigits (base : Nat) (ds : List Nat) : Nat := ds.foldl (fun n d => n * base + d) 0

/-- The digits of `n` in radix `base`, the least significant first, at most `k` of them; none for
zero. -/
def digitsLow (base : Nat) : Nat → Nat → List Nat
  | 0, _ => []
  | k + 1, n => if n = 0 then [] else n % base :: digitsLow base k (n / base)

/-- The digits of `n` in radix `base`, the most significant first; none for zero. There are never
more of them than `n` has bits. -/
def digits (base n : Nat) : List Nat := (digitsLow base (n.log2 + 1) n).reverse

/-- The same number in another radix, with as many leading zeros. -/
def transcode (source target : Nat) (ds : List Nat) : List Nat :=
  List.replicate (ds.takeWhile (· == 0)).length 0 ++ digits target (ofDigits source ds)

theorem ofDigits_concat (base : Nat) (ds : List Nat) (d : Nat) :
    ofDigits base (ds ++ [d]) = ofDigits base ds * base + d := by
  simp [ofDigits]

theorem ofDigits_reverse_digitsLow {base : Nat} (two_le : 2 ≤ base) {k n : Nat}
    (h : n < Nat.pow 2 k) : ofDigits base (digitsLow base k n).reverse = n := by
  induction k generalizing n with
  | zero =>
    change n < 1 at h
    simp [digitsLow, ofDigits, Nat.lt_one_iff.1 h]
  | succ k ih =>
    rw [digitsLow]
    split
    · next hn => simp [ofDigits, hn]
    · have half : n / base < Nat.pow 2 k := by
        have := Nat.div_le_div_left two_le (by decide) (a := n)
        change n < Nat.pow 2 k * 2 at h
        omega
      rw [List.reverse_cons, ofDigits_concat, ih half, Nat.div_add_mod']

/-- The digits of a number stand for it. -/
@[simp] theorem ofDigits_digits {base : Nat} (two_le : 2 ≤ base) (n : Nat) :
    ofDigits base (digits base n) = n :=
  ofDigits_reverse_digitsLow two_le Nat.lt_log2_self

end GrantLedger.Radix
