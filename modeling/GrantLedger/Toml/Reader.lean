/-!
# Reading text from the front

A `Reader` takes a value off the front of a list of characters and leaves the rest, or fails.
Readers are put together in `do` blocks; `maybe` and `many` give back what a failed attempt has
looked at.
-/

namespace GrantLedger.Toml

/-- A reader of values of `α`. -/
abbrev Reader (α : Type) := StateT (List Char) Option α

namespace Reader

variable {α β : Type}

/-- Nothing is left. -/
def atEnd : Reader Unit := fun
  | [] => some ((), [])
  | _ :: _ => none

/-- One character that satisfies `p`. -/
def next (p : Char → Bool) : Reader Char := fun
  | [] => none
  | c :: cs => if p c then some (c, cs) else none

/-- The character `c`. -/
def char (c : Char) : Reader Unit := discard (next (· == c))

/-- The characters of `s`. -/
def literal (s : String) : Reader Unit := fun cs =>
  if s.toList.isPrefixOf cs then some ((), cs.drop s.length) else none

/-- The characters up to the first that does not satisfy `p`. -/
def span (p : Char → Bool) : Reader (List Char) := fun cs =>
  some (cs.takeWhile p, cs.dropWhile p)

/-- A value, or nothing if it cannot be read. -/
def maybe (r : Reader α) : Reader (Option α) := fun cs =>
  match r cs with
  | some (a, rest) => some (some a, rest)
  | none => some (none, cs)

/-- The first of two readers that succeeds. -/
def either (r s : Reader α) : Reader α := fun cs =>
  match r cs with
  | some x => some x
  | none => s cs

/-- As many values as can be read, at most `n`. -/
def upTo (r : Reader α) : Nat → Reader (List α)
  | 0 => return []
  | n + 1 => fun cs =>
    match r cs with
    | none => some ([], cs)
    | some (a, rest) => (upTo r n rest).map fun (as, rest) => (a :: as, rest)

/-- As many values as can be read, each from at least one character. -/
def many (r : Reader α) : Reader (List α) := fun cs => upTo r cs.length cs

/-- A value that satisfies a condition. -/
def check (p : Bool) : Reader Unit := fun cs => if p then some ((), cs) else none

/-- A value that was computed, if it was. -/
def ofOption (a : Option α) : Reader α := fun cs => a.map fun a => (a, cs)

end Reader

end GrantLedger.Toml
