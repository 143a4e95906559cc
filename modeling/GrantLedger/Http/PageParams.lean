import GrantLedger.Http.Target
import GrantLedger.Page
import GrantLedger.Text.Percent

/-!
# Page selection in query strings

Listings take `key`, `offset`, `limit` and `count_total` from the query string. Other names are
ignored. A known name that is given twice, or with a value that does not read as its type, rejects
the request before anything is looked up. Whether the key is hexadecimal is found out later, by
`PageParams.request`.
-/

namespace GrantLedger.Http

/-- The page selection as it was given. -/
structure PageParams where
  /-- The cursor as text. -/
  key : Option String
  /-- The number of matches to skip. -/
  offset : Option UInt64
  /-- The size of the page. -/
  limit : Option UInt64
  /-- Whether to count all matches. -/
  countTotal : Option Bool
deriving DecidableEq

/-- Read a number of 64 bits: digits, with at most one `+` in front. -/
def parseU64? (s : String) : Option UInt64 :=
  let digits := match s.toList with | '+' :: ds => ds | ds => ds
  if digits.isEmpty || !digits.all fun c => '0' ≤ c && c ≤ '9' then none
  else
    let n := digits.foldl (fun n c => 10 * n + (c.toNat - '0'.toNat)) 0
    if n < UInt64.size then some (UInt64.ofNat n) else none

/-- Read a truth value. -/
def parseBool? (s : String) : Option Bool :=
  if s = "true" then some true else if s = "false" then some false else none

/-- The names and values of a query string, in order. -/
def queryPairs (query : Bytes) : List (String × String) :=
  let parts := query.splitOn 0x26
  (parts.filter (· ≠ [])).map fun part =>
    match cut 0x3D part with
    | (name, value) => (Percent.queryText name, Percent.queryText (value.getD []))

namespace PageParams

/-- Nothing was selected. -/
def none : PageParams := ⟨.none, .none, .none, .none⟩

/-- Set a parameter that has not been set yet. -/
def once {α : Type} (old : Option α) (new : Option α) : Option (Option α) :=
  match old, new with
  | .none, some v => some (some v)
  | _, _ => .none

/-- Take one name and its value into account. -/
def add (p : PageParams) (pair : String × String) : Option PageParams :=
  match pair with
  | (name, value) =>
    if name = "key" then (once p.key (some value)).map fun key => { p with key }
    else if name = "offset" then
      (once p.offset (parseU64? value)).map fun offset => { p with offset }
    else if name = "limit" then (once p.limit (parseU64? value)).map fun limit => { p with limit }
    else if name = "count_total" then
      (once p.countTotal (parseBool? value)).map fun countTotal => { p with countTotal }
    else some p

/-- Read the page selection of a query string. -/
def parse? (query : Bytes) : Option PageParams := (queryPairs query).foldlM add none

/-- The page request that was selected; none at all if no parameter was given. -/
def request (p : PageParams) : Except Error (Option PageRequest) :=
  if p = none then .ok .none
  else do
    let key ←
      match p.key with
      | .none => .ok .none
      | some text =>
        match Hex.decode? text with
        | .none => .error (.cursorNotHex text)
        | some b => .ok (some b)
    return some ⟨key, p.offset.getD 0, p.limit.getD 0, p.countTotal.getD false⟩

end PageParams

end GrantLedger.Http
