import GrantLedger.Error

/-!
# Pages of a scan

A listing is read one page at a time from a scan in cursor order. `paginate` walks the scan, keeps
the items that a filter accepts, and cuts out the requested slice: from a cursor on, or after
skipping an offset. It stops at the first item beyond a full page unless all matches have to be
counted. Beside the page it reports which items the filter saw and what was left unread, since
reading further could meet failures that the page does not depend on.
-/

namespace GrantLedger

/-- Which slice of a listing is asked for. -/
structure PageRequest where
  /-- Start at this cursor, inclusive. -/
  key : Option Bytes
  /-- Skip this many matches; only without a cursor. -/
  offset : UInt64
  /-- The size of the page; zero asks for the default. -/
  limit : UInt64
  /-- Count all matches; only without a cursor. -/
  countTotal : Bool
deriving DecidableEq

namespace PageRequest

/-- The first page of the default size. -/
def first : PageRequest := ⟨none, 0, 0, false⟩

/-- The size of a page when the request does not say. -/
def defaultLimit : Nat := 100

/-- The size of the page. -/
def size (r : PageRequest) : Nat := if r.limit = 0 then defaultLimit else r.limit.toNat

/-- Whether all matches are counted. -/
def counts (r : PageRequest) : Bool := r.countTotal && r.key.isNone

/-- Whether a cursor lies before the one the page starts at. -/
def skips (r : PageRequest) (cursor : Bytes) : Bool :=
  match r.key with
  | none => false
  | some start => cursor < start

end PageRequest

/-- A page of a listing. -/
structure Page (α : Type) where
  /-- The items, in scan order. -/
  items : List α
  /-- The cursor of the first item of the next page. -/
  nextKey : Option Bytes
  /-- The number of matches, if it was asked for. -/
  total : Option Nat
deriving DecidableEq

/-- One item of a scan by cursor, or a failure in its place. -/
abbrev Listed (α : Type) := Except Error (Bytes × α)

/-- What a walk over a scan has come to. -/
structure Paging (α β : Type) where
  /-- The page, or the first failure met. -/
  outcome : Except Error (Page β)
  /-- The items that the filter was asked about, in order. -/
  examined : List (Bytes × α)
  /-- The items that were not read. -/
  unread : List (Listed α)

namespace Paging

variable {α β : Type}

/-- The walk over a scan. `taken` are the items on the page so far, `next` is the cursor after a
full page and `matched` is the number of matches so far. -/
def walk (req : PageRequest) (filter : Bytes → α → Except Error (Option β)) (taken : List β)
    (next : Option Bytes) (matched : Nat) : List (Listed α) → Paging α β
  | [] => ⟨.ok ⟨taken, next, if req.counts then some matched else none⟩, [], []⟩
  | .error e :: items => ⟨.error e, [], items⟩
  | .ok (cursor, v) :: items =>
    if req.skips cursor then walk req filter taken next matched items
    else
      match filter cursor v with
      | .error e => ⟨.error e, [(cursor, v)], items⟩
      | .ok kept =>
        let rest :=
          match kept with
          | none => walk req filter taken next matched items
          | some out =>
            if matched < req.offset.toNat then walk req filter taken next (matched + 1) items
            else if taken.length < req.size then
              walk req filter (taken ++ [out]) next (matched + 1) items
            else if req.counts then
              walk req filter taken (next.orElse fun _ => some cursor) (matched + 1) items
            else ⟨.ok ⟨taken, some cursor, none⟩, [], items⟩
        { rest with examined := (cursor, v) :: rest.examined }

end Paging

/-- Cut the requested page out of a scan, of the items that the filter accepts. -/
def paginate {α β : Type} (req : Option PageRequest)
    (filter : Bytes → α → Except Error (Option β)) (items : List (Listed α)) : Paging α β :=
  let req := req.getD .first
  if req.key.isSome && req.offset != 0 then ⟨.error .cursorWithOffset, [], items⟩
  else Paging.walk req filter [] none 0 items

end GrantLedger
