import GrantLedger.Context
import GrantLedger.Grant.Basic
import GrantLedger.Page

/-!
# The table of grants

Grants are records in the store of a context, one for each grantee, granter and message type. An
expired record counts as absent: a lookup removes it on the way, and a sweep removes all of them. A
scan lists the grants of a range of keys by cursors, the keys without the front they share, and
reports a record that cannot be read in its place.
-/

namespace GrantLedger.GrantTable

/-- Store a grant, in place of one for the same accounts and message type. -/
def save (g : Grant) : Exec Unit := do
  let record ← Exec.ofExcept g.toRecord
  Exec.set g.key.toBytes (GrantRecord.codec.encode record)

/-- Look a grant up, expired or not. -/
def get? (r : Registry) (k : GrantKey) : Exec (Option Grant) := do
  match ← Exec.get k.toBytes with
  | none => return none
  | some b => return some (← Exec.ofExcept (Grant.decode r k.granter k.grantee b))

/-- Look a grant up; one that has expired at `now` is removed and counts as absent. -/
def getOrPrune (r : Registry) (k : GrantKey) (now : Timestamp) : Exec (Option Grant) := do
  match ← get? r k with
  | none => return none
  | some g =>
    if g.isExpired now then
      Exec.delete k.toBytes
      return none
    else return some g

/-- Remove a grant, which has to exist. -/
def delete (k : GrantKey) : Exec Unit := do
  if ← Exec.has k.toBytes then Exec.delete k.toBytes
  else Exec.ofExcept (.error (.grantNotFound k.msgTypeUrl))

/-- Read one scanned record of the range whose keys begin with `start`. -/
def readItem (r : Registry) (start : Bytes) (item : Scanned) :
    Except Error (Bytes × Grant) := do
  let (key, value) ← item.mapError .store
  let k ← (GrantKey.parse key).mapError .corruptRecord
  let g ← Grant.decode r k.granter k.grantee value
  return (key.drop start.length, g)

/-- List the grants of the range whose keys begin with `start`, by cursor. -/
def list (r : Registry) (start : Bytes) : Exec (List (Listed Grant)) :=
  return (← Exec.scan start).map (readItem r start)

/-- List all grants. -/
def listAll (r : Registry) : Exec (List (Listed Grant)) := list r GrantKey.allRange

/-- List the grants that `grantee` holds. -/
def listGrantee (r : Registry) (grantee : Address) : Exec (List (Listed Grant)) :=
  list r (GrantKey.granteeRange grantee)

/-- List the grants from `granter` to `grantee`. -/
def listPair (r : Registry) (grantee granter : Address) : Exec (List (Listed Grant)) :=
  list r (GrantKey.pairRange grantee granter)

/-- The key of a scanned record that has expired at `now`; a record that cannot be read has not. -/
def staleKey? (r : Registry) (now : Timestamp) (item : Bytes × Bytes) : Option Bytes :=
  match GrantRecord.decode r item.2 with
  | .ok record => if record.isExpired now then some item.1 else none
  | .error _ => none

/-- The keys of the scanned records that have expired at `now`, unless an item failed. -/
def staleKeys (r : Registry) (now : Timestamp) : List Scanned → Except StoreError (List Bytes)
  | [] => .ok []
  | .error e :: _ => .error e
  | .ok item :: items => return (staleKey? r now item).toList ++ (← staleKeys r now items)

/-- Remove keys one after the other. -/
def deleteAll : List Bytes → Exec Unit
  | [] => return ()
  | k :: ks => do
    Exec.delete k
    deleteAll ks

/-- Remove every grant that has expired at `now`, and count them. -/
def pruneExpired (r : Registry) (now : Timestamp) : Exec Nat := do
  let items ← Exec.scan GrantKey.allRange
  let stale ← Exec.ofStore (staleKeys r now items)
  deleteAll stale
  return stale.length

end GrantLedger.GrantTable
