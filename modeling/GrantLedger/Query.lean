import GrantLedger.Keeper
import GrantLedger.Page

/-!
# Queries

Three ways to ask for grants: those of a pair of accounts, those that one account holds, and one by
its message type. Accounts are given as texts. Expired grants are never returned, and those that a
query comes across are removed from the store it works on.
-/

namespace GrantLedger.Query

/-- Read the text of an account. -/
def account (s : String) : Except Error Address := (Address.parse s).mapError .badAddress

/-- Keep the grants that have not expired at `now`. -/
def unexpired (now : Timestamp) (_cursor : Bytes) (g : Grant) : Except Error (Option Grant) :=
  .ok (if g.isExpired now then none else some g)

/-- Remove grants one after the other; each has to be there. -/
def removeAll : List Grant → Exec Unit
  | [] => return ()
  | g :: gs => do
    GrantTable.delete g.key
    removeAll gs

/-- One page of the unexpired grants of a listing. The expired ones that were come across are
removed. -/
def page (items : List (Listed Grant)) (req : Option PageRequest) : Exec (Page Grant) := do
  let now ← Exec.blockTime
  let paging := paginate req (unexpired now) items
  let page ← Exec.ofExcept paging.outcome
  removeAll ((paging.examined.map (·.2)).filter fun g => g.isExpired now)
  return page

/-- The grants from `granter` to `grantee`, by message type. -/
def authorizations (r : Registry) (granter grantee : String) (req : Option PageRequest) :
    Exec (Page Grant) := do
  let granter ← Exec.ofExcept (account granter)
  let grantee ← Exec.ofExcept (account grantee)
  page (← GrantTable.listPair r grantee granter) req

/-- The grants that `grantee` holds, by granter and message type. -/
def granteeGrants (r : Registry) (grantee : String) (req : Option PageRequest) :
    Exec (Page Grant) := do
  let grantee ← Exec.ofExcept (account grantee)
  page (← GrantTable.listGrantee r grantee) req

/-- The grant from `granter` to `grantee` for one message type. -/
def authorization (r : Registry) (granter grantee method : String) : Exec Grant := do
  if method = "" then throw .emptyMethodQuery
  let granter ← Exec.ofExcept (account granter)
  let grantee ← Exec.ofExcept (account grantee)
  match ← Keeper.lookup r ⟨grantee, granter, method⟩ with
  | some g => return g
  | none => throw (.authorizationNotFound method)

end GrantLedger.Query
