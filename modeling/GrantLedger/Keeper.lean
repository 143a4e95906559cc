import GrantLedger.Grant.Table

/-!
# The keeper of grants

What happens to grants: they are given, revoked, used and swept. Each change is reported by an
event. A delegated message needs an unexpired grant from its signer for its own type, and the
grant's authorization decides; what it answers is written back before the message runs.
-/

namespace GrantLedger.Keeper

/-- Give a grant, in place of one for the same accounts and message type. The authorization has to
be valid and of an admitted kind, and the expiration has to lie after the time of the block. -/
def grant (r : Registry) (granter grantee : Address) (authorization : Authorization)
    (expiration : Option Timestamp) : Exec Unit := do
  if granter = grantee then throw .selfGrant
  Exec.ofExcept authorization.validate
  if !r.isRegistered authorization.kind.typeUrl then
    throw (.kindNotRegistered authorization.kind.typeUrl)
  let now ← Exec.blockTime
  if let some e := expiration then
    if e ≤ now then throw (.expirationPassed e now)
  GrantTable.save ⟨granter, grantee, authorization, expiration⟩
  Exec.emit (.aboutGrant Event.grantKind authorization.msgTypeUrl granter grantee)

/-- Revoke a grant, which has to exist. -/
def revoke (granter grantee : Address) (url : String) : Exec Unit := do
  GrantTable.delete ⟨grantee, granter, url⟩
  Exec.emit (.aboutGrant Event.revokeKind url granter grantee)

/-- The unexpired grant of a key; an expired one is removed. -/
def lookup (r : Registry) (k : GrantKey) : Exec (Option Grant) := do
  GrantTable.getOrPrune r k (← Exec.blockTime)

/-- Write back what an authorization answered when it accepted a message: the grant is spent, or
goes on with the updated authorization, or stays as it is. -/
def settle (k : GrantKey) (g : Grant) (answer : Acceptance) : Exec Unit := do
  if answer.delete then GrantTable.delete k
  else
    match answer.updated with
    | some updated => GrantTable.save { g with authorization := updated }
    | none => return ()

/-- Check that `granter` lets `grantee` execute a message of type `url`, and use the grant for
it. -/
def authorize (r : Registry) (grantee granter : Address) (url : String) : Exec Unit := do
  let k : GrantKey := ⟨grantee, granter, url⟩
  match ← lookup r k with
  | none => throw (.noGrant url granter grantee)
  | some g =>
    let answer ← Exec.ofExcept (g.authorization.accept url)
    if !answer.accept then throw (.rejected url granter grantee)
    settle k g answer
    Exec.emit (.aboutGrant Event.execKind url granter grantee)

/-- Remove every grant that has expired at the time of the block, and count them. -/
def pruneExpired (r : Registry) : Exec Nat := do
  GrantTable.pruneExpired r (← Exec.blockTime)

end GrantLedger.Keeper
