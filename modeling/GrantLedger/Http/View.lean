import GrantLedger.Page
import GrantLedger.Grant.Basic
import GrantLedger.Text.Hex
import GrantLedger.Text.Json

/-!
# Grants and failures as JSON

The records that responses show. Addresses are base58 text, payloads and cursors hexadecimal, and
times numbers of milliseconds.
-/

namespace GrantLedger.Http

/-- What a response shows of a grant. -/
structure GrantView where
  /-- The account that gave it. -/
  granter : String
  /-- The account that holds it. -/
  grantee : String
  /-- The type URL of the kind of authorization. -/
  authorizationType : String
  /-- The type URL of the governed message. -/
  msgTypeUrl : String
  /-- The payload of the authorization. -/
  authorizationHex : String
  /-- The expiration in milliseconds. -/
  expirationMs : Option Nat
deriving DecidableEq

namespace GrantView

/-- The view of a grant. -/
def ofGrant (g : Grant) : Except Error GrantView := do
  let any ← g.authorization.pack
  return {
    granter := g.granter.toText
    grantee := g.grantee.toText
    authorizationType := any.typeUrl
    msgTypeUrl := g.msgTypeUrl
    authorizationHex := Hex.encode any.value
    expirationMs := g.expiration.map fun t => t.millis.toNat }

/-- The record of a view. -/
def toJson (v : GrantView) : Json := .record [
  ("granter", .text v.granter),
  ("grantee", .text v.grantee),
  ("authorization_type", .text v.authorizationType),
  ("msg_type_url", .text v.msgTypeUrl),
  ("authorization_hex", .text v.authorizationHex),
  ("expiration_ms", .ofNat? v.expirationMs)]

end GrantView

/-- The record of a page of grants. -/
def pageJson (p : Page Grant) : Except Error Json := do
  let grants ← p.items.mapM GrantView.ofGrant
  return .record [
    ("grants", .list (grants.map GrantView.toJson)),
    ("next_key", .ofText? (p.nextKey.map Hex.encode)),
    ("total", .ofNat? p.total)]

/-- The record of a failure. -/
def failureJson (code : Nat) (message : String) : Json := .record [
  ("code", .number code),
  ("codespace", .text Error.codespace),
  ("message", .text message)]

end GrantLedger.Http
