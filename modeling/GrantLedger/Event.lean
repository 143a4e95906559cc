import GrantLedger.Address

/-!
# Events

What a state transition tells the outside world: a kind and attributes in the order they were given.
-/

namespace GrantLedger

/-- A notification of a state transition. -/
structure Event where
  /-- The kind of transition. -/
  kind : String
  /-- Names and values, in order; a name may occur more than once. -/
  attributes : List (String × String)
deriving DecidableEq

namespace Event

/-- The first value under a name. -/
def get? (e : Event) (name : String) : Option String :=
  (e.attributes.find? fun a => a.1 = name).map (·.2)

/-- The kind of events that report a new grant. -/
def grantKind : String := "authz.grant"

/-- The kind of events that report a revocation. -/
def revokeKind : String := "authz.revoke"

/-- The kind of events that report a delegated message. -/
def execKind : String := "authz.exec"

/-- An event about the grant from `granter` to `grantee` for one message type. -/
def aboutGrant (kind msgTypeUrl : String) (granter grantee : Address) : Event :=
  ⟨kind, [("msg_type_url", msgTypeUrl), ("granter", granter.toText), ("grantee", grantee.toText)]⟩

end Event

end GrantLedger
