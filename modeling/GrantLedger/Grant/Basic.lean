import GrantLedger.Authorization.Registry

/-!
# Grants

A grant binds an authorization to the account that gave it and the account that holds it, up to an
optional expiration. Its record keeps the packed authorization and the expiration; the accounts and
the message type are in the record's key.
-/

namespace GrantLedger

/-- An authorization given by one account to another. -/
structure Grant where
  /-- The account that gave it. -/
  granter : Address
  /-- The account that holds it. -/
  grantee : Address
  /-- What the grantee may execute. -/
  authorization : Authorization
  /-- The last moment at which the grant counts. -/
  expiration : Option Timestamp
deriving DecidableEq

/-- What is stored under the key of a grant. -/
structure GrantRecord where
  /-- The packed authorization. -/
  authorization : AnyValue
  /-- The last moment at which the grant counts. -/
  expiration : Option Timestamp
deriving DecidableEq

/-- Whether something that counts up to `expiration` has expired at `now`: strictly after it. -/
def expiredAt (expiration : Option Timestamp) (now : Timestamp) : Bool :=
  match expiration with
  | none => false
  | some e => e < now

namespace GrantRecord

/-- The encoding of a record: its fields in order. -/
def codec : Codec GrantRecord :=
  (AnyValue.codec.pair Timestamp.codec.option).via (fun r => (r.authorization, r.expiration))
    (fun (authorization, expiration) => ⟨authorization, expiration⟩)

/-- Read a stored record under the size cap of the registry. -/
def decode (r : Registry) (b : Bytes) : Except Error GrantRecord :=
  (codec.decode r.maxValueBytes b).mapError .codec

/-- Whether the record has expired. -/
def isExpired (g : GrantRecord) (now : Timestamp) : Bool := expiredAt g.expiration now

end GrantRecord

namespace Grant

/-- The type URL of the governed messages. -/
def msgTypeUrl (g : Grant) : String := g.authorization.msgTypeUrl

/-- The key under which the grant is stored. -/
def key (g : Grant) : GrantKey := ⟨g.grantee, g.granter, g.msgTypeUrl⟩

/-- Whether the grant has expired. -/
def isExpired (g : Grant) (now : Timestamp) : Bool := expiredAt g.expiration now

/-- Whether two grants have the same parties, the same expiration and the same authorization. -/
def same (a b : Grant) : Bool :=
  a.granter = b.granter && a.grantee = b.grantee && a.expiration = b.expiration &&
    a.authorization.same b.authorization

/-- The stored form of a grant. -/
def toRecord (g : Grant) : Except Error GrantRecord :=
  return ⟨← g.authorization.pack, g.expiration⟩

/-- The grant that a record stands for under the addresses of its key. -/
def ofRecord (r : Registry) (granter grantee : Address) (s : GrantRecord) : Except Error Grant :=
  return ⟨granter, grantee, ← r.unpack s.authorization, s.expiration⟩

/-- Read the stored form of a grant under the addresses of its key. -/
def decode (r : Registry) (granter grantee : Address) (b : Bytes) : Except Error Grant := do
  ofRecord r granter grantee (← GrantRecord.decode r b)

end Grant

end GrantLedger
