import GrantLedger.Keeper

/-!
# Genesis

A chain starts from a list of packed grants, and a running chain can be written down as one. Loading
checks all entries and skips those that have expired; exporting lists the grants that have not, in
key order.
-/

namespace GrantLedger

/-- A packed grant. -/
structure GenesisEntry where
  /-- The account that gave it. -/
  granter : Address
  /-- The account that holds it. -/
  grantee : Address
  /-- The packed authorization. -/
  authorization : AnyValue
  /-- The last moment at which the grant counts. -/
  expiration : Option Timestamp
deriving DecidableEq

/-- The grants that a chain starts with. -/
abbrev Genesis := List GenesisEntry

namespace GenesisEntry

/-- The encoding of an address: its bytes. -/
def addressCodec : Codec Address where
  write a := a.bytes
  read b := do
    let (x, r) ← Codec.take Address.size b
    return (← Address.ofBytes? x, r)

/-- The encoding of an entry: its fields in order. -/
def codec : Codec GenesisEntry :=
  (addressCodec.pair (addressCodec.pair (AnyValue.codec.pair Timestamp.codec.option))).via
    (fun g => (g.granter, g.grantee, g.authorization, g.expiration))
    (fun (granter, grantee, authorization, expiration) =>
      ⟨granter, grantee, authorization, expiration⟩)

/-- The checks of an entry that need no registry. -/
def validate (g : GenesisEntry) : Except Error Unit :=
  if g.granter = g.grantee then .error (.selfGenesisGrant g.granter)
  else if g.authorization.typeUrl = "" then .error (.untypedGenesisGrant g.granter g.grantee)
  else .ok ()

/-- The packed form of a grant. -/
def ofGrant (g : Grant) : Except Error GenesisEntry :=
  return ⟨g.granter, g.grantee, ← g.authorization.pack, g.expiration⟩

end GenesisEntry

namespace Genesis

/-- The encoding of a genesis: that of a list. -/
def codec : Codec Genesis := GenesisEntry.codec.list

/-- The checks that need no registry, up to the first entry that fails. -/
def validate (g : Genesis) : Except Error Unit := g.forM GenesisEntry.validate

/-- Load one entry, unless it has expired at `now`. -/
def loadEntry (r : Registry) (now : Timestamp) (e : GenesisEntry) : Exec Unit := do
  let authorization ← Exec.ofExcept (r.unpack e.authorization)
  Exec.ofExcept authorization.validate
  let g : Grant := ⟨e.granter, e.grantee, authorization, e.expiration⟩
  if g.isExpired now then return ()
  GrantTable.save g

/-- Load entries in order; a later one takes the place of an earlier one for the same grant. -/
def loadAll (r : Registry) (now : Timestamp) : Genesis → Exec Unit
  | [] => return ()
  | e :: es => do
    loadEntry r now e
    loadAll r now es

/-- Load a genesis at the time of the block. -/
def load (r : Registry) (g : Genesis) : Exec Unit := do
  Exec.ofExcept g.validate
  loadAll r (← Exec.blockTime) g

/-- Pack the listed grants that have not expired at `now`. -/
def ofListed (now : Timestamp) : List (Listed Grant) → Except Error Genesis
  | [] => .ok []
  | .error e :: _ => .error e
  | .ok (_, g) :: items =>
    if g.isExpired now then ofListed now items
    else return (← GenesisEntry.ofGrant g) :: (← ofListed now items)

/-- Write down all grants that have not expired at the time of the block. -/
def exported (r : Registry) : Exec Genesis := do
  let now ← Exec.blockTime
  let items ← GrantTable.listAll r
  Exec.ofExcept (ofListed now items)

end Genesis

end GrantLedger
