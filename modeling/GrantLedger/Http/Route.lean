import GrantLedger.Http.Target

/-!
# Paths

The endpoints of a node, told apart by their raw paths. A parameter is a stretch without `/`; the
last stretch of a path must not be empty. The type URL of the single-grant endpoint is all of the
rest and may hold `/` itself. Percent-encoding is undone after the match.
-/

namespace GrantLedger.Http

/-- The endpoint of a path, with its parameters as they stand there. -/
inductive Route where
  /-- The grants of a pair of accounts. -/
  | pair (granter grantee : Bytes)
  /-- One grant. -/
  | single (granter grantee url : Bytes)
  /-- The grants that an account holds. -/
  | held (grantee : Bytes)
  /-- The metrics. -/
  | metrics
  /-- The sign of life. -/
  | health
deriving DecidableEq

/-- What follows `front`, if the bytes begin with it. -/
def strip? (front : String) (b : Bytes) : Option Bytes :=
  if b.startsWith (.ofText front) then some (b.drop (Bytes.ofText front).length) else none

namespace Route

/-- The endpoint below the path of pairs. -/
def ofPairPath? (rest : Bytes) : Option Route :=
  match cut slash rest with
  | (_, none) => none
  | (granter, some rest) =>
    match cut slash rest with
    | (grantee, none) => if grantee = [] then none else some (.pair granter grantee)
    | (grantee, some url) => if url = [] then none else some (.single granter grantee url)

/-- The endpoint below the path of grantees. -/
def ofGranteePath? (rest : Bytes) : Option Route :=
  if rest = [] ∨ slash ∈ rest then none else some (.held rest)

/-- The endpoint of a path. -/
def ofPath? (path : Bytes) : Option Route :=
  match strip? "/authz/v1/grants/" path with
  | some rest => ofPairPath? rest
  | none =>
    match strip? "/authz/v1/grantee/" path with
    | some rest => ofGranteePath? rest
    | none =>
      if path = .ofText "/metrics" then some .metrics
      else if path = .ofText "/health" then some .health
      else none

end Route

end GrantLedger.Http
