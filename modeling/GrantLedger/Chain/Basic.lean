import GrantLedger.Chain.Metrics
import GrantLedger.Digest.Merkle
import GrantLedger.Execution
import GrantLedger.Genesis

/-!
# Chains

A chain is driven block by block. Genesis opens it; after that each block begins with a header above
the last one, takes transactions, ends, and is committed. The writes of the block in progress are
pending: they are laid over the committed pairs, and only `commit` carries them over, together with
the header under a key of its own. A transaction runs in a branch of the pending writes, so one that
fails leaves no trace.

Every call returns its answer with the chain after it, failure or not.
-/

namespace GrantLedger

/-- A chain and the block it is working on. -/
structure Chain where
  /-- What executes messages. -/
  assembly : Assembly
  /-- Whether expired grants are swept at the end of each block. -/
  sweeps : Bool
  /-- The committed pairs. -/
  committed : Pairs
  /-- The writes of the block in progress. -/
  pending : WriteSet
  /-- The header of the block in progress. -/
  header : Option BlockHeader
  /-- What has happened since the chain was opened. -/
  metrics : Metrics

/-- The answer to a transaction. -/
structure TxResponse where
  /-- Why it failed, if it did. -/
  failure : Option Error
  /-- What its messages returned. -/
  data : List Bytes
  /-- The events it emitted. -/
  events : List Event

namespace TxResponse

/-- The answer to a transaction that came to `result`. -/
def ofResult : Except Error (List Bytes × List Event) → TxResponse
  | .ok (data, events) => ⟨none, data, events⟩
  | .error e => ⟨some e, [], []⟩

/-- The numeric code: zero for success. -/
def code (r : TxResponse) : Nat := (r.failure.map Error.code).getD 0

/-- The name under which the code is given out; empty for success. -/
def codespace (r : TxResponse) : String := (r.failure.map fun _ => Error.codespace).getD ""

/-- The message of the failure; empty for success. -/
def log (r : TxResponse) : String := (r.failure.map Error.message).getD ""

/-- Whether the transaction succeeded. -/
def isOk (r : TxResponse) : Bool := r.code = 0

end TxResponse

namespace Assembly

/-- A ledger with the built-in kinds of authorization, a size cap, and the routes of the
authorization module. -/
def standard (maxValueBytes : UInt64) : Except Error Assembly :=
  return ⟨{ Registry.builtin with maxValueBytes }, ← Router.complete (Router.registerAuthz ∅)⟩

/-- The same ledger with more routes. -/
def withRoutes (a : Assembly) (urls : List String) (h : Handler) : Except Error Assembly :=
  return { a with router := ← Router.complete (a.router.registerAll h urls) }

end Assembly

namespace Chain

/-- The key of the last committed header, outside every module's namespace. -/
def lastHeaderKey : Bytes := 0 :: Bytes.ofText "app/last_header"

/-- The size cap for the stored header. -/
def headerCap : UInt64 := Registry.defaultMaxValueBytes

/-- A chain opened over committed pairs, with no block in progress. -/
def opened (assembly : Assembly) (sweeps : Bool) (committed : Pairs) : Chain :=
  ⟨assembly, sweeps, committed, ∅, none, .zero⟩

/-- The chain opened anew over what it has committed. -/
def restart (c : Chain) : Chain := opened c.assembly c.sweeps c.committed

/-- The header of the last committed block, if there is one. -/
def lastHeader (c : Chain) : Except Error (Option BlockHeader) :=
  match c.committed.get? lastHeaderKey with
  | none => .ok none
  | some b =>
    match BlockHeader.codec.decode headerCap b with
    | .ok h => .ok (some h)
    | .error e => .error (.codec e)

/-- The pending writes laid over the committed pairs. -/
def view (c : Chain) : Store := .buffered c.pending (.ofPairs c.committed)

/-- Run a computation in the block in progress. Its writes stay pending, also if it fails. -/
def inBlock {α : Type} (c : Chain) (x : Exec α) : Except Error α × Chain :=
  match c.header with
  | none => (.error .noBlock, c)
  | some h =>
    match x (.start h c.view) with
    | (r, after) => (r, { c with pending := after.store.writes })

/-- Start the chain from a genesis, within a first block. -/
def initChain (c : Chain) (h : BlockHeader) (g : Genesis) : Except Error Unit × Chain :=
  if c.header.isSome then (.error .blockInProgress, c)
  else
    match c.lastHeader with
    | .error e => (.error e, c)
    | .ok (some _) => (.error .alreadyInitialized, c)
    | .ok none =>
      match { c with header := some h }.inBlock (Exec.branch (g.load c.assembly.registry)) with
      | (.ok (), c) => (.ok (), c)
      | (.error e, c) => (.error e, { c with header := none })

/-- Begin a block. -/
def beginBlock (c : Chain) (h : BlockHeader) : Except Error Unit × Chain :=
  if c.header.isSome then (.error .previousBlockOpen, c)
  else
    match c.lastHeader with
    | .error e => (.error e, c)
    | .ok none => (.error .notInitialized, c)
    | .ok (some last) =>
      if h.height ≤ last.height then (.error (.heightNotAbove h.height last.height), c)
      else (.ok (), { c with header := some h })

/-- The checks of a transaction that need no state. -/
def validateTx (msgs : List Message) : Except Error Unit := do
  if msgs.isEmpty then throw .emptyTransaction
  Message.validateAll msgs

/-- Execute the messages of a transaction, all of them or none. -/
def runTx (c : Chain) (msgs : List Message) :
    Except Error (List Bytes × List Event) × Chain :=
  match validateTx msgs with
  | .error e => (.error e, c)
  | .ok () =>
    c.inBlock do
      let data ← Exec.branch (c.assembly.dispatchAll msgs)
      return (data, ← Exec.takeEvents)

/-- Deliver a transaction to the block in progress. -/
def deliverTx (c : Chain) (msgs : List Message) : TxResponse × Chain :=
  match c.runTx msgs with
  | (result, c) =>
    let m := { c.metrics with transactions := c.metrics.transactions + 1 }
    let m :=
      match result with
      | .ok (_, events) => m.countEvents events
      | .error _ => { m with failures := m.failures + 1 }
    (.ofResult result, { c with metrics := m })

/-- End the block: sweep expired grants if the chain does so, and count them. -/
def endBlock (c : Chain) : Except Error Nat × Chain :=
  if !c.sweeps then (.ok 0, c)
  else
    match c.inBlock (Exec.branch (Keeper.pruneExpired c.assembly.registry)) with
    | (.ok n, c) => (.ok n, { c with metrics := { c.metrics with pruned := c.metrics.pruned + n } })
    | (.error e, c) => (.error e, c)

/-- Commit the block in progress, and return the root of the state after it. -/
def commit (c : Chain) : Except Error Digest × Chain :=
  match c.header with
  | none => (.error .noBlock, c)
  | some h =>
    let writes := c.pending.insert lastHeaderKey (some (BlockHeader.codec.encode h))
    let committed := Pairs.update c.committed writes.entries
    let metrics := { c.metrics with blockHeight := Nat.min h.height.toNat Metrics.maxHeight }
    (.ok (stateRoot committed), { c with committed, metrics, pending := ∅, header := none })

/-- The header that queries run under: the last committed one, or the zero header before the
first. -/
def queryHeader (c : Chain) : Except Error BlockHeader := return (← c.lastHeader).getD .zero

/-- Answer a query from the committed pairs. What it writes is dropped. -/
def query {α : Type} (c : Chain) (x : Exec α) : Except Error α := do
  let h ← c.queryHeader
  (x (.start h (Store.branch (.ofPairs c.committed)))).1

/-- Write the committed grants down as a genesis. -/
def exportGenesis (c : Chain) : Except Error Genesis :=
  c.query (Genesis.exported c.assembly.registry)

end Chain

end GrantLedger
