import GrantLedger.Config
import GrantLedger.Http.Server

/-!
# Nodes

A node keeps a chain by its settings and answers requests about it. One that finds a chain among the
committed pairs goes on from it; one that finds none starts a chain without grants, whose first
block has height zero.
-/

namespace GrantLedger.Node

/-- The chain that a node with these settings opens over committed pairs. -/
def openChain (config : Config) (committed : Pairs) : Except Error Chain :=
  return .opened (← Assembly.standard config.authz.maxValueBytes)
    config.authz.pruneExpiredOnEndBlock committed

/-- Start a chain without grants, unless there is one already. -/
def start (config : Config) (now : Timestamp) (c : Chain) : Except Error Chain := do
  match ← c.lastHeader with
  | some _ => return c
  | none =>
    let (started, c) := c.initChain ⟨config.node.chainId, 0, now⟩ []
    started
    let (root, c) := c.commit
    discard root
    return c

/-- A response as text: the status, the type of the body, and the body on the lines after. -/
def describeResponse (r : Http.Response) : String :=
  toString r.status ++ " " ++ r.contentType.getD "" ++ "\n" ++ r.body.getD ""

/-- Look up a path with its query string. -/
def lookUp (c : Chain) (uri : String) : String := describeResponse (Http.serve c "GET" uri)

end GrantLedger.Node
