import GrantLedger.Chain.Basic
import GrantLedger.Http.PageParams
import GrantLedger.Http.Route
import GrantLedger.Http.View
import GrantLedger.Query

/-!
# Answering requests

A node answers requests about the committed state of its chain. The path selects the endpoint,
parameters and query string are read next, and only then is anything looked up. A request that fails
before that is answered by its status alone; a failed query is answered with a record of the
failure.
-/

namespace GrantLedger.Http

/-- The answer to a request. -/
structure Response where
  /-- The status code. -/
  status : Nat
  /-- The type of the body; none if the body is left open. -/
  contentType : Option String
  /-- The body; none if it is left open. -/
  body : Option String
deriving DecidableEq

namespace Response

/-- An answer by its status alone. -/
def bare (status : Nat) : Response := ⟨status, none, none⟩

/-- An answer in JSON. -/
def json (status : Nat) (body : Json) : Response :=
  ⟨status, some "application/json", some body.compact⟩

/-- The answer without its body, which keeps everything else. -/
def withoutBody (r : Response) : Response := { r with body := r.body.map fun _ => "" }

end Response

/-- The status for a kind of failure. -/
def statusOf : ErrorKind → Nat
  | .notFound => 404
  | .invalidRequest | .invalidAddress => 400
  | _ => 500

/-- The answer to a failed query. -/
def failureResponse (e : Error) : Response :=
  .json (statusOf e.kind) (failureJson e.code e.message)

/-- The answer when a query could not be completed for reasons of the node. -/
def internalResponse (message : String) : Response := .json 500 (failureJson 1 message)

/-- The answer that a computation of its record comes to. -/
def respond (r : Except Error Json) : Response :=
  match r with
  | .ok body => .json 200 body
  | .error e => failureResponse e

/-- A type URL as a path shows it: the leading `/` may be left out. -/
def pathUrl (s : String) : String :=
  if s.toList.head? = some '/' then s else "/" ++ s

/-- The page of the unexpired grants from `granter` to `grantee`. -/
def answerPair (c : Chain) (granter grantee : String) (params : PageParams) :
    Except Error Json := do
  let req ← params.request
  pageJson (← c.query (Query.authorizations c.assembly.registry granter grantee req))

/-- The page of the unexpired grants that `grantee` holds. -/
def answerGrantee (c : Chain) (grantee : String) (params : PageParams) : Except Error Json := do
  let req ← params.request
  pageJson (← c.query (Query.granteeGrants c.assembly.registry grantee req))

/-- The unexpired grant from `granter` to `grantee` for one message type. -/
def answerSingle (c : Chain) (granter grantee url : String) : Except Error Json := do
  let g ← c.query (Query.authorization c.assembly.registry granter grantee (pathUrl url))
  return (← GrantView.ofGrant g).toJson

/-- The answer of an endpoint; none if its parameters or its query string cannot be read. -/
def answer? (c : Chain) (query : Bytes) : Route → Option Response
  | .pair granter grantee => do
    let granter ← Percent.segmentText? granter
    let grantee ← Percent.segmentText? grantee
    let params ← PageParams.parse? query
    return respond (answerPair c granter grantee params)
  | .single granter grantee url => do
    let granter ← Percent.segmentText? granter
    let grantee ← Percent.segmentText? grantee
    let url ← Percent.segmentText? url
    return respond (answerSingle c granter grantee url)
  | .held grantee => do
    let grantee ← Percent.segmentText? grantee
    let params ← PageParams.parse? query
    return respond (answerGrantee c grantee params)
  | .metrics => some ⟨200, some "text/plain; version=0.0.4", some c.metrics.render⟩
  | .health => some ⟨200, some "text/plain; charset=utf-8", some "ok"⟩

/-- Answer a request to an endpoint, which takes `GET` and, without a body in the answer, `HEAD`. -/
def serveRoute (c : Chain) (method : String) (query : Bytes) (route : Route) : Response :=
  let response := (answer? c query route).getD (.bare 400)
  if method = "GET" then response
  else if method = "HEAD" then response.withoutBody
  else .bare 405

/-- Answer a request. -/
def serve (c : Chain) (method uri : String) : Response :=
  match Target.ofUri? (.ofText uri) with
  | none => .bare 404
  | some target =>
    match Route.ofPath? target.path with
    | none => .bare 404
    | some route => serveRoute c method target.query route

end GrantLedger.Http
