import GrantLedger.Error
import GrantLedger.Text.Quoted

/-!
# Routes

A router says which handler serves the messages of a type URL. A type is routed once, and never
under the empty URL.
-/

namespace GrantLedger

/-- Who handles the messages of a route. -/
inductive Handler where
  /-- The authorization module. -/
  | authz
  /-- Another module, which takes the action that its messages carry. -/
  | foreign
deriving DecidableEq

/-- The handlers by type URL. -/
abbrev Router := SortedMap String Handler

namespace Router

/-- Add a route. -/
def register (router : Router) (url : String) (h : Handler) : Except Error Router :=
  if url = "" then .error .emptyRoute
  else if router.contains url then .error (.routeTaken url)
  else .ok (router.insert url h)

/-- Add routes to one handler in order. The first that cannot be added ends it, and those before it
stay. -/
def registerAll (router : Router) (h : Handler) : List String → Except Error Unit × Router
  | [] => (.ok (), router)
  | url :: urls =>
    match router.register url h with
    | .ok router' => router'.registerAll h urls
    | .error e => (.error e, router)

/-- The router after routes were added, provided that all of them could be. -/
def complete : Except Error Unit × Router → Except Error Router
  | (.ok (), router) => .ok router
  | (.error e, _) => .error e

/-- A description of the router. -/
def describe (router : Router) : String :=
  "MsgRouter \x7b routes: " ++ quotedList router.keys ++ " \x7d"

end Router

end GrantLedger
