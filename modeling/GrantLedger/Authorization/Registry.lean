import GrantLedger.Authorization.Basic
import GrantLedger.Text.Quoted

/-!
# The registry of authorization kinds

A ledger admits some kinds of authorization and reads their payloads under a size cap. A packed
authorization is unpacked by the decoder of the kind that its type URL names.
-/

namespace GrantLedger

/-- The kinds of authorization that a ledger admits. -/
structure Registry where
  /-- The admitted kinds; order and repetition mean nothing. -/
  kinds : List AuthorizationKind
  /-- The size cap for stored values and payloads. -/
  maxValueBytes : UInt64

namespace Registry

/-- The size cap when none is set. -/
def defaultMaxValueBytes : UInt64 := 65536

/-- The registry of the kinds that every ledger has. -/
def builtin : Registry := ⟨[.generic, .method], defaultMaxValueBytes⟩

/-- The admitted kind with a type URL. -/
def kind? (r : Registry) (typeUrl : String) : Option AuthorizationKind :=
  r.kinds.find? fun k => k.typeUrl = typeUrl

/-- Whether a type URL can be decoded. -/
def isRegistered (r : Registry) (typeUrl : String) : Bool := (r.kind? typeUrl).isSome

/-- The type URLs of the admitted kinds, in byte order. -/
def typeUrls (r : Registry) : List String :=
  (AuthorizationKind.all.filter fun k => k ∈ r.kinds).map (·.typeUrl)

/-- A description of the registry. -/
def describe (r : Registry) : String :=
  "AuthorizationRegistry \x7b types: " ++ quotedList r.typeUrls ++ ", max_value_bytes: " ++
    toString r.maxValueBytes ++ " \x7d"

/-- Read a packed authorization. -/
def unpack (r : Registry) (any : AnyValue) : Except Error Authorization :=
  match r.kind? any.typeUrl with
  | none => .error (.noDecoder any.typeUrl)
  | some k =>
    match k.decode r.maxValueBytes any.value with
    | .ok a => .ok a
    | .error e => .error (.cannotDecode any.typeUrl e)

end Registry

end GrantLedger
