import GrantLedger.Authorization.Script
import GrantLedger.Error

/-!
# Authorizations

An authorization says what a grantee may execute for a granter. It governs the messages of one type
URL, and when a message is put to it, it answers whether the message may run, whether the grant is
spent by that, and what authorization the grant carries from then on.
-/

namespace GrantLedger

/-- What a grantee may execute for a granter. -/
inductive Authorization where
  /-- Any message of one type, any number of times. -/
  | generic (msgTypeUrl : String)
  /-- One method, any number of times (`none`) or a limited number of times. -/
  | method (name : String) (uses : Option UInt64)
  /-- Answers written down in advance. -/
  | scripted (script : Script)
deriving DecidableEq

/-- The kinds of authorization. -/
inductive AuthorizationKind where
  /-- Authorizations for any message of one type. -/
  | generic
  /-- Authorizations for one method. -/
  | method
  /-- Authorizations with answers written down in advance. -/
  | scripted
deriving DecidableEq

/-- A payload under the type URL that tells how to read it. -/
structure AnyValue where
  /-- The type URL of the payload. -/
  typeUrl : String
  /-- The canonical encoding of the payload. -/
  value : Bytes
deriving DecidableEq

namespace AnyValue

/-- The encoding of an envelope: its fields in order. -/
def codec : Codec AnyValue :=
  (Codec.text.pair Codec.bytes).via (fun a => (a.typeUrl, a.value))
    (fun (typeUrl, value) => ⟨typeUrl, value⟩)

end AnyValue

/-- What an authorization answers when a message is put to it. -/
structure Acceptance where
  /-- The message may be executed. -/
  accept : Bool
  /-- The grant is spent and has to go. -/
  delete : Bool
  /-- What the grant carries from now on, if that changes. -/
  updated : Option Authorization
deriving DecidableEq

namespace Acceptance

/-- The message may run and nothing changes. -/
def accepted : Acceptance := ⟨true, false, none⟩

/-- The message may not run. -/
def rejected : Acceptance := ⟨false, false, none⟩

end Acceptance

namespace AuthorizationKind

/-- The type URL of a kind. -/
def typeUrl : AuthorizationKind → String
  | generic => "/ledgerkit.authz.v1.GenericAuthorization"
  | method => "/ledgerkit.authz.v1.MethodAuthorization"
  | scripted => Script.typeUrl

/-- All kinds, in the order of their type URLs. -/
def all : List AuthorizationKind := [generic, method, scripted]

/-- The encoding of a message type by itself. -/
def genericCodec : Codec String := Codec.text

/-- The encoding of a method and its uses. -/
def methodCodec : Codec (String × Option UInt64) := Codec.text.pair Codec.u64.option

/-- Read the payload of a packed authorization of this kind. -/
def decode (k : AuthorizationKind) (cap : UInt64) (b : Bytes) : Except CodecError Authorization :=
  match k with
  | generic => (genericCodec.decode cap b).map .generic
  | method => (methodCodec.decode cap b).map fun (name, uses) => .method name uses
  | scripted => (Script.codec.decode cap b).map .scripted

end AuthorizationKind

namespace Authorization

/-- The kind of an authorization. -/
def kind : Authorization → AuthorizationKind
  | generic _ => .generic
  | method .. => .method
  | scripted _ => .scripted

/-- The type URL of the governed messages. -/
def msgTypeUrl : Authorization → String
  | generic url => url
  | method name _ => name
  | scripted s => s.current.verdict.msgTypeUrl

/-- Put a message of type `url` to an authorization. All that is seen of
the message is its type URL: its fields, and the context it would run in, are no argument. That is
enough for the three kinds above, and there are no others here. -/
def accept (a : Authorization) (url : String) : Except Error Acceptance :=
  match a with
  | generic _ => .ok .accepted
  | method name uses =>
    if url ≠ name then .ok .rejected
    else
      match uses with
      | none => .ok .accepted
      | some n =>
        if n = 0 then .ok .rejected
        else if n = 1 then .ok ⟨true, true, none⟩
        else .ok ⟨true, false, some (.method name (some (n - 1)))⟩
  | scripted s =>
    match s.current.verdict.error with
    | some text => .error (.custom .invalidRequest text)
    | none =>
      .ok ⟨s.current.verdict.accept, s.current.verdict.delete, s.next?.map .scripted⟩

/-- Whether an authorization makes sense by itself. -/
def validate : Authorization → Except Error Unit
  | generic url => if url = "" then .error .missingMsgTypeUrl else .ok ()
  | method name uses =>
    if name = "" then .error .missingMethodName
    else if uses = some 0 then .error (.noUsesLeft name)
    else .ok ()
  | scripted s =>
    match s.current.flaws.invalid with
    | some text => .error (.custom .unauthorized text)
    | none => .ok ()

/-- The canonical encoding of the payload. -/
def encode : Authorization → Except CodecError Bytes
  | generic url => .ok (AuthorizationKind.genericCodec.encode url)
  | method name uses => .ok (AuthorizationKind.methodCodec.encode (name, uses))
  | scripted s =>
    if s.current.flaws.failEncode then .error .serialize else .ok (Script.codec.encode s)

/-- Wrap an authorization in its envelope. -/
def pack (a : Authorization) : Except Error AnyValue :=
  match a.encode with
  | .ok value => .ok ⟨a.kind.typeUrl, value⟩
  | .error e => .error (.cannotEncode a.kind.typeUrl e)

/-- Whether two authorizations are of one kind and have the same encoding. -/
def same (a b : Authorization) : Bool :=
  a.kind = b.kind &&
    match a.encode, b.encode with
    | .ok x, .ok y => x = y
    | _, _ => false

end Authorization

end GrantLedger
