import GrantLedger.Authorization.Basic
import GrantLedger.Event

/-!
# Messages

A transaction is made of messages. Three belong to the authorization module: give a grant, revoke
one, and execute messages on behalf of the accounts that signed them. Any other message is foreign:
it belongs to another module of the application, and carries the `Action` that the module's handler
takes on it. An action works on the context it is given, step by step: on its store, its header and
its events. It may branch and dispatch messages in turn; so messages and actions are defined
together.

Accounts in the messages of the authorization module are texts, which `validate` and the handlers
read.
-/

namespace GrantLedger

/-- The message that gives a grant. -/
structure MsgGrant where
  /-- The account that gives it. -/
  granter : String
  /-- The account that is to hold it. -/
  grantee : String
  /-- What the grantee may execute. -/
  authorization : Authorization
  /-- The last moment at which the grant counts. -/
  expiration : Option Timestamp
deriving DecidableEq

/-- The message that revokes a grant. -/
structure MsgRevoke where
  /-- The account that gave it. -/
  granter : String
  /-- The account that holds it. -/
  grantee : String
  /-- The type URL of the governed message. -/
  msgTypeUrl : String
deriving DecidableEq

mutual

/-- A message. -/
inductive Message where
  /-- Give a grant. -/
  | grant (msg : MsgGrant)
  /-- Revoke a grant. -/
  | revoke (msg : MsgRevoke)
  /-- Execute messages on behalf of their signers, by the grants of `grantee`. -/
  | exec (grantee : String) (msgs : List Message)
  /-- A message of another module. -/
  | foreign (url : String) (signers : List Address) (validity : Except Error Unit)
      (action : Action)

/-- What a module's handler does through the context it is given, step by step. After each step it
goes on with what the step returned, and ends with its response or a failure. There is a step for
everything that a context offers; a handler that sets up a context of its own over the store, under
a header of its choice, is no action. -/
inductive Action where
  /-- End with a response or a failure. -/
  | done (result : Except Error Bytes)
  /-- Look up a key. -/
  | get (key : Bytes) (next : Except Error (Option Bytes) → Action)
  /-- Bind a key (`some`) or remove it (`none`). -/
  | write (key : Bytes) (value : Option Bytes) (next : Except Error Unit → Action)
  /-- Scan the keys that begin with `start`. -/
  | scan (start : Bytes) (next : Except Error (List Scanned) → Action)
  /-- Read the header of the block. -/
  | header (next : BlockHeader → Action)
  /-- Emit an event. -/
  | emit (event : Event) (next : Action)
  /-- Read the events emitted so far. -/
  | events (next : List Event → Action)
  /-- Take the events emitted so far away. -/
  | takeEvents (next : List Event → Action)
  /-- Act in a branch of the context. -/
  | branch (body : Action) (next : Except Error Bytes → Action)
  /-- Dispatch a message. -/
  | dispatch (msg : Message) (next : Except Error Bytes → Action)

end

/-- Read the text of one party's address. -/
def Role.parse (role : Role) (s : String) : Except Error Address :=
  (Address.parse s).mapError (.badParty role)

/-- Read the parties of a grant, which have to differ. -/
def parseParties (granter grantee : String) : Except Error (Address × Address) := do
  let granter ← Role.granter.parse granter
  let grantee ← Role.grantee.parse grantee
  if granter = grantee then throw .selfGrant
  return (granter, grantee)

/-- The signer that an address text names; none if it is malformed. -/
def signersOf (s : String) : List Address := (Address.parse s).toOption.toList

namespace MsgGrant

/-- The type URL of messages that give a grant. -/
def typeUrl : String := "/ledgerkit.authz.v1.MsgGrant"

/-- The granter and the grantee. -/
def parties (m : MsgGrant) : Except Error (Address × Address) := parseParties m.granter m.grantee

/-- The checks that need no state. -/
def validate (m : MsgGrant) : Except Error Unit := do
  discard m.parties
  m.authorization.validate

end MsgGrant

namespace MsgRevoke

/-- The type URL of messages that revoke a grant. -/
def typeUrl : String := "/ledgerkit.authz.v1.MsgRevoke"

/-- The granter and the grantee. -/
def parties (m : MsgRevoke) : Except Error (Address × Address) := parseParties m.granter m.grantee

/-- The checks that need no state. -/
def validate (m : MsgRevoke) : Except Error Unit := do
  discard m.parties
  if m.msgTypeUrl = "" then throw .missingMethodName

end MsgRevoke

namespace Message

/-- The type URL of messages that execute others. -/
def execTypeUrl : String := "/ledgerkit.authz.v1.MsgExec"

/-- The type URL of a message. -/
def typeUrl : Message → String
  | grant _ => MsgGrant.typeUrl
  | revoke _ => MsgRevoke.typeUrl
  | exec .. => execTypeUrl
  | foreign url .. => url

/-- The accounts that must have authorized a message. -/
def signers : Message → List Address
  | grant m => signersOf m.granter
  | revoke m => signersOf m.granter
  | exec grantee _ => signersOf grantee
  | foreign _ signers .. => signers

/-- The account that must have authorized a message, which has to be exactly one. -/
def soleSigner (m : Message) : Except Error Address :=
  match m.signers with
  | [a] => .ok a
  | signers => .error (.signerCount m.typeUrl signers.length)

mutual

/-- The checks that need no state, nested messages included. -/
def validate : Message → Except Error Unit
  | .grant m => m.validate
  | .revoke m => m.validate
  | .exec grantee msgs => do
    discard (Role.grantee.parse grantee)
    if msgs.isEmpty then throw .emptyBatch
    validateAll msgs
  | .foreign _ _ validity _ => validity

/-- Validate messages in order, up to the first that is rejected. -/
def validateAll : List Message → Except Error Unit
  | [] => .ok ()
  | m :: ms => do
    m.validate
    validateAll ms

end

end Message

namespace Action

/-- Do writes in order, up to the first that fails, then go on. -/
def writeAll : List (Bytes × Option Bytes) → Action → Action
  | [], next => next
  | (k, v) :: later, next =>
    .write k v fun
      | .ok () => writeAll later next
      | .error e => .done (.error e)

/-- Emit events in order, then go on. -/
def emitAll (events : List Event) (next : Action) : Action := events.foldr .emit next

/-- Dispatch messages in order, up to the first that fails, and end with all data in a row. -/
def dispatchAll (data : Bytes) : List Message → Option Error → Action
  | [], failure => .done (match failure with | some e => .error e | none => .ok data)
  | m :: later, failure =>
    .dispatch m fun
      | .ok more => dispatchAll (data ++ more) later failure
      | .error e => .done (.error e)

/-- Do writes, emit events, dispatch messages, and end with the data of all of them or with a
failure. -/
def plan (writes : List (Bytes × Option Bytes)) (events : List Event) (msgs : List Message)
    (failure : Option Error) (data : Bytes) : Action :=
  writeAll writes (emitAll events (dispatchAll data msgs failure))

end Action

end GrantLedger
