import GrantLedger.Keeper
import GrantLedger.Message
import GrantLedger.Router

/-!
# Executing messages

An `Assembly` is a ledger put together: the kinds of authorization it admits and the handlers of its
messages. `Assembly.dispatch` executes a message with the handler of its route. Messages contain
messages and actions, and dispatching one follows that structure: a message runs only what is inside
it, so execution always ends.
-/

namespace GrantLedger

/-- A ledger put together. -/
structure Assembly where
  /-- The kinds of authorization that are admitted. -/
  registry : Registry
  /-- The handlers by type URL. -/
  router : Router

/-- The encoding of the data that executed messages returned. -/
def resultsCodec : Codec (List Bytes) := Codec.bytes.list

/-- The failure of the authorization module on a foreign message. -/
def Error.foreignToAuthz (url : String) : Error :=
  if url = MsgGrant.typeUrl then .unexpectedMessage url "ledgerkit::x::authz::msgs::MsgGrant"
  else if url = MsgRevoke.typeUrl then .unexpectedMessage url "ledgerkit::x::authz::msgs::MsgRevoke"
  else if url = Message.execTypeUrl then .unexpectedMessage url "ledgerkit::x::authz::msgs::MsgExec"
  else .unknownAuthzMessage url

namespace Router

/-- Route the three messages of the authorization module. -/
def registerAuthz (router : Router) : Except Error Unit × Router :=
  router.registerAll .authz [MsgGrant.typeUrl, MsgRevoke.typeUrl, Message.execTypeUrl]

end Router

namespace Assembly

/-- Handle the message that gives a grant. -/
def handleGrant (a : Assembly) (m : MsgGrant) : Exec Bytes := do
  let (granter, grantee) ← Exec.ofExcept m.parties
  Keeper.grant a.registry granter grantee m.authorization m.expiration
  return []

/-- Handle the message that revokes a grant. -/
def handleRevoke (m : MsgRevoke) : Exec Bytes := do
  let (granter, grantee) ← Exec.ofExcept m.parties
  Keeper.revoke granter grantee m.msgTypeUrl
  return []

/-- Make sure that `grantee` may execute a message: it is the one signer, or the one signer lets
it. -/
def permit (a : Assembly) (grantee : Address) (m : Message) : Exec Unit := do
  let granter ← Exec.ofExcept m.soleSigner
  if granter ≠ grantee then Keeper.authorize a.registry grantee granter m.typeUrl

mutual

/-- Execute a message with the handler of its route. -/
def dispatch (a : Assembly) (m : Message) : Exec Bytes := do
  match a.router.get? m.typeUrl with
  | none => throw (.noRoute m.typeUrl)
  | some .authz =>
    match m with
    | .grant g => a.handleGrant g
    | .revoke g => handleRevoke g
    | .exec grantee msgs => do
      let grantee ← Exec.ofExcept ((Address.parse grantee).mapError .badAddress)
      let results ← Exec.branch (a.dispatchFor grantee msgs)
      return resultsCodec.encode results
    | .foreign url .. => throw (Error.foreignToAuthz url)
  | some .foreign =>
    match m with
    | .foreign _ _ _ action => a.run action
    | _ => throw (.notForeign m.typeUrl)

/-- Execute messages for `grantee` one after the other, each on behalf of its signer. -/
def dispatchFor (a : Assembly) (grantee : Address) : List Message → Exec (List Bytes)
  | [] => return []
  | m :: ms => do
    a.permit grantee m
    let result ← a.dispatch m
    let results ← a.dispatchFor grantee ms
    return result :: results

/-- Take an action. -/
def run (a : Assembly) : Action → Exec Bytes
  | .done result => Exec.ofExcept result
  | .get key next => do
    let r ← Exec.attempt (Exec.get key)
    a.run (next r)
  | .write key value next => do
    let r ← Exec.attempt (Exec.write key value)
    a.run (next r)
  | .scan start next => do
    let r ← Exec.attempt (Exec.scan start)
    a.run (next r)
  | .header next => do
    let h ← Exec.header
    a.run (next h)
  | .emit event next => do
    Exec.emit event
    a.run next
  | .events next => do
    let es ← Exec.events
    a.run (next es)
  | .takeEvents next => do
    let es ← Exec.takeEvents
    a.run (next es)
  | .branch body next => do
    let r ← Exec.attempt (Exec.branch (a.run body))
    a.run (next r)
  | .dispatch msg next => do
    let r ← Exec.attempt (a.dispatch msg)
    a.run (next r)

end

/-- Execute messages for `grantee`, all of them or none. -/
def exec (a : Assembly) (grantee : Address) (msgs : List Message) : Exec (List Bytes) :=
  Exec.branch (a.dispatchFor grantee msgs)

/-- Dispatch messages in order, up to the first that fails. -/
def dispatchAll (a : Assembly) : List Message → Exec (List Bytes)
  | [] => return []
  | m :: ms => return (← a.dispatch m) :: (← a.dispatchAll ms)

end Assembly

end GrantLedger
