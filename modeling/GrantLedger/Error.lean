import GrantLedger.Block
import GrantLedger.Grant.Key
import GrantLedger.Store.Basic

/-!
# Failures

Every way in which a transaction or a query can fail, by cause. A cause belongs to one of nine
kinds; the kind fixes the numeric code and the first words of the message, and the cause fixes the
rest. Modules beside the ledger's own report in their own words (`Error.custom`).
-/

namespace GrantLedger

/-- The kinds of failure. -/
inductive ErrorKind where
  /-- The request is malformed. -/
  | invalidRequest
  /-- An address text is malformed. -/
  | invalidAddress
  /-- The record asked for does not exist. -/
  | notFound
  /-- No valid authorization covers the action. -/
  | unauthorized
  /-- An authorization cannot be packed or unpacked. -/
  | packAny
  /-- No handler serves the message. -/
  | unknownRequest
  /-- A handler was given a message of another type. -/
  | invalidType
  /-- A value cannot be encoded or decoded. -/
  | codec
  /-- The store failed. -/
  | store
deriving DecidableEq

namespace ErrorKind

/-- The numeric code; zero is kept for success. -/
def code : ErrorKind → Nat
  | invalidRequest => 18
  | invalidAddress => 7
  | notFound => 38
  | unauthorized => 4
  | packAny => 33
  | unknownRequest => 6
  | invalidType => 29
  | codec => 34
  | store => 1

/-- The words in front of every message of the kind. -/
def label : ErrorKind → String
  | invalidRequest => "invalid request"
  | invalidAddress => "invalid address"
  | notFound => "not found"
  | unauthorized => "unauthorized"
  | packAny => "can't pack authorization"
  | unknownRequest => "unknown request"
  | invalidType => "invalid type"
  | codec => "codec"
  | store => "store"

theorem code_ne_zero (k : ErrorKind) : k.code ≠ 0 := by
  cases k <;> decide

theorem code_injective {k l : ErrorKind} : k.code = l.code → k = l := by
  cases k <;> cases l <;> decide

end ErrorKind

/-- The two sides of a grant. -/
inductive Role where
  /-- The account that gives the grant. -/
  | granter
  /-- The account that holds it. -/
  | grantee
deriving DecidableEq

/-- The name of the side. -/
def Role.name : Role → String
  | granter => "granter"
  | grantee => "grantee"

/-- A failure, by cause. -/
inductive Error where
  /-- Granter and grantee are the same account. -/
  | selfGrant
  /-- A delegated message does not have exactly one signer. -/
  | signerCount (url : String) (count : Nat)
  /-- A grant would already have expired when it is given. -/
  | expirationPassed (expiration now : Timestamp)
  /-- A generic authorization names no message type. -/
  | missingMsgTypeUrl
  /-- A limited authorization, or a revocation, names no message type. -/
  | missingMethodName
  /-- A limited authorization has no use left. -/
  | noUsesLeft (method : String)
  /-- A batch holds no message. -/
  | emptyBatch
  /-- A transaction holds no message. -/
  | emptyTransaction
  /-- A route has no message type. -/
  | emptyRoute
  /-- A message type has a route already. -/
  | routeTaken (url : String)
  /-- A page request gives both a cursor and an offset. -/
  | cursorWithOffset
  /-- The text of a page cursor is not hexadecimal. -/
  | cursorNotHex (text : String)
  /-- The key of a grant record cannot be read. -/
  | corruptRecord (cause : KeyError)
  /-- A query for one grant names no message type. -/
  | emptyMethodQuery
  /-- A genesis entry grants an account to itself. -/
  | selfGenesisGrant (account : Address)
  /-- A genesis entry does not say what it grants. -/
  | untypedGenesisGrant (granter grantee : Address)
  /-- A chain cannot start while a block is in progress. -/
  | blockInProgress
  /-- A chain starts only once. -/
  | alreadyInitialized
  /-- A block cannot begin before the one in progress is committed. -/
  | previousBlockOpen
  /-- A block cannot begin before the chain has started. -/
  | notInitialized
  /-- The height of a block is not above that of the last one. -/
  | heightNotAbove (height last : UInt64)
  /-- There is no block in progress. -/
  | noBlock
  /-- A text is no address. -/
  | badAddress (cause : AddressError)
  /-- The granter or grantee of a message is no address. -/
  | badParty (role : Role) (cause : AddressError)
  /-- The grant to remove does not exist. -/
  | grantNotFound (url : String)
  /-- The grant asked for does not exist. -/
  | authorizationNotFound (url : String)
  /-- No grant covers a delegated message. -/
  | noGrant (url : String) (granter grantee : Address)
  /-- The grant for a delegated message turns it down. -/
  | rejected (url : String) (granter grantee : Address)
  /-- An authorization of an unregistered kind is granted. -/
  | kindNotRegistered (url : String)
  /-- A packed authorization is of an unregistered kind. -/
  | noDecoder (url : String)
  /-- A packed authorization cannot be decoded. -/
  | cannotDecode (url : String) (cause : CodecError)
  /-- An authorization cannot be encoded. -/
  | cannotEncode (url : String) (cause : CodecError)
  /-- No route serves the message type. -/
  | noRoute (url : String)
  /-- The authorization module does not know the message type. -/
  | unknownAuthzMessage (url : String)
  /-- A message bears the type URL of another type. -/
  | unexpectedMessage (url expected : String)
  /-- A module was given a message of the authorization module. -/
  | notForeign (url : String)
  /-- A value cannot be encoded or decoded. -/
  | codec (cause : CodecError)
  /-- The store failed. -/
  | store (cause : StoreError)
  /-- Another module failed, in its own words. -/
  | custom (kind : ErrorKind) (text : String)
deriving DecidableEq

namespace Error

/-- The kind of a failure. -/
def kind : Error → ErrorKind
  | selfGrant | signerCount .. | expirationPassed .. | missingMsgTypeUrl | missingMethodName
  | noUsesLeft _ | emptyBatch | emptyTransaction | emptyRoute | routeTaken _ | cursorWithOffset
  | cursorNotHex _ | corruptRecord _ | emptyMethodQuery | selfGenesisGrant _ | blockInProgress
  | alreadyInitialized | previousBlockOpen | notInitialized | heightNotAbove .. | noBlock =>
    .invalidRequest
  | badAddress _ | badParty .. => .invalidAddress
  | grantNotFound _ | authorizationNotFound _ => .notFound
  | noGrant .. | rejected .. => .unauthorized
  | untypedGenesisGrant .. | kindNotRegistered _ | noDecoder _ | cannotDecode ..
  | cannotEncode .. => .packAny
  | noRoute _ | unknownAuthzMessage _ => .unknownRequest
  | unexpectedMessage .. | notForeign _ => .invalidType
  | codec _ => .codec
  | store _ => .store
  | custom k _ => k

/-- What went wrong, without the words of the kind. -/
def detail : Error → String
  | selfGrant => "granter and grantee cannot be same"
  | signerCount url n =>
    s!"authorization can be given to msg with only one signer, {url} has {n}"
  | expirationPassed e now => s!"expiration {e} must be after block time {now}"
  | missingMsgTypeUrl => "missing msg type url"
  | missingMethodName => "missing method name"
  | noUsesLeft m => s!"authorization for {m} has no remaining uses"
  | emptyBatch => "messages cannot be empty"
  | emptyTransaction => "tx must contain at least one message"
  | emptyRoute => "empty message type url"
  | routeTaken url => s!"route for {url} already registered"
  | cursorWithOffset => "either offset or key is expected, got both"
  | cursorNotHex t => s!"pagination key {t} is not hex"
  | corruptRecord e => s!"corrupt grant record: {e.message}"
  | emptyMethodQuery => "empty method-name"
  | selfGenesisGrant a => s!"genesis grant from {a} to itself"
  | untypedGenesisGrant a b => s!"genesis grant from {a} to {b} has no authorization type"
  | blockInProgress => "a block is in progress"
  | alreadyInitialized => "chain already initialized"
  | previousBlockOpen => "previous block not committed"
  | notInitialized => "chain not initialized"
  | heightNotAbove h last => s!"block height {h} does not follow {last}"
  | noBlock => "no block in progress"
  | badAddress e => e.message
  | badParty role e => s!"invalid {role.name} address: {e.message}"
  | grantNotFound url => s!"authorization not found for {url} type"
  | authorizationNotFound url => s!"no authorization found for {url} type"
  | noGrant url a b => s!"no authorization found for {url} granted by {a} to {b}"
  | rejected url a b => s!"authorization for {url} granted by {a} to {b} rejected the message"
  | kindNotRegistered url => s!"authorization {url} is not registered"
  | noDecoder url => s!"no authorization registered for {url}"
  | cannotDecode url e => s!"can't decode {url}: {e.message}"
  | cannotEncode url e => s!"can't encode {url}: {e.message}"
  | noRoute url => s!"unrecognized message type: {url}"
  | unknownAuthzMessage url => s!"unrecognized authz message type: {url}"
  | unexpectedMessage url expected => s!"unexpected message {url} for {expected}"
  | notForeign url => s!"custom handler got {url}"
  | codec e => e.message
  | store e => e.message
  | custom _ text => text

/-- The whole message. -/
def message (e : Error) : String := s!"{e.kind.label}: {e.detail}"

/-- The numeric code. -/
def code (e : Error) : Nat := e.kind.code

/-- The name under which all these codes are given out. -/
def codespace : String := "sdk"

theorem code_ne_zero (e : Error) : e.code ≠ 0 := e.kind.code_ne_zero

end Error

end GrantLedger
