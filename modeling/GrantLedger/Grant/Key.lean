import GrantLedger.Address

/-!
# Keys of grant records

The record of a grant is stored under the namespace byte, the grantee, the granter and the type URL
of the governed message:

    0x01, 20, grantee, 20, granter, URL

The grantee comes first, so the grants of one grantee lie side by side, and so do those of one pair.
Each address is written with its length, and the URL by its UTF-8 bytes up to the end of the key.
-/

namespace GrantLedger

/-- The triple that names a grant. -/
structure GrantKey where
  /-- The account that holds the grant. -/
  grantee : Address
  /-- The account that gave it. -/
  granter : Address
  /-- The type URL of the governed message. -/
  msgTypeUrl : String
deriving DecidableEq

/-- Why bytes are no key of a grant record. -/
inductive KeyError where
  /-- The key belongs to another namespace. -/
  | wrongNamespace
  /-- The key ends too early. -/
  | truncated
  /-- An address has the wrong length. -/
  | address
  /-- The type URL is not UTF-8. -/
  | typeUrl
deriving DecidableEq

namespace KeyError

/-- The wording of the failure. -/
def message : KeyError → String
  | wrongNamespace => "wrong namespace"
  | truncated => "truncated key"
  | address => "bad address segment"
  | typeUrl => "message type url is not utf-8"

end KeyError

namespace GrantKey

/-- The first byte of every grant record's key. -/
def namespaceByte : UInt8 := 1

/-- The byte that all grant records share at the front of their keys. -/
def allRange : Bytes := [namespaceByte]

/-- An address with its length in front. -/
def segment (a : Address) : Bytes := UInt8.ofNat Address.size :: a.bytes

/-- The front of the keys of all grants that `grantee` holds. -/
def granteeRange (grantee : Address) : Bytes := allRange ++ segment grantee

/-- The front of the keys of all grants from `granter` to `grantee`. -/
def pairRange (grantee granter : Address) : Bytes := granteeRange grantee ++ segment granter

/-- The key of a grant record. -/
def toBytes (k : GrantKey) : Bytes := pairRange k.grantee k.granter ++ .ofText k.msgTypeUrl

/-- Read an address with its length off the front of a key. -/
def parseSegment : Bytes → Except KeyError (Address × Bytes)
  | [] => .error .truncated
  | n :: rest =>
    if rest.length < n.toNat then .error .truncated
    else
      match Address.ofBytes? (rest.take n.toNat) with
      | none => .error .address
      | some a => .ok (a, rest.drop n.toNat)

/-- Read the key of a grant record. -/
def parse : Bytes → Except KeyError GrantKey
  | [] => .error .truncated
  | b :: rest =>
    if b ≠ namespaceByte then .error .wrongNamespace
    else do
      let (grantee, rest) ← parseSegment rest
      let (granter, rest) ← parseSegment rest
      match Bytes.text? rest with
      | none => .error .typeUrl
      | some url => return ⟨grantee, granter, url⟩

end GrantKey

end GrantLedger
