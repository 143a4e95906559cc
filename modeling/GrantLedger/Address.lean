import GrantLedger.Text.Base58

/-!
# Account addresses

An account is named by twenty raw bytes, shown and read as base58 text. The three ways in which a
text can fail to be an address are told apart (`AddressError`).
-/

namespace GrantLedger

/-- Account address: twenty bytes. -/
structure Address where
  /-- The raw bytes. -/
  bytes : Bytes
  /-- There are always twenty of them. -/
  length_eq : bytes.length = 20
deriving DecidableEq

/-- Why a text is no address. -/
inductive AddressError where
  /-- The text is empty. -/
  | empty
  /-- The text has a character outside the base58 alphabet. -/
  | encoding (text : String)
  /-- The text stands for another number of bytes. -/
  | length (text : String) (count : Nat)
deriving DecidableEq

namespace AddressError

/-- The wording of the failure. -/
def message : AddressError → String
  | empty => "empty address string is not allowed"
  | encoding s => s!"address {s} is not valid base58"
  | length s n => s!"address {s} has length {n}, expected 20"

end AddressError

namespace Address

/-- The number of bytes of an address. -/
def size : Nat := 20

/-- Bytes as an address, if there are twenty of them. -/
def ofBytes? (b : Bytes) : Option Address :=
  if h : b.length = 20 then some ⟨b, h⟩ else none

/-- The text form. -/
def toText (a : Address) : String := Base58.encode a.bytes

instance : ToString Address := ⟨toText⟩

/-- A description of the address. -/
def describe (a : Address) : String := s!"AccAddress({a.toText})"

/-- Read the text form. -/
def parse (s : String) : Except AddressError Address :=
  if s = "" then .error .empty
  else
    match Base58.decode? s with
    | none => .error (.encoding s)
    | some b =>
      match ofBytes? b with
      | none => .error (.length s b.length)
      | some a => .ok a

theorem ext {a b : Address} (h : a.bytes = b.bytes) : a = b := by
  cases a; cases b; cases h; rfl

@[simp] theorem ofBytes?_bytes (a : Address) : ofBytes? a.bytes = some a := by
  simp [ofBytes?, a.length_eq]

theorem bytes_of_ofBytes? {b : Bytes} {a : Address} (h : ofBytes? b = some a) : a.bytes = b := by
  unfold ofBytes? at h
  split at h
  · cases h; rfl
  · cases h

end Address

end GrantLedger
