import GrantLedger.Bytes

/-!
# The canonical encoding

Every stored or hashed value has one byte form. A `Codec` writes a value and reads one off the front
of a byte string, returning what follows; the codecs of compound types are put together from those
of their parts, in order and without padding:

* a number is eight bytes, the lowest first;
* a flag is one byte, `0` or `1`;
* bytes, texts and lists are their length as a number, then their content;
* an optional value is the byte `0`, or the byte `1` and the value.

`Codec.decode` reads a whole byte string under a size cap: longer input is refused unread, and so is
input that is cut short, goes on after the value, or holds a flag, length or text that no value is
written as.
-/

namespace GrantLedger

/-- Why a value could not be written or read. -/
inductive CodecError where
  /-- The value has no encoding. -/
  | serialize
  /-- The bytes are no encoding of a value. -/
  | deserialize
  /-- There are more bytes than the cap allows. -/
  | tooLarge
deriving DecidableEq

namespace CodecError

/-- The wording of the failure. -/
def message : CodecError → String
  | serialize => "serialization"
  | deserialize => "deserialization"
  | tooLarge => "size limit exceeded"

end CodecError

/-- An encoding of the values of `α`. -/
structure Codec (α : Type) where
  /-- The bytes of a value. -/
  write : α → Bytes
  /-- Read a value off the front; what follows it is returned too. -/
  read : Bytes → Option (α × Bytes)

/-- The `k` low bytes of a number, the lowest first. -/
def lowBytes : Nat → Nat → Bytes
  | 0, _ => []
  | k + 1, n => UInt8.ofNat n :: lowBytes k (n / 256)

/-- The number whose bytes these are, the lowest first. -/
def ofLowBytes : Bytes → Nat
  | [] => 0
  | b :: bs => b.toNat + 256 * ofLowBytes bs

namespace Codec

variable {α β : Type}

/-- Exactly `n` bytes off the front. -/
def take (n : Nat) (b : Bytes) : Option (Bytes × Bytes) :=
  if n ≤ b.length then some (b.take n, b.drop n) else none

/-- Numbers. -/
def u64 : Codec UInt64 where
  write n := lowBytes 8 n.toNat
  read b := (take 8 b).map fun (x, r) => (UInt64.ofNat (ofLowBytes x), r)

/-- Flags. -/
def bool : Codec Bool where
  write v := [if v then 1 else 0]
  read
    | 0 :: r => some (false, r)
    | 1 :: r => some (true, r)
    | _ => none

/-- Bytes of any number. -/
def bytes : Codec Bytes where
  write v := u64.write (UInt64.ofNat v.length) ++ v
  read b := do
    let (n, r) ← u64.read b
    take n.toNat r

/-- Texts, by their UTF-8 bytes. -/
def text : Codec String where
  write s := bytes.write (.ofText s)
  read b := do
    let (x, r) ← bytes.read b
    return (← Bytes.text? x, r)

/-- Optional values. -/
def option (c : Codec α) : Codec (Option α) where
  write
    | none => [0]
    | some v => 1 :: c.write v
  read
    | 0 :: r => some (none, r)
    | 1 :: r => (c.read r).map fun (v, r) => (some v, r)
    | _ => none

/-- Read `n` values, one after the other. -/
def readMany (c : Codec α) : Nat → Bytes → Option (List α × Bytes)
  | 0, b => some ([], b)
  | n + 1, b => do
    let (v, r) ← c.read b
    let (vs, r) ← readMany c n r
    return (v :: vs, r)

/-- Lists. -/
def list (c : Codec α) : Codec (List α) where
  write vs := u64.write (UInt64.ofNat vs.length) ++ vs.flatMap c.write
  read b := do
    let (n, r) ← u64.read b
    readMany c n.toNat r

/-- Pairs: one value, then the other. -/
def pair (c : Codec α) (d : Codec β) : Codec (α × β) where
  write v := c.write v.1 ++ d.write v.2
  read b := do
    let (v, r) ← c.read b
    let (w, r) ← d.read r
    return ((v, w), r)

/-- Values that stand for values of another type. -/
def via (c : Codec α) (toRep : β → α) (ofRep : α → β) : Codec β where
  write v := c.write (toRep v)
  read b := (c.read b).map fun (v, r) => (ofRep v, r)

/-- The canonical encoding of a value. -/
def encode (c : Codec α) (v : α) : Bytes := c.write v

/-- Read a whole byte string of at most `cap` bytes. -/
def decode (c : Codec α) (cap : UInt64) (b : Bytes) : Except CodecError α :=
  if cap.toNat < b.length then .error .tooLarge
  else
    match c.read b with
    | some (v, []) => .ok v
    | _ => .error .deserialize

end Codec

end GrantLedger
