import GrantLedger.Bytes

/-!
# SHA-256

The hash of a byte string: the message is padded to whole blocks of 64 bytes, and each block is
mixed into eight words in 64 rounds.
-/

namespace GrantLedger

/-- A hash of 32 bytes. -/
structure Digest where
  /-- The bytes. -/
  bytes : Bytes
  /-- There are always 32 of them. -/
  length_eq : bytes.length = 32
deriving DecidableEq

namespace Digest

theorem ext {a b : Digest} (h : a.bytes = b.bytes) : a = b := by
  cases a; cases b; cases h; rfl

/-- The digest of zero bytes only. -/
def zero : Digest := ⟨List.replicate 32 0, by decide⟩

instance : Inhabited Digest := ⟨zero⟩

end Digest

namespace Sha256

/-- The eight words that blocks are mixed into. -/
structure State where
  (a b c d e f g h : UInt32)

/-- The words before the first block. -/
def initial : State where
  a := 0x6a09e667
  b := 0xbb67ae85
  c := 0x3c6ef372
  d := 0xa54ff53a
  e := 0x510e527f
  f := 0x9b05688c
  g := 0x1f83d9ab
  h := 0x5be0cd19

/-- The constant of each round. -/
def roundConstants : List UInt32 := [
  0x428a2f98, 0x71374491, 0xb5c0fbcf, 0xe9b5dba5, 0x3956c25b, 0x59f111f1, 0x923f82a4, 0xab1c5ed5,
  0xd807aa98, 0x12835b01, 0x243185be, 0x550c7dc3, 0x72be5d74, 0x80deb1fe, 0x9bdc06a7, 0xc19bf174,
  0xe49b69c1, 0xefbe4786, 0x0fc19dc6, 0x240ca1cc, 0x2de92c6f, 0x4a7484aa, 0x5cb0a9dc, 0x76f988da,
  0x983e5152, 0xa831c66d, 0xb00327c8, 0xbf597fc7, 0xc6e00bf3, 0xd5a79147, 0x06ca6351, 0x14292967,
  0x27b70a85, 0x2e1b2138, 0x4d2c6dfc, 0x53380d13, 0x650a7354, 0x766a0abb, 0x81c2c92e, 0x92722c85,
  0xa2bfe8a1, 0xa81a664b, 0xc24b8b70, 0xc76c51a3, 0xd192e819, 0xd6990624, 0xf40e3585, 0x106aa070,
  0x19a4c116, 0x1e376c08, 0x2748774c, 0x34b0bcb5, 0x391c0cb3, 0x4ed8aa4a, 0x5b9cca4f, 0x682e6ff3,
  0x748f82ee, 0x78a5636f, 0x84c87814, 0x8cc70208, 0x90befffa, 0xa4506ceb, 0xbef9a3f7, 0xc67178f2]

/-- Turn a word to the right by `n` bits. -/
def rotr (x : UInt32) (n : UInt32) : UInt32 := (x >>> n) ||| (x <<< (32 - n))

/-- The four bytes of a word, the highest first. -/
def wordBytes (w : UInt32) : Bytes :=
  [(w >>> 24).toUInt8, (w >>> 16).toUInt8, (w >>> 8).toUInt8, w.toUInt8]

/-- The words that bytes stand for, four bytes each. -/
def words : Bytes → List UInt32
  | b₀ :: b₁ :: b₂ :: b₃ :: rest =>
    (b₀.toUInt32 <<< 24 ||| b₁.toUInt32 <<< 16 ||| b₂.toUInt32 <<< 8 ||| b₃.toUInt32) :: words rest
  | _ => []

/-- The message with a one bit, zeros and its length in bits, up to whole blocks. -/
def padded (m : Bytes) : Bytes :=
  let zeros : Bytes := List.replicate ((119 - m.length % 64) % 64) 0
  let bits := UInt64.ofNat (8 * m.length)
  m ++ (0x80 :: zeros) ++ wordBytes (bits >>> 32).toUInt32 ++ wordBytes bits.toUInt32

/-- Lengthen the schedule of a block by `n` words, each from the sixteen before it. -/
def extend : Nat → Array UInt32 → Array UInt32
  | 0, w => w
  | n + 1, w =>
    let at' (back : Nat) : UInt32 := w.getD (w.size - back) 0
    let s0 := rotr (at' 15) 7 ^^^ rotr (at' 15) 18 ^^^ (at' 15 >>> 3)
    let s1 := rotr (at' 2) 17 ^^^ rotr (at' 2) 19 ^^^ (at' 2 >>> 10)
    extend n (w.push (at' 16 + s0 + at' 7 + s1))

/-- One round. -/
def round (s : State) (k w : UInt32) : State :=
  let s1 := rotr s.e 6 ^^^ rotr s.e 11 ^^^ rotr s.e 25
  let choice := (s.e &&& s.f) ^^^ (~~~s.e &&& s.g)
  let t1 := s.h + s1 + choice + k + w
  let s0 := rotr s.a 2 ^^^ rotr s.a 13 ^^^ rotr s.a 22
  let majority := (s.a &&& s.b) ^^^ (s.a &&& s.c) ^^^ (s.b &&& s.c)
  ⟨t1 + (s0 + majority), s.a, s.b, s.c, s.d + t1, s.e, s.f, s.g⟩

/-- Mix a block into the words. -/
def compress (s : State) (block : Bytes) : State :=
  let schedule := (extend 48 (words block).toArray).toList
  let t := (roundConstants.zip schedule).foldl (fun t kw => round t kw.1 kw.2) s
  ⟨s.a + t.a, s.b + t.b, s.c + t.c, s.d + t.d, s.e + t.e, s.f + t.f, s.g + t.g, s.h + t.h⟩

/-- Mix `n` blocks into the words. -/
def compressAll : Nat → State → Bytes → State
  | 0, s, _ => s
  | n + 1, s, m => compressAll n (compress s (m.take 64)) (m.drop 64)

/-- The bytes of the words in order. -/
def State.toDigest (s : State) : Digest :=
  ⟨wordBytes s.a ++ wordBytes s.b ++ wordBytes s.c ++ wordBytes s.d ++
    wordBytes s.e ++ wordBytes s.f ++ wordBytes s.g ++ wordBytes s.h, rfl⟩

end Sha256

/-- The SHA-256 hash of a byte string. -/
def sha256 (m : Bytes) : Digest :=
  let p := Sha256.padded m
  (Sha256.compressAll (p.length / 64) Sha256.initial p).toDigest

end GrantLedger
