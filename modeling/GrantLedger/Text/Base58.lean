import GrantLedger.Bytes
import GrantLedger.Text.Radix

/-!
# Base58 text

Addresses are shown in radix 58 over an alphabet without the four characters that are easily
confused (`0`, `O`, `I`, `l`). Bytes are digits in radix 256, so writing and reading are one change
of radix and its inverse; a leading zero byte becomes a leading `1`.
-/

namespace GrantLedger.Base58

/-- The digits by value. -/
def alphabet : List Char := "123456789ABCDEFGHJKLMNPQRSTUVWXYZabcdefghijkmnopqrstuvwxyz".toList

/-- The character of a digit. -/
def digit (n : Nat) : Char := alphabet.getD n '1'

/-- The value of a character, if it is in the alphabet. -/
def value? (c : Char) : Option Nat := alphabet.idxOf? c

/-- Write bytes as base58 text. -/
def encode (b : Bytes) : String :=
  String.ofList ((Radix.transcode 256 58 (b.map UInt8.toNat)).map digit)

/-- Read base58 text. -/
def decode? (s : String) : Option Bytes :=
  (s.toList.mapM value?).map fun ds => (Radix.transcode 58 256 ds).map UInt8.ofNat

end GrantLedger.Base58
