import GrantLedger.Codec

/-!
# Blocks

What the ledger knows about the block being executed: the chain, the height and the agreed time.
-/

namespace GrantLedger

/-- A moment, in milliseconds since the start of 1970. -/
structure Timestamp where
  /-- The number of milliseconds. -/
  millis : UInt64
deriving DecidableEq, Inhabited

namespace Timestamp

instance : LT Timestamp := ⟨fun a b => a.millis < b.millis⟩

instance : LE Timestamp := ⟨fun a b => a.millis ≤ b.millis⟩

instance : DecidableLT Timestamp := fun a b => inferInstanceAs (Decidable (a.millis < b.millis))

instance : DecidableLE Timestamp := fun a b => inferInstanceAs (Decidable (a.millis ≤ b.millis))

instance : ToString Timestamp := ⟨fun t => s!"{t.millis}ms"⟩

/-- The encoding of a moment is that of its number. -/
def codec : Codec Timestamp := Codec.u64.via (·.millis) (⟨·⟩)

end Timestamp

/-- The header of a block. -/
structure BlockHeader where
  /-- The chain that the block belongs to. -/
  chainId : String
  /-- The height of the block. -/
  height : UInt64
  /-- The time agreed for the block. -/
  time : Timestamp
deriving DecidableEq

namespace BlockHeader

/-- The header that stands in before the first block. -/
def zero : BlockHeader := ⟨"", 0, ⟨0⟩⟩

instance : Inhabited BlockHeader := ⟨zero⟩

/-- The encoding of a header: its fields in order. -/
def codec : Codec BlockHeader :=
  (Codec.text.pair (Codec.u64.pair Timestamp.codec)).via
    (fun h => (h.chainId, h.height, h.time))
    (fun (chainId, height, time) => ⟨chainId, height, time⟩)

end BlockHeader

end GrantLedger
