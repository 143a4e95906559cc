import GrantLedger.Execution
import GrantLedger.Genesis
import GrantLedger.Proofs.Canonical

/-!
# Every encoding is exact

Whatever the ledger stores or hands over is written by a codec that inherits its laws from its
parts. So under every size cap decoding accepts the encodings that keep to the cap, each as the
value it was made from, and nothing besides (`encodings_exact`). In particular no value has a second
encoding, and no encoding goes on into another one.

A list is lawful only if each element takes up space: otherwise more elements than a length can
count would fit into few bytes.
-/

namespace GrantLedger

namespace Codec

variable {α : Type} {c : Codec α}

/-- Decoding under a cap accepts exactly the encodings of values that keep to the cap. -/
structure Exact (c : Codec α) : Prop where
  /-- A value is read back from its encoding, if that keeps to the cap. -/
  decode_encode : ∀ (cap : UInt64) (v : α), c.decode cap (c.encode v) =
    if (c.encode v).length ≤ cap.toNat then .ok v else .error .tooLarge
  /-- What is read as a value is its encoding. -/
  encode_of_decode : ∀ (cap : UInt64) (b : Bytes) (v : α), c.decode cap b = .ok v → c.encode v = b
  /-- Bytes that are no encoding are refused for that, unless they already exceed the cap. -/
  decode_of_not_encoding : ∀ (cap : UInt64) (b : Bytes), (∀ v, c.encode v ≠ b) →
    c.decode cap b = .error (if b.length ≤ cap.toNat then .deserialize else .tooLarge)
  /-- With anything behind it, an encoding is none any more. -/
  encode_append_ne : ∀ (v w : α) (rest : Bytes), (c.encode v ++ rest).length < UInt64.size →
    rest ≠ [] → c.encode w ≠ c.encode v ++ rest
  /-- Different values have different encodings. -/
  encode_inj : ∀ v w : α, (c.encode v).length < UInt64.size → c.encode v = c.encode w → v = w

theorem Lawful.exact (hc : c.Lawful) : c.Exact where
  decode_encode cap v := by
    rw [hc.decode_encode]
    by_cases hle : (c.encode v).length ≤ cap.toNat
    · rw [if_neg (Nat.not_lt.2 hle), if_pos hle]
    · rw [if_pos (Nat.not_le.1 hle), if_neg hle]
  encode_of_decode _ _ _ h := (hc.encode_of_decode h).1
  decode_of_not_encoding cap b hnone := by
    cases h : c.decode cap b with
    | ok v => exact absurd (hc.encode_of_decode h).1 (hnone v)
    | error e => rw [error_of_decode h]
  encode_append_ne v w rest hlen hrest heq := by
    have hw : c.read (c.encode w) = some (w, []) := by
      simpa [encode] using hc.read_write w [] (by rw [← heq] at hlen; exact hlen)
    have hv : c.read (c.encode v ++ rest) = some (v, rest) := by
      rw [List.length_append] at hlen
      exact hc.read_write v rest (Nat.lt_of_le_of_lt (Nat.le_add_right _ _) hlen)
    rw [heq, hv] at hw
    exact hrest (Prod.mk.inj (Option.some.inj hw)).2
  encode_inj v w hlen heq := by
    have hv := hc.read_write v [] hlen
    have hw := hc.read_write w [] (by rw [heq] at hlen; exact hlen)
    change c.read (c.encode v ++ []) = _ at hv
    change c.read (c.encode w ++ []) = _ at hw
    rw [heq, hw] at hv
    exact (Prod.mk.inj (Option.some.inj hv)).1.symm

theorem pos_length_write_bytes (v : Bytes) : 0 < (bytes.write v).length := by
  rw [write_bytes, write_u64, List.length_append, length_lowBytes]
  omega

end Codec

theorem lawful_resultsCodec : resultsCodec.Lawful :=
  Codec.lawful_bytes.list Codec.pos_length_write_bytes

namespace GenesisEntry

theorem read_addressCodec (b : Bytes) :
    addressCodec.read b =
      (Codec.take Address.size b).bind fun p =>
        (Address.ofBytes? p.1).bind fun a => some (a, p.2) := rfl

theorem lawful_addressCodec : addressCodec.Lawful where
  read_write a rest _ := by
    have hlen : a.bytes.length = Address.size := a.length_eq
    change addressCodec.read (a.bytes ++ rest) = _
    rw [read_addressCodec, Codec.take_append hlen, Option.bind_some, Address.ofBytes?_bytes,
      Option.bind_some]
  write_read {b a rest} h := by
    rw [read_addressCodec] at h
    obtain ⟨⟨x, r⟩, hx, h⟩ := Option.bind_eq_some_iff.1 h
    obtain ⟨a', ha, h⟩ := Option.bind_eq_some_iff.1 h
    obtain ⟨rfl, rfl⟩ := Prod.mk.inj (Option.some.inj h)
    change a'.bytes ++ r = b
    rw [Address.bytes_of_ofBytes? ha]
    exact (Codec.append_of_take hx).2

theorem lawful_codec : codec.Lawful :=
  (lawful_addressCodec.pair (lawful_addressCodec.pair
    (AnyValue.lawful_codec.pair Timestamp.lawful_codec.option))).via (fun _ => rfl) (fun _ => rfl)

theorem pos_length_write (e : GenesisEntry) : 0 < (codec.write e).length := by
  change 0 < (e.granter.bytes ++ _).length
  rw [List.length_append, e.granter.length_eq]
  omega

end GenesisEntry

theorem Genesis.lawful_codec : codec.Lawful :=
  GenesisEntry.lawful_codec.list GenesisEntry.pos_length_write

/-- The encodings of packed values, headers, the built-in kinds of authorization, grant records,
genesis states, results, times, addresses and texts are exact. -/
theorem encodings_exact :
    AnyValue.codec.Exact ∧ BlockHeader.codec.Exact ∧ AuthorizationKind.genericCodec.Exact ∧
      AuthorizationKind.methodCodec.Exact ∧ GrantRecord.codec.Exact ∧ Genesis.codec.Exact ∧
      resultsCodec.Exact ∧ Timestamp.codec.Exact ∧ GenesisEntry.addressCodec.Exact ∧
      Codec.text.Exact :=
  ⟨AnyValue.lawful_codec.exact, BlockHeader.lawful_codec.exact,
    AuthorizationKind.lawful_genericCodec.exact, AuthorizationKind.lawful_methodCodec.exact,
    GrantRecord.lawful_codec.exact, Genesis.lawful_codec.exact, lawful_resultsCodec.exact,
    Timestamp.lawful_codec.exact, GenesisEntry.lawful_addressCodec.exact, Codec.lawful_text.exact⟩

end GrantLedger
