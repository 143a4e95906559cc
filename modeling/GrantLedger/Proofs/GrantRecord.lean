import Mathlib.Tactic.Common
import GrantLedger.Grant.Basic
import GrantLedger.Proofs.GrantKey
import GrantLedger.Proofs.Packing

/-!
# The stored form of a grant

With the built-in kinds of authorization, the record of a grant reads back as the grant unless it
exceeds the size cap (`Grant.decode_of_stored`), and nothing else reads as that grant
(`Grant.stored_of_decode`). So a stored record that can be read is known to the byte.
-/

namespace GrantLedger

open Codec (Lawful)

theorem Timestamp.lawful_codec : Timestamp.codec.Lawful :=
  Codec.lawful_u64.via (fun _ => rfl) (fun _ => rfl)

theorem AnyValue.lawful_codec : AnyValue.codec.Lawful :=
  (Codec.lawful_text.pair Codec.lawful_bytes).via (fun _ => rfl) (fun _ => rfl)

theorem GrantRecord.lawful_codec : GrantRecord.codec.Lawful :=
  (AnyValue.lawful_codec.pair Timestamp.lawful_codec.option).via (fun _ => rfl) (fun _ => rfl)

namespace Registry

variable {r : Registry}

/-- The registry admits the built-in kinds, under any size cap. -/
def Builtin (r : Registry) : Prop := r.kinds = builtin.kinds

theorem Builtin.isRegistered_iff (hr : r.Builtin) (k : AuthorizationKind) :
    r.isRegistered k.typeUrl = true ↔ k ∈ builtin.kinds :=
  hr ▸ Registry.isRegistered_iff

end Registry

namespace Authorization

/-- The authorization is of a built-in kind. -/
def Builtin (a : Authorization) : Prop := a.kind ∈ Registry.builtin.kinds

theorem builtin_generic (url : String) : (generic url).Builtin := by
  simp [Builtin, kind, Registry.builtin]

theorem builtin_method (name : String) (uses : Option UInt64) : (method name uses).Builtin := by
  simp [Builtin, kind, Registry.builtin]

theorem not_builtin_scripted (s : Script) : ¬ (scripted s).Builtin := by
  simp [Builtin, kind, Registry.builtin]

theorem Builtin.exists_encode {a : Authorization} (ha : a.Builtin) : ∃ b, a.encode = .ok b := by
  cases a with
  | generic url => exact ⟨_, rfl⟩
  | method name uses => exact ⟨_, rfl⟩
  | scripted s => exact absurd ha (not_builtin_scripted s)

end Authorization

namespace Registry.Builtin

variable {r : Registry} (hr : r.Builtin)

include hr

/-- Unpacking undoes packing, unless the payload exceeds the cap. -/
theorem unpack_of_pack {a : Authorization} (ha : a.Builtin) {any : AnyValue}
    (h : a.pack = .ok any) (hlen : any.value.length ≤ r.maxValueBytes.toNat) :
    r.unpack any = .ok a :=
  Registry.unpack_of_pack (hr.symm ▸ ha) h hlen

/-- What is unpacked is of a built-in kind and packs back into the same envelope. -/
theorem pack_of_unpack {a : Authorization} {any : AnyValue} (h : r.unpack any = .ok a) :
    a.Builtin ∧ a.pack = .ok any := by
  obtain ⟨hkind, hurl, hpayload, -⟩ := unpack_eq_ok_iff.1 h
  have ha : a.Builtin := (congrArg (a.kind ∈ ·) hr).mp hkind
  obtain ⟨b, hencode⟩ := ha.exists_encode
  obtain rfl : b = any.value := (Authorization.payload_of_encode hencode).symm.trans hpayload
  exact ⟨ha, Authorization.pack_eq_ok_iff.2 ⟨hurl, hencode⟩⟩

end Registry.Builtin

namespace Grant

/-- The bytes that a grant is stored as, if it can be stored. -/
def stored (g : Grant) : Option Bytes := g.toRecord.toOption.map GrantRecord.codec.encode

theorem toRecord_of_pack {g : Grant} {any : AnyValue} (h : g.authorization.pack = .ok any) :
    g.toRecord = .ok ⟨any, g.expiration⟩ := by
  rw [toRecord, h]
  rfl

theorem stored_eq_some_iff {g : Grant} {b : Bytes} :
    g.stored = some b ↔ ∃ any, g.authorization.pack = .ok any ∧
      GrantRecord.codec.encode ⟨any, g.expiration⟩ = b := by
  rw [stored]
  cases h : g.authorization.pack with
  | error e => simp [toRecord, h, bind, Except.bind, Except.toOption]
  | ok any => simp [toRecord_of_pack h, Except.toOption]

theorem exists_stored {g : Grant} (h : g.authorization.Builtin) : ∃ b, g.stored = some b := by
  obtain ⟨b, hb⟩ := h.exists_encode
  refine ⟨_, stored_eq_some_iff.2 ⟨⟨g.authorization.kind.typeUrl, b⟩, ?_, rfl⟩⟩
  rw [Authorization.pack, hb]

theorem length_value_le (record : GrantRecord) :
    record.authorization.value.length ≤ (GrantRecord.codec.encode record).length := by
  change _ ≤ ((Codec.text.write record.authorization.typeUrl ++
    (Codec.u64.write _ ++ record.authorization.value)) ++ _).length
  simp only [List.length_append]
  omega

variable {r : Registry}

theorem decode_eq (granter grantee : Address) (b : Bytes) :
    decode r granter grantee b =
      (GrantRecord.decode r b).bind fun s =>
        (r.unpack s.authorization).bind fun a => .ok ⟨granter, grantee, a, s.expiration⟩ := rfl

/-- A stored grant reads back as it was, unless its record exceeds the cap. -/
theorem decode_of_stored (hr : r.Builtin) {g : Grant} (hg : g.authorization.Builtin) {b : Bytes}
    (h : g.stored = some b) :
    decode r g.granter g.grantee b =
      if r.maxValueBytes.toNat < b.length then .error (.codec .tooLarge) else .ok g := by
  obtain ⟨any, hpack, rfl⟩ := stored_eq_some_iff.1 h
  rw [decode_eq, GrantRecord.decode, GrantRecord.lawful_codec.decode_encode]
  split
  · rfl
  · next hle =>
    have hvalue : any.value.length ≤ r.maxValueBytes.toNat :=
      Nat.le_trans (length_value_le ⟨any, g.expiration⟩) (Nat.not_lt.1 hle)
    change (r.unpack any).bind _ = _
    rw [hr.unpack_of_pack hg hpack hvalue]
    rfl

/-- A record that reads as a grant is what the grant is stored as. -/
theorem stored_of_decode (hr : r.Builtin) {granter grantee : Address} {b : Bytes} {g : Grant}
    (h : decode r granter grantee b = .ok g) :
    g.granter = granter ∧ g.grantee = grantee ∧ g.authorization.Builtin ∧ g.stored = some b ∧
      b.length ≤ r.maxValueBytes.toNat := by
  rw [decode_eq, GrantRecord.decode] at h
  cases hrec : GrantRecord.codec.decode r.maxValueBytes b with
  | error e => rw [hrec] at h; cases h
  | ok s =>
    rw [hrec] at h
    change (r.unpack s.authorization).bind _ = _ at h
    cases hun : r.unpack s.authorization with
    | error e => rw [hun] at h; cases h
    | ok a =>
      rw [hun] at h
      cases h
      obtain ⟨hbuiltin, hpack⟩ := hr.pack_of_unpack hun
      obtain ⟨henc, hlen⟩ := GrantRecord.lawful_codec.encode_of_decode hrec
      exact ⟨rfl, rfl, hbuiltin, stored_eq_some_iff.2 ⟨_, hpack, henc⟩, hlen⟩

end Grant

end GrantLedger
