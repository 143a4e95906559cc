import GrantLedger.Grant.Key

/-!
# Keys of grant records tell grants apart

Both addresses in a key have a fixed length, so where each part ends does not depend on what it
holds: different triples have different keys, also when one type URL begins with another, a range
holds the keys of its grantee or its pair and no others, and what reads as a triple is the key of
this triple (`GrantKey.parse_eq_ok_iff`).
-/

namespace GrantLedger

namespace GrantKey

theorem toBytes_eq (k : GrantKey) :
    k.toBytes = namespaceByte :: UInt8.ofNat Address.size ::
      (k.grantee.bytes ++ UInt8.ofNat Address.size ::
        (k.granter.bytes ++ Bytes.ofText k.msgTypeUrl)) := by
  simp [toBytes, pairRange, granteeRange, allRange, segment]

/-- The key of a grant record lies in the namespace of grants. -/
theorem startsWith_toBytes (k : GrantKey) : k.toBytes.startsWith allRange = true := by
  rw [Bytes.startsWith_iff, toBytes_eq]
  exact List.prefix_append [namespaceByte] _

/-- A key names one grant. -/
theorem toBytes_injective {k l : GrantKey} (h : k.toBytes = l.toBytes) : k = l := by
  rw [toBytes_eq, toBytes_eq] at h
  have hgrantee := List.append_inj (List.cons.inj (List.cons.inj h).2).2
    (by rw [k.grantee.length_eq, l.grantee.length_eq])
  have hgranter := List.append_inj (List.cons.inj hgrantee.2).2
    (by rw [k.granter.length_eq, l.granter.length_eq])
  obtain ⟨grantee, granter, url⟩ := k
  obtain ⟨grantee', granter', url'⟩ := l
  obtain rfl : grantee = grantee' := Address.ext hgrantee.1
  obtain rfl : granter = granter' := Address.ext hgranter.1
  obtain rfl : url = url' := Bytes.ofText_injective hgranter.2
  rfl

@[simp] theorem toBytes_inj {k l : GrantKey} : k.toBytes = l.toBytes ↔ k = l :=
  ⟨toBytes_injective, fun h => h ▸ rfl⟩

theorem segment_injective {a b : Address} (h : segment a = segment b) : a = b :=
  Address.ext (List.cons.inj h).2

theorem granteeRange_prefix (k : GrantKey) : granteeRange k.grantee <+: k.toBytes :=
  (List.prefix_append _ _).trans (List.prefix_append _ _)

/-- A key lies in the range of a grantee exactly if it is of a grant that the grantee holds. -/
theorem granteeRange_prefix_iff {grantee : Address} {k : GrantKey} :
    granteeRange grantee <+: k.toBytes ↔ k.grantee = grantee := by
  constructor
  · intro h
    have hlength : (granteeRange grantee).length = (granteeRange k.grantee).length := by
      simp [granteeRange, segment, Address.length_eq]
    have heq := (List.prefix_of_prefix_length_le h k.granteeRange_prefix
      (Nat.le_of_eq hlength)).eq_of_length hlength
    exact (segment_injective (List.append_cancel_left heq)).symm
  · rintro rfl
    exact k.granteeRange_prefix

/-- A key lies in the range of a pair exactly if it is of a grant between the two. -/
theorem pairRange_prefix_iff {grantee granter : Address} {k : GrantKey} :
    pairRange grantee granter <+: k.toBytes ↔ k.grantee = grantee ∧ k.granter = granter := by
  constructor
  · intro h
    obtain rfl := granteeRange_prefix_iff.1 ((List.prefix_append _ _).trans h)
    have hlength : (pairRange k.grantee granter).length =
        (pairRange k.grantee k.granter).length := by
      simp [pairRange, segment, Address.length_eq]
    have heq := (List.prefix_of_prefix_length_le h (List.prefix_append _ _)
      (Nat.le_of_eq hlength)).eq_of_length hlength
    exact ⟨rfl, (segment_injective (List.append_cancel_left heq)).symm⟩
  · rintro ⟨rfl, rfl⟩
    exact List.prefix_append _ _

theorem parseSegment_append (a : Address) (rest : Bytes) :
    parseSegment (segment a ++ rest) = .ok (a, rest) := by
  have hlen : (UInt8.ofNat Address.size).toNat = a.bytes.length := a.length_eq.symm
  rw [segment, List.cons_append, parseSegment, hlen]
  rw [if_neg (by rw [List.length_append]; omega), List.take_left, List.drop_left,
    Address.ofBytes?_bytes]

/-- The key of a grant record reads back as the key. -/
theorem parse_toBytes (k : GrantKey) : parse k.toBytes = .ok k := by
  have hfront : k.toBytes =
      namespaceByte :: (segment k.grantee ++ (segment k.granter ++ Bytes.ofText k.msgTypeUrl)) := by
    simp [toBytes, pairRange, granteeRange, allRange]
  rw [hfront, parse, if_neg (not_not_intro rfl)]
  simp only [parseSegment_append, bind, Except.bind, Bytes.text?_ofText]
  rfl

/-- Nothing but the segment of an address is read as one. -/
theorem segment_of_parseSegment {b rest : Bytes} {a : Address}
    (h : parseSegment b = .ok (a, rest)) : segment a ++ rest = b := by
  cases b with
  | nil => cases h
  | cons n tail =>
    rw [parseSegment] at h
    split at h
    · cases h
    · next hlong =>
      split at h
      · cases h
      · next a' ha =>
        cases h
        have hbytes := Address.bytes_of_ofBytes? ha
        have hsize : n.toNat = Address.size := by
          have hlength := hbytes ▸ a.length_eq
          rwa [List.length_take_of_le (Nat.not_lt.1 hlong)] at hlength
        rw [segment, hbytes, ← hsize, UInt8.ofNat_toNat, List.cons_append, List.take_append_drop]

theorem parseSegment_bind_eq_ok_iff {α : Type} {b : Bytes} {x : α}
    {f : Address × Bytes → Except KeyError α} :
    (parseSegment b >>= f) = .ok x ↔ ∃ a rest, segment a ++ rest = b ∧ f (a, rest) = .ok x := by
  constructor
  · intro h
    cases hread : parseSegment b with
    | error e =>
      rw [hread] at h
      cases h
    | ok front =>
      rw [hread] at h
      exact ⟨front.1, front.2, segment_of_parseSegment hread, h⟩
  · rintro ⟨a, rest, rfl, h⟩
    rw [parseSegment_append]
    exact h

/-- The key of a grant record, and nothing else, reads as the key. -/
theorem parse_eq_ok_iff {b : Bytes} {k : GrantKey} : parse b = .ok k ↔ k.toBytes = b := by
  constructor
  · intro h
    cases b with
    | nil => cases h
    | cons n tail =>
      rw [parse] at h
      split at h
      · cases h
      · next hnamespace =>
        obtain ⟨grantee, middle, hgrantee, h⟩ := parseSegment_bind_eq_ok_iff.1 h
        obtain ⟨granter, rest, hgranter, h⟩ := parseSegment_bind_eq_ok_iff.1 h
        dsimp only at h
        split at h
        · cases h
        · next url hurl =>
          cases h
          rw [toBytes, pairRange, granteeRange, List.append_assoc, List.append_assoc,
            Bytes.ofText_of_text? hurl, hgranter, hgrantee, Decidable.not_not.1 hnamespace]
          rfl
  · rintro rfl
    exact k.parse_toBytes

end GrantKey

end GrantLedger
