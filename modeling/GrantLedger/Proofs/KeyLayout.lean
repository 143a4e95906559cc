import Mathlib.Data.Prod.Lex
import GrantLedger.Chain.Basic
import GrantLedger.Proofs.Listing

/-!
# The layout of keys

The key of a grant record is a code for the triple that names the grant: what can be read is what
has been written, byte for byte. The code keeps the order, as both addresses have a fixed length:
keys compare like their triples, by grantee, granter and type URL (`GrantKey.toBytes_lt_iff_place`).
And each range is the front of the keys of one party and of no others, so a scan of it never comes
across the record of somebody else, whatever the store holds and wherever it fails
(`GrantKey.Delimits`).
-/

namespace GrantLedger

/-! ## The order of keys -/

theorem Bytes.append_lt_append_iff_lex {a b x y : Bytes} (hlength : a.length = b.length) :
    a ++ x < b ++ y ↔ a < b ∨ a = b ∧ x < y := by
  induction a generalizing b with
  | nil =>
    obtain rfl : b = [] := List.length_eq_zero_iff.1 hlength.symm
    simp
  | cons n a ih =>
    cases b with
    | nil => cases hlength
    | cons n' b =>
      rw [List.cons_append, List.cons_append, List.cons_lt_cons_iff, List.cons_lt_cons_iff,
        ih (Nat.succ.inj hlength), List.cons.injEq]
      tauto

namespace GrantKey

variable {k l : GrantKey}

/-- The place of a triple in the lexicographic order of grantee, granter and type URL. -/
def place (k : GrantKey) : Bytes ×ₗ Bytes ×ₗ Bytes :=
  toLex (k.grantee.bytes, toLex (k.granter.bytes, Bytes.ofText k.msgTypeUrl))

/-- Keys compare like their triples. -/
theorem toBytes_lt_iff_place : k.toBytes < l.toBytes ↔ k.place < l.place := by
  have hlength (a b : Address) : a.bytes.length = b.bytes.length := by
    rw [a.length_eq, b.length_eq]
  rw [place, place, Prod.Lex.toLex_lt_toLex, Prod.Lex.toLex_lt_toLex, toBytes_eq, toBytes_eq]
  simp only [List.cons_lt_cons_iff, Bytes.append_lt_append_iff_lex (hlength _ _), Std.lt_irrefl,
    true_and, false_or]

theorem toBytes_lt_of_grantee (h : k.grantee.bytes < l.grantee.bytes) : k.toBytes < l.toBytes :=
  toBytes_lt_iff_place.2 (Prod.Lex.toLex_lt_toLex.2 (.inl h))

theorem toBytes_lt_of_granter (hgrantee : k.grantee = l.grantee)
    (h : k.granter.bytes < l.granter.bytes) : k.toBytes < l.toBytes :=
  toBytes_lt_iff_place.2 (Prod.Lex.toLex_lt_toLex.2
    (.inr ⟨congrArg Address.bytes hgrantee, Prod.Lex.toLex_lt_toLex.2 (.inl h)⟩))

theorem toBytes_lt_iff (hgrantee : k.grantee = l.grantee) (hgranter : k.granter = l.granter) :
    k.toBytes < l.toBytes ↔ Bytes.ofText k.msgTypeUrl < Bytes.ofText l.msgTypeUrl := by
  rw [toBytes, toBytes, hgrantee, hgranter, Bytes.append_lt_append_iff]

end GrantKey

/-! ## What a scan comes across -/

namespace Store

theorem mem_pendingPuts {ws : List (Bytes × Option Bytes)} {k v : Bytes} :
    .ok (k, v) ∈ pendingPuts ws ↔ (k, some v) ∈ ws := by
  rw [pendingPuts_eq]
  simp [mem_putsOf]

/-- What laying writes over a scan yields was in the scan or is one of the writes. -/
theorem mem_of_mem_overlay {items : List Scanned} {ws : List (Bytes × Option Bytes)} {k v : Bytes}
    (h : .ok (k, v) ∈ overlay items ws) : .ok (k, v) ∈ items ∨ (k, some v) ∈ ws := by
  induction items generalizing ws with
  | nil => exact .inr (mem_pendingPuts.1 h)
  | cons item items ih =>
    rcases item with e | ⟨k', v'⟩
    · rcases List.mem_cons.1 h with h | h
      · cases h
      · exact (ih h).imp_left (List.mem_cons_of_mem _)
    · induction ws with
      | nil =>
        rcases List.mem_cons.1 h with h | h
        · exact .inl (h ▸ List.mem_cons_self)
        · exact (ih h).imp_left (List.mem_cons_of_mem _)
      | cons w ws ihw =>
        have own (h : .ok (k, v) ∈ pendingPuts [w]) : (k, some v) ∈ w :: ws :=
          List.mem_cons.2 (.inl (List.mem_singleton.1 (mem_pendingPuts.1 h)))
        rw [overlay_cons_cons] at h
        split at h
        · rcases List.mem_append.1 h with h | h
          · exact .inr (own h)
          · exact (ihw h).imp_right (List.mem_cons_of_mem w)
        · split at h
          · rcases List.mem_append.1 h with h | h
            · exact .inr (own h)
            · exact (ih h).imp (List.mem_cons_of_mem _) (List.mem_cons_of_mem w)
          · rcases List.mem_cons.1 h with h | h
            · exact .inl (h ▸ List.mem_cons_self)
            · exact (ih h).imp_left (List.mem_cons_of_mem _)

/-- A scan yields pairs of its range only, also where the store fails in places. -/
theorem startsWith_of_mem_scan {s : Store} {start : Bytes} {items : List Scanned}
    (h : s.scan start = .ok items) {k v : Bytes} (hmem : .ok (k, v) ∈ items) :
    k.startsWith start = true := by
  induction s generalizing items with
  | base b =>
    rw [scan, Backend.guarded] at h
    split at h
    · cases h
    · cases h
      obtain ⟨e, he, hread⟩ := List.mem_map.1 hmem
      rw [Backend.guarded] at hread
      split at hread
      · cases hread
      · cases hread
        exact (mem_range.1 he).1
  | buffered w parent ih =>
    rw [scan] at h
    cases hparent : parent.scan start with
    | error e =>
      rw [hparent] at h
      cases h
    | ok below =>
      rw [hparent] at h
      cases h
      rcases mem_of_mem_overlay hmem with hbelow | hwrite
      · exact ih hparent hbelow
      · exact (mem_range.1 hwrite).1

/-- A store that never fails yields all pairs of a range. -/
theorem Reliable.mem_scan_iff {s : Store} (hs : s.Reliable) {start : Bytes} {items : List Scanned}
    (h : s.scan start = .ok items) {k v : Bytes} :
    .ok (k, v) ∈ items ↔ k.startsWith start = true ∧ s.content.get? k = some v := by
  cases (hs.scan start).symm.trans h
  rw [← mem_range]
  simp

end Store

namespace GrantKey

/-! ## Ranges -/

/-- The bytes `start` are in front of the keys of the grants that satisfy `p`, and of no other keys
that the ledger writes. -/
structure Delimits (start : Bytes) (p : GrantKey → Prop) : Prop where
  /-- Of the keys that can be read, the range holds those of the grants that satisfy `p`. -/
  front : ∀ b k, parse b = .ok k → (b.startsWith start = true ↔ p k)
  /-- A scan of the range comes across no record of another grant. -/
  apart : ∀ (s : Store) items, s.scan start = .ok items →
    ∀ b v k, .ok (b, v) ∈ items → parse b = .ok k → p k
  /-- In a store that never fails it comes across the records of all those grants. -/
  complete : ∀ (s : Store) items, s.Reliable → s.scan start = .ok items →
    ∀ k v, p k → s.content.get? k.toBytes = some v → .ok (k.toBytes, v) ∈ items
  /-- The key of the last header is not in the range. -/
  header : Chain.lastHeaderKey.startsWith start = false

theorem lastHeaderKey_notMem_allRange {start : Bytes} (h : allRange <+: start) :
    Chain.lastHeaderKey.startsWith start = false := by
  rw [← Bool.not_eq_true, Bytes.startsWith_iff]
  intro hstart
  have hall : Chain.lastHeaderKey.startsWith allRange = true :=
    Bytes.startsWith_iff.2 (h.trans hstart)
  exact absurd hall (by decide)

theorem delimits_of_prefix_iff {start : Bytes} {p : GrantKey → Prop} (hall : allRange <+: start)
    (h : ∀ k : GrantKey, start <+: k.toBytes ↔ p k) : Delimits start p := by
  have hfront : ∀ b k, parse b = .ok k → (b.startsWith start = true ↔ p k) := by
    intro b k hread
    rw [Bytes.startsWith_iff, ← parse_eq_ok_iff.1 hread, h]
  refine ⟨hfront, fun s items hscan b v k hmem hread => ?_, fun s items hs hscan k v hk hget => ?_,
    lastHeaderKey_notMem_allRange hall⟩
  · exact (hfront b k hread).1 (Store.startsWith_of_mem_scan hscan hmem)
  · exact (hs.mem_scan_iff hscan).2 ⟨Bytes.startsWith_iff.2 ((h k).2 hk), hget⟩

/-- The layout of keys is a faithful code for triples that keeps their order, and the ranges of a
grantee and of a pair delimit the grants of the grantee and of the pair. -/
theorem layout_faithful_and_ordered :
    (∀ b k, parse b = .ok k ↔ k.toBytes = b) ∧
      (∀ k l : GrantKey, k.toBytes < l.toBytes ↔ k.place < l.place) ∧
      (∀ grantee, Delimits (granteeRange grantee) fun k => k.grantee = grantee) ∧
      ∀ grantee granter, Delimits (pairRange grantee granter) fun k =>
        k.grantee = grantee ∧ k.granter = granter := by
  have hgrantee (a : Address) : allRange <+: granteeRange a := List.prefix_append _ _
  exact ⟨fun _ _ => parse_eq_ok_iff, fun _ _ => toBytes_lt_iff_place,
    fun a => delimits_of_prefix_iff (hgrantee a) fun _ => granteeRange_prefix_iff,
    fun a _ => delimits_of_prefix_iff ((hgrantee a).trans (List.prefix_append _ _)) fun _ =>
      pairRange_prefix_iff⟩

end GrantKey

end GrantLedger
