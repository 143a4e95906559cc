import GrantLedger.Proofs.Keeper

/-!
# What the sweep removes

Over a store without faults a sweep succeeds and removes exactly the records that can be read and
have expired. A record that cannot be read is never swept.
-/

namespace GrantLedger

theorem Pairs.get?_update_deletes (m : Pairs) (ks : List Bytes) (b : Bytes) :
    (m.update (ks.map fun k => (k, none))).get? b = if b ∈ ks then none else m.get? b := by
  induction ks generalizing m with
  | nil => rfl
  | cons k ks ih =>
    rw [List.map_cons, update_cons, ih, get?_put]
    by_cases hk : b = k
    · simp [hk]
    · simp [hk]

namespace GrantTable

/-- The record has expired; one that cannot be read has not. -/
def isStale (r : Registry) (now : Timestamp) (value : Bytes) : Bool :=
  match GrantRecord.decode r value with
  | .ok record => record.isExpired now
  | .error _ => false

variable (r : Registry) (now : Timestamp)

theorem staleKey?_eq (item : Bytes × Bytes) :
    staleKey? r now item = if isStale r now item.2 then some item.1 else none := by
  rw [staleKey?, isStale]
  cases GrantRecord.decode r item.2 <;> rfl

theorem staleKeys_eq (items : List (Bytes × Bytes)) :
    staleKeys r now (items.map .ok) = .ok (items.filterMap (staleKey? r now)) := by
  induction items with
  | nil => rfl
  | cons item items ih =>
    rw [List.map_cons, staleKeys, ih, List.filterMap_cons]
    cases staleKey? r now item <;> rfl

/-- The keys of the records that have expired. -/
def stale (m : Pairs) : List Bytes := (m.range GrantKey.allRange).filterMap (staleKey? r now)

theorem mem_stale {m : Pairs} {b : Bytes} :
    b ∈ stale r now m ↔
      b.startsWith GrantKey.allRange = true ∧ ∃ v, m.get? b = some v ∧ isStale r now v = true := by
  simp only [stale, List.mem_filterMap, staleKey?_eq, Option.ite_none_right_eq_some,
    Option.some.injEq]
  constructor
  · rintro ⟨⟨k, v⟩, hmem, hstale, rfl⟩
    obtain ⟨hstarts, hget⟩ := Store.mem_range.1 hmem
    exact ⟨hstarts, v, hget, hstale⟩
  · rintro ⟨hstarts, v, hget, hstale⟩
    exact ⟨(b, v), Store.mem_range.2 ⟨hstarts, hget⟩, hstale, rfl⟩

theorem deleteAll_eq {c : Context} (hc : c.Reliable) (ks : List Bytes) :
    deleteAll ks c =
      (.ok (), { c with store := c.store.putAll (ks.map fun k => (k, none)) }) := by
  induction ks generalizing c with
  | nil => rfl
  | cons k ks ih =>
    rw [deleteAll, Exec.delete, Exec.bind_ok (Exec.write_eq hc k none)]
    exact ih ((Context.Continues.put c k none).reliable hc)

end GrantTable

namespace Context

/-- The context after a sweep. -/
def sweep (c : Context) (r : Registry) (now : Timestamp) : Context :=
  { c with
    store := c.store.putAll ((GrantTable.stale r now c.store.content).map fun k => (k, none)) }

variable (c : Context) (r : Registry) (now : Timestamp)

theorem continues_sweep : c.Continues (c.sweep r now) := ⟨rfl, Store.sameBelow_putAll c.store _⟩

/-- A sweep removes the records that can be read and have expired, and nothing else. -/
theorem get?_content_sweep (b : Bytes) :
    (c.sweep r now).store.content.get? b =
      if b.startsWith GrantKey.allRange then
        (c.store.content.get? b).filter fun v => !GrantTable.isStale r now v
      else c.store.content.get? b := by
  rw [sweep, Store.content_putAll, Pairs.get?_update_deletes]
  by_cases hmem : b ∈ GrantTable.stale r now c.store.content
  · obtain ⟨hstarts, v, hget, hstale⟩ := (GrantTable.mem_stale r now).1 hmem
    rw [if_pos hmem, if_pos hstarts, hget, Option.filter_some, hstale]
    rfl
  · rw [if_neg hmem]
    split
    · next hstarts =>
      cases hget : c.store.content.get? b with
      | none => rfl
      | some v =>
        have hfresh : GrantTable.isStale r now v = false := by
          rw [← Bool.not_eq_true]
          exact fun hstale => hmem ((GrantTable.mem_stale r now).2 ⟨hstarts, v, hget, hstale⟩)
        rw [Option.filter_some, hfresh]
        rfl
    · rfl

end Context

theorem GrantTable.pruneExpired_eq {c : Context} (hc : c.Reliable) (r : Registry)
    (now : Timestamp) :
    pruneExpired r now c = (.ok (stale r now c.store.content).length, c.sweep r now) := by
  rw [pruneExpired, Exec.bind_ok (Exec.scan_eq hc _), Exec.ofStore, staleKeys_eq]
  rw [Except.mapError, Exec.bind_ok (Exec.ofExcept_apply _ c), Exec.bind_ok (deleteAll_eq hc _)]
  rfl

end GrantLedger
