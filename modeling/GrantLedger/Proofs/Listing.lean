import GrantLedger.Genesis
import GrantLedger.Query
import GrantLedger.Proofs.Sweep

/-!
# What listings return

In a well-formed table every record reads as a grant and is filed under the key of that grant
(`GrantTable.WellFormed`). A scan of it then lists grants and no failures, in cursor order and each
once (`GrantTable.listing`). So a page can only be refused for its request, and the expired grants
that it came across are there to be removed (`Query.page_eq`).
-/

namespace GrantLedger

theorem Bytes.append_lt_append_iff {p a b : Bytes} : p ++ a < p ++ b ↔ a < b := by
  induction p with
  | nil => rfl
  | cons x p ih =>
    rw [List.cons_append, List.cons_append, List.cons_lt_cons_iff, ih]
    simp

/-! ## Walks over a scan -/

namespace Paging

variable {α β : Type} (req : PageRequest) (filter : Bytes → α → Except Error (Option β))

/-- A walk skips an item, goes on after it, or ends with it, whatever comes later. An item that the
filter drops changes nothing about how it goes on. -/
theorem walk_cons (taken : List β) (next : Option Bytes) (matched : Nat) (item : Bytes × α) :
    (∀ items, walk req filter taken next matched (.ok item :: items) =
      walk req filter taken next matched items) ∨
    (∃ taken' next' matched', (filter item.1 item.2 = .ok none →
        taken' = taken ∧ next' = next ∧ matched' = matched) ∧
      ∀ items, walk req filter taken next matched (.ok item :: items) =
        { walk req filter taken' next' matched' items with
          examined := item :: (walk req filter taken' next' matched' items).examined }) ∨
    ∃ outcome, filter item.1 item.2 ≠ .ok none ∧
      (∀ kept, filter item.1 item.2 = .ok kept → ∃ page, outcome = .ok page) ∧
      ∀ items, walk req filter taken next matched (.ok item :: items) =
        ⟨outcome, [item], items⟩ := by
  obtain ⟨cursor, v⟩ := item
  dsimp only
  by_cases hskip : req.skips cursor = true
  · exact .inl fun items => by rw [walk, if_pos hskip]
  · refine .inr ?_
    cases hkept : filter cursor v with
    | error e =>
      refine .inr ⟨.error e, nofun, nofun, fun items => ?_⟩
      rw [walk, if_neg hskip, hkept]
    | ok kept =>
      cases kept with
      | none =>
        refine .inl ⟨taken, next, matched, fun _ => ⟨rfl, rfl, rfl⟩, fun items => ?_⟩
        rw [walk, if_neg hskip, hkept]
      | some out =>
        by_cases hoffset : matched < req.offset.toNat
        · refine .inl ⟨taken, next, matched + 1, nofun, fun items => ?_⟩
          rw [walk, if_neg hskip, hkept]
          simp only [if_pos hoffset]
        · by_cases hroom : taken.length < req.size
          · refine .inl ⟨taken ++ [out], next, matched + 1, nofun, fun items => ?_⟩
            rw [walk, if_neg hskip, hkept]
            simp only [if_neg hoffset, if_pos hroom]
          · by_cases hcounts : req.counts = true
            · refine .inl ⟨taken, next.orElse fun _ => some cursor, matched + 1, nofun,
                fun items => ?_⟩
              rw [walk, if_neg hskip, hkept]
              simp only [if_neg hoffset, if_neg hroom, if_pos hcounts]
            · refine .inr ⟨.ok ⟨taken, some cursor, none⟩, nofun, fun _ _ => ⟨_, rfl⟩,
                fun items => ?_⟩
              rw [walk, if_neg hskip, hkept]
              simp only [if_neg hoffset, if_neg hroom, if_neg hcounts]

/-- The filter is asked about items of the scan, in their order. -/
theorem examined_sublist (taken : List β) (next : Option Bytes) (matched : Nat)
    (items : List (Bytes × α)) :
    (walk req filter taken next matched (items.map .ok)).examined.Sublist items := by
  induction items generalizing taken next matched with
  | nil => exact .slnil
  | cons item items ih =>
    rw [List.map_cons]
    rcases walk_cons req filter taken next matched item with
      hskip | ⟨taken', next', matched', -, hgo⟩ | ⟨outcome, -, -, hstop⟩
    · rw [hskip]
      exact (ih _ _ _).cons _
    · rw [hgo]
      exact (ih _ _ _).cons_cons _
    · rw [hstop]
      exact (List.nil_sublist items).cons_cons _

/-- Where neither the scan nor the filter fails, there is a page. -/
theorem exists_outcome {items : List (Bytes × α)}
    (hfilter : ∀ item ∈ items, ∃ kept, filter item.1 item.2 = .ok kept) (taken : List β)
    (next : Option Bytes) (matched : Nat) :
    ∃ page, (walk req filter taken next matched (items.map .ok)).outcome = .ok page := by
  induction items generalizing taken next matched with
  | nil => exact ⟨_, rfl⟩
  | cons item items ih =>
    have ih := ih fun item' hmem => hfilter item' (List.mem_cons_of_mem item hmem)
    rw [List.map_cons]
    rcases walk_cons req filter taken next matched item with
      hskip | ⟨taken', next', matched', -, hgo⟩ | ⟨outcome, -, htotal, hstop⟩
    · rw [hskip]
      exact ih _ _ _
    · rw [hgo]
      exact ih _ _ _
    · obtain ⟨kept, hkept⟩ := hfilter item List.mem_cons_self
      rw [hstop]
      exact htotal kept hkept

/-- Items that the filter drops make no difference to the page. -/
theorem walk_filter (keep : Bytes × α → Bool) {items : List (Bytes × α)}
    (hdrop : ∀ item ∈ items, keep item = false → filter item.1 item.2 = .ok none)
    (taken : List β) (next : Option Bytes) (matched : Nat) :
    (walk req filter taken next matched ((items.filter keep).map .ok)).outcome =
        (walk req filter taken next matched (items.map .ok)).outcome ∧
      (walk req filter taken next matched ((items.filter keep).map .ok)).examined =
        (walk req filter taken next matched (items.map .ok)).examined.filter keep := by
  induction items generalizing taken next matched with
  | nil => exact ⟨rfl, rfl⟩
  | cons item items ih =>
    have ih := ih fun item' hmem => hdrop item' (List.mem_cons_of_mem item hmem)
    rw [List.filter_cons, List.map_cons]
    rcases walk_cons req filter taken next matched item with
      hskip | ⟨taken', next', matched', hsame, hgo⟩ | ⟨outcome, hkept, -, hstop⟩
    · rw [hskip]
      split
      · rw [List.map_cons, hskip]
        exact ih _ _ _
      · exact ih _ _ _
    · rw [hgo]
      dsimp only
      rw [List.filter_cons]
      split
      · rw [List.map_cons, hgo]
        exact ⟨(ih _ _ _).1, congrArg (item :: ·) (ih _ _ _).2⟩
      · next hkeep =>
        obtain ⟨rfl, rfl, rfl⟩ :=
          hsame (hdrop item List.mem_cons_self (Bool.eq_false_iff.2 hkeep))
        exact ih _ _ _
    · split
      · next hkeep =>
        rw [List.map_cons, hstop, hstop]
        refine ⟨rfl, ?_⟩
        dsimp only
        rw [List.filter_cons_of_pos hkeep, List.filter_nil]
      · next hkeep =>
        exact absurd (hdrop item List.mem_cons_self (Bool.eq_false_iff.2 hkeep)) hkept

end Paging

theorem paginate_filter {α β : Type} (req : Option PageRequest)
    (filter : Bytes → α → Except Error (Option β)) (keep : Bytes × α → Bool)
    {items : List (Bytes × α)}
    (hdrop : ∀ item ∈ items, keep item = false → filter item.1 item.2 = .ok none) :
    (paginate req filter ((items.filter keep).map .ok)).outcome =
        (paginate req filter (items.map .ok)).outcome ∧
      (paginate req filter ((items.filter keep).map .ok)).examined =
        (paginate req filter (items.map .ok)).examined.filter keep := by
  rw [paginate, paginate]
  split
  · exact ⟨rfl, rfl⟩
  · exact Paging.walk_filter _ filter keep hdrop [] none 0

/-- Grants that have expired make no difference to a genesis. -/
theorem Genesis.ofListed_filter (now : Timestamp) (keep : Bytes × Grant → Bool)
    {items : List (Bytes × Grant)}
    (hdrop : ∀ item ∈ items, keep item = false → item.2.isExpired now = true) :
    ofListed now ((items.filter keep).map .ok) = ofListed now (items.map .ok) := by
  induction items with
  | nil => rfl
  | cons item items ih =>
    have ih := ih fun item' hmem => hdrop item' (List.mem_cons_of_mem item hmem)
    rw [List.filter_cons, List.map_cons, ofListed]
    split
    · rw [List.map_cons, ofListed, ih]
    · next hkeep =>
      have hexp := hdrop item List.mem_cons_self (Bool.eq_false_iff.2 hkeep)
      rw [if_pos hexp, ih]

/-! ## Well-formed tables -/

/-- The pair is the record of the grant: it reads as the grant and is under the grant's key. -/
structure Grant.Recorded (r : Registry) (g : Grant) (b v : Bytes) : Prop where
  key_eq : b = g.key.toBytes
  reads : decode r g.granter g.grantee v = .ok g

namespace GrantTable

variable {r : Registry} {m : Pairs} {start cursor : Bytes} {g : Grant} {c : Context}

/-- Every pair in the namespace of grants is the record of a grant. -/
def WellFormed (r : Registry) (m : Pairs) : Prop :=
  ∀ b v, m.get? b = some v → b.startsWith GrantKey.allRange = true → ∃ g, Grant.Recorded r g b v

theorem wellFormed_empty (r : Registry) : WellFormed r ∅ := fun _ _ hget => nomatch hget

theorem WellFormed.put_record (hm : WellFormed r m) {v : Bytes}
    (hg : g.Recorded r g.key.toBytes v) : WellFormed r (m.put g.key.toBytes (some v)) := by
  intro b v' hget hall
  by_cases hb : b = g.key.toBytes
  · rw [hb, Pairs.get?_put_self] at hget
    cases hget
    exact ⟨g, hb ▸ hg⟩
  · rw [Pairs.get?_put_ne _ _ hb] at hget
    exact hm b v' hget hall

theorem recordAt_key_iff :
    recordAt r m g.key = .ok (some g) ↔
      ∃ v, m.get? g.key.toBytes = some v ∧ g.Recorded r g.key.toBytes v := by
  rw [recordAt_eq_some_iff]
  exact exists_congr fun v => and_congr_right fun _ => ⟨fun h => ⟨rfl, h⟩, fun h => h.reads⟩

theorem WellFormed.recordAt_cases (hm : WellFormed r m) (k : GrantKey) :
    recordAt r m k = .ok none ∨ ∃ g, g.key = k ∧ recordAt r m k = .ok (some g) := by
  cases hget : m.get? k.toBytes with
  | none => exact .inl (recordAt_eq_none_iff.2 hget)
  | some v =>
    obtain ⟨g, hg⟩ := hm _ v hget k.startsWith_toBytes
    obtain rfl := GrantKey.toBytes_injective hg.key_eq
    exact .inr ⟨g, rfl, recordAt_key_iff.2 ⟨v, hget, hg⟩⟩

theorem WellFormed.key_eq_of_recordAt (hm : WellFormed r m) {k : GrantKey}
    (h : recordAt r m k = .ok (some g)) : g.key = k := by
  rcases hm.recordAt_cases k with hnone | ⟨g', hkey, hrec⟩
  · rw [h] at hnone
    cases hnone
  · rw [h] at hrec
    cases hrec
    exact hkey

theorem readItem_eq (r : Registry) (start b v : Bytes) :
    readItem r start (.ok (b, v)) =
      match GrantKey.parse b with
      | .error e => .error (.corruptRecord e)
      | .ok k => (Grant.decode r k.granter k.grantee v).map fun g => (b.drop start.length, g) := by
  change ((GrantKey.parse b).mapError Error.corruptRecord >>= fun k =>
    Grant.decode r k.granter k.grantee v >>= fun g => pure (b.drop start.length, g)) = _
  cases GrantKey.parse b with
  | error e => rfl
  | ok k =>
    change (Grant.decode r k.granter k.grantee v >>= fun g => pure (b.drop start.length, g)) = _
    dsimp only
    cases Grant.decode r k.granter k.grantee v <;> rfl

theorem readItem_of_recorded {b v : Bytes} (h : g.Recorded r b v) (start : Bytes) :
    readItem r start (.ok (b, v)) = .ok (b.drop start.length, g) := by
  obtain ⟨rfl, hread⟩ := h
  rw [readItem_eq, GrantKey.parse_toBytes]
  dsimp only
  rw [show Grant.decode r g.key.granter g.key.grantee v = .ok g from hread]
  rfl

theorem cursor_of_readItem {b v : Bytes} {x : Bytes × Grant}
    (h : (readItem r start (.ok (b, v))).toOption = some x) : x.1 = b.drop start.length := by
  rw [readItem_eq] at h
  split at h
  · cases h
  · next k _ =>
    cases hread : Grant.decode r k.granter k.grantee v with
    | error e =>
      rw [hread] at h
      cases h
    | ok g =>
      rw [hread] at h
      cases h
      rfl

/-- The grants of the range whose keys begin with `start`, by cursor. -/
def listing (r : Registry) (start : Bytes) (m : Pairs) : List (Bytes × Grant) :=
  (m.range start).filterMap fun item => (readItem r start (.ok item)).toOption

theorem list_eq (hc : c.Reliable) (r : Registry) (start : Bytes) :
    list r start c =
      (.ok ((c.store.content.range start).map fun item => readItem r start (.ok item)), c) := by
  rw [list, Exec.bind_ok (Exec.scan_eq hc start), List.map_map]
  rfl

/-- In a well-formed table a scan lists grants and no failures. -/
theorem WellFormed.list_eq (hc : c.Reliable) (hm : WellFormed r c.store.content)
    (hstart : GrantKey.allRange <+: start) :
    list r start c = (.ok ((listing r start c.store.content).map .ok), c) := by
  have hread : ∀ item ∈ c.store.content.range start, ∃ x,
      readItem r start (.ok item) = .ok x := by
    rintro ⟨b, v⟩ hmem
    obtain ⟨hstarts, hget⟩ := Store.mem_range.1 hmem
    have hall := hstart.trans (Bytes.startsWith_iff.1 hstarts)
    obtain ⟨g, hg⟩ := hm b v hget (Bytes.startsWith_iff.2 hall)
    exact ⟨_, readItem_of_recorded hg start⟩
  rw [GrantTable.list_eq hc, listing]
  refine congrArg (fun items => (Except.ok items, c)) ?_
  generalize c.store.content.range start = items at hread
  induction items with
  | nil => rfl
  | cons item items ih =>
    obtain ⟨x, hx⟩ := hread item List.mem_cons_self
    have ih := ih fun item' h => hread item' (List.mem_cons_of_mem item h)
    rw [List.map_cons, List.filterMap_cons, ih, hx]
    rfl

/-- Listed are the grants whose keys begin with `start`, each by the rest of its key. -/
theorem WellFormed.mem_listing_iff (hm : WellFormed r m) (hstart : GrantKey.allRange <+: start) :
    (cursor, g) ∈ listing r start m ↔
      start ++ cursor = g.key.toBytes ∧ recordAt r m g.key = .ok (some g) := by
  simp only [listing, List.mem_filterMap, recordAt_key_iff]
  constructor
  · rintro ⟨⟨b, v⟩, hmem, hread⟩
    obtain ⟨hstarts, hget⟩ := Store.mem_range.1 hmem
    have hprefix := Bytes.startsWith_iff.1 hstarts
    obtain ⟨g', hg'⟩ := hm b v hget (Bytes.startsWith_iff.2 (hstart.trans hprefix))
    rw [readItem_of_recorded hg'] at hread
    cases hread
    obtain ⟨rest, rfl⟩ := hprefix
    rw [List.drop_left, ← hg'.key_eq]
    exact ⟨rfl, v, hget, hg'⟩
  · rintro ⟨hcursor, v, hget, hg⟩
    refine ⟨(g.key.toBytes, v), Store.mem_range.2 ⟨?_, hget⟩, ?_⟩
    · exact Bytes.startsWith_iff.2 ⟨cursor, hcursor⟩
    · rw [readItem_of_recorded hg, ← hcursor, List.drop_left]
      rfl

theorem sorted_listing (r : Registry) (start : Bytes) (m : Pairs) :
    (listing r start m).Pairwise fun a b => a.1 < b.1 := by
  rw [listing, List.pairwise_filterMap]
  refine (Store.sorted_range m start).imp_of_mem fun {a b} ha hb hlt x hx y hy => ?_
  obtain ⟨cursor, hcursor⟩ := Bytes.startsWith_iff.1 (Store.mem_range.1 ha).1
  obtain ⟨cursor', hcursor'⟩ := Bytes.startsWith_iff.1 (Store.mem_range.1 hb).1
  rw [← hcursor, ← hcursor', Bytes.append_lt_append_iff] at hlt
  rw [cursor_of_readItem hx, cursor_of_readItem hy, ← hcursor, ← hcursor', List.drop_left,
    List.drop_left]
  exact hlt

/-- A listing is determined by what it lists. -/
theorem eq_listing {l : List (Bytes × Grant)} (hl : l.Pairwise fun a b => a.1 < b.1)
    (h : ∀ cursor g, (cursor, g) ∈ l ↔ (cursor, g) ∈ listing r start m) :
    l = listing r start m := by
  have hmaps : (⟨l, hl⟩ : SortedMap Bytes Grant) = ⟨_, sorted_listing r start m⟩ := by
    refine SortedMap.ext_get? fun cursor => Option.ext fun g => ?_
    rw [← SortedMap.mem_entries_iff, ← SortedMap.mem_entries_iff]
    exact h cursor g
  exact congrArg SortedMap.entries hmaps

/-- Listed grants are in the order of their keys. -/
theorem WellFormed.sorted_keys (hm : WellFormed r m) (hstart : GrantKey.allRange <+: start) :
    (listing r start m).Pairwise fun a b => a.2.key.toBytes < b.2.key.toBytes := by
  refine (sorted_listing r start m).imp_of_mem fun {a b} ha hb hlt => ?_
  rw [← ((hm.mem_listing_iff hstart).1 ha).1, ← ((hm.mem_listing_iff hstart).1 hb).1,
    Bytes.append_lt_append_iff]
  exact hlt

theorem WellFormed.nodup_keys (hm : WellFormed r m) (hstart : GrantKey.allRange <+: start) :
    (((listing r start m).map (·.2)).map Grant.key).Nodup := by
  rw [List.Nodup, List.pairwise_map, List.pairwise_map]
  refine (hm.sorted_keys hstart).imp fun hlt hkey => ?_
  rw [hkey] at hlt
  exact Std.lt_irrefl hlt

end GrantTable

/-! ## Pages -/

/-- The context after some keys have been removed. -/
def Context.erase (c : Context) (ks : List Bytes) : Context :=
  { c with store := c.store.putAll (ks.map fun k => (k, none)) }

namespace Context

theorem continues_erase (c : Context) (ks : List Bytes) : c.Continues (c.erase ks) :=
  ⟨rfl, Store.sameBelow_putAll c.store _⟩

theorem get?_content_erase (c : Context) (ks : List Bytes) (b : Bytes) :
    (c.erase ks).store.content.get? b = if b ∈ ks then none else c.store.content.get? b := by
  rw [erase, Store.content_putAll, Pairs.get?_update_deletes]

end Context

namespace Query

/-- Grants that are there and have different keys can be removed one after the other. -/
theorem removeAll_eq {c : Context} (hc : c.Reliable) {gs : List Grant}
    (hnodup : (gs.map Grant.key).Nodup)
    (hbound : ∀ g ∈ gs, ∃ v, c.store.content.get? g.key.toBytes = some v) :
    removeAll gs c = (.ok (), c.erase (gs.map fun g => g.key.toBytes)) := by
  induction gs generalizing c with
  | nil => rfl
  | cons g gs ih =>
    obtain ⟨v, hget⟩ := hbound g List.mem_cons_self
    rw [removeAll, Exec.bind_ok (GrantTable.delete_of_get? hc hget)]
    have hput := Context.Continues.put c g.key.toBytes none
    refine ih (hput.reliable hc) (List.nodup_cons.1 hnodup).2 fun g' hg' => ?_
    have hne : g'.key ≠ g.key := by
      intro heq
      exact (List.nodup_cons.1 hnodup).1 (heq ▸ List.mem_map_of_mem hg')
    rw [Context.content_put, Pairs.get?_put_ne _ _ (mt GrantKey.toBytes_injective hne)]
    exact hbound g' (List.mem_cons_of_mem g hg')

/-- The expired grants that a page comes across. -/
def expired (req : Option PageRequest) (now : Timestamp) (items : List (Bytes × Grant)) :
    List Grant :=
  ((paginate req (unexpired now) (items.map .ok)).examined.map (·.2)).filter
    fun g => g.isExpired now

theorem expired_sublist (req : Option PageRequest) (now : Timestamp)
    (items : List (Bytes × Grant)) : (expired req now items).Sublist (items.map (·.2)) := by
  refine List.filter_sublist.trans (List.Sublist.map _ ?_)
  rw [paginate]
  split
  · exact List.nil_sublist items
  · exact Paging.examined_sublist _ _ _ _ _ items

/-- A page of a listing removes the expired grants that it came across. It is refused only if the
request gives both a cursor and an offset. -/
theorem page_eq {r : Registry} {c : Context} (hc : c.Reliable)
    (hm : GrantTable.WellFormed r c.store.content) {start : Bytes}
    (hstart : GrantKey.allRange <+: start) (req : Option PageRequest) :
    let items := GrantTable.listing r start c.store.content
    let outcome := (paginate req (unexpired c.header.time) (items.map .ok)).outcome
    (∃ p, outcome = .ok p ∧ page (items.map .ok) req c =
      (.ok p, c.erase ((expired req c.header.time items).map fun g => g.key.toBytes))) ∨
    (outcome = .error .cursorWithOffset ∧
      page (items.map .ok) req c = (.error .cursorWithOffset, c)) := by
  intro items outcome
  rw [page, Exec.bind_ok (Exec.blockTime_eq c)]
  by_cases hboth : ((req.getD .first).key.isSome && (req.getD .first).offset != 0) = true
  · have hrefused : outcome = .error .cursorWithOffset := by
      dsimp only [outcome]
      rw [paginate, if_pos hboth]
    have hread : Exec.ofExcept outcome c = (.error .cursorWithOffset, c) := by rw [hrefused]; rfl
    exact .inr ⟨hrefused, Exec.bind_error hread⟩
  · obtain ⟨p, hp⟩ : ∃ p, outcome = .ok p := by
      dsimp only [outcome]
      rw [paginate, if_neg hboth]
      exact Paging.exists_outcome _ _ (fun _ _ => ⟨_, rfl⟩) _ _ _
    -- What the page came across is listed, so that it is there and has different keys.
    have hlisted := expired_sublist req c.header.time items
    have hremove := removeAll_eq hc ((hm.nodup_keys hstart).sublist (hlisted.map Grant.key))
      fun g hg => ?_
    · have hread : Exec.ofExcept outcome c = (.ok p, c) := by rw [hp]; rfl
      exact .inl ⟨p, hp, (Exec.bind_ok hread).trans (Exec.bind_ok hremove)⟩
    · obtain ⟨⟨cursor, g⟩, hmem, rfl⟩ := List.mem_map.1 (hlisted.subset hg)
      have hrec := ((hm.mem_listing_iff hstart).1 hmem).2
      obtain ⟨v, hget, -⟩ := GrantTable.recordAt_key_iff.1 hrec
      exact ⟨v, hget⟩

/-! ## Requests -/

/-- What can be asked of a table of grants. -/
inductive Request where
  | authorization (granter grantee method : String)
  | authorizations (granter grantee : String) (req : Option PageRequest)
  | granteeGrants (grantee : String) (req : Option PageRequest)
  /-- All grants, packed as a genesis. -/
  | genesis

/-- What a request that succeeds answers. -/
inductive Answer where
  | grant (g : Grant)
  | page (p : Page Grant)
  | genesis (g : Genesis)
deriving DecidableEq

/-- Answer a request from the store at hand. -/
def Request.serve (r : Registry) : Request → Exec Answer
  | authorization granter grantee method => do
    return .grant (← Query.authorization r granter grantee method)
  | authorizations granter grantee req => do
    return .page (← Query.authorizations r granter grantee req)
  | granteeGrants grantee req => do return .page (← Query.granteeGrants r grantee req)
  | genesis => do return .genesis (← Genesis.exported r)

end Query

end GrantLedger
