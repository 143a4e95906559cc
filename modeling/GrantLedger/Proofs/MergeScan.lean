import Mathlib.Tactic.Common
import GrantLedger.Proofs.StoreContent

/-!
# Scans that fail in places

A buffered store is scanned by a merge: it peeks at what is left of the parent's scan and at the
pending writes of the range, and each round uses up the front of one of them or of both
(`MergeScan.round`). A failed item has no key, so it is passed on before any write is compared with
it; a delete is used up without an item for it. What the merge yields, pulled for one item after the
other until it ends, is what `overlay` lays out as a list (`MergeScan.yields_items`).

A failed item therefore counts for nothing else. The failures come out as they went in, between the
same pairs as before as far as nothing is written over these, and the pairs are those that the
writes make of the readable pairs (`Store.merge_tolerates_failures`).
-/

namespace GrantLedger

/-- The pairs among the items of a scan. -/
def pairsOf (items : List Scanned) : List (Bytes × Bytes) := items.filterMap Except.toOption

/-- The failures among the items of a scan. -/
def failuresOf (items : List Scanned) : List StoreError :=
  items.filterMap fun item => match item with
    | .error e => some e
    | .ok _ => none

/-- The item is a failure, or a pair whose key satisfies `keep`. -/
def Scanned.passes (keep : Bytes → Bool) : Scanned → Bool
  | .error _ => true
  | .ok pair => keep pair.1

/-- Nothing is written at the key. -/
def untouched (writes : List (Bytes × Option Bytes)) (key : Bytes) : Bool :=
  writes.all fun w => w.1 ≠ key

theorem pairsOf_cons_ok (pair : Bytes × Bytes) (items : List Scanned) :
    pairsOf (.ok pair :: items) = pair :: pairsOf items := rfl

theorem pairsOf_append (items items' : List Scanned) :
    pairsOf (items ++ items') = pairsOf items ++ pairsOf items' := List.filterMap_append

theorem pairsOf_map_ok (pairs : List (Bytes × Bytes)) : pairsOf (pairs.map .ok) = pairs := by
  induction pairs with
  | nil => rfl
  | cons pair pairs ih => rw [List.map_cons, pairsOf_cons_ok, ih]

theorem failuresOf_filter_passes (keep : Bytes → Bool) (items : List Scanned) :
    failuresOf (items.filter (Scanned.passes keep)) = failuresOf items := by
  rw [failuresOf, failuresOf, List.filterMap_filter]
  refine congrArg (List.filterMap · items) (funext fun item => ?_)
  cases item with
  | error e => rfl
  | ok pair => exact ite_self none

/-! ## Laying writes over items -/

theorem pairsOf_pendingPuts (ws : List (Bytes × Option Bytes)) :
    (pairsOf (pendingPuts ws)).map .ok = pendingPuts ws := by
  rw [Store.pendingPuts_eq, pairsOf_map_ok]

/-- The pairs that result do not depend on the failures. -/
theorem overlay_pairsOf (items : List Scanned) (ws : List (Bytes × Option Bytes)) :
    overlay ((pairsOf items).map .ok) ws = (pairsOf (overlay items ws)).map .ok := by
  induction items generalizing ws with
  | nil => exact (pairsOf_pendingPuts ws).symm
  | cons item items ih =>
    obtain e | ⟨k, v⟩ := item
    · exact ih ws
    · rw [pairsOf_cons_ok, List.map_cons, overlay, overlay, pairsOf_append, List.map_append,
        pairsOf_pendingPuts]
      congr 1
      cases ws.dropWhile fun w => w.1 < k with
      | nil => rw [ih, pairsOf_cons_ok, List.map_cons]
      | cons w later =>
        dsimp only
        split
        · rw [ih, pairsOf_append, List.map_append, pairsOf_pendingPuts]
        · rw [ih, pairsOf_cons_ok, List.map_cons]

/-- Over readable pairs in key order, the pairs that result are those after the writes. -/
theorem pairsOf_overlay {items : List Scanned} {m : Pairs} (hm : pairsOf items = m.entries)
    (w : WriteSet) : pairsOf (overlay items w.entries) = (m.update w.entries).entries := by
  obtain ⟨zs, hzs, hlaid⟩ := Store.exists_laid m.sorted w.sorted
  have hpairs : pairsOf (overlay items w.entries) = zs := by
    rw [← pairsOf_map_ok (pairsOf _), ← overlay_pairsOf, hm, hzs, pairsOf_map_ok]
  rw [hpairs]
  refine Store.eq_of_mem_iff hlaid.sorted (SortedMap.sorted _) fun k v => ?_
  rw [hlaid.mem_iff, SortedMap.mem_entries_iff, SortedMap.mem_entries_iff,
    SortedMap.mem_entries_iff, Pairs.get?_update_entries]
  cases hk : w.get? k with
  | none => simp [SortedMap.mem_entries_iff, hk]
  | some o => simp [SortedMap.mem_entries_iff, hk]

theorem filter_passes_pendingPuts {keep : Bytes → Bool} {ws : List (Bytes × Option Bytes)}
    (hkeep : ∀ w ∈ ws, keep w.1 = false) :
    (pendingPuts ws).filter (Scanned.passes keep) = [] := by
  rw [List.filter_eq_nil_iff]
  intro item hitem
  rw [Store.pendingPuts_eq, List.mem_map] at hitem
  obtain ⟨⟨k, v⟩, hput, rfl⟩ := hitem
  simp [Scanned.passes, hkeep _ (Store.mem_putsOf.1 hput)]

/-- Failures, and pairs at whose key nothing is written, stay as they are. -/
theorem filter_passes_overlay {keep : Bytes → Bool} (items : List Scanned)
    {ws : List (Bytes × Option Bytes)} (hkeep : ∀ w ∈ ws, keep w.1 = false) :
    (overlay items ws).filter (Scanned.passes keep) = items.filter (Scanned.passes keep) := by
  induction items generalizing ws with
  | nil => exact filter_passes_pendingPuts hkeep
  | cons item items ih =>
    obtain e | ⟨k, v⟩ := item
    · rw [overlay, List.filter_cons, List.filter_cons, ih hkeep]
    · have hbefore : ∀ w ∈ ws.takeWhile fun w => w.1 < k, keep w.1 = false :=
        fun w hw => hkeep w (List.takeWhile_subset _ hw)
      have hafter : ∀ w ∈ ws.dropWhile fun w => w.1 < k, keep w.1 = false :=
        fun w hw => hkeep w (List.dropWhile_subset _ hw)
      rw [overlay, List.filter_append, filter_passes_pendingPuts hbefore, List.nil_append]
      cases hlater : ws.dropWhile fun w => w.1 < k with
      | nil => 
        dsimp only
        rw [List.filter_cons, List.filter_cons, ih (by simp)]
      | cons w later =>
        rw [hlater] at hafter
        have hw : ∀ u ∈ [w], keep u.1 = false := by simpa using hafter w List.mem_cons_self
        dsimp only
        split
        · next hkey =>
          -- The pair is written over, so it is not kept.
          have hdrop : keep k = false := hkey ▸ hw w (by simp)
          rw [List.filter_append, filter_passes_pendingPuts hw, List.nil_append,
            ih (fun u hu => hafter u (List.mem_cons_of_mem _ hu)), List.filter_cons]
          simp [Scanned.passes, hdrop]
        · rw [List.filter_cons, List.filter_cons, ih hafter]

/-! ## The merge -/

/-- Where a merge stands: what is left of the parent's scan, and of the pending writes. -/
structure MergeScan where
  /-- The items to come from the parent. -/
  parent : List Scanned
  /-- The writes to come, in key order. -/
  writes : List (Bytes × Option Bytes)

namespace MergeScan

/-- What one round of a merge comes to. -/
inductive Round where
  /-- Both sides are used up. -/
  | done
  /-- Something was used up without an item for it. -/
  | pass (rest : MergeScan)
  /-- An item comes out. -/
  | yield (item : Scanned) (rest : MergeScan)

/-- The round that uses up a write: a put comes out, a delete does not. -/
def Round.ofWrite (w : Bytes × Option Bytes) (rest : MergeScan) : Round :=
  match w.2 with
  | some v => .yield (.ok (w.1, v)) rest
  | none => .pass rest

/-- One round: a failed item comes out, and so does a pair whose key is below that of the front
write or that is left without one. Otherwise the front write is used up, and with it a pair of its
key. -/
def round : MergeScan → Round
  | ⟨[], []⟩ => .done
  | ⟨item :: items, []⟩ => .yield item ⟨items, []⟩
  | ⟨.error e :: items, w :: ws⟩ => .yield (.error e) ⟨items, w :: ws⟩
  | ⟨[], w :: ws⟩ => .ofWrite w ⟨[], ws⟩
  | ⟨.ok (k, v) :: items, w :: ws⟩ =>
    if w.1 < k then .ofWrite w ⟨.ok (k, v) :: items, ws⟩
    else if w.1 = k then .ofWrite w ⟨items, ws⟩
    else .yield (.ok (k, v)) ⟨items, w :: ws⟩

/-- What is left after a round, if the merge has not ended. -/
def Round.rest? : Round → Option MergeScan
  | done => none
  | pass rest => some rest
  | yield _ rest => some rest

theorem Round.rest?_ofWrite (w : Bytes × Option Bytes) (rest : MergeScan) :
    (ofWrite w rest).rest? = some rest := by
  unfold ofWrite
  split <;> rfl

/-- How much is left, on both sides together. -/
def size (m : MergeScan) : Nat := m.parent.length + m.writes.length

/-- Every round uses something up. -/
theorem size_lt_of_round {m rest : MergeScan} (h : m.round.rest? = some rest) :
    rest.size < m.size := by
  obtain ⟨items, ws⟩ := m
  rcases items with _ | ⟨item, items⟩ <;> rcases ws with _ | ⟨w, ws⟩
  · cases h
  · rw [round, Round.rest?_ofWrite] at h
    cases h
    simp [size]
  · cases h
    simp [size]
  · obtain e | ⟨k, v⟩ := item
    · cases h
      simp [size]
    · rw [round] at h
      split_ifs at h
      · rw [Round.rest?_ofWrite] at h
        cases h
        simp [size]
      · rw [Round.rest?_ofWrite] at h
        cases h
        simp only [size, List.length_cons]
        omega
      · cases h
        simp [size]

/-- The next item, and where the merge then stands; nothing if it has ended. Rounds without an item
are repeated. -/
def next (m : MergeScan) : Option (Scanned × MergeScan) :=
  match _h : m.round with
  | .done => none
  | .pass rest => rest.next
  | .yield item rest => some (item, rest)
termination_by m.size
decreasing_by exact size_lt_of_round (by rw [_h, Round.rest?])

theorem next_eq (m : MergeScan) :
    m.next = match m.round with
      | .done => none
      | .pass rest => rest.next
      | .yield item rest => some (item, rest) := by
  rw [next]
  split <;> rename_i hround <;> rw [hround]

/-- Pulled for one item after the other, the merge yields these and then ends. -/
inductive Yields : MergeScan → List Scanned → Prop
  | ended {m : MergeScan} (h : m.next = none) : m.Yields []
  | pulled {m rest : MergeScan} {item : Scanned} {items : List Scanned}
      (h : m.next = some (item, rest)) (hrest : rest.Yields items) : m.Yields (item :: items)

theorem Yields.of_next_eq {m m' : MergeScan} {items : List Scanned} (h : m.next = m'.next)
    (hm : m.Yields items) : m'.Yields items := by
  cases hm with
  | ended hnone => exact .ended (h ▸ hnone)
  | pulled hsome hrest => exact .pulled (h ▸ hsome) hrest

/-- What a merge yields is settled by where it stands. -/
theorem Yields.unique {m : MergeScan} {items items' : List Scanned} (h : m.Yields items)
    (h' : m.Yields items') : items = items' := by
  induction h generalizing items' with
  | ended hnone =>
    cases h' with
    | ended _ => rfl
    | pulled hsome _ =>
      rw [hnone] at hsome
      cases hsome
  | pulled hsome hrest ih =>
    cases h' with
    | ended hnone =>
      rw [hsome] at hnone
      cases hnone
    | pulled hsome' hrest' =>
      rw [hsome] at hsome'
      cases hsome'
      rw [ih hrest']

/-- What the merge lays out from where it stands. -/
def items (m : MergeScan) : List Scanned := overlay m.parent m.writes

/-- What comes out in a round and after it. -/
def Round.items : Round → List Scanned
  | done => []
  | pass rest => rest.items
  | yield item rest => item :: rest.items

theorem Round.items_ofWrite (w : Bytes × Option Bytes) (rest : MergeScan) :
    (ofWrite w rest).items = pendingPuts [w] ++ rest.items := by
  obtain ⟨k, o⟩ := w
  cases o <;> rfl

theorem overlay_nil_right (items : List Scanned) : overlay items [] = items := by
  induction items with
  | nil => rfl
  | cons item items ih =>
    obtain e | ⟨k, v⟩ := item
    · exact congrArg _ ih
    · exact congrArg _ ih

/-- A round takes nothing away from what comes out, and adds nothing to it. -/
theorem items_round (m : MergeScan) : m.round.items = m.items := by
  obtain ⟨items, ws⟩ := m
  rcases items with _ | ⟨item, items⟩ <;> rcases ws with _ | ⟨w, ws⟩
  · rfl
  · rw [round, Round.items_ofWrite]
    obtain ⟨k, o⟩ := w
    cases o <;> rfl
  · rw [round, MergeScan.items, overlay_nil_right, Round.items, MergeScan.items, overlay_nil_right]
  · obtain e | ⟨k, v⟩ := item
    · rfl
    · rw [round, MergeScan.items, Store.overlay_cons_cons]
      split_ifs <;> first | exact Round.items_ofWrite w _ | rfl

/-- The merge ends, having yielded what the writes make of the parent's scan. -/
theorem yields_items (m : MergeScan) : m.Yields m.items := by
  induction hsize : m.size using Nat.strongRecOn generalizing m with
  | ind n ih =>
    subst hsize
    have hnext := m.next_eq
    rw [← items_round]
    cases hround : m.round with
    | done =>
      rw [hround] at hnext
      exact .ended hnext
    | pass rest =>
      rw [hround] at hnext
      have hrest := ih _ (size_lt_of_round (by rw [hround, Round.rest?])) rest rfl
      exact hrest.of_next_eq hnext.symm
    | yield item rest =>
      rw [hround] at hnext
      exact .pulled hnext (ih _ (size_lt_of_round (by rw [hround, Round.rest?])) rest rfl)

theorem yields_iff {m : MergeScan} {items : List Scanned} : m.Yields items ↔ items = m.items :=
  ⟨fun h => h.unique m.yields_items, fun h => h ▸ m.yields_items⟩

end MergeScan

namespace Store

/-- The readable pairs of a scan are in key order, in whichever places it fails. -/
theorem pairwise_pairsOf_scan {s : Store} {start : Bytes} {items : List Scanned}
    (h : s.scan start = .ok items) : (pairsOf items).Pairwise fun a b => a.1 < b.1 := by
  induction s generalizing items with
  | base b =>
    rw [scan, Backend.guarded] at h
    split at h
    · cases h
    · cases h
      have hread (e : Bytes × Bytes) : (b.guarded (.item e.1) e).toOption =
          if (b.fault (.item e.1)).isNone then some e else none := by
        rw [Backend.guarded]
        cases b.fault (.item e.1) <;> rfl
      rw [pairsOf, List.filterMap_map]
      refine List.Pairwise.filterMap _ (fun e e' hlt a ha a' ha' => ?_)
        (sorted_range b.content start)
      rw [Function.comp_apply, hread] at ha ha'
      obtain rfl : e = a := by simpa using (Option.ite_none_right_eq_some.1 ha).2
      obtain rfl : e' = a' := by simpa using (Option.ite_none_right_eq_some.1 ha').2
      exact hlt
  | buffered w parent ih =>
    cases hparent : parent.scan start with
    | error e =>
      rw [scan, hparent] at h
      cases h
    | ok below =>
      rw [scan, hparent] at h
      cases h
      change (pairsOf (overlay below (SortedMap.mk _ (sorted_range w start)).entries)).Pairwise _
      rw [pairsOf_overlay (m := ⟨_, ih hparent⟩) rfl]
      exact SortedMap.sorted _

/-- Wherever the scan of a parent fails, and whatever is written over it:
the merge ends, and what it has yielded is the scan of the buffered store. The failures are those of
the parent, in their places among the pairs that nothing is written over, and the pairs are the
readable ones of the parent after the writes of the range, in key order. -/
theorem merge_tolerates_failures (parent : List Scanned)
    (hsorted : (pairsOf parent).Pairwise fun a b => a.1 < b.1) (w : WriteSet) (start : Bytes) :
    ∃ merged, (∀ items, (MergeScan.mk parent (w.range start)).Yields items ↔ items = merged) ∧
      (∀ s : Store, s.scan start = .ok parent → (buffered w s).scan start = .ok merged) ∧
      failuresOf merged = failuresOf parent ∧
      (pairsOf merged).Pairwise (fun a b => a.1 < b.1) ∧
      pairsOf merged = (Pairs.update ⟨pairsOf parent, hsorted⟩ (w.range start)).entries ∧
      merged.filter (Scanned.passes (untouched (w.range start))) =
        parent.filter (Scanned.passes (untouched (w.range start))) := by
  have huntouched : ∀ u ∈ w.range start, untouched (w.range start) u.1 = false := by
    intro u hu
    simp only [untouched, List.all_eq_false]
    exact ⟨u, hu, by simp⟩
  have hfilter := filter_passes_overlay parent huntouched
  have hpairs : pairsOf (overlay parent (w.range start)) = _ :=
    pairsOf_overlay (m := ⟨pairsOf parent, hsorted⟩) rfl ⟨w.range start, sorted_range w start⟩
  refine ⟨overlay parent (w.range start), fun _ => MergeScan.yields_iff, fun s hs => ?_, ?_, ?_,
    hpairs, hfilter⟩
  · rw [scan, hs]
    rfl
  · rw [← failuresOf_filter_passes, hfilter, failuresOf_filter_passes]
  · rw [hpairs]
    exact SortedMap.sorted _

/-- A scan that fails on the first pair and behind a deleted one. The first failure stands where a
put belongs, and neither brings back the pair that is deleted or the one that is written over. -/
theorem merge_tolerates_failures_between :
    let s : Store := .base (.withFaults
      (.ofList [([1], [10]), ([1, 1], [11]), ([1, 2], [12]), ([1, 3], [13]), ([1, 4], [14])])
      [(.item [1], .dbIo), (.item [1, 2], .txConflict)])
    let w : WriteSet :=
      .ofList [([1], some [20]), ([1, 1], none), ([1, 3], some [23]), ([2], some [24])]
    ∃ merged, (buffered w s).scan [1] = .ok merged ∧ failuresOf merged = [.dbIo, .txConflict] ∧
      pairsOf merged = [([1], [20]), ([1, 3], [23]), ([1, 4], [14])] := by
  intro s w
  have hscan : s.scan [1] = .ok [.error .dbIo, .ok ([1, 1], [11]), .error .txConflict,
    .ok ([1, 3], [13]), .ok ([1, 4], [14])] := by rfl
  obtain ⟨merged, -, hmerged, hfailures, -, hpairs, -⟩ :=
    merge_tolerates_failures _ (pairwise_pairsOf_scan hscan) w [1]
  exact ⟨merged, hmerged s hscan, hfailures, hpairs⟩

end Store

end GrantLedger
