import GrantLedger.Proofs.Runs

/-!
# A sweep removes exactly what has expired

A sweep looks at every pair in the namespace of grants, whatever its key and value are. It removes
the pair if the value reads as a record that has expired (`GrantTable.ExpiredPair`), and a value
that cannot be read is passed over without ending the sweep. So what a sweep leaves is a filter of
the pairs, what it counts is the length of the complementary filter, and both of them are settled by
the time alone: a record that has expired at one of two moments has expired at the later one. From
this a sweep at two moments, in either order, comes to the same as one at the later of them
(`GrantTable.sweeps_remove_exactly_expired`).
-/

namespace GrantLedger

theorem SortedMap.get?_filter {κ ν : Type} [LT κ] [DecidableEq κ] [LE κ] [Std.LawfulOrderLT κ]
    (p : κ → ν → Bool) (m : SortedMap κ ν) (k : κ) :
    (m.filter p).get? k = (m.get? k).filter (p k) := by
  rw [Option.ext_iff]
  intro v
  rw [← mem_entries_iff, filter, List.mem_filter, mem_entries_iff, Option.filter_eq_some_iff]

/-- A store with the same below the top as a backend without faults is one itself. -/
theorem Store.SameBelow.eq_ofPairs {m : Pairs} {s : Store} (h : (ofPairs m).SameBelow s) :
    s = ofPairs s.content := by
  cases s with
  | base b =>
    obtain ⟨content, fault⟩ := b
    obtain rfl : fault = fun _ => none := h
    rfl
  | buffered w p => exact h.elim

instance : Max Timestamp := maxOfLe

theorem Timestamp.lt_max_iff {e s t : Timestamp} : e < max s t ↔ e < s ∨ e < t := by
  show e < (if s ≤ t then t else s) ↔ e < s ∨ e < t
  by_cases hst : s ≤ t
  · rw [if_pos hst]
    exact ⟨.inr, fun h => h.elim (fun hs => UInt64.lt_of_lt_of_le hs hst) id⟩
  · rw [if_neg hst]
    have hts : t < s := UInt64.not_le.1 hst
    exact ⟨.inl, fun h => h.elim id fun ht => UInt64.lt_trans ht hts⟩

namespace GrantTable

variable (r : Registry)

/-- The pair is swept at `now`: its key lies in the namespace of grants, and its value reads, within
the size cap, as a record whose expiration is strictly before `now`. -/
def ExpiredPair (now : Timestamp) (key value : Bytes) : Prop :=
  GrantKey.allRange <+: key ∧
    ∃ record e, GrantRecord.decode r value = .ok record ∧ record.expiration = some e ∧ e < now

theorem isStale_iff {now : Timestamp} {value : Bytes} :
    isStale r now value = true ↔
      ∃ record e, GrantRecord.decode r value = .ok record ∧ record.expiration = some e ∧
        e < now := by
  rw [isStale]
  cases GrantRecord.decode r value with
  | error err =>
    constructor
    · intro h
      cases h
    · rintro ⟨_, _, hread, -⟩
      cases hread
  | ok record =>
    obtain ⟨authorization, expiration⟩ := record
    dsimp only [GrantRecord.isExpired]
    cases expiration with
    | none =>
      constructor
      · intro h
        cases h
      · rintro ⟨_, _, hread, hexp, -⟩
        cases hread
        cases hexp
    | some e =>
      constructor
      · intro h
        exact ⟨_, e, rfl, rfl, of_decide_eq_true h⟩
      · rintro ⟨_, _, hread, hexp, hlt⟩
        cases hread
        cases hexp
        exact decide_eq_true hlt

theorem expiredPair_iff {now : Timestamp} {key value : Bytes} :
    ExpiredPair r now key value ↔
      key.startsWith GrantKey.allRange = true ∧ isStale r now value = true := by
  rw [ExpiredPair, Bytes.startsWith_iff, isStale_iff]

instance (now : Timestamp) (key value : Bytes) : Decidable (ExpiredPair r now key value) :=
  decidable_of_iff _ (expiredPair_iff r).symm

/-- At the later of two moments those pairs have expired that have at one of them. -/
theorem expiredPair_max_iff {s t : Timestamp} {key value : Bytes} :
    ExpiredPair r (max s t) key value ↔ ExpiredPair r s key value ∨ ExpiredPair r t key value := by
  constructor
  · rintro ⟨hkey, record, e, hread, hexp, hlt⟩
    rcases Timestamp.lt_max_iff.1 hlt with hlt | hlt
    · exact .inl ⟨hkey, record, e, hread, hexp, hlt⟩
    · exact .inr ⟨hkey, record, e, hread, hexp, hlt⟩
  · rintro (⟨hkey, record, e, hread, hexp, hlt⟩ | ⟨hkey, record, e, hread, hexp, hlt⟩)
    · exact ⟨hkey, record, e, hread, hexp, Timestamp.lt_max_iff.2 (.inl hlt)⟩
    · exact ⟨hkey, record, e, hread, hexp, Timestamp.lt_max_iff.2 (.inr hlt)⟩

/-- The pairs that have expired at a time. -/
def expiredPairs (now : Timestamp) (m : Pairs) : List (Bytes × Bytes) :=
  m.entries.filter fun e => ExpiredPair r now e.1 e.2

/-- The pairs without those that have expired at a time. -/
def withoutExpired (now : Timestamp) (m : Pairs) : Pairs :=
  m.filter fun key value => ¬ ExpiredPair r now key value

variable (now s t : Timestamp) (m : Pairs)

/-! ## One sweep -/

theorem stale_eq : stale r now m = (expiredPairs r now m).map (·.1) := by
  obtain ⟨es, hs⟩ := m
  rw [stale, SortedMap.range, expiredPairs]
  dsimp only
  clear hs
  induction es with
  | nil => rfl
  | cons e es ih =>
    rw [List.filter_cons, List.filter_cons]
    by_cases hkey : e.1.startsWith GrantKey.allRange = true
    · rw [if_pos hkey, List.filterMap_cons, staleKey?_eq, ih]
      by_cases hstale : isStale r now e.2 = true
      · have hexpired : ExpiredPair r now e.1 e.2 := (expiredPair_iff r).2 ⟨hkey, hstale⟩
        rw [if_pos hstale, if_pos (decide_eq_true hexpired), List.map_cons]
      · have hkept : ¬ ExpiredPair r now e.1 e.2 := fun h => hstale ((expiredPair_iff r).1 h).2
        rw [if_neg hstale, if_neg (mt of_decide_eq_true hkept)]
    · have hkept : ¬ ExpiredPair r now e.1 e.2 := fun h => hkey ((expiredPair_iff r).1 h).1
      rw [if_neg hkey, if_neg (mt of_decide_eq_true hkept), ih]

theorem content_sweep (c : Context) :
    (c.sweep r now).store.content = withoutExpired r now c.store.content := by
  refine SortedMap.ext_get? fun b => ?_
  rw [Context.get?_content_sweep, withoutExpired, SortedMap.get?_filter]
  have hsame (v : Bytes) : decide (¬ ExpiredPair r now b v) =
      !(b.startsWith GrantKey.allRange && isStale r now v) := by
    rw [decide_not, decide_eq_decide.2 (expiredPair_iff r), Bool.decide_and]
    simp
  cases c.store.content.get? b with
  | none => simp
  | some v =>
    rw [Option.filter_some, Option.filter_some, hsame]
    cases b.startsWith GrantKey.allRange <;> simp

/-- Over a store without faults a sweep succeeds, counts the pairs that have expired and removes
these. -/
theorem keeper_pruneExpired_eq {c : Context} (hc : c.Reliable) :
    Keeper.pruneExpired r c =
      (.ok (expiredPairs r c.header.time c.store.content).length, c.sweep r c.header.time) := by
  rw [Keeper.pruneExpired, Exec.bind_ok (Exec.blockTime_eq c), pruneExpired_eq hc, stale_eq,
    List.length_map]

/-- In memory, what is left of a store is what has not expired. -/
theorem keeper_pruneExpired_ofPairs (h : BlockHeader) (events : List Event) :
    Keeper.pruneExpired r ⟨h, .ofPairs m, events⟩ =
      (.ok (expiredPairs r h.time m).length,
        ⟨h, .ofPairs (withoutExpired r h.time m), events⟩) := by
  let c : Context := ⟨h, .ofPairs m, events⟩
  have hstore : (c.sweep r h.time).store = .ofPairs (withoutExpired r h.time m) := by
    rw [(c.continues_sweep r h.time).sameBelow.eq_ofPairs, content_sweep]
    rfl
  have hswept : c.sweep r h.time = ⟨h, (c.sweep r h.time).store, events⟩ := rfl
  rw [keeper_pruneExpired_eq r (c := c) (Store.reliable_ofPairs m), hswept, hstore]
  rfl

/-! ## Two sweeps -/

theorem withoutExpired_withoutExpired :
    withoutExpired r t (withoutExpired r s m) = withoutExpired r (max s t) m := by
  refine SortedMap.ext_entries ?_
  simp only [withoutExpired, SortedMap.filter, List.filter_filter]
  refine List.filter_congr fun e _ => ?_
  rw [Bool.eq_iff_iff, Bool.and_eq_true, decide_eq_true_iff, decide_eq_true_iff,
    decide_eq_true_iff, expiredPair_max_iff, not_or, and_comm]

/-- What one sweep has removed, the other does not count again. -/
theorem length_expiredPairs_max :
    (expiredPairs r (max s t) m).length =
      (expiredPairs r s m).length + (expiredPairs r t (withoutExpired r s m)).length := by
  let expired (now : Timestamp) (e : Bytes × Bytes) : Bool := ExpiredPair r now e.1 e.2
  have hfirst : ∀ e ∈ m.entries.filter (expired s), expired (max s t) e = true := by
    intro e he
    have hs : ExpiredPair r s e.1 e.2 := of_decide_eq_true (List.mem_filter.1 he).2
    exact decide_eq_true ((expiredPair_max_iff r).2 (.inl hs))
  have hsecond : ∀ e ∈ m.entries.filter fun e => !expired s e,
      expired (max s t) e = true ↔ expired t e = true := by
    intro e he
    have hs : ¬ ExpiredPair r s e.1 e.2 := by simpa [expired] using (List.mem_filter.1 he).2
    simp only [expired, decide_eq_true_iff, expiredPair_max_iff, hs, false_or]
  have hleft : (m.entries.filter fun e => !expired s e) = (withoutExpired r s m).entries := by
    simp only [expired, withoutExpired, SortedMap.filter, decide_not]
  calc (expiredPairs r (max s t) m).length
      = m.entries.countP (expired (max s t)) := List.countP_eq_length_filter.symm
    _ = (m.entries.filter (expired s)).countP (expired (max s t)) +
        (m.entries.filter fun e => !expired s e).countP (expired (max s t)) :=
      List.countP_eq_countP_filter_add _ _ _
    _ = (m.entries.filter (expired s)).length +
        (m.entries.filter fun e => !expired s e).countP (expired t) := by
      rw [List.countP_eq_length.2 hfirst, List.countP_congr hsecond]
    _ = (expiredPairs r s m).length + (expiredPairs r t (withoutExpired r s m)).length := by
      rw [hleft, List.countP_eq_length_filter]
      rfl

end GrantTable

/-! ## The end of a block -/

open GrantTable (expiredPairs withoutExpired)

/-- The end of a block sweeps the pending view at the time of the block. -/
theorem Chain.endBlock_sweeps {c : Chain} {h : BlockHeader} (hh : c.header = some h)
    (hsweeps : c.sweeps = true) :
    ∃ w, c.endBlock =
        (.ok (expiredPairs c.assembly.registry h.time c.view.content).length,
          { c with
            pending := w
            metrics := { c.metrics with
              pruned := c.metrics.pruned +
                (expiredPairs c.assembly.registry h.time c.view.content).length } }) ∧
      { c with pending := w }.view.content =
        withoutExpired c.assembly.registry h.time c.view.content := by
  let start : Context := .start h c.view
  have hchild : start.child.Reliable := c.reliable_view
  have hbranch := Exec.branch_eq (c := start) c.reliable_view
    (Keeper.pruneExpired c.assembly.registry)
  rw [GrantTable.keeper_pruneExpired_eq _ hchild] at hbranch
  let swept : Context := start.child.sweep c.assembly.registry h.time
  have hview : { c with pending := (start.adopt swept).store.writes }.view =
      (start.adopt swept).store := c.view_putAll _
  refine ⟨(start.adopt swept).store.writes, ?_, ?_⟩
  · have hgo : ¬ (!c.sweeps) = true := by simp [hsweeps]
    rw [endBlock, if_neg hgo, inBlock, hh]
    dsimp only
    rw [hbranch]
    rfl
  · have hcontinues := start.child.continues_sweep c.assembly.registry h.time
    rw [hview, hcontinues.content_adopt, GrantTable.content_sweep]
    rfl

namespace GrantTable

/-- A sweep succeeds on every store in memory, removes exactly the pairs that have expired and
counts them. Two sweeps, in either order, leave what one at the later time leaves, and their counts
add up to its count. The end of a block does the same to the block in progress. -/
theorem sweeps_remove_exactly_expired (r : Registry) :
    (∀ (h : BlockHeader) (m : Pairs) (events : List Event),
      Keeper.pruneExpired r ⟨h, .ofPairs m, events⟩ =
        (.ok (expiredPairs r h.time m).length,
          ⟨h, .ofPairs (withoutExpired r h.time m), events⟩)) ∧
    (∀ (h h' : BlockHeader) (m : Pairs) (events : List Event),
      ∃ n n' m₁ m₂,
        Keeper.pruneExpired r ⟨h, .ofPairs m, events⟩ = (.ok n, ⟨h, .ofPairs m₁, events⟩) ∧
        Keeper.pruneExpired r ⟨h', .ofPairs m₁, events⟩ = (.ok n', ⟨h', .ofPairs m₂, events⟩) ∧
        ∀ later : BlockHeader, later.time = max h.time h'.time →
          Keeper.pruneExpired r ⟨later, .ofPairs m, events⟩ =
            (.ok (n + n'), ⟨later, .ofPairs m₂, events⟩)) ∧
    ∀ (c : Chain) (h : BlockHeader), c.assembly.registry = r → c.header = some h →
      c.sweeps = true →
      c.endBlock.1 = .ok (expiredPairs r h.time c.view.content).length ∧
      c.endBlock.2.view.content = withoutExpired r h.time c.view.content ∧
      ∃ w m, c.endBlock.2 = { c with pending := w, metrics := m } := by
  refine ⟨fun h m events => keeper_pruneExpired_ofPairs r m h events, ?_, ?_⟩
  · intro h h' m events
    refine ⟨_, _, _, _, keeper_pruneExpired_ofPairs r m h events,
      keeper_pruneExpired_ofPairs r _ h' events, fun later hlater => ?_⟩
    rw [keeper_pruneExpired_ofPairs, hlater, length_expiredPairs_max, withoutExpired_withoutExpired]
  · rintro c h rfl hheader hsweeps
    obtain ⟨w, hend, hview⟩ := Chain.endBlock_sweeps hheader hsweeps
    rw [hend]
    exact ⟨rfl, hview, w, _, rfl⟩

/-- Of a record that has expired, one that cannot be read, one that lasts and one that has expired
but lies under a key of another namespace, the first is swept. -/
theorem sweeps_remove_exactly_expired_among_unreadable :
    let granter : Address := ⟨.replicate 20 1, rfl⟩
    let grantee : Address := ⟨.replicate 20 2, rfl⟩
    let stale : Grant := ⟨granter, grantee, .generic "/a", some ⟨4⟩⟩
    let lasting : Grant := ⟨granter, grantee, .generic "/b", some ⟨5⟩⟩
    let m : Pairs := ((((∅ : Pairs).put stale.key.toBytes stale.stored).put
      lasting.key.toBytes lasting.stored).put [1, 7] (some [7])).put [2] stale.stored
    let c : Chain := ⟨⟨.builtin, ∅⟩, true, m, ∅, some ⟨"c", 1, ⟨5⟩⟩, .zero⟩
    c.endBlock.1 = .ok 1 ∧ c.endBlock.2.view.content = m.erase stale.key.toBytes := by
  intro granter grantee stale lasting m c
  obtain ⟨hcount, hview, -⟩ :=
    (sweeps_remove_exactly_expired .builtin).2.2 c ⟨"c", 1, ⟨5⟩⟩ rfl rfl rfl
  have hone : (expiredPairs .builtin ⟨5⟩ c.view.content).length = 1 := by decide +kernel
  have hleft : withoutExpired .builtin ⟨5⟩ c.view.content = m.erase stale.key.toBytes := by
    decide +kernel
  exact ⟨hcount.trans (congrArg Except.ok hone), hview.trans hleft⟩

end GrantTable

end GrantLedger
