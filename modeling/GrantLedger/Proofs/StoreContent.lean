import GrantLedger.SortedMap.Lemmas
import GrantLedger.Store.Basic

/-!
# What a stack of buffers holds

A store stands for one ordered map, its `content`: the pairs of the backend with the pending writes
of every buffer carried out over them. Over a backend without faults every access answers from the
content, a write changes the content at one key, and flushing a buffer makes the content of the
parent that of the buffer. Writes reach only the top of a stack: what lies below a buffer is the
same afterwards (`Store.SameBelow`).
-/

namespace GrantLedger

namespace Pairs

/-- The pairs after one write. -/
def put (m : Pairs) (k : Bytes) : Option Bytes → Pairs
  | some v => m.insert k v
  | none => m.erase k

theorem get?_put (m : Pairs) (k k' : Bytes) (v : Option Bytes) :
    (m.put k v).get? k' = if k' = k then v else m.get? k' := by
  cases v with
  | none => exact SortedMap.get?_erase m k k'
  | some v => exact SortedMap.get?_insert m k k' v

@[simp] theorem get?_put_self (m : Pairs) (k : Bytes) (v : Option Bytes) :
    (m.put k v).get? k = v := by
  simp [get?_put]

theorem get?_put_ne (m : Pairs) {k k' : Bytes} (v : Option Bytes) (h : k' ≠ k) :
    (m.put k v).get? k' = m.get? k' := by
  simp [get?_put, h]

@[simp] theorem update_nil (m : Pairs) : m.update [] = m := rfl

theorem update_cons (m : Pairs) (w : Bytes × Option Bytes) (ws : List (Bytes × Option Bytes)) :
    m.update (w :: ws) = (m.put w.1 w.2).update ws := by
  obtain ⟨k, v⟩ := w
  cases v <;> rfl

/-- After writes in key order, a key holds what was written to it, and what it held before if
nothing was. -/
theorem get?_update_entries (m : Pairs) (w : WriteSet) (k : Bytes) :
    (m.update w.entries).get? k = (w.get? k).getD (m.get? k) := by
  obtain ⟨ws, hs⟩ := w
  change (m.update ws).get? k = ((ws.find? fun e => e.1 = k).map (·.2)).getD (m.get? k)
  induction ws generalizing m with
  | nil => rfl
  | cons e ws ih =>
    obtain ⟨k', v⟩ := e
    rw [update_cons, ih (m.put k' v) hs.of_cons, get?_put]
    by_cases h : k' = k
    · subst h
      simp [SortedMap.find?_of_sorted_cons hs]
    · simp [h, Ne.symm h]

/-- Pending one more write amounts to doing it last. -/
theorem update_insert (m : Pairs) (w : WriteSet) (k : Bytes) (v : Option Bytes) :
    m.update (w.insert k v).entries = (m.update w.entries).put k v := by
  refine SortedMap.ext_get? fun k' => ?_
  rw [get?_update_entries, SortedMap.get?_insert, get?_put, get?_update_entries]
  split <;> rfl

end Pairs

namespace Store

/-- The pairs that a store stands for. -/
def content : Store → Pairs
  | base b => b.content
  | buffered w parent => parent.content.update w.entries

@[simp] theorem content_ofPairs (m : Pairs) : (ofPairs m).content = m := rfl

@[simp] theorem content_buffered (w : WriteSet) (s : Store) :
    (buffered w s).content = s.content.update w.entries := rfl

@[simp] theorem content_branch (s : Store) : s.branch.content = s.content := rfl

/-- No access to the backend fails. -/
def Reliable (s : Store) : Prop := ∀ access, s.backend.fault access = none

theorem reliable_ofPairs (m : Pairs) : (ofPairs m).Reliable := fun _ => rfl

theorem Reliable.buffered {s : Store} (h : s.Reliable) (w : WriteSet) :
    (Store.buffered w s).Reliable := h

theorem Reliable.branch {s : Store} (h : s.Reliable) : s.branch.Reliable := h

/-- Two stores that have the same below the top: one parent, or backends with the same faults. -/
def SameBelow : Store → Store → Prop
  | base b, base b' => b'.fault = b.fault
  | buffered _ p, buffered _ p' => p' = p
  | _, _ => False

namespace SameBelow

theorem refl (s : Store) : s.SameBelow s := by
  cases s <;> rfl

theorem trans {s t u : Store} (hst : s.SameBelow t) (htu : t.SameBelow u) : s.SameBelow u := by
  cases s <;> cases t <;> cases u <;> simp only [SameBelow] at * <;> exact htu.trans hst

theorem eq_buffered {w : WriteSet} {p s : Store} (h : (buffered w p).SameBelow s) :
    s = buffered s.writes p := by
  cases s with
  | base b => exact h.elim
  | buffered w' p' =>
    obtain rfl : p' = p := h
    rfl

theorem reliable {s t : Store} (h : s.SameBelow t) (hs : s.Reliable) : t.Reliable := by
  cases s with
  | base b =>
    cases t with
    | base b' => exact fun access => (congrFun h access).trans (hs access)
    | buffered w p => exact h.elim
  | buffered w p => exact h.eq_buffered ▸ hs

end SameBelow

/-! ## Accesses -/

/-- A store after one write that does not fail. -/
def put : Store → Bytes → Option Bytes → Store
  | base b, k, v => base { b with content := b.content.put k v }
  | buffered w parent, k, v => buffered (w.insert k v) parent

@[simp] theorem content_put (s : Store) (k : Bytes) (v : Option Bytes) :
    (s.put k v).content = s.content.put k v := by
  cases s with
  | base b => rfl
  | buffered w parent => exact Pairs.update_insert parent.content w k v

theorem sameBelow_put (s : Store) (k : Bytes) (v : Option Bytes) : s.SameBelow (s.put k v) := by
  cases s <;> rfl

theorem Reliable.guarded {α : Type} {b : Backend} (h : (base b).Reliable) (access : Access)
    (act : α) : b.guarded access act = .ok act := by
  have : b.fault access = none := h access
  simp [Backend.guarded, this]

/-- A look-up answers from the content. -/
theorem Reliable.get {s : Store} (h : s.Reliable) (k : Bytes) :
    s.get k = .ok (s.content.get? k) := by
  induction s with
  | base b => exact h.guarded _ _
  | buffered w parent ih =>
    rw [Store.get, content_buffered, Pairs.get?_update_entries]
    cases w.get? k with
    | none => exact ih h
    | some v => rfl

theorem Reliable.has {s : Store} (h : s.Reliable) (k : Bytes) :
    s.has k = .ok (s.content.contains k) := by
  rw [Store.has, h.get]
  rfl

theorem Reliable.apply {s : Store} (h : s.Reliable) (k : Bytes) (v : Option Bytes) :
    s.apply k v = .ok (s.put k v) := by
  cases s with
  | base b => cases v <;> exact h.guarded _ _
  | buffered w parent => cases v <;> rfl

/-! ## Flushing -/

/-- A store after writes none of which fails. -/
def putAll (s : Store) (ws : List (Bytes × Option Bytes)) : Store :=
  ws.foldl (fun s w => s.put w.1 w.2) s

theorem content_putAll (s : Store) (ws : List (Bytes × Option Bytes)) :
    (s.putAll ws).content = s.content.update ws := by
  induction ws generalizing s with
  | nil => rfl
  | cons w ws ih =>
    rw [Pairs.update_cons, ← content_put]
    exact ih (s.put w.1 w.2)

theorem sameBelow_putAll (s : Store) (ws : List (Bytes × Option Bytes)) :
    s.SameBelow (s.putAll ws) := by
  induction ws generalizing s with
  | nil => exact SameBelow.refl s
  | cons w ws ih => exact (sameBelow_put s w.1 w.2).trans (ih (s.put w.1 w.2))

/-- A flush into a store without faults carries all writes over. -/
theorem Reliable.flush {s : Store} (h : s.Reliable) (w : WriteSet) :
    s.flush w = (.ok (), s.putAll w.entries) := by
  have : ∀ (ws : List (Bytes × Option Bytes)) {s : Store}, s.Reliable →
      s.applyAll ws = (.ok (), s.putAll ws) := by
    intro ws
    induction ws with
    | nil => intro s _; rfl
    | cons w ws ih =>
      intro s hs
      obtain ⟨k, v⟩ := w
      rw [applyAll, hs.apply]
      exact ih ((sameBelow_put s k v).reliable hs)
  exact this w.entries h

/-! ## Scans -/

/-- The puts among pending writes. -/
def putsOf (ws : List (Bytes × Option Bytes)) : List (Bytes × Bytes) :=
  ws.filterMap fun w => w.2.map fun v => (w.1, v)

theorem pendingPuts_eq (ws : List (Bytes × Option Bytes)) :
    pendingPuts ws = (putsOf ws).map .ok := by
  rw [pendingPuts, putsOf, List.map_filterMap]
  refine congrArg (List.filterMap · ws) (funext fun w => ?_)
  obtain ⟨k, v⟩ := w
  cases v <;> rfl

theorem mem_putsOf {ws : List (Bytes × Option Bytes)} {k v : Bytes} :
    (k, v) ∈ putsOf ws ↔ (k, some v) ∈ ws := by
  simp only [putsOf, List.mem_filterMap, Option.map_eq_some_iff, Prod.mk.injEq]
  constructor
  · rintro ⟨⟨k', v'⟩, hmem, u, hu, rfl, rfl⟩
    exact hu ▸ hmem
  · exact fun h => ⟨(k, some v), h, v, rfl, rfl, rfl⟩

/-- One step of laying writes over a scan: the lower of the two front keys goes first, and a write
takes the place of a pair with its key. -/
theorem overlay_cons_cons (k v : Bytes) (items : List Scanned) (w : Bytes × Option Bytes)
    (ws : List (Bytes × Option Bytes)) :
    overlay (.ok (k, v) :: items) (w :: ws) =
      if w.1 < k then pendingPuts [w] ++ overlay (.ok (k, v) :: items) ws
      else if w.1 = k then pendingPuts [w] ++ overlay items ws
      else .ok (k, v) :: overlay items (w :: ws) := by
  by_cases hlt : w.1 < k
  · have hsplit : ∀ us, pendingPuts (w :: us) = pendingPuts [w] ++ pendingPuts us := fun us => by
      rw [pendingPuts, pendingPuts, pendingPuts, ← List.filterMap_append, List.singleton_append]
    simp only [overlay, List.takeWhile_cons, List.dropWhile_cons, hlt, decide_true, if_true]
    rw [hsplit, List.append_assoc]
  · simp only [overlay, List.takeWhile_cons, List.dropWhile_cons, hlt, decide_false, if_false]
    rfl

/-- What laying writes `ws` over pairs `xs` has to come to: in key order, the puts and the pairs at
whose key nothing is written. -/
structure Laid (xs : List (Bytes × Bytes)) (ws : List (Bytes × Option Bytes))
    (zs : List (Bytes × Bytes)) : Prop where
  /-- The result is in key order. -/
  sorted : zs.Pairwise fun a b => a.1 < b.1
  /-- It holds the puts and the pairs that nothing is written over. -/
  mem_iff : ∀ k v, (k, v) ∈ zs ↔ (k, some v) ∈ ws ∨ ((k, v) ∈ xs ∧ ∀ o, (k, o) ∉ ws)

namespace Laid

variable {xs zs : List (Bytes × Bytes)} {ws : List (Bytes × Option Bytes)} {k v : Bytes}

theorem puts (hs : ws.Pairwise fun a b => a.1 < b.1) : Laid [] ws (putsOf ws) where
  sorted := by
    refine List.Pairwise.filterMap _ (fun a b hab c hc d hd => ?_) hs
    obtain ⟨u, -, rfl⟩ := Option.map_eq_some_iff.1 hc
    obtain ⟨v, -, rfl⟩ := Option.map_eq_some_iff.1 hd
    exact hab
  mem_iff k v := by simp [mem_putsOf]

/-- A pair in front of everything else stays in front. -/
theorem cons_pair (h : Laid xs ws zs) (hx : ∀ x ∈ xs, k < x.1) (hw : ∀ w ∈ ws, k < w.1) :
    Laid ((k, v) :: xs) ws ((k, v) :: zs) where
  sorted := by
    refine h.sorted.cons fun z hz => ?_
    rcases (h.mem_iff z.1 z.2).1 hz with hmem | ⟨hmem, -⟩
    · exact hw _ hmem
    · exact hx _ hmem
  mem_iff k' v' := by
    rw [List.mem_cons, h.mem_iff, List.mem_cons]
    constructor
    · rintro (heq | hmem | ⟨hmem, hnone⟩)
      · obtain ⟨rfl, rfl⟩ := Prod.mk.inj heq
        exact .inr ⟨.inl rfl, fun o ho => Std.lt_irrefl (hw _ ho)⟩
      · exact .inl hmem
      · exact .inr ⟨.inr hmem, hnone⟩
    · rintro (hmem | ⟨heq | hmem, hnone⟩)
      · exact .inr (.inl hmem)
      · exact .inl heq
      · exact .inr (.inr ⟨hmem, hnone⟩)

/-- A write in front of everything else appears in front if it is a put. It takes the place of the
pairs with its key. -/
theorem cons_write {o : Option Bytes} {ys : List (Bytes × Bytes)} (h : Laid xs ws zs)
    (hx : ∀ x ∈ xs, k < x.1) (hw : ∀ w ∈ ws, k < w.1)
    (hsub : ∀ y ∈ xs, y ∈ ys) (hkey : ∀ y ∈ ys, y ∈ xs ∨ y.1 = k) :
    Laid ys ((k, o) :: ws) (putsOf [(k, o)] ++ zs) where
  sorted := by
    refine List.pairwise_append.2 ⟨?_, h.sorted, fun a ha z hz => ?_⟩
    · cases o <;> simp [putsOf]
    · obtain ⟨rfl, -⟩ := Prod.mk.inj (List.mem_singleton.1 (mem_putsOf.1 ha))
      rcases (h.mem_iff z.1 z.2).1 hz with hmem | ⟨hmem, -⟩
      · exact hw _ hmem
      · exact hx _ hmem
  mem_iff k' v' := by
    rw [List.mem_append, mem_putsOf, List.mem_singleton, h.mem_iff, List.mem_cons]
    constructor
    · rintro (heq | hmem | ⟨hmem, hnone⟩)
      · exact .inl (.inl heq)
      · exact .inl (.inr hmem)
      · refine .inr ⟨hsub _ hmem, fun o' ho' => ?_⟩
        rcases List.mem_cons.1 ho' with heq | ho'
        · obtain ⟨rfl, -⟩ := Prod.mk.inj heq
          exact Std.lt_irrefl (hx _ hmem)
        · exact hnone o' ho'
    · rintro ((heq | hmem) | ⟨hmem, hnone⟩)
      · exact .inl heq
      · exact .inr (.inl hmem)
      · rcases hkey _ hmem with hmem | rfl
        · exact .inr (.inr ⟨hmem, fun o' ho' => hnone o' (List.mem_cons_of_mem _ ho')⟩)
        · exact absurd List.mem_cons_self (hnone o)

end Laid

/-- Laying writes over a scan without failures comes to the puts and the pairs that nothing is
written over. -/
theorem exists_laid {xs : List (Bytes × Bytes)} {ws : List (Bytes × Option Bytes)}
    (hx : xs.Pairwise fun a b => a.1 < b.1) (hw : ws.Pairwise fun a b => a.1 < b.1) :
    ∃ zs, overlay (xs.map .ok) ws = zs.map .ok ∧ Laid xs ws zs := by
  induction xs generalizing ws with
  | nil => exact ⟨putsOf ws, pendingPuts_eq ws, Laid.puts hw⟩
  | cons x xs ihx =>
    obtain ⟨k, v⟩ := x
    have hk : ∀ x ∈ xs, k < x.1 := (List.pairwise_cons.1 hx).1
    induction ws with
    | nil =>
      obtain ⟨zs, hzs, hlaid⟩ := @ihx [] hx.of_cons .nil
      exact ⟨(k, v) :: zs, by simp [overlay, pendingPuts, hzs], hlaid.cons_pair hk (by simp)⟩
    | cons w ws ihw =>
      obtain ⟨kw, o⟩ := w
      have hkw : ∀ w ∈ ws, kw < w.1 := (List.pairwise_cons.1 hw).1
      rw [List.map_cons, overlay_cons_cons]
      split
      · next hlt =>
        -- The write comes first; the pair stays among what is laid over.
        obtain ⟨zs, hzs, hlaid⟩ := ihw hw.of_cons
        rw [List.map_cons] at hzs
        refine ⟨putsOf [(kw, o)] ++ zs, by rw [hzs, pendingPuts_eq, List.map_append], ?_⟩
        refine hlaid.cons_write (fun y hy => ?_) hkw (fun y => id) (fun y => .inl)
        rcases List.mem_cons.1 hy with rfl | hy
        · exact hlt
        · exact Std.lt_trans hlt (hk y hy)
      · next hnlt =>
        split
        · next heq =>
          -- The write takes the place of the pair.
          obtain rfl : kw = k := heq
          obtain ⟨zs, hzs, hlaid⟩ := ihx hx.of_cons hw.of_cons
          refine ⟨putsOf [(kw, o)] ++ zs, by rw [hzs, pendingPuts_eq, List.map_append], ?_⟩
          refine hlaid.cons_write hk hkw (fun y => List.mem_cons_of_mem _) fun y hy => ?_
          rcases List.mem_cons.1 hy with rfl | hmem
          · exact .inr rfl
          · exact .inl hmem
        · next hne =>
          have hlt : k < kw := Std.lt_of_le_of_ne (Std.not_lt.1 hnlt) (Ne.symm hne)
          obtain ⟨zs, hzs, hlaid⟩ := ihx hx.of_cons hw
          refine ⟨(k, v) :: zs, by rw [hzs, List.map_cons], hlaid.cons_pair hk fun w hw => ?_⟩
          rcases List.mem_cons.1 hw with rfl | hw
          · exact hlt
          · exact Std.lt_trans hlt (hkw w hw)

theorem mem_range {ν : Type} {m : SortedMap Bytes ν} {start k : Bytes} {v : ν} :
    (k, v) ∈ m.range start ↔ k.startsWith start = true ∧ m.get? k = some v := by
  rw [SortedMap.range, List.mem_filter, SortedMap.mem_entries_iff, and_comm]

theorem sorted_range {ν : Type} (m : SortedMap Bytes ν) (start : Bytes) :
    (m.range start).Pairwise fun a b => a.1 < b.1 := m.sorted.filter _

/-- Pairs in key order are determined by which they are. -/
theorem eq_of_mem_iff {xs ys : List (Bytes × Bytes)} (hx : xs.Pairwise fun a b => a.1 < b.1)
    (hy : ys.Pairwise fun a b => a.1 < b.1) (h : ∀ k v, (k, v) ∈ xs ↔ (k, v) ∈ ys) : xs = ys := by
  have : (⟨xs, hx⟩ : Pairs) = ⟨ys, hy⟩ := SortedMap.ext_get? fun k => by
    rw [Option.ext_iff]
    intro v
    rw [← SortedMap.mem_entries_iff, ← SortedMap.mem_entries_iff]
    exact h k v
  exact congrArg SortedMap.entries this

/-- A scan lists the content of its range. -/
theorem Reliable.scan {s : Store} (h : s.Reliable) (start : Bytes) :
    s.scan start = .ok ((s.content.range start).map .ok) := by
  induction s with
  | base b =>
    rw [Store.scan, h.guarded]
    exact congrArg _ (List.map_congr_left fun e _ => h.guarded _ e)
  | buffered w parent ih =>
    obtain ⟨zs, hzs, hlaid⟩ :=
      exists_laid (sorted_range parent.content start) (sorted_range w start)
    rw [Store.scan, ih h]
    change Except.ok (overlay ((parent.content.range start).map .ok) (w.range start)) = _
    rw [hzs]
    congr 2
    refine eq_of_mem_iff hlaid.sorted (sorted_range _ start) fun k v => ?_
    rw [hlaid.mem_iff, mem_range, mem_range, mem_range, content_buffered,
      Pairs.get?_update_entries]
    cases hk : w.get? k with
    | none => simp [mem_range, hk]
    | some o => cases o <;> simp +contextual [mem_range, hk]

end Store

end GrantLedger
