import GrantLedger.SortedMap.Basic

/-!
# Lookups in sorted maps

One equation for each operation, through the view `get?`, and extensionality: a map is determined by
its lookups, so laws about maps are proved one key at a time.
-/

namespace GrantLedger.SortedMap

variable {κ ν : Type} [LT κ]

theorem ext_entries {m n : SortedMap κ ν} (h : m.entries = n.entries) : m = n := by
  cases m; cases n; cases h; rfl

@[simp] theorem entries_empty : (∅ : SortedMap κ ν).entries = [] := rfl

variable [DecidableEq κ]

@[simp] theorem get?_empty (k : κ) : (∅ : SortedMap κ ν).get? k = none := rfl

theorem get?_def (m : SortedMap κ ν) (k : κ) :
    m.get? k = (m.entries.find? fun e => e.1 = k).map (·.2) := rfl

variable [LE κ] [Std.LawfulOrderLT κ]

/-- Listing and looking up agree: an entry is listed exactly when its key is bound to its value. -/
theorem mem_entries_iff {m : SortedMap κ ν} {k : κ} {v : ν} :
    (k, v) ∈ m.entries ↔ m.get? k = some v := by
  obtain ⟨es, hs⟩ := m
  simp only [get?_def]
  induction es with
  | nil => simp
  | cons e es ih =>
    obtain ⟨k', v'⟩ := e
    by_cases hk : k' = k
    · subst hk
      have not_later : (k', v) ∉ es := fun hm =>
        Std.lt_irrefl ((List.pairwise_cons.1 hs).1 (k', v) hm)
      simp [not_later, eq_comm]
    · have head_ne : ¬(k = k' ∧ v = v') := fun h => hk h.1.symm
      simpa [hk, head_ne] using ih hs.of_cons

/-- In key order no later entry has the key of the first. -/
theorem find?_of_sorted_cons {e : κ × ν} {es : List (κ × ν)}
    (h : (e :: es).Pairwise fun a b => a.1 < b.1) : (es.find? fun e' => e'.1 = e.1) = none := by
  refine List.find?_eq_none.2 fun e' he' => ?_
  have : e'.1 ≠ e.1 := fun heq => Std.lt_irrefl (heq ▸ (List.pairwise_cons.1 h).1 e' he')
  simpa using this

theorem get?_erase (m : SortedMap κ ν) (k k' : κ) :
    (m.erase k).get? k' = if k' = k then none else m.get? k' := by
  rw [Option.ext_iff]
  intro v
  rw [← mem_entries_iff]
  simp only [erase, filter, List.mem_filter, decide_eq_true_eq, mem_entries_iff]
  by_cases h : k' = k <;> simp [h]

@[simp] theorem get?_erase_self (m : SortedMap κ ν) (k : κ) : (m.erase k).get? k = none := by
  simp [get?_erase]

variable [Std.IsLinearOrder κ]

/-- A map is determined by its lookups. -/
theorem ext_get? {m n : SortedMap κ ν} (h : ∀ k, m.get? k = n.get? k) : m = n := by
  have agree : ∀ e : κ × ν, e ∈ m.entries ↔ e ∈ n.entries := fun (k, v) => by
    rw [mem_entries_iff, mem_entries_iff, h]
  obtain ⟨es, hs⟩ := m
  obtain ⟨fs, ht⟩ := n
  apply ext_entries
  clear h
  show es = fs
  replace agree : ∀ e, e ∈ es ↔ e ∈ fs := agree
  induction es generalizing fs with
  | nil =>
    cases fs with
    | nil => rfl
    | cons f fs => exact absurd ((agree f).2 (by simp)) (by simp)
  | cons e es ih =>
    cases fs with
    | nil => exact absurd ((agree e).1 (by simp)) (by simp)
    | cons f fs =>
      have heads : e = f := by
        rcases List.mem_cons.1 ((agree e).1 (by simp)) with h | h
        · exact h
        · rcases List.mem_cons.1 ((agree f).2 (by simp)) with h' | h'
          · exact h'.symm
          · exact absurd (Std.lt_trans (List.rel_of_pairwise_cons hs h')
              (List.rel_of_pairwise_cons ht h)) Std.lt_irrefl
      subst heads
      congr 1
      refine ih hs.of_cons fs ht.of_cons fun a => ⟨fun ha => ?_, fun ha => ?_⟩
      · rcases List.mem_cons.1 ((agree a).1 (List.mem_cons_of_mem _ ha)) with rfl | h
        · exact absurd (List.rel_of_pairwise_cons hs ha) Std.lt_irrefl
        · exact h
      · rcases List.mem_cons.1 ((agree a).2 (List.mem_cons_of_mem _ ha)) with rfl | h
        · exact absurd (List.rel_of_pairwise_cons ht ha) Std.lt_irrefl
        · exact h

variable [DecidableLT κ]

omit [LE κ] [Std.IsLinearOrder κ] [Std.LawfulOrderLT κ] in
theorem find?_insertEntry (k k' : κ) (v : ν) (es : List (κ × ν)) :
    ((insertEntry k v es).find? fun e => e.1 = k').map (·.2) =
      if k' = k then some v else (es.find? fun e => e.1 = k').map (·.2) := by
  fun_induction insertEntry k v es with
  | case1 => by_cases h : k' = k <;> simp [h, eq_comm]
  | case2 e es hlt => by_cases h : k = k' <;> simp [h, eq_comm]
  | case3 e es hlt heq =>
    by_cases h : k' = k
    · subst h; simp
    · have h' : ¬ e.1 = k' := fun he => h (he ▸ heq.symm ▸ rfl)
      simp [h, h', Ne.symm h]
  | case4 e es hlt hne ih =>
    by_cases he : e.1 = k'
    · subst he
      simp [Ne.symm hne]
    · simp only [List.find?_cons, he, decide_false]
      simpa using ih

theorem get?_insert (m : SortedMap κ ν) (k k' : κ) (v : ν) :
    (m.insert k v).get? k' = if k' = k then some v else m.get? k' :=
  find?_insertEntry k k' v m.entries

@[simp] theorem get?_insert_self (m : SortedMap κ ν) (k : κ) (v : ν) :
    (m.insert k v).get? k = some v := by
  simp [get?_insert]

end GrantLedger.SortedMap
