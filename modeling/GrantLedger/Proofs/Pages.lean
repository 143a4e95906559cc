import GrantLedger.Proofs.Listing

/-!
# Pages and the walk over them

A page is cut from the matches of a listing, the items that are not before the cursor and that the
filter keeps: without the first `offset` of them, and not longer than its size. The next cursor is
that of the first match beyond the page (`Paging.cutPage`). A walk over a scan carries the page of
the matches so far along (`Paging.walkFrom_match`).

Whoever reads a listing page by page asks for a first page without a cursor and then for the page of
each next cursor, until there is none (`Walk`). The limits may differ from page to page. What is
still to be read is a rear part of the list at every point, and each page takes at least one item off
it, so the walk ends and has read the list (`Presents.walk_iff`).
-/

namespace GrantLedger

/-! ## Cutting a page -/

namespace Paging

variable {α β : Type} (req : PageRequest) (keep : Bytes → α → Option β)

/-- The items that are not before the cursor of a request and that the filter keeps. -/
def matching (items : List (Bytes × α)) : List (Bytes × β) :=
  items.filterMap fun item =>
    if req.skips item.1 then none else (keep item.1 item.2).map (item.1, ·)

/-- The page that is cut from the matches of a listing. -/
def cutPage (found : List (Bytes × β)) : Page β where
  items := ((found.drop req.offset.toNat).take req.size).map (·.2)
  nextKey := found[req.offset.toNat + req.size]?.map (·.1)
  total := if req.counts then some found.length else none

/-- The walk that goes on after the matches `found`: it carries their page along. -/
def walkFrom (filter : Bytes → α → Except Error (Option β)) (found : List (Bytes × β))
    (items : List (Listed α)) : Paging α β :=
  walk req filter (cutPage req found).items (cutPage req found).nextKey found.length items

/-- The filter has been asked about further items before. -/
def asking (first : List (Bytes × α)) (p : Paging α β) : Paging α β :=
  { p with examined := first ++ p.examined }

theorem asking_asking (first second : List (Bytes × α)) (p : Paging α β) :
    (p.asking second).asking first = p.asking (first ++ second) := by
  rw [asking, asking, asking, List.append_assoc]

variable {req keep} {found : List (Bytes × β)}

theorem length_items_cutPage :
    (cutPage req found).items.length = min req.size (found.length - req.offset.toNat) := by
  rw [cutPage, List.length_map, List.length_take, List.length_drop]

theorem nextKey_cutPage_eq_none_iff :
    (cutPage req found).nextKey = none ↔ found.length ≤ req.offset.toNat + req.size := by
  rw [cutPage, Option.map_eq_none_iff, List.getElem?_eq_none_iff]

theorem cutPage_map (req : PageRequest) (f : α → β) (found : List (Bytes × α)) :
    cutPage req (found.map fun item => (item.1, f item.2)) =
      { cutPage req found with items := (cutPage req found).items.map f } := by
  rw [cutPage, cutPage, ← List.map_drop, ← List.map_take, List.map_map, List.map_map,
    List.getElem?_map, Option.map_map, List.length_map]
  rfl

/-! One more match is skipped, or has room on the page, or is beyond it. -/

theorem cutPage_concat_of_skipped (item : Bytes × β) (h : found.length < req.offset.toNat) :
    (cutPage req (found ++ [item])).items = (cutPage req found).items ∧
      (cutPage req (found ++ [item])).nextKey = (cutPage req found).nextKey := by
  have hlength : (found ++ [item]).length ≤ req.offset.toNat := by
    rw [List.length_append, List.length_singleton]
    omega
  constructor
  · rw [cutPage, cutPage, List.drop_eq_nil_of_le hlength, List.drop_eq_nil_of_le (Nat.le_of_lt h)]
  · rw [nextKey_cutPage_eq_none_iff.2 (by omega), nextKey_cutPage_eq_none_iff.2 (by omega)]

theorem cutPage_concat_of_room (item : Bytes × β) (hskipped : ¬ found.length < req.offset.toNat)
    (h : (cutPage req found).items.length < req.size) :
    (cutPage req (found ++ [item])).items = (cutPage req found).items ++ [item.2] ∧
      (cutPage req (found ++ [item])).nextKey = (cutPage req found).nextKey := by
  rw [length_items_cutPage] at h
  have hlength : (found ++ [item]).length = found.length + 1 := by
    rw [List.length_append, List.length_singleton]
  constructor
  · have hdrop : (found.drop req.offset.toNat).length < req.size := by
      rw [List.length_drop]
      omega
    rw [cutPage, cutPage]
    dsimp only
    rw [List.drop_append_of_le_length (by omega), List.take_of_length_le (Nat.le_of_lt hdrop),
      List.take_of_length_le (by rw [List.length_append, List.length_singleton]; omega),
      List.map_append]
    rfl
  · rw [nextKey_cutPage_eq_none_iff.2 (by omega), nextKey_cutPage_eq_none_iff.2 (by omega)]

theorem cutPage_append_of_full (item : Bytes × β) (hskipped : ¬ found.length < req.offset.toNat)
    (h : ¬ (cutPage req found).items.length < req.size) (later : List (Bytes × β)) :
    (cutPage req (found ++ item :: later)).items = (cutPage req found).items ∧
      (cutPage req (found ++ item :: later)).nextKey =
        (cutPage req found).nextKey.orElse fun _ => some item.1 := by
  rw [length_items_cutPage] at h
  have hdrop : req.size ≤ (found.drop req.offset.toNat).length := by
    rw [List.length_drop]
    omega
  constructor
  · rw [cutPage, cutPage]
    dsimp only
    rw [List.drop_append_of_le_length (by omega), List.take_append_of_le_length hdrop]
  · rw [cutPage, cutPage]
    dsimp only
    by_cases hbeyond : req.offset.toNat + req.size < found.length
    · rw [List.getElem?_append_left hbeyond, List.getElem?_eq_getElem hbeyond]
      rfl
    · have hlength : req.offset.toNat + req.size = found.length := by
        rw [List.length_drop] at hdrop
        omega
      rw [hlength, List.getElem?_append_right (Nat.le_refl _), Nat.sub_self,
        List.getElem?_eq_none (Nat.le_refl _)]
      rfl

section Match

variable {filter : Bytes → α → Except Error (Option β)} {cursor : Bytes} {v : α} {out : β}
  (hskip : ¬ req.skips cursor = true) (hkept : filter cursor v = .ok (some out))

include hskip hkept

/-- After a match the walk carries the page of one more, as long as it goes on. -/
theorem walkFrom_match (h : found.length < req.offset.toNat ∨
      (cutPage req found).items.length < req.size ∨ req.counts = true)
    (items : List (Listed α)) :
    walkFrom req filter found (.ok (cursor, v) :: items) =
      (walkFrom req filter (found ++ [(cursor, out)]) items).asking [(cursor, v)] := by
  have hlength : (found ++ [(cursor, out)]).length = found.length + 1 := by
    rw [List.length_append, List.length_singleton]
  rw [walkFrom, walkFrom, walk, if_neg hskip, hkept, hlength]
  dsimp only
  by_cases hoffset : found.length < req.offset.toNat
  · obtain ⟨hitems, hnext⟩ := cutPage_concat_of_skipped (cursor, out) hoffset
    rw [if_pos hoffset, hitems, hnext]
    rfl
  · rw [if_neg hoffset]
    by_cases hroom : (cutPage req found).items.length < req.size
    · obtain ⟨hitems, hnext⟩ := cutPage_concat_of_room (cursor, out) hoffset hroom
      rw [if_pos hroom, hitems, hnext]
      rfl
    · have hcounts : req.counts = true := (h.resolve_left hoffset).resolve_left hroom
      obtain ⟨hitems, hnext⟩ := cutPage_append_of_full (cursor, out) hoffset hroom []
      rw [if_neg hroom, if_pos hcounts, hitems, hnext]
      rfl

/-- With a full page a walk that does not count ends at the next match, whatever comes later. -/
theorem walkFrom_full (hoffset : ¬ found.length < req.offset.toNat)
    (hroom : ¬ (cutPage req found).items.length < req.size) (hcounts : ¬ req.counts = true)
    (hfound : (cutPage req found).nextKey = none) (items : List (Listed α))
    (later : List (Bytes × β)) :
    walkFrom req filter found (.ok (cursor, v) :: items) =
      ⟨.ok (cutPage req (found ++ (cursor, out) :: later)), [(cursor, v)], items⟩ := by
  obtain ⟨hitems, hnext⟩ := cutPage_append_of_full (cursor, out) hoffset hroom later
  have htotal : (cutPage req (found ++ (cursor, out) :: later)).total = none := if_neg hcounts
  have hpage : cutPage req (found ++ (cursor, out) :: later) =
      ⟨(cutPage req found).items, some cursor, none⟩ := by
    rw [hfound] at hnext
    exact (Page.mk.injEq ..).mpr ⟨hitems, hnext, htotal⟩
  rw [walkFrom, walk, if_neg hskip, hkept, hpage]
  dsimp only
  rw [if_neg hoffset, if_neg hroom, if_neg hcounts]

end Match

end Paging

/-! ## From page to page -/

open Paging (cutPage)

/-- The request for the page from a cursor on. -/
def PageRequest.ofCursor (key : Option Bytes) (limit : UInt64) : PageRequest := ⟨key, 0, limit, false⟩

theorem PageRequest.size_pos (req : PageRequest) : 0 < req.size := by
  rw [size]
  split
  · decide
  · next hlimit => exact Nat.pos_of_ne_zero fun h => hlimit (UInt64.toNat_inj.1 h)

section Walk

variable {σ κ α : Type}

/-- Items are read from page to page, the first with the limit `limits i`. Pages are served from a
state, by a cursor and a limit, with items, the next cursor and the state after. -/
inductive Walk (serve : σ → Option κ → UInt64 → List α → Option κ → σ → Prop)
    (limits : Nat → UInt64) : Nat → Option κ → σ → List α → Prop where
  | last {i : Nat} {key : Option κ} {s t : σ} {items : List α}
      (page : serve s key (limits i) items none t) : Walk serve limits i key s items
  | more {i : Nat} {key : Option κ} {next : κ} {s t : σ} {items rest : List α}
      (page : serve s key (limits i) items (some next) t)
      (later : Walk serve limits (i + 1) (some next) t rest) :
      Walk serve limits i key s (items ++ rest)

/-- What a listing holds from a cursor on. -/
def remaining (key : Option Bytes) (all : List (Bytes × α)) : List (Bytes × α) :=
  all.filter fun item => !(PageRequest.ofCursor key 0).skips item.1

theorem remaining_map {β : Type} (f : α → β) (key : Option Bytes) (all : List (Bytes × α)) :
    remaining key (all.map fun item => (item.1, f item.2)) =
      (remaining key all).map fun item => (item.1, f item.2) := by
  rw [remaining, List.filter_map]
  rfl

/-- From a cursor of the listing on, it holds what does not come before. -/
theorem remaining_of_getElem? {all : List (Bytes × α)} (hall : all.Pairwise fun a b => a.1 < b.1)
    {n : Nat} {item : Bytes × α} (h : all[n]? = some item) :
    remaining (some item.1) all = all.drop n := by
  induction all generalizing n with
  | nil => cases h
  | cons first all ih =>
    obtain ⟨hfirst, hall⟩ := List.pairwise_cons.1 hall
    cases n with
    | zero =>
      obtain rfl : first = item := Option.some.inj h
      refine List.filter_eq_self.2 fun other hmem => ?_
      have hle : ¬ other.1 < first.1 := by
        rcases List.mem_cons.1 hmem with rfl | hmem
        · exact Std.lt_irrefl
        · exact fun h => Std.lt_irrefl (Std.lt_trans h (hfirst other hmem))
      simpa [PageRequest.ofCursor, PageRequest.skips] using hle
    | succ n =>
      have hlt : first.1 < item.1 := hfirst item (List.mem_of_getElem? h)
      have hdrop : remaining (some item.1) (first :: all) = remaining (some item.1) all := by
        refine List.filter_cons_of_neg ?_
        simpa [PageRequest.ofCursor, PageRequest.skips] using hlt
      rw [hdrop, List.drop_succ_cons]
      exact ih hall h

/-- The pages that are served are those of `all`, with the cursors written by `write`, as long as
the states keep to `Inv`. -/
def Presents (serve : σ → Option κ → UInt64 → List α → Option κ → σ → Prop) (write : Bytes → κ)
    (Inv : σ → Prop) (all : List (Bytes × α)) : Prop :=
  ∀ s, Inv s → ∀ key limit,
    let page := cutPage (.ofCursor key limit) (remaining key all)
    ∃ t, Inv t ∧ ∀ items next t', serve s (key.map write) limit items next t' ↔
      items = page.items ∧ next = page.nextKey.map write ∧ t' = t

namespace Presents

variable {serve : σ → Option κ → UInt64 → List α → Option κ → σ → Prop} {write : Bytes → κ}
  {Inv : σ → Prop} {all : List (Bytes × α)}

/-- A walk from where the first `n` items have been read ends, and reads the others. -/
theorem walk_drop_iff (h : Presents serve write Inv all)
    (hall : all.Pairwise fun a b => a.1 < b.1) (limits : Nat → UInt64) (i : Nat) {s : σ}
    (hs : Inv s) {key : Option Bytes} {n : Nat} (hkey : remaining key all = all.drop n)
    (read : List α) :
    Walk serve limits i (key.map write) s read ↔ read = (all.drop n).map (·.2) := by
  obtain ⟨t, ht, hpage⟩ := h s hs key (limits i)
  have hpos := (PageRequest.ofCursor key (limits i)).size_pos
  generalize hsize : (PageRequest.ofCursor key (limits i)).size = size at hpos
  have hcut : cutPage (.ofCursor key (limits i)) (remaining key all) =
      ⟨((all.drop n).take size).map (·.2), all[n + size]?.map (·.1), none⟩ := by
    rw [cutPage, hkey, hsize]
    show Page.mk _ ((all.drop n)[0 + size]?.map _) none = _
    rw [Nat.zero_add, List.getElem?_drop]
    rfl
  rw [hcut] at hpage
  cases hnext : all[n + size]? with
  | none =>
    have hlength := List.getElem?_eq_none_iff.1 hnext
    rw [hnext, List.take_of_length_le (by rw [List.length_drop]; omega)] at hpage
    constructor
    · intro hwalk
      cases hwalk with
      | last page => exact ((hpage _ _ _).1 page).1
      | more page => cases ((hpage _ _ _).1 page).2.1
    · rintro rfl
      exact .last ((hpage _ none _).2 ⟨rfl, rfl, rfl⟩)
  | some item =>
    have hlt : n + size < all.length := (List.getElem?_eq_some_iff.1 hnext).1
    have hlater := walk_drop_iff h hall limits (i + 1) ht (remaining_of_getElem? hall hnext)
    have hsplit : ((all.drop n).take size).map (·.2) ++ (all.drop (n + size)).map (·.2) =
        (all.drop n).map (·.2) := by
      rw [← List.map_append, ← List.drop_drop, List.take_append_drop]
    rw [hnext] at hpage
    constructor
    · intro hwalk
      cases hwalk with
      | last page => cases ((hpage _ _ _).1 page).2.1
      | more page later =>
        obtain ⟨rfl, hcursor, rfl⟩ := (hpage _ _ _).1 page
        cases hcursor
        rw [(hlater _).1 later, hsplit]
    · rintro rfl
      rw [← hsplit]
      exact .more ((hpage _ _ _).2 ⟨rfl, rfl, rfl⟩) ((hlater _).2 rfl)
termination_by all.length - n

/-- A walk from the first page on ends, whatever the limits are, and reads the list. -/
theorem walk_iff (h : Presents serve write Inv all) (hall : all.Pairwise fun a b => a.1 < b.1)
    (limits : Nat → UInt64) {s : σ} (hs : Inv s) (read : List α) :
    Walk serve limits 0 none s read ↔ read = all.map (·.2) := by
  have hwhole : remaining none all = all.drop 0 := List.filter_eq_self.2 fun _ _ => rfl
  exact h.walk_drop_iff hall limits 0 hs hwhole read

end Presents

end Walk

end GrantLedger
