import GrantLedger.Proofs.Pages

/-!
# What a page reads

A scan may fail at any item, and so may the filter. A page that does not count its matches is read
up to the first match beyond it, any other up to the end of the scan (`Paging.scope`). Among these
items the first failure is what the page comes to (`Paging.walkFrom_of_scope_failure`), and without
one the page is cut from the matches (`Paging.walkFrom_of_scope`). What lies further on is left
unread.

The walk keeps one invariant: what it carries along is the page that is cut from the matches so far
(`Paging.walkFrom_append`). A filter that remembers what it was asked is here one whose answers come
with the items, since it is asked about each item once and in their order.
-/

namespace GrantLedger

/-- The request gives both a cursor and an offset. -/
def PageRequest.Contradictory (r : PageRequest) : Prop := r.key.isSome = true ∧ r.offset ≠ 0

namespace Paging

variable {α β : Type}

section Items

variable (req : PageRequest) (filter : Bytes → α → Except Error (Option β))

/-- What an item of a scan comes to: a match with its cursor, nothing, or a failure. -/
def reading : Listed α → Except Error (Option (Bytes × β))
  | .error e => .error e
  | .ok (cursor, v) =>
    if req.skips cursor then .ok none
    else (filter cursor v).map fun kept => kept.map (cursor, ·)

/-- The match that an item comes to, if any. -/
def match? (item : Listed α) : Option (Bytes × β) :=
  match reading req filter item with
  | .error _ => none
  | .ok kept => kept

/-- The matches of a scan. -/
def allMatches (items : List (Listed α)) : List (Bytes × β) := items.filterMap (match? req filter)

/-- No item comes to a failure. -/
def Reads (items : List (Listed α)) : Prop :=
  ∀ item ∈ items, ∃ kept, reading req filter item = .ok kept

/-- What the filter is asked about at an item. -/
def asked : Listed α → Option (Bytes × α)
  | .error _ => none
  | .ok item => if req.skips item.1 then none else some item

/-- The items up to the match that `n` others come before, or all of them if there is none. -/
def upToMatch : Nat → List (Listed α) → List (Listed α)
  | _, [] => []
  | n, item :: items =>
    match match? req filter item, n with
    | none, n => item :: upToMatch n items
    | some _, 0 => [item]
    | some _, n + 1 => item :: upToMatch n items

/-- The items that a page reads if none of them fails. -/
def scope (items : List (Listed α)) : List (Listed α) :=
  if req.counts then items else upToMatch req filter (req.offset.toNat + req.size) items

end Items

variable {req : PageRequest} {filter : Bytes → α → Except Error (Option β)}
  {items read before : List (Listed α)} {item : Listed α}

theorem allMatches_append (xs ys : List (Listed α)) :
    allMatches req filter (xs ++ ys) = allMatches req filter xs ++ allMatches req filter ys :=
  List.filterMap_append

theorem allMatches_cons (item : Listed α) (items : List (Listed α)) :
    allMatches req filter (item :: items) =
      (match? req filter item).toList ++ allMatches req filter items := by
  rw [allMatches, List.filterMap_cons]
  cases match? req filter item <;> rfl

theorem match?_of_reading {kept : Option (Bytes × β)} (h : reading req filter item = .ok kept) :
    match? req filter item = kept := by
  rw [match?, h]

theorem allMatches_split {m : Bytes × β} (h : reading req filter item = .ok (some m))
    (before later : List (Listed α)) :
    allMatches req filter (before ++ item :: later) =
      allMatches req filter before ++ m :: allMatches req filter later := by
  rw [allMatches_append, allMatches_cons, match?_of_reading h]
  rfl

theorem match?_eq_some_iff {m : Bytes × β} :
    match? req filter item = some m ↔ reading req filter item = .ok (some m) := by
  constructor
  · intro h
    rw [match?] at h
    split at h
    · cases h
    · next kept hkept => rw [hkept, h]
  · exact match?_of_reading

/-! ## One item -/

/-- A failure ends the walk. -/
theorem walkFrom_of_failure {e : Error} (h : reading req filter item = .error e)
    (found : List (Bytes × β)) (later : List (Listed α)) :
    walkFrom req filter found (item :: later) =
      ⟨.error e, [item].filterMap (asked req), later⟩ := by
  cases item with
  | error e' =>
    cases h
    rw [walkFrom, walk]
    rfl
  | ok item =>
    obtain ⟨cursor, v⟩ := item
    rw [reading] at h
    by_cases hskip : req.skips cursor = true
    · rw [if_pos hskip] at h
      cases h
    · rw [if_neg hskip] at h
      cases hkept : filter cursor v with
      | ok kept =>
        rw [hkept] at h
        cases h
      | error e' =>
        rw [hkept] at h
        cases h
        rw [walkFrom, walk, if_neg hskip, hkept, List.filterMap_cons, asked, if_neg hskip]
        rfl

/-- An item that is skipped or dropped changes nothing. -/
theorem walkFrom_of_nothing (h : reading req filter item = .ok none) (found : List (Bytes × β))
    (later : List (Listed α)) :
    walkFrom req filter found (item :: later) =
      (walkFrom req filter found later).asking ([item].filterMap (asked req)) := by
  cases item with
  | error e => cases h
  | ok item =>
    obtain ⟨cursor, v⟩ := item
    rw [reading] at h
    by_cases hskip : req.skips cursor = true
    · rw [walkFrom, walk, if_pos hskip, List.filterMap_cons, asked, if_pos hskip]
      rfl
    · rw [if_neg hskip] at h
      cases hkept : filter cursor v with
      | error e =>
        rw [hkept] at h
        cases h
      | ok kept =>
        rw [hkept] at h
        cases kept with
        | some out => cases h
        | none =>
          rw [walkFrom, walk, if_neg hskip, hkept, List.filterMap_cons, asked, if_neg hskip]
          rfl

/-- A match is an item that the filter is asked about and keeps. -/
theorem exists_of_match {m : Bytes × β} (h : reading req filter item = .ok (some m)) :
    ∃ v, item = .ok (m.1, v) ∧ ¬ req.skips m.1 = true ∧ filter m.1 v = .ok (some m.2) ∧
      [item].filterMap (asked req) = [(m.1, v)] := by
  cases item with
  | error e => cases h
  | ok item =>
    obtain ⟨cursor, v⟩ := item
    rw [reading] at h
    by_cases hskip : req.skips cursor = true
    · rw [if_pos hskip] at h
      cases h
    · rw [if_neg hskip] at h
      cases hkept : filter cursor v with
      | error e =>
        rw [hkept] at h
        cases h
      | ok kept =>
        rw [hkept] at h
        cases kept with
        | none => cases h
        | some out =>
          cases h
          refine ⟨v, rfl, hskip, hkept, ?_⟩
          rw [List.filterMap_cons, asked, if_neg hskip]
          rfl

/-! ## The items of a page -/

section Run

variable {found : List (Bytes × β)}

/-- As long as the match beyond the page has not come, or for good if all are counted, the walk goes
on and carries the page of the matches so far. -/
theorem walkFrom_append (found : List (Bytes × β)) (hread : Reads req filter read)
    (hroom : req.counts = true ∨
      (found ++ allMatches req filter read).length ≤ req.offset.toNat + req.size)
    (later : List (Listed α)) :
    walkFrom req filter found (read ++ later) =
      (walkFrom req filter (found ++ allMatches req filter read) later).asking
        (read.filterMap (asked req)) := by
  induction read generalizing found with
  | nil =>
    have hnone : found ++ allMatches req filter [] = found := List.append_nil found
    rw [hnone]
    rfl
  | cons item read ih =>
    obtain ⟨kept, hkept⟩ := hread item List.mem_cons_self
    have hread : Reads req filter read :=
      fun item' hmem => hread item' (List.mem_cons_of_mem _ hmem)
    have hsplit : found ++ allMatches req filter (item :: read) =
        found ++ kept.toList ++ allMatches req filter read := by
      rw [allMatches_cons, match?_of_reading hkept, List.append_assoc]
    have hasked : (item :: read).filterMap (asked req) =
        [item].filterMap (asked req) ++ read.filterMap (asked req) := by
      rw [← List.filterMap_append, List.singleton_append]
    rw [hsplit] at hroom
    have ih := ih (found ++ kept.toList) hread hroom
    have hstep : walkFrom req filter found (item :: (read ++ later)) =
        (walkFrom req filter (found ++ kept.toList) (read ++ later)).asking
          ([item].filterMap (asked req)) := by
      cases kept with
      | none =>
        rw [Option.toList_none, List.append_nil]
        exact walkFrom_of_nothing hkept found _
      | some m =>
        obtain ⟨v, rfl, hskip, hfilter, hone⟩ := exists_of_match hkept
        have hgo : found.length < req.offset.toNat ∨
            (cutPage req found).items.length < req.size ∨ req.counts = true := by
          rcases hroom with hcounts | hroom
          · exact .inr (.inr hcounts)
          · rw [List.length_append, List.length_append, Option.toList_some,
              List.length_singleton] at hroom
            rw [length_items_cutPage]
            omega
        rw [hone]
        exact walkFrom_match hskip hfilter hgo _
    rw [List.cons_append, hstep, ih, hsplit, hasked, asking_asking]

/-- The match beyond the page ends it unless all are counted, whatever would follow. -/
theorem walkFrom_of_last {m : Bytes × β} (hcounts : req.counts = false)
    (hm : reading req filter item = .ok (some m))
    (hfound : found.length = req.offset.toNat + req.size) (later : List (Listed α))
    (beyond : List (Bytes × β)) :
    walkFrom req filter found (item :: later) =
      ⟨.ok (cutPage req (found ++ m :: beyond)), [item].filterMap (asked req), later⟩ := by
  have hnext : (cutPage req found).nextKey = none :=
    nextKey_cutPage_eq_none_iff.2 (Nat.le_of_eq hfound)
  have hroom : ¬ (cutPage req found).items.length < req.size := by
    rw [length_items_cutPage]
    omega
  obtain ⟨v, rfl, hskip, hfilter, hasked⟩ := exists_of_match hm
  rw [hasked]
  exact walkFrom_full hskip hfilter (by omega) hroom (by simp [hcounts]) hnext later beyond

end Run

theorem reads_or_failure (req : PageRequest) (filter : Bytes → α → Except Error (Option β))
    (items : List (Listed α)) :
    Reads req filter items ∨ ∃ before item after e, items = before ++ item :: after ∧
      Reads req filter before ∧ reading req filter item = .error e := by
  induction items with
  | nil => exact .inl nofun
  | cons first items ih =>
    cases hfirst : reading req filter first with
    | error e => exact .inr ⟨[], first, items, e, rfl, nofun, hfirst⟩
    | ok kept =>
      rcases ih with hread | ⟨before, item, after, e, rfl, hbefore, hitem⟩
      · exact .inl (List.forall_mem_cons.2 ⟨⟨kept, hfirst⟩, hread⟩)
      · exact .inr ⟨first :: before, item, after, e, rfl,
          List.forall_mem_cons.2 ⟨⟨kept, hfirst⟩, hbefore⟩, hitem⟩

/-- Either there are no more than `n` matches, or the one that comes after `n` others is the last
that is read. -/
theorem upToMatch_cases (req : PageRequest) (filter : Bytes → α → Except Error (Option β)) (n : Nat)
    (items : List (Listed α)) :
    ((allMatches req filter items).length ≤ n ∧ upToMatch req filter n items = items) ∨
    ∃ before item later m, items = before ++ item :: later ∧
      (allMatches req filter before).length = n ∧ reading req filter item = .ok (some m) ∧
      upToMatch req filter n items = before ++ [item] := by
  induction items generalizing n with
  | nil => exact .inl ⟨Nat.zero_le n, by rw [upToMatch]⟩
  | cons first items ih =>
    cases hfirst : match? req filter first with
    | none =>
      have hskip (l : List (Listed α)) :
          allMatches req filter (first :: l) = allMatches req filter l := by
        rw [allMatches_cons, hfirst, Option.toList_none, List.nil_append]
      have hread : upToMatch req filter n (first :: items) =
          first :: upToMatch req filter n items := by
        simp only [upToMatch, hfirst]
      rw [hread, hskip]
      rcases ih n with ⟨hlength, hall⟩ | ⟨before, item, later, m, rfl, hlength, hm, hread⟩
      · exact .inl ⟨hlength, congrArg (first :: ·) hall⟩
      · exact .inr ⟨first :: before, item, later, m, rfl, (hskip before) ▸ hlength, hm,
          congrArg (first :: ·) hread⟩
    | some m₀ =>
      have hone (l : List (Listed α)) :
          (allMatches req filter (first :: l)).length = (allMatches req filter l).length + 1 := by
        rw [allMatches_cons, hfirst, Option.toList_some, List.singleton_append, List.length_cons]
      cases n with
      | zero =>
        refine .inr ⟨[], first, items, m₀, rfl, rfl, match?_eq_some_iff.1 hfirst, ?_⟩
        simp only [upToMatch, hfirst, List.nil_append]
      | succ n =>
        have hread : upToMatch req filter (n + 1) (first :: items) =
            first :: upToMatch req filter n items := by
          simp only [upToMatch, hfirst]
        rw [hread, hone]
        rcases ih n with ⟨hlength, hall⟩ | ⟨before, item, later, m, rfl, hlength, hm, hread⟩
        · exact .inl ⟨Nat.succ_le_succ hlength, congrArg (first :: ·) hall⟩
        · refine .inr ⟨first :: before, item, later, m, rfl, ?_, hm, congrArg (first :: ·) hread⟩
          rw [hone, hlength]

/-! ## A page of a scan -/

/-- A request that gives both a cursor and an offset is refused before anything is read. -/
theorem paginate_of_both {req : Option PageRequest} (hboth : (req.getD .first).Contradictory) :
    paginate req filter items = ⟨.error .cursorWithOffset, [], items⟩ := by
  have hrefused : ((req.getD .first).key.isSome && (req.getD .first).offset != 0) = true := by
    rw [Bool.and_eq_true, bne_iff_ne]
    exact hboth
  rw [paginate, if_pos hrefused]

/-- Any other request is served by a walk that has come across nothing. -/
theorem paginate_eq_walkFrom {req : Option PageRequest}
    (hreq : ¬ (req.getD .first).Contradictory) :
    paginate req filter items = walkFrom (req.getD .first) filter [] items := by
  have hserved : ¬ ((req.getD .first).key.isSome && (req.getD .first).offset != 0) = true := by
    rw [Bool.and_eq_true, bne_iff_ne]
    exact hreq
  have hnext : (cutPage (req.getD .first) ([] : List (Bytes × β))).nextKey = none :=
    nextKey_cutPage_eq_none_iff.2 (Nat.zero_le _)
  have hitems : (cutPage (req.getD .first) ([] : List (Bytes × β))).items = [] := by
    rw [cutPage, List.drop_nil, List.take_nil, List.map_nil]
  rw [paginate, walkFrom, if_neg hserved, hnext, hitems]
  rfl

/-- The items of a page come first, and the match beyond it is the last of them. -/
theorem scope_cases (req : PageRequest) (filter : Bytes → α → Except Error (Option β))
    (items : List (Listed α)) :
    (scope req filter items = items ∧ (req.counts = true ∨
      (allMatches req filter items).length ≤ req.offset.toNat + req.size)) ∨
    ∃ before item later m, items = before ++ item :: later ∧ req.counts = false ∧
      (allMatches req filter before).length = req.offset.toNat + req.size ∧
      reading req filter item = .ok (some m) ∧ scope req filter items = before ++ [item] := by
  rw [scope]
  by_cases hcounts : req.counts = true
  · rw [if_pos hcounts]
    exact .inl ⟨rfl, .inl hcounts⟩
  · rw [if_neg hcounts]
    rcases upToMatch_cases req filter (req.offset.toNat + req.size) items with
      ⟨hlength, hall⟩ | ⟨before, item, later, m, hitems, hlength, hm, hread⟩
    · exact .inl ⟨hall, .inr hlength⟩
    · exact .inr ⟨before, item, later, m, hitems, Bool.eq_false_iff.2 hcounts, hlength, hm, hread⟩

/-- All items are those of a page that counts its matches or has no match beyond it. -/
theorem scope_eq_self (h : req.counts = true ∨
      (allMatches req filter items).length ≤ req.offset.toNat + req.size) :
    scope req filter items = items := by
  rcases scope_cases req filter items with
    ⟨hscope, -⟩ | ⟨before, item, later, m, rfl, hcounts, hlength, hm, -⟩
  · exact hscope
  · rw [allMatches_split hm, List.length_append, List.length_cons] at h
    rcases h with h | h
    · rw [hcounts] at h
      cases h
    · omega

theorem scope_of_next {next : Bytes × β} (hcounts : req.counts = false)
    (hnext : (allMatches req filter items)[req.offset.toNat + req.size]? = some next) :
    ∃ before item later, items = before ++ item :: later ∧
      scope req filter items = before ++ [item] ∧ reading req filter item = .ok (some next) ∧
      allMatches req filter before =
        (allMatches req filter items).take (req.offset.toNat + req.size) ∧
      (allMatches req filter before).length = req.offset.toNat + req.size := by
  rcases scope_cases req filter items with
    ⟨-, hall⟩ | ⟨before, item, later, m, rfl, -, hlength, hm, hscope⟩
  · rcases hall with hcounted | hfits
    · rw [hcounted] at hcounts
      cases hcounts
    · rw [List.getElem?_eq_none hfits] at hnext
      cases hnext
  · rw [allMatches_split hm, ← hlength] at hnext ⊢
    rw [List.getElem?_append_right (Nat.le_refl _), Nat.sub_self] at hnext
    obtain rfl : m = next := Option.some.inj hnext
    exact ⟨before, item, later, rfl, hscope, hm, List.take_left.symm, rfl⟩

/-- A page whose items can be read is cut from the matches. -/
theorem walkFrom_of_scope (hread : Reads req filter (scope req filter items)) :
    ∃ later, scope req filter items ++ later = items ∧
      walkFrom req filter [] items = ⟨.ok (cutPage req (allMatches req filter items)),
        (scope req filter items).filterMap (asked req), later⟩ := by
  rcases scope_cases req filter items with
    ⟨hall, hroom⟩ | ⟨before, item, later, m, hitems, hcounts, hlength, hm, hscope⟩
  · rw [hall] at hread ⊢
    have hwalk := walkFrom_append [] hread hroom []
    rw [List.append_nil] at hwalk
    refine ⟨[], List.append_nil items, ?_⟩
    rw [hwalk, List.nil_append, walkFrom, walk, asking, List.append_nil]
    rfl
  · rw [hscope] at hread ⊢
    have hbefore : Reads req filter before := fun other hmem =>
      hread other (List.mem_append_left [item] hmem)
    have hfound := allMatches_split hm before later
    have hwalk :=
      walkFrom_append [] hbefore (.inr (Nat.le_of_eq hlength)) (item :: later)
    rw [← hitems, List.nil_append,
      walkFrom_of_last hcounts hm hlength later (allMatches req filter later), ← hfound,
      ← hitems] at hwalk
    refine ⟨later, ?_, ?_⟩
    · rw [hitems, List.append_assoc, List.singleton_append]
    · rw [hwalk, List.filterMap_append]
      rfl

/-- A page comes to the first failure among its items. -/
theorem walkFrom_of_scope_failure {before after : List (Listed α)} {e : Error}
    (hscope : scope req filter items = before ++ item :: after) (hbefore : Reads req filter before)
    (hfailure : reading req filter item = .error e) :
    ∃ later, before ++ item :: later = items ∧
      walkFrom req filter [] items =
        ⟨.error e, (before ++ [item]).filterMap (asked req), later⟩ := by
  -- The item fails, so that it is not the last match but lies before it.
  obtain ⟨later, hitems, hroom⟩ : ∃ later, before ++ item :: later = items ∧
      (req.counts = true ∨
        (allMatches req filter before).length ≤ req.offset.toNat + req.size) := by
    rcases scope_cases req filter items with
      ⟨hall, hroom⟩ | ⟨init, last, later, m, hitems, hcounts, hlength, hm, hends⟩
    · rw [hscope] at hall
      refine ⟨after, hall, hroom.imp_right fun hlength => Nat.le_trans ?_ hlength⟩
      rw [← hall, allMatches_append, List.length_append]
      exact Nat.le_add_right _ _
    · rw [hscope] at hends
      rcases List.eq_nil_or_concat after with rfl | ⟨after', last', rfl⟩
      · have hlast : item = last := (List.append_inj' hends rfl).2 |> List.head_eq_of_cons_eq
        rw [hlast, hm] at hfailure
        cases hfailure
      · rw [List.concat_eq_append, ← List.cons_append, ← List.append_assoc] at hends
        have hinit : before ++ item :: after' = init := (List.append_inj' hends rfl).1
        refine ⟨after' ++ last :: later, ?_, .inr ?_⟩
        · rw [hitems, ← hinit, List.append_assoc, List.cons_append]
        · rw [← hlength, ← hinit, allMatches_append, List.length_append]
          exact Nat.le_add_right _ _
  have hwalk := walkFrom_append [] hbefore hroom (item :: later)
  rw [hitems, walkFrom_of_failure hfailure] at hwalk
  refine ⟨later, hitems, ?_⟩
  rw [hwalk, List.filterMap_append]
  rfl

/-- Every item of a page is one that the filter has kept. -/
theorem exists_kept_of_mem {req : Option PageRequest} {page : Page β}
    (h : (paginate req filter items).outcome = .ok page) {x : β} (hx : x ∈ page.items) :
    ∃ cursor v, .ok (cursor, v) ∈ items ∧ filter cursor v = .ok (some x) := by
  by_cases hboth : (req.getD .first).Contradictory
  · rw [paginate_of_both hboth] at h
    cases h
  · rw [paginate_eq_walkFrom hboth] at h
    rcases reads_or_failure (req.getD .first) filter (scope (req.getD .first) filter items) with
      hread | ⟨before, item, after, e, hscope, hbefore, hfailure⟩
    · obtain ⟨later, -, hwalk⟩ := walkFrom_of_scope hread
      rw [hwalk] at h
      cases h
      obtain ⟨m, hm, rfl⟩ := List.mem_map.1 hx
      have hfound : m ∈ allMatches (req.getD .first) filter items :=
        List.mem_of_mem_drop (List.mem_of_mem_take hm)
      obtain ⟨item, hitem, hmatch⟩ := List.mem_filterMap.1 hfound
      obtain ⟨v, rfl, -, hkept, -⟩ := exists_of_match (match?_eq_some_iff.1 hmatch)
      exact ⟨m.1, v, hitem, hkept⟩
    · obtain ⟨later, -, hwalk⟩ := walkFrom_of_scope_failure hscope hbefore hfailure
      rw [hwalk] at h
      cases h

/-- What follows the match beyond a page has no influence on it, failure or not. -/
theorem walkFrom_ignores {m : Bytes × β} (hcounts : req.counts = false)
    (hlength : (allMatches req filter before).length = req.offset.toNat + req.size)
    (hm : reading req filter item = .ok (some m)) :
    ∃ outcome examined, ∀ later, ∃ unread,
      walkFrom req filter [] (before ++ item :: later) = ⟨outcome, examined, unread⟩ := by
  rcases reads_or_failure req filter before with
    hread | ⟨init, failing, after, e, rfl, hread, hfailure⟩
  · refine ⟨.ok (cutPage req (allMatches req filter before ++ [m])),
      before.filterMap (asked req) ++ [item].filterMap (asked req), fun later => ⟨later, ?_⟩⟩
    have hwalk := walkFrom_append [] hread (.inr (Nat.le_of_eq hlength)) (item :: later)
    rw [List.nil_append, walkFrom_of_last hcounts hm hlength later []] at hwalk
    exact hwalk
  · have hroom : (allMatches req filter init).length ≤ req.offset.toNat + req.size := by
      rw [← hlength, allMatches_append, List.length_append]
      exact Nat.le_add_right _ _
    refine ⟨.error e, init.filterMap (asked req) ++ [failing].filterMap (asked req),
      fun later => ⟨after ++ item :: later, ?_⟩⟩
    have hwalk := walkFrom_append [] hread (.inr hroom)
      (failing :: (after ++ item :: later))
    rw [walkFrom_of_failure hfailure] at hwalk
    rw [List.append_assoc, List.cons_append]
    exact hwalk

theorem paginate_ignores {req : Option PageRequest} {m : Bytes × β}
    (hcounts : (req.getD .first).counts = false)
    (hlength : (allMatches (req.getD .first) filter before).length =
      (req.getD .first).offset.toNat + (req.getD .first).size)
    (hm : reading (req.getD .first) filter item = .ok (some m)) :
    ∃ outcome examined, ∀ later, ∃ unread,
      paginate req filter (before ++ item :: later) = ⟨outcome, examined, unread⟩ := by
  by_cases hboth : (req.getD .first).Contradictory
  · exact ⟨_, _, fun later => ⟨_, paginate_of_both hboth⟩⟩
  · obtain ⟨outcome, examined, hwalk⟩ := walkFrom_ignores hcounts hlength hm
    refine ⟨outcome, examined, fun later => ?_⟩
    rw [paginate_eq_walkFrom hboth]
    exact hwalk later

theorem exists_scope_append (req : PageRequest) (filter : Bytes → α → Except Error (Option β))
    (items : List (Listed α)) : ∃ later, scope req filter items ++ later = items := by
  rcases scope_cases req filter items with
    ⟨hscope, -⟩ | ⟨before, item, later, m, hitems, -, -, -, hscope⟩
  · exact ⟨[], by rw [hscope, List.append_nil]⟩
  · exact ⟨later, by rw [hscope, hitems, List.append_assoc, List.singleton_append]⟩

/-! ## Scans without failures -/

section Total

variable {r : PageRequest} {keep : Bytes → α → Option β}

theorem reading_of_total (item : Bytes × α) :
    reading r (fun cursor v => .ok (keep cursor v)) (.ok item) =
      .ok (if r.skips item.1 then none else (keep item.1 item.2).map (item.1, ·)) := by
  rw [reading]
  split <;> rfl

theorem allMatches_of_total (items : List (Bytes × α)) :
    allMatches r (fun cursor v => .ok (keep cursor v)) (items.map .ok) = matching r keep items := by
  rw [allMatches, matching, List.filterMap_map]
  refine congrArg (List.filterMap · items) (funext fun item => ?_)
  exact match?_of_reading (reading_of_total item)

/-- In cursor order the items before one are those with smaller cursors. -/
theorem mem_before_iff {before later : List (Bytes × α)} {last item : Bytes × α}
    (hsorted : (before ++ last :: later).Pairwise fun a b => a.1 < b.1) :
    item ∈ before ↔ item ∈ before ++ last :: later ∧ item.1 < last.1 := by
  obtain ⟨-, hlater, hbefore⟩ := List.pairwise_append.1 hsorted
  constructor
  · exact fun hmem => ⟨List.mem_append_left _ hmem, hbefore item hmem last List.mem_cons_self⟩
  · rintro ⟨hmem, hlt⟩
    rcases List.mem_append.1 hmem with hmem | hmem
    · exact hmem
    · exfalso
      rcases List.mem_cons.1 hmem with rfl | hmem
      · exact Std.lt_irrefl hlt
      · exact Std.lt_irrefl (Std.lt_trans hlt ((List.pairwise_cons.1 hlater).1 item hmem))

variable {req : Option PageRequest}
  (hreq : ¬ (req.getD .first).Contradictory)

include hreq

/-- A scan without failures is paged by cutting its matches. -/
theorem paginate_of_total (keep : Bytes → α → Option β) (items : List (Bytes × α)) :
    let r := req.getD .first
    let filter := fun cursor v => Except.ok (keep cursor v)
    ∃ later, paginate req filter (items.map .ok) =
      ⟨.ok (cutPage r (matching r keep items)),
        (scope r filter (items.map .ok)).filterMap (asked r), later⟩ := by
  intro r filter
  have hread : Reads r filter (scope r filter (items.map .ok)) := by
    obtain ⟨later, hlater⟩ := exists_scope_append r filter (items.map .ok)
    intro item hmem
    have hitem : item ∈ items.map .ok := hlater ▸ List.mem_append_left later hmem
    obtain ⟨item, -, rfl⟩ := List.mem_map.1 hitem
    exact ⟨_, reading_of_total item⟩
  obtain ⟨later, -, hwalk⟩ := walkFrom_of_scope hread
  rw [allMatches_of_total] at hwalk
  exact ⟨later, (paginate_eq_walkFrom hreq).trans hwalk⟩

/-- In cursor order a page comes across a dropped item exactly if it is not before the cursor of the
request, and before the next cursor unless all items are counted. -/
theorem mem_examined_iff (keep : Bytes → α → Option β) {items : List (Bytes × α)}
    (hsorted : items.Pairwise fun a b => a.1 < b.1) {item : Bytes × α}
    (hdrop : keep item.1 item.2 = none) :
    let r := req.getD .first
    item ∈ (paginate req (fun cursor v => .ok (keep cursor v)) (items.map .ok)).examined ↔
      item ∈ items ∧ r.skips item.1 = false ∧ (r.counts = true ∨
        ∀ next, (cutPage r (matching r keep items)).nextKey = some next → item.1 < next) := by
  intro r
  let filter : Bytes → α → Except Error (Option β) := fun cursor v => .ok (keep cursor v)
  obtain ⟨later, hpaging⟩ := paginate_of_total hreq keep items
  have hexamined : item ∈ (paginate req filter (items.map .ok)).examined ↔
      .ok item ∈ scope r filter (items.map .ok) ∧ r.skips item.1 = false := by
    rw [hpaging, List.mem_filterMap]
    constructor
    · rintro ⟨listed, hmem, hasked⟩
      cases listed with
      | error e => cases hasked
      | ok other =>
        rw [asked] at hasked
        split at hasked
        · cases hasked
        · next hskip =>
          cases hasked
          exact ⟨hmem, Bool.eq_false_iff.2 hskip⟩
    · rintro ⟨hmem, hskip⟩
      refine ⟨.ok item, hmem, ?_⟩
      rw [asked, if_neg (by rw [hskip]; exact Bool.false_ne_true)]
  rw [hexamined]
  have hall (h : scope r filter (items.map .ok) = items.map .ok) :
      .ok item ∈ scope r filter (items.map .ok) ↔ item ∈ items := by
    rw [h, List.mem_map]
    exact ⟨fun ⟨_, hmem, heq⟩ => Except.ok.inj heq ▸ hmem, fun hmem => ⟨item, hmem, rfl⟩⟩
  have hnextKey : (cutPage r (matching r keep items)).nextKey =
      (allMatches r filter (items.map .ok))[r.offset.toNat + r.size]?.map (·.1) := by
    rw [allMatches_of_total]
    rfl
  by_cases hcounts : r.counts = true
  · rw [hall (scope_eq_self (.inl hcounts))]
    exact ⟨fun h => ⟨h.1, h.2, .inl hcounts⟩, fun h => ⟨h.1, h.2.1⟩⟩
  · cases hnext : (allMatches r filter (items.map .ok))[r.offset.toNat + r.size]? with
    | none =>
      rw [hall (scope_eq_self (.inr (List.getElem?_eq_none_iff.1 hnext))), hnextKey, hnext]
      exact ⟨fun h => ⟨h.1, h.2, .inr nofun⟩, fun h => ⟨h.1, h.2.1⟩⟩
    | some m =>
      obtain ⟨before, last, later, hitems, hscope, hlast, -, -⟩ :=
        scope_of_next (Bool.eq_false_iff.2 hcounts) hnext
      obtain ⟨v, rfl, -, hkept, -⟩ := exists_of_match hlast
      obtain ⟨before, rest, rfl, rfl, hrest⟩ := List.map_eq_append_iff.1 hitems
      obtain ⟨last, later, rfl, hlast, rfl⟩ := List.map_eq_cons_iff.1 hrest
      cases hlast
      have hne : item ≠ (m.1, v) := by
        rintro rfl
        rw [Except.ok.inj hkept] at hdrop
        cases hdrop
      have hscoped : .ok item ∈ scope r filter ((before ++ (m.1, v) :: later).map .ok) ↔
          item ∈ before := by
        rw [hscope, List.mem_append, List.mem_singleton, List.mem_map]
        constructor
        · rintro (⟨_, hmem, heq⟩ | heq)
          · exact Except.ok.inj heq ▸ hmem
          · exact absurd (Except.ok.inj heq) hne
        · exact fun hmem => .inl ⟨item, hmem, rfl⟩
      rw [hscoped, mem_before_iff hsorted, hnextKey, hnext]
      constructor
      · rintro ⟨⟨hmem, hlt⟩, hskip⟩
        exact ⟨hmem, hskip, .inr fun next heq => Option.some.inj heq ▸ hlt⟩
      · rintro ⟨hmem, hskip, hcounted | hlt⟩
        · exact absurd hcounted hcounts
        · exact ⟨⟨hmem, hlt m.1 rfl⟩, hskip⟩

end Total

end Paging

open Paging (allMatches asked cutPage reading scope Reads)

/-- A request with a cursor and an offset is refused. For any other, let `found` be the matches of
the whole scan and `read` the items of the page, which are all items if the matches are counted or
fit the page, and end with the first match beyond the page otherwise. If none of them fails, the
page is cut from the matches, and exactly they have been read. Otherwise it is the first failure.
Where a page ends with a match beyond it, nothing that could follow makes a difference. -/
theorem paginate_cuts_scope {α β : Type} (req : Option PageRequest)
    (filter : Bytes → α → Except Error (Option β)) (items : List (Listed α)) :
    let r := req.getD .first
    let p := paginate req filter items
    let found := allMatches r filter items
    let read := scope r filter items
    let last := r.offset.toNat + r.size
    (r.Contradictory → p = ⟨.error .cursorWithOffset, [], items⟩) ∧
    (¬ r.Contradictory →
      (Reads r filter read → p.outcome = .ok (cutPage r found) ∧ read ++ p.unread = items ∧
        p.examined = read.filterMap (asked r)) ∧
      (∀ before item after e, read = before ++ item :: after → Reads r filter before →
        reading r filter item = .error e →
        p.outcome = .error e ∧ before ++ item :: p.unread = items ∧
          p.examined = (before ++ [item]).filterMap (asked r))) ∧
    (r.counts = true ∨ found.length ≤ last → read = items) ∧
    (r.counts = false → ∀ next, found[last]? = some next →
      (∃ before item, read = before ++ [item] ∧ allMatches r filter before = found.take last ∧
        reading r filter item = .ok (some next)) ∧
      ∀ later, let q := paginate req filter (read ++ later)
        q.outcome = p.outcome ∧ q.examined = p.examined) := by
  intro r p found read last
  refine ⟨Paging.paginate_of_both, fun hreq => ⟨fun hread => ?_, ?_⟩, fun hall => ?_,
    fun hcounts next hnext => ?_⟩
  · obtain ⟨later, hitems, hwalk⟩ := Paging.walkFrom_of_scope hread
    have hp : p = _ := (Paging.paginate_eq_walkFrom hreq).trans hwalk
    rw [hp]
    exact ⟨rfl, hitems, rfl⟩
  · intro before item after e hsplit hbefore hfailure
    obtain ⟨later, hitems, hwalk⟩ := Paging.walkFrom_of_scope_failure hsplit hbefore hfailure
    have hp : p = _ := (Paging.paginate_eq_walkFrom hreq).trans hwalk
    rw [hp]
    exact ⟨rfl, hitems, rfl⟩
  · exact Paging.scope_eq_self hall
  · obtain ⟨before, item, later₀, hitems, hread, hitem, hbefore, hlength⟩ :=
      Paging.scope_of_next hcounts hnext
    refine ⟨⟨before, item, hread, hbefore, hitem⟩, fun later => ?_⟩
    have hq : paginate req filter (read ++ later) =
        paginate req filter (before ++ item :: later) := by
      rw [show read = before ++ [item] from hread, List.append_assoc, List.singleton_append]
    have hp : p = paginate req filter (before ++ item :: later₀) := by
      rw [← hitems]
    obtain ⟨outcome, examined, hpage⟩ := Paging.paginate_ignores hcounts hlength hitem
    obtain ⟨unread, hlater⟩ := hpage later
    obtain ⟨unread₀, hlater₀⟩ := hpage later₀
    dsimp only
    rw [hq, hp, hlater, hlater₀]
    exact ⟨rfl, rfl⟩

/-- A scan that fails after three even numbers. -/
def failingScan : List (Listed Nat) :=
  [.ok ([1], 2), .ok ([2], 3), .ok ([3], 4), .ok ([4], 6), .error (.custom .store "scan")]

/-- Keep the even numbers. -/
def keepEven (_cursor : Bytes) (n : Nat) : Except Error (Option Nat) :=
  .ok (if n % 2 = 0 then some n else none)

/-- The failure lies beyond a short page, but not beyond one that is counted. -/
theorem paginate_failingScan :
    paginate (some ⟨none, 1, 1, false⟩) keepEven failingScan =
      ⟨.ok ⟨[4], some [4], none⟩, [([1], 2), ([2], 3), ([3], 4), ([4], 6)],
        [.error (.custom .store "scan")]⟩ ∧
    (paginate (some ⟨none, 1, 1, true⟩) keepEven failingScan).outcome =
      .error (.custom .store "scan") ∧
    (paginate (some ⟨some [2], 1, 1, false⟩) keepEven failingScan).outcome =
      .error .cursorWithOffset := by
  have hread : Reads ⟨none, 1, 1, false⟩ keepEven (failingScan.take 4) := by
    intro item hmem
    cases item with
    | error e => simp [failingScan] at hmem
    | ok item => exact ⟨_, rfl⟩
  obtain ⟨-, hshort, -, -⟩ := paginate_cuts_scope (some ⟨none, 1, 1, false⟩) keepEven failingScan
  obtain ⟨-, hcounted, -, -⟩ := paginate_cuts_scope (some ⟨none, 1, 1, true⟩) keepEven failingScan
  obtain ⟨hboth, -, -, -⟩ := paginate_cuts_scope (some ⟨some [2], 1, 1, false⟩) keepEven failingScan
  refine ⟨?_, ?_, ?_⟩
  · obtain ⟨houtcome, hunread, hexamined⟩ := (hshort fun h => nomatch h.1).1 hread
    generalize paginate (some ⟨none, 1, 1, false⟩) keepEven failingScan = p at *
    obtain ⟨outcome, examined, unread⟩ := p
    cases houtcome
    cases hexamined
    cases List.append_cancel_left (hunread.trans (List.take_append_drop 4 failingScan).symm)
    rfl
  · exact ((hcounted fun h => nomatch h.1).2 (failingScan.take 4) _ [] _ rfl hread rfl).1
  · rw [hboth ⟨rfl, by decide⟩]

end GrantLedger
