import Mathlib.Data.List.Dedup
import GrantLedger.Proofs.GenesisRoundtrip
import GrantLedger.Proofs.KeyLayout
import GrantLedger.Proofs.Walks

/-!
# Lookups, listings and exports read the same grants

In a well-formed table a grant can be found in four ways: by its triple, in the listing of its pair,
in the listing of its grantee, and in an export. All four see the grants that have not expired, and
the longer lists are the shorter ones put end to end, since the addresses in a key have a fixed
length and come before the type URL (`Query.lookups_listings_and_export_agree`). There is one
exception: nobody can ask for a grant of the empty type URL by itself, although it is listed.

A listing removes the records of the expired grants that it came across, which are those from its
cursor on and before the next one, and touches no other key (`Query.mem_expired_iff`).
-/

namespace GrantLedger

open GrantTable (live listing recordAt WellFormed)
open Paging (cutPage)

/-! ## Lists of grants in the order of their keys -/

/-- The grants are in the order of their keys. -/
def Grant.Ordered (gs : List Grant) : Prop :=
  gs.Pairwise fun g g' => g.key.toBytes < g'.key.toBytes

namespace Grant.Ordered

variable {gs gs' : List Grant}

/-- Grants in the order of their keys are known from which they are. -/
theorem ext (h : Ordered gs) (h' : Ordered gs') (hmem : ∀ g, g ∈ gs ↔ g ∈ gs') : gs = gs' := by
  have hsorted {l : List Grant} (hl : Ordered l) :
      (l.map fun g => (g.key.toBytes, g)).Pairwise fun a b => a.1 < b.1 := List.pairwise_map.2 hl
  have hmaps : (⟨_, hsorted h⟩ : SortedMap Bytes Grant) = ⟨_, hsorted h'⟩ := by
    refine SortedMap.ext_get? fun b => Option.ext fun g => ?_
    rw [← SortedMap.mem_entries_iff, ← SortedMap.mem_entries_iff]
    simp only [List.mem_map, hmem]
  have hpairs := congrArg (List.map Prod.snd) (congrArg SortedMap.entries hmaps)
  simpa only [List.map_map, Function.comp_def, List.map_id'] using hpairs

/-- If grants are in the order of an account of theirs in the first place, they are the grants of
one account after the other. -/
theorem exists_flatMap (h : Ordered gs) (account : Grant → Address)
    (haccount : ∀ g ∈ gs, ∀ g' ∈ gs, (account g).bytes < (account g').bytes →
      g.key.toBytes < g'.key.toBytes)
    {part : Address → List Grant} (hpart : ∀ a, Ordered (part a))
    (hmem : ∀ a g, g ∈ part a ↔ g ∈ gs ∧ account g = a) :
    ∃ accounts : List Address, (accounts.Pairwise fun a b => a.bytes < b.bytes) ∧
      (∀ a, part a ≠ [] → a ∈ accounts) ∧ gs = accounts.flatMap part := by
  have hnotAfter : (gs.map account).Pairwise fun a b => ¬ b.bytes < a.bytes := by
    rw [List.pairwise_map]
    refine List.Pairwise.imp_of_mem (fun {g g'} hg hg' hlt hback => ?_) h
    exact Std.lt_irrefl (Std.lt_trans hlt (haccount g' hg' g hg hback))
  have haccounts : (gs.map account).dedup.Pairwise fun a b => a.bytes < b.bytes := by
    have hdistinct : (gs.map account).dedup.Pairwise fun a b => a ≠ b := List.nodup_dedup _
    refine (hnotAfter.sublist (List.dedup_sublist _)).imp₂ (fun a b hnot hne => ?_) hdistinct
    exact Std.lt_of_le_of_ne (Std.not_lt.1 hnot) (mt Address.ext hne)
  refine ⟨(gs.map account).dedup, haccounts, fun a hne => ?_, ?_⟩
  · obtain ⟨g, hg⟩ := List.exists_mem_of_ne_nil _ hne
    obtain ⟨hlisted, rfl⟩ := (hmem a g).1 hg
    exact List.mem_dedup.2 (List.mem_map_of_mem hlisted)
  · refine ext h ?_ fun g => ?_
    · rw [Ordered, List.pairwise_flatMap]
      refine ⟨fun a _ => hpart a, haccounts.imp fun {a b} hlt g hg g' hg' => ?_⟩
      obtain ⟨hlisted, rfl⟩ := (hmem a g).1 hg
      obtain ⟨hlisted', rfl⟩ := (hmem b g').1 hg'
      exact haccount g hlisted g' hlisted' hlt
    · rw [List.mem_flatMap]
      constructor
      · intro hg
        exact ⟨account g, List.mem_dedup.2 (List.mem_map_of_mem hg), (hmem _ g).2 ⟨hg, rfl⟩⟩
      · rintro ⟨a, -, hg⟩
        exact ((hmem a g).1 hg).1

end Grant.Ordered

namespace Query

/-! ## What queries answer -/

/-- Nothing cuts `n` matches short: the page starts with the first of them and has room for all. -/
def Unlimited (req : Option PageRequest) (n : Nat) : Prop :=
  (req.getD .first).key = none ∧ (req.getD .first).offset = 0 ∧ n ≤ (req.getD .first).size

section Page

variable {r : Registry} {c : Context} (hc : c.Reliable) (hm : WellFormed r c.store.content)
  {start : Bytes} (hstart : GrantKey.allRange <+: start) {req : Option PageRequest}

include hc hm hstart

theorem page_of_contradictory (hreq : (req.getD .first).Contradictory) :
    (GrantTable.list r start >>= fun items => page items req) c =
      (.error .cursorWithOffset, c) := by
  rw [Exec.bind_ok (hm.list_eq hc hstart)]
  have hrefused : paginate req (unexpired c.header.time)
      ((listing r start c.store.content).map .ok) = _ := Paging.paginate_of_both hreq
  rcases page_eq hc hm hstart req with ⟨p, hp, -⟩ | ⟨-, hpage⟩
  · rw [hrefused] at hp
    cases hp
  · exact hpage

/-- Any other page is cut from the live grants from its cursor on. -/
theorem page_of_not_contradictory (hreq : ¬ (req.getD .first).Contradictory) :
    (GrantTable.list r start >>= fun items => page items req) c =
      (.ok (cutPage (req.getD .first)
          (remaining (req.getD .first).key (live r start c.header.time c.store.content))),
        c.erase ((expired req c.header.time (listing r start c.store.content)).map
          fun g => g.key.toBytes)) := by
  rw [Exec.bind_ok (hm.list_eq hc hstart)]
  obtain ⟨later, hpaging⟩ : ∃ later, paginate req (unexpired c.header.time)
      ((listing r start c.store.content).map .ok) = _ :=
    Paging.paginate_of_total hreq (fun _ g => if g.isExpired c.header.time then none else some g)
      (listing r start c.store.content)
  rw [matching_unexpired] at hpaging
  rcases page_eq hc hm hstart req with ⟨p, hp, hpage⟩ | ⟨hp, -⟩
  · rw [hpaging] at hp
    cases hp
    exact hpage
  · rw [hpaging] at hp
    cases hp

end Page

/-- The record under `b` is one that a page of the range comes across and removes: it has expired,
and its cursor is not before that of the request, nor past the next one unless all are counted. -/
def Swept (r : Registry) (m : Pairs) (now : Timestamp) (start : Bytes) (req : Option PageRequest)
    (next : Option Bytes) (b : Bytes) : Prop :=
  ∃ g cursor, b = g.key.toBytes ∧ b = start ++ cursor ∧ recordAt r m g.key = .ok (some g) ∧
    g.isExpired now = true ∧ (req.getD .first).skips cursor = false ∧
    ((req.getD .first).counts = true ∨ ∀ key, next = some key → cursor < key)

section Swept

variable {r : Registry} {m : Pairs} (hm : WellFormed r m) {start : Bytes}
  (hstart : GrantKey.allRange <+: start) {req : Option PageRequest}
  (hreq : ¬ (req.getD .first).Contradictory)

include hm hstart hreq

theorem mem_expired_iff (now : Timestamp) (b : Bytes) :
    b ∈ (expired req now (listing r start m)).map (fun g => g.key.toBytes) ↔
      Swept r m now start req (cutPage (req.getD .first)
        (remaining (req.getD .first).key (live r start now m))).nextKey b := by
  let keep (_ : Bytes) (g : Grant) := if g.isExpired now then none else some g
  have hmatching : Paging.matching (req.getD .first) keep (listing r start m) =
      remaining (req.getD .first).key (live r start now m) := matching_unexpired _ _
  have hexamined {item : Bytes × Grant} (hexp : item.2.isExpired now = true) :
      item ∈ (paginate req (unexpired now) ((listing r start m).map .ok)).examined ↔ _ :=
    Paging.mem_examined_iff hreq keep (GrantTable.sorted_listing r start m) (if_pos hexp)
  rw [hmatching] at hexamined
  simp only [expired, List.mem_map, List.mem_filter]
  constructor
  · rintro ⟨g, ⟨⟨⟨cursor, g⟩, hmem, rfl⟩, hexp⟩, rfl⟩
    obtain ⟨hlisted, hskip, hbefore⟩ := (hexamined hexp).1 hmem
    obtain ⟨hkey, hrec⟩ := (hm.mem_listing_iff hstart).1 hlisted
    exact ⟨g, cursor, rfl, hkey.symm, hrec, hexp, hskip, hbefore⟩
  · rintro ⟨g, cursor, rfl, hkey, hrec, hexp, hskip, hbefore⟩
    have hlisted : (cursor, g) ∈ listing r start m :=
      (hm.mem_listing_iff hstart).2 ⟨hkey.symm, hrec⟩
    exact ⟨g, ⟨⟨(cursor, g), (hexamined hexp).2 ⟨hlisted, hskip, hbefore⟩, rfl⟩, hexp⟩, rfl⟩

end Swept

/-- Where nothing cuts them short, all live grants are on the page. -/
theorem cutPage_of_unlimited {req : Option PageRequest} {all : List (Bytes × Grant)}
    (h : Unlimited req all.length) :
    ∃ total, cutPage (req.getD .first) (remaining (req.getD .first).key all) =
      ⟨all.map (·.2), none, total⟩ := by
  obtain ⟨hkey, hoffset, hsize⟩ := h
  have hall : remaining (req.getD .first).key all = all := by
    rw [hkey]
    exact List.filter_eq_self.2 fun _ _ => rfl
  refine ⟨_, (Page.mk.injEq ..).mpr ⟨?_, ?_, rfl⟩⟩
  · rw [hall, hoffset]
    exact congrArg (List.map _) (List.take_of_length_le hsize)
  · rw [hall, hoffset, List.getElem?_eq_none (Nat.le_trans hsize (Nat.le_add_left _ _))]
    rfl

namespace Listing

/-- The query asks for the pages of a listing, by the texts of the accounts. -/
inductive Asks (r : Registry) : Listing → (Option PageRequest → Exec (Page Grant)) → Prop where
  | pair {s t : String} {granter grantee : Address} (hgranter : account s = .ok granter)
      (hgrantee : account t = .ok grantee) : Asks r (pair granter grantee) (authorizations r s t)
  | held {t : String} {grantee : Address} (hgrantee : account t = .ok grantee) :
      Asks r (held grantee) (granteeGrants r t)

variable {r : Registry} {l : Listing} {ask : Option PageRequest → Exec (Page Grant)}

theorem Asks.ask_eq (h : Asks r l ask) (req : Option PageRequest) :
    ask req = GrantTable.list r l.front >>= fun items => Query.page items req := by
  cases h with
  | pair hgranter hgrantee =>
    rw [authorizations, hgranter, hgrantee]
    rfl
  | held hgrantee =>
    rw [granteeGrants, hgrantee]
    rfl

/-- The grants of a listing that have not expired. -/
theorem mem_liveGrants_iff {m : Pairs} (hm : WellFormed r m) (l : Listing) {now : Timestamp}
    {g : Grant} : g ∈ l.liveGrants r now m ↔
      l.Covers g ∧ recordAt r m g.key = .ok (some g) ∧ g.isExpired now = false := by
  rw [liveGrants, hm.mem_live_iff l.allRange_prefix_front, l.front_prefix_iff]

theorem ordered_liveGrants {m : Pairs} (hm : WellFormed r m) (l : Listing) (now : Timestamp) :
    Grant.Ordered (l.liveGrants r now m) :=
  hm.sorted_live_keys l.allRange_prefix_front

/-- The live grants of a pair are in the order of their type URLs. -/
theorem pairwise_msgTypeUrl {m : Pairs} (hm : WellFormed r m) (granter grantee : Address)
    (now : Timestamp) : ((pair granter grantee).liveGrants r now m).Pairwise
      fun g g' => Bytes.ofText g.msgTypeUrl < Bytes.ofText g'.msgTypeUrl := by
  refine (ordered_liveGrants hm _ now).imp_of_mem fun {g g'} hg hg' hlt => ?_
  obtain ⟨⟨hgranter, hgrantee⟩, -⟩ := (mem_liveGrants_iff hm _).1 hg
  obtain ⟨⟨hgranter', hgrantee'⟩, -⟩ := (mem_liveGrants_iff hm _).1 hg'
  exact (GrantKey.toBytes_lt_iff (hgrantee.trans hgrantee'.symm)
    (hgranter.trans hgranter'.symm)).1 hlt

/-- The grants that an account holds are those of one granter after the other. -/
theorem exists_granters {m : Pairs} (hm : WellFormed r m) (now : Timestamp) (grantee : Address) :
    ∃ granters : List Address, (granters.Pairwise fun a b => a.bytes < b.bytes) ∧
      (∀ granter, (pair granter grantee).liveGrants r now m ≠ [] → granter ∈ granters) ∧
      (held grantee).liveGrants r now m =
        granters.flatMap fun granter => (pair granter grantee).liveGrants r now m := by
  refine (ordered_liveGrants hm (held grantee) now).exists_flatMap Grant.granter ?_
    (fun granter => ordered_liveGrants hm _ now) fun granter g => ?_
  · intro g hg g' hg' hlt
    have hheld : g.grantee = grantee := ((mem_liveGrants_iff hm _).1 hg).1
    have hheld' : g'.grantee = grantee := ((mem_liveGrants_iff hm _).1 hg').1
    exact GrantKey.toBytes_lt_of_granter (hheld.trans hheld'.symm) hlt
  · rw [mem_liveGrants_iff hm, mem_liveGrants_iff hm, Covers, Covers]
    tauto

end Listing

/-! ## Single grants -/

section Single

variable {r : Registry} {c : Context} (hc : c.Reliable)

include hc

theorem authorization_eq_ok_iff {s t url : String} {granter grantee : Address}
    (hgranter : account s = .ok granter) (hgrantee : account t = .ok grantee) {g : Grant} :
    (authorization r s t url c).1 = .ok g ↔
      url ≠ "" ∧ recordAt r c.store.content ⟨grantee, granter, url⟩ = .ok (some g) ∧
        g.isExpired c.header.time = false := by
  rw [authorization]
  by_cases hurl : url = ""
  · rw [if_pos hurl]
    exact ⟨fun h => (by cases h), fun h => absurd hurl h.1⟩
  · rw [if_neg hurl, hgranter, hgrantee]
    show ((Keeper.lookup r ⟨grantee, granter, url⟩ >>= _) c).1 = _ ↔ _
    constructor
    · intro h
      obtain ⟨found, d, hlookup, hfound⟩ := Exec.bind_eq_ok_iff.1 (Exec.eq_of_fst h)
      cases found with
      | none => cases hfound
      | some g' =>
        cases hfound
        obtain ⟨hrec, hexp, -⟩ := (Keeper.lookup_eq_some_iff hc).1 hlookup
        exact ⟨hurl, hrec, hexp⟩
    · rintro ⟨-, hrec, hexp⟩
      have hlookup := (Keeper.lookup_eq_some_iff hc).2 ⟨hrec, hexp, rfl⟩
      rw [Exec.bind_ok hlookup]
      rfl

/-- A pair's listing and the lookups of its grants agree, but for the empty type URL. -/
theorem mem_pair_iff_authorization (hm : WellFormed r c.store.content) {s t : String}
    {granter grantee : Address} (hgranter : account s = .ok granter)
    (hgrantee : account t = .ok grantee) {g : Grant} :
    g ∈ (Listing.pair granter grantee).liveGrants r c.header.time c.store.content ↔
      (∃ url, (authorization r s t url c).1 = .ok g) ∨
        (g.msgTypeUrl = "" ∧ (Keeper.lookup r ⟨grantee, granter, ""⟩ c).1 = .ok (some g)) := by
  have hkey {url : String}
      (hrec : recordAt r c.store.content ⟨grantee, granter, url⟩ = .ok (some g)) :
      g.key = ⟨grantee, granter, url⟩ := hm.key_eq_of_recordAt hrec
  rw [Listing.mem_liveGrants_iff hm]
  constructor
  · rintro ⟨⟨rfl, rfl⟩, hrec, hexp⟩
    by_cases hurl : g.msgTypeUrl = ""
    · have hlookup := (Keeper.lookup_eq_some_iff hc).2 ⟨hrec, hexp, rfl⟩
      refine .inr ⟨hurl, ?_⟩
      rw [← hurl]
      exact congrArg Prod.fst hlookup
    · exact .inl ⟨g.msgTypeUrl, (authorization_eq_ok_iff hc hgranter hgrantee).2 ⟨hurl, hrec, hexp⟩⟩
  · rintro (⟨url, hfound⟩ | ⟨-, hfound⟩)
    · obtain ⟨-, hrec, hexp⟩ := (authorization_eq_ok_iff hc hgranter hgrantee).1 hfound
      have hkey := hkey hrec
      exact ⟨⟨congrArg GrantKey.granter hkey, congrArg GrantKey.grantee hkey⟩, hkey ▸ hrec, hexp⟩
    · obtain ⟨hrec, hexp, -⟩ := (Keeper.lookup_eq_some_iff hc).1 (Exec.eq_of_fst hfound)
      have hkey := hkey hrec
      exact ⟨⟨congrArg GrantKey.granter hkey, congrArg GrantKey.grantee hkey⟩, hkey ▸ hrec, hexp⟩

end Single

end Query

namespace Genesis

theorem ofListed_eq_mapM (now : Timestamp) (items : List (Bytes × Grant)) :
    ofListed now (items.map .ok) =
      ((items.filter fun item => !item.2.isExpired now).map (·.2)).mapM GenesisEntry.ofGrant := by
  induction items with
  | nil => rfl
  | cons item items ih =>
    rw [List.map_cons, ofListed, ih]
    cases hexp : item.2.isExpired now with
    | true => rw [if_pos rfl, List.filter_cons_of_neg (by simp [hexp])]
    | false =>
      rw [if_neg Bool.false_ne_true, List.filter_cons_of_pos (by simp [hexp]), List.map_cons,
        List.mapM_cons]

/-- An export packs the live grants, up to the first that cannot be packed. -/
theorem exported_eq_mapM {r : Registry} {c : Context} (hc : c.Reliable)
    (hm : WellFormed r c.store.content) :
    exported r c =
      (((live r GrantKey.allRange c.header.time c.store.content).map (·.2)).mapM
        GenesisEntry.ofGrant, c) := by
  rw [exported, Exec.bind_ok (Exec.blockTime_eq c), GrantTable.listAll,
    Exec.bind_ok (hm.list_eq hc (List.prefix_refl _)), ofListed_eq_mapM]
  rfl

end Genesis

namespace Query

/-- The grants of an export are those of one grantee after the other. -/
theorem exists_grantees {r : Registry} {m : Pairs} (hm : WellFormed r m) (now : Timestamp) :
    ∃ grantees : List Address, (grantees.Pairwise fun a b => a.bytes < b.bytes) ∧
      (∀ grantee, (Listing.held grantee).liveGrants r now m ≠ [] → grantee ∈ grantees) ∧
      (live r GrantKey.allRange now m).map (·.2) =
        grantees.flatMap fun grantee => (Listing.held grantee).liveGrants r now m := by
  have hall : GrantKey.allRange <+: GrantKey.allRange := List.prefix_refl _
  have hordered : Grant.Ordered ((live r GrantKey.allRange now m).map (·.2)) :=
    hm.sorted_live_keys hall
  refine hordered.exists_flatMap Grant.grantee
    (fun g _ g' _ hlt => GrantKey.toBytes_lt_of_grantee hlt)
    (fun grantee => Listing.ordered_liveGrants hm _ now) fun grantee g => ?_
  have hstarts : GrantKey.allRange <+: g.key.toBytes :=
    Bytes.startsWith_iff.1 g.key.startsWith_toBytes
  rw [Listing.mem_liveGrants_iff hm, hm.mem_live_iff hall, Listing.Covers]
  tauto

/-- Over a well-formed table, at any time:
a listing whose page nothing cuts short answers its live grants, and is refused without a trace if
its request is contradictory; otherwise it removes the records that its page came across and that
have expired, and no others. The live grants of a pair are in the order of their type URLs, and are
what the lookups of the pair answer, but for the one of the empty type URL. Those of a grantee are
the ones of its granters put end to end, and what an export packs are those of all grantees put end
to end. -/
theorem lookups_listings_and_export_agree {r : Registry} {c : Context} (hc : c.Reliable)
    (hm : WellFormed r c.store.content) :
    let m := c.store.content
    let now := c.header.time
    let live (l : Listing) := l.liveGrants r now m
    (∀ l ask, Listing.Asks r l ask → ∀ req,
      (Unlimited req (live l).length →
        ∃ total c', ask req c = (.ok ⟨live l, none, total⟩, c')) ∧
      ((req.getD .first).Contradictory → ask req c = (.error .cursorWithOffset, c)) ∧
      (¬ (req.getD .first).Contradictory → ∃ p c', ask req c = (.ok p, c') ∧ ∀ b,
        (Swept r m now l.front req p.nextKey b → c'.store.content.get? b = none) ∧
        (¬ Swept r m now l.front req p.nextKey b → c'.store.content.get? b = m.get? b))) ∧
    (∀ s t granter grantee, account s = .ok granter → account t = .ok grantee →
      (live (.pair granter grantee)).Pairwise
        (fun g g' => Bytes.ofText g.msgTypeUrl < Bytes.ofText g'.msgTypeUrl) ∧
      (∀ url g, (authorization r s t url c).1 = .ok g → g.msgTypeUrl = url) ∧
      ∀ g, g ∈ live (.pair granter grantee) ↔
        (∃ url, (authorization r s t url c).1 = .ok g) ∨
          (g.msgTypeUrl = "" ∧ (Keeper.lookup r ⟨grantee, granter, ""⟩ c).1 = .ok (some g))) ∧
    (∀ grantee, ∃ granters : List Address, (granters.Pairwise fun a b => a.bytes < b.bytes) ∧
      (∀ granter, live (.pair granter grantee) ≠ [] → granter ∈ granters) ∧
      live (.held grantee) = granters.flatMap fun granter => live (.pair granter grantee)) ∧
    ∃ grantees : List Address, (grantees.Pairwise fun a b => a.bytes < b.bytes) ∧
      (∀ grantee, live (.held grantee) ≠ [] → grantee ∈ grantees) ∧
      Genesis.exported r c =
        ((grantees.flatMap fun grantee => live (.held grantee)).mapM GenesisEntry.ofGrant, c) := by
  intro m now live
  refine ⟨fun l ask hask req => ?_, fun s t granter grantee hgranter hgrantee => ?_,
    Listing.exists_granters hm now, ?_⟩
  · have hstart := l.allRange_prefix_front
    rw [hask.ask_eq]
    refine ⟨fun hreq => ?_, page_of_contradictory hc hm hstart, fun hreq => ?_⟩
    · have hnot : ¬ (req.getD .first).Contradictory := fun hboth => hboth.2 hreq.2.1
      rw [page_of_not_contradictory hc hm hstart hnot]
      have hreq : Unlimited req (GrantTable.live r l.front now m).length := by
        rwa [show (live l).length = _ from List.length_map _] at hreq
      obtain ⟨total, hcut⟩ := cutPage_of_unlimited hreq
      exact ⟨total, _, by rw [hcut]; rfl⟩
    · refine ⟨_, _, page_of_not_contradictory hc hm hstart hreq, fun b => ?_⟩
      rw [Context.get?_content_erase, ← mem_expired_iff hm hstart hreq]
      exact ⟨fun hswept => if_pos hswept, fun hkept => if_neg hkept⟩
  · refine ⟨Listing.pairwise_msgTypeUrl hm granter grantee now, fun url g hfound => ?_,
      fun g => mem_pair_iff_authorization hc hm hgranter hgrantee⟩
    obtain ⟨-, hrec, -⟩ := (authorization_eq_ok_iff hc hgranter hgrantee).1 hfound
    exact congrArg GrantKey.msgTypeUrl (hm.key_eq_of_recordAt hrec)
  · obtain ⟨grantees, hsorted, hcomplete, hall⟩ := exists_grantees hm now
    exact ⟨grantees, hsorted, hcomplete, by rw [Genesis.exported_eq_mapM hc hm, hall]⟩

/-- A grantee holds lasting grants of two granters, and one that expired at 9; all are listed at
20. -/
theorem lookups_listings_and_export_agree_lasting :
    let grantee : Address := ⟨.replicate 20 3, rfl⟩
    let grant (n : UInt8) (url : String) (expiration : Option Timestamp) : Grant :=
      ⟨⟨.replicate 20 n, rfl⟩, grantee, .generic url, expiration⟩
    let record (g : Grant) (m : Pairs) : Pairs := m.put g.key.toBytes g.stored
    let stale := grant 1 "/b" (some ⟨9⟩)
    let lasting := [grant 1 "/a" none, grant 2 "/a" none]
    let c : Context := .start ⟨"c", 2, ⟨20⟩⟩
      (.ofPairs (record (grant 1 "/a" none) (record (grant 2 "/a" none) (record stale ∅))))
    ∃ total c', granteeGrants .builtin grantee.toText none c = (.ok ⟨lasting, none, total⟩, c') ∧
      c'.store.content.get? stale.key.toBytes = none := by
  intro grantee grant record stale lasting c
  have hrecord {n : UInt8} {url : String} {expiration : Option Timestamp} {m : Pairs}
      (hm : WellFormed .builtin m) {v : Bytes} (hv : (grant n url expiration).stored = some v)
      (hlength : v.length ≤ 65536) : WellFormed .builtin (record (grant n url expiration) m) := by
    have hread := (Grant.decode_of_stored (r := .builtin) rfl (Authorization.builtin_generic url)
      hv).trans (if_neg (Nat.not_lt.2 hlength))
    dsimp only [record]
    rw [hv]
    exact hm.put_record ⟨rfl, hread⟩
  have hm : WellFormed .builtin c.store.content :=
    hrecord (hrecord (hrecord (GrantTable.wellFormed_empty _) rfl (by decide +kernel)) rfl
      (by decide +kernel)) rfl (by decide +kernel)
  have hc : c.Reliable := Store.reliable_ofPairs _
  have hlive : (Listing.held grantee).liveGrants .builtin c.header.time c.store.content =
      lasting := by
    decide +kernel
  obtain ⟨hlistings, -, -, -⟩ := lookups_listings_and_export_agree hc hm
  obtain ⟨hall, -, hremoves⟩ := hlistings _ _ (.held (account_toText grantee)) none
  dsimp only at hall
  rw [hlive] at hall
  obtain ⟨total, c', hpage⟩ := hall ⟨rfl, rfl, by decide⟩
  obtain ⟨p, c'', hpage', hswept⟩ := hremoves fun h => h.2 rfl
  obtain ⟨hp, rfl⟩ := Prod.mk.inj (hpage.symm.trans hpage')
  cases hp
  refine ⟨total, c', hpage, (hswept _).1 ?_⟩
  exact ⟨stale, _, rfl, rfl, by decide +kernel, rfl, rfl, .inr nofun⟩

/-- Of two scripted grants of a pair one is listed, but cannot be looked up, since it is of the
empty type URL; with the other, which cannot be packed, nothing can be exported. -/
theorem listed_grant_not_looked_up :
    let granter : Address := ⟨.replicate 20 1, rfl⟩
    let grantee : Address := ⟨.replicate 20 2, rfl⟩
    let script (url : String) (failEncode : Bool) : Script :=
      ⟨⟨⟨url, true, false, none⟩, ⟨failEncode, none⟩⟩, []⟩
    let grant (s : Script) : Grant := ⟨granter, grantee, .scripted s, none⟩
    let record (s : Script) (m : Pairs) : Pairs := m.put (grant s).key.toBytes
      (some (GrantRecord.codec.encode ⟨⟨Script.typeUrl, Script.codec.encode s⟩, none⟩))
    let r : Registry := ⟨[.generic, .method, .scripted], Registry.defaultMaxValueBytes⟩
    let c : Context := .start ⟨"c", 1, ⟨5⟩⟩
      (.ofPairs (record (script "" false) (record (script "/a" true) ∅)))
    WellFormed r c.store.content ∧
    (authorizations r granter.toText grantee.toText none c).1 =
      .ok ⟨[grant (script "" false), grant (script "/a" true)], none, none⟩ ∧
    (∀ url, (authorization r granter.toText grantee.toText url c).1 ≠
      .ok (grant (script "" false))) ∧
    (Genesis.exported r c).1 = .error (.cannotEncode Script.typeUrl .serialize) := by
  intro granter grantee script grant record r c
  have hc : c.Reliable := Store.reliable_ofPairs _
  have hm : WellFormed r c.store.content := by
    refine GrantTable.WellFormed.put_record (GrantTable.WellFormed.put_record
      (GrantTable.wellFormed_empty r) (g := grant (script "/a" true)) ⟨rfl, ?_⟩)
      (g := grant (script "" false)) ⟨rfl, ?_⟩
    · decide +kernel
    · decide +kernel
  refine ⟨hm, ?_, fun url hfound => ?_, ?_⟩
  · rw [(Listing.Asks.pair (account_toText granter) (account_toText grantee)).ask_eq,
      page_of_not_contradictory hc hm (Listing.allRange_prefix_front _) (fun h => h.2 rfl)]
    decide +kernel
  · obtain ⟨hurl, hrec, -⟩ :=
      (authorization_eq_ok_iff hc (account_toText granter) (account_toText grantee)).1 hfound
    exact hurl (congrArg GrantKey.msgTypeUrl (hm.key_eq_of_recordAt hrec)).symm
  · decide +kernel

end Query

end GrantLedger
