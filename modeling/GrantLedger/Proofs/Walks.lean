import GrantLedger.Proofs.Absence
import GrantLedger.Proofs.HttpPages
import GrantLedger.Proofs.Inquiries
import GrantLedger.Proofs.PageReads

/-!
# Reading grants page by page

A page of grants removes the expired ones that it comes across. In one context they stay removed
before the next page is read; a query of its own, and so an answer over HTTP, works on a branch, and
the next page comes across them again. To a walk this makes no difference, since the records of
expired grants are no part of what a listing presents (`GrantTable.AddsExpired.live_eq`): each page
leaves a context that presents the same grants (`Query.Lists.page`).

So a walk reads the grants of a pair of accounts, or those that an account holds, that have not
expired, wherever its pages come from (`Query.Listing.walks_read_live_grants`).
-/

namespace GrantLedger

namespace GrantTable

/-- The grants of a range that have not expired at `now`, by cursor. -/
def live (r : Registry) (start : Bytes) (now : Timestamp) (m : Pairs) : List (Bytes × Grant) :=
  (listing r start m).filter fun item => !item.2.isExpired now

variable {r : Registry} {start : Bytes} {now : Timestamp} {m m' : Pairs}

theorem sorted_live (r : Registry) (start : Bytes) (now : Timestamp) (m : Pairs) :
    (live r start now m).Pairwise fun a b => a.1 < b.1 :=
  (sorted_listing r start m).filter _

/-- Records of grants that have expired make no difference. -/
theorem AddsExpired.live_eq (h : AddsExpired r now m m') (hm : WellFormed r m)
    (hstart : GrantKey.allRange <+: start) : live r start now m' = live r start now m := by
  obtain ⟨hlisting, hexpired⟩ := h.filter_listing hm hstart
  rw [live, live, ← hlisting, List.filter_filter]
  refine List.filter_congr fun item hmem => ?_
  cases hbound : m.contains item.2.key.toBytes with
  | true => rw [Bool.and_true]
  | false => rw [hexpired item hmem hbound, Bool.and_false, Bool.not_true]

/-- The live grants of a range, in the order of their keys. -/
theorem WellFormed.mem_live_iff (hm : WellFormed r m) (hstart : GrantKey.allRange <+: start)
    {g : Grant} :
    g ∈ (live r start now m).map (·.2) ↔
      start <+: g.key.toBytes ∧ recordAt r m g.key = .ok (some g) ∧ g.isExpired now = false := by
  rw [List.mem_map]
  constructor
  · rintro ⟨⟨cursor, g⟩, hmem, rfl⟩
    obtain ⟨hmem, hlive⟩ := List.mem_filter.1 hmem
    obtain ⟨hkey, hrec⟩ := (hm.mem_listing_iff hstart).1 hmem
    exact ⟨⟨cursor, hkey⟩, hrec, by simpa using hlive⟩
  · rintro ⟨⟨cursor, hkey⟩, hrec, hlive⟩
    refine ⟨(cursor, g), List.mem_filter.2 ⟨?_, by simpa using hlive⟩, rfl⟩
    exact (hm.mem_listing_iff hstart).2 ⟨hkey, hrec⟩

theorem WellFormed.sorted_live_keys (hm : WellFormed r m) (hstart : GrantKey.allRange <+: start) :
    ((live r start now m).map (·.2)).Pairwise fun g g' => g.key.toBytes < g'.key.toBytes := by
  rw [List.pairwise_map]
  exact (hm.sorted_keys hstart).filter _

end GrantTable

open GrantTable (live WellFormed)
open Paging (cutPage)

namespace Query

/-! ## A page at a time -/

variable {r : Registry} {start : Bytes} {now : Timestamp} {c : Context}

/-- What a page comes across and removes had expired. -/
theorem addsExpired_erase (hm : WellFormed r c.store.content) (hstart : GrantKey.allRange <+: start)
    (req : Option PageRequest) :
    let gone := expired req now (GrantTable.listing r start c.store.content)
    let after := (c.erase (gone.map fun g => g.key.toBytes)).store.content
    WellFormed r after ∧ GrantTable.AddsExpired r now after c.store.content := by
  intro gone after
  have hget := c.get?_content_erase (gone.map fun g => g.key.toBytes)
  constructor
  · intro b v hbound hstarts
    rw [hget] at hbound
    split at hbound
    · cases hbound
    · exact hm b v hbound hstarts
  · intro b
    rw [hget]
    split
    · next hmem =>
      obtain ⟨g, hg, rfl⟩ := List.mem_map.1 hmem
      have hexp : g.isExpired now = true := (List.mem_filter.1 hg).2
      obtain ⟨⟨cursor, g⟩, hlisted, rfl⟩ := List.mem_map.1 ((expired_sublist _ _ _).subset hg)
      have hrec := ((hm.mem_listing_iff hstart).1 hlisted).2
      obtain ⟨v, hbound, hrecorded⟩ := GrantTable.recordAt_key_iff.1 hrec
      exact .inr ⟨rfl, g, v, hbound, hrecorded, hexp⟩
    · exact .inl rfl

/-- A context that presents the live grants `all` of a range. -/
structure Lists (r : Registry) (start : Bytes) (now : Timestamp) (all : List (Bytes × Grant))
    (c : Context) : Prop where
  reliable : c.Reliable
  time_eq : c.header.time = now
  wellFormed : WellFormed r c.store.content
  live_eq : live r start now c.store.content = all

/-- The matches of a page are the live grants from its cursor on. -/
theorem matching_unexpired (req : PageRequest) (items : List (Bytes × Grant)) :
    Paging.matching req (fun _ g => if g.isExpired now then none else some g) items =
      remaining req.key (items.filter fun item => !item.2.isExpired now) := by
  rw [remaining, List.filter_filter, ← List.filterMap_eq_filter, Paging.matching]
  refine congrArg (List.filterMap · items) (funext fun item => ?_)
  show (if req.skips item.1 then none else _) = _
  have hskips : req.skips item.1 = (PageRequest.ofCursor req.key 0).skips item.1 := rfl
  rw [hskips, Option.guard]
  cases (PageRequest.ofCursor req.key 0).skips item.1 <;> cases item.2.isExpired now <;> rfl

theorem Lists.page {all : List (Bytes × Grant)} (h : Lists r start now all c)
    (hstart : GrantKey.allRange <+: start) (key : Option Bytes) (limit : UInt64) :
    ∃ c', Lists r start now all c' ∧
      (GrantTable.list r start >>= fun items => page items (some (.ofCursor key limit))) c =
        (.ok (cutPage (.ofCursor key limit) (remaining key all)), c') := by
  let req := PageRequest.ofCursor key limit
  let items := GrantTable.listing r start c.store.content
  have hcut : (paginate (some req) (unexpired now) (items.map .ok)).outcome =
      .ok (cutPage req (remaining key all)) := by
    have hreq : ¬ ((some req).getD .first).Contradictory := fun hboth => hboth.2 rfl
    obtain ⟨later, hpaging⟩ : ∃ later, paginate (some req) (unexpired now) (items.map .ok) = _ :=
      Paging.paginate_of_total hreq (fun _ g => if g.isExpired now then none else some g) items
    rw [hpaging, Option.getD_some, matching_unexpired, ← h.live_eq]
    rfl
  let gone := (expired (some req) now items).map fun g => g.key.toBytes
  have hafter := c.continues_erase gone
  obtain ⟨hwell, hadds⟩ : WellFormed r (c.erase gone).store.content ∧
      GrantTable.AddsExpired r now (c.erase gone).store.content c.store.content :=
    addsExpired_erase h.wellFormed hstart (some req)
  rw [Exec.bind_ok (h.wellFormed.list_eq h.reliable hstart)]
  have hpage := page_eq h.reliable h.wellFormed hstart (some req)
  dsimp only at hpage
  rw [h.time_eq] at hpage
  rcases hpage with ⟨p, hp, hpage⟩ | ⟨hrefused, -⟩
  · obtain rfl : p = _ := Except.ok.inj (hp.symm.trans hcut)
    have hlive := (hadds.live_eq hwell hstart).symm.trans h.live_eq
    exact ⟨c.erase gone, ⟨hafter.reliable h.reliable, h.time_eq, hwell, hlive⟩, hpage⟩
  · rw [hcut] at hrefused
    cases hrefused

/-! ## Listings -/

theorem account_toText (a : Address) : account a.toText = .ok a := by
  rw [account, Address.parse_toText]
  rfl

/-- A listing that can be asked for. -/
inductive Listing where
  /-- The grants of a pair of accounts. -/
  | pair (granter grantee : Address)
  /-- The grants that an account holds. -/
  | held (grantee : Address)

namespace Listing

/-- The front of the keys of the grants of a listing. -/
def front : Listing → Bytes
  | pair granter grantee => GrantKey.pairRange grantee granter
  | held grantee => GrantKey.granteeRange grantee

/-- The grant is one that the listing is asked for. -/
def Covers : Listing → Grant → Prop
  | pair granter grantee, g => g.granter = granter ∧ g.grantee = grantee
  | held grantee, g => g.grantee = grantee

/-- Ask for a page. -/
def page (l : Listing) (r : Registry) (req : Option PageRequest) : Exec (Page Grant) :=
  match l with
  | pair granter grantee => authorizations r granter.toText grantee.toText req
  | held grantee => granteeGrants r grantee.toText req

/-- The path of the endpoint that serves a listing. -/
def path : Listing → String
  | pair granter grantee => "/authz/v1/grants/" ++ granter.toText ++ "/" ++ grantee.toText
  | held grantee => "/authz/v1/grantee/" ++ grantee.toText

theorem allRange_prefix_front (l : Listing) : GrantKey.allRange <+: l.front := by
  cases l with
  | pair granter grantee => exact (List.prefix_append _ _).trans (List.prefix_append _ _)
  | held grantee => exact List.prefix_append _ _

theorem front_prefix_iff (l : Listing) (g : Grant) : l.front <+: g.key.toBytes ↔ l.Covers g := by
  cases l with
  | pair granter grantee => exact GrantKey.pairRange_prefix_iff.trans and_comm
  | held grantee => exact GrantKey.granteeRange_prefix_iff

theorem page_eq (l : Listing) (r : Registry) (req : Option PageRequest) :
    l.page r req = GrantTable.list r l.front >>= fun items => Query.page items req := by
  cases l with
  | pair granter grantee =>
    rw [page, authorizations, account_toText, account_toText]
    rfl
  | held grantee =>
    rw [page, granteeGrants, account_toText]
    rfl

theorem steady_page (l : Listing) (r : Registry) (req : Option PageRequest) :
    (l.page r req).Steady := by
  rw [page_eq]
  exact .bind (GrantTable.steady_list r l.front) fun items => Query.steady_page items req

/-! ## Where pages come from -/

/-- Pages asked for in one context, from which each removes what has expired. -/
def fromContext (l : Listing) (r : Registry) (c : Context) (key : Option Bytes) (limit : UInt64)
    (items : List Grant) (next : Option Bytes) (c' : Context) : Prop :=
  l.page r (some (.ofCursor key limit)) c = (.ok ⟨items, next, none⟩, c')

/-- Pages asked for by queries of their own. -/
def fromChain (l : Listing) (d : Chain) (key : Option Bytes) (limit : UInt64) (items : List Grant)
    (next : Option Bytes) (d' : Chain) : Prop :=
  d.ask (l.page d.assembly.registry (some (.ofCursor key limit))) = (.ok ⟨items, next, none⟩, d')

theorem answer_eq_iff {σ : Type} {p : Page Grant} (htotal : p.total = none) {s t : σ}
    {items : List Grant} {next : Option Bytes} :
    ((.ok p, s) : Except Error (Page Grant) × σ) = (.ok ⟨items, next, none⟩, t) ↔
      items = p.items ∧ next = p.nextKey ∧ t = s := by
  obtain ⟨items', next', total⟩ := p
  obtain rfl : total = none := htotal
  simp only [Prod.mk.injEq, Except.ok.injEq, Page.mk.injEq, and_true]
  constructor
  · rintro ⟨⟨rfl, rfl⟩, rfl⟩
    exact ⟨rfl, rfl, rfl⟩
  · rintro ⟨rfl, rfl, rfl⟩
    exact ⟨⟨rfl, rfl⟩, rfl⟩

variable (l : Listing)

theorem presents_fromContext (r : Registry) (now : Timestamp) (all : List (Bytes × Grant)) :
    Presents (l.fromContext r) id (Lists r l.front now all) all := by
  intro c hc key limit
  obtain ⟨c', hc', hpage⟩ := hc.page l.allRange_prefix_front key limit
  refine ⟨c', hc', fun items next t => ?_⟩
  rw [fromContext, page_eq, Option.map_id_apply, Option.map_id_apply, hpage]
  exact answer_eq_iff rfl

/-- The page that a query of its own answers. -/
theorem query_page {d : Chain} {h : BlockHeader} (hh : d.queryHeader = .ok h)
    (hm : WellFormed d.assembly.registry d.committed) (key : Option Bytes) (limit : UInt64) :
    d.query (l.page d.assembly.registry (some (.ofCursor key limit))) =
      .ok (cutPage (.ofCursor key limit)
        (remaining key (live d.assembly.registry l.front h.time d.committed))) := by
  have hlists : Lists d.assembly.registry l.front h.time
      (live d.assembly.registry l.front h.time d.committed)
      (.start h (Store.branch (.ofPairs d.committed))) :=
    ⟨fun _ => rfl, rfl, hm, rfl⟩
  obtain ⟨c', -, hpage⟩ := hlists.page l.allRange_prefix_front key limit
  rw [Chain.query, hh, page_eq]
  exact congrArg Prod.fst hpage

theorem presents_fromChain {d : Chain} {h : BlockHeader} (hh : d.queryHeader = .ok h)
    (hm : WellFormed d.assembly.registry d.committed) :
    Presents l.fromChain id (· = d) (live d.assembly.registry l.front h.time d.committed) := by
  rintro d rfl key limit
  refine ⟨d, rfl, fun items next t => ?_⟩
  rw [fromChain, Chain.ask_eq (l.steady_page _ _), Option.map_id_apply, Option.map_id_apply,
    l.query_page hh hm]
  exact answer_eq_iff rfl

/-! ## Pages over HTTP -/

open Http

theorem ofText_path_held (grantee : Address) :
    Bytes.ofText (path (.held grantee)) =
      Bytes.ofText "/authz/v1/grantee/" ++ Bytes.ofText grantee.toText :=
  Bytes.ofText_append _ _

theorem ofText_path_pair (granter grantee : Address) :
    Bytes.ofText (path (.pair granter grantee)) =
      Bytes.ofText "/authz/v1/grants/" ++
        (Bytes.ofText granter.toText ++ slash :: Bytes.ofText grantee.toText) := by
  have hslash : Bytes.ofText "/" = [slash] := by decide +kernel
  have hpath : path (.pair granter grantee) =
      "/authz/v1/grants/" ++ granter.toText ++ "/" ++ grantee.toText := rfl
  rw [hpath, Bytes.ofText_append, Bytes.ofText_append, Bytes.ofText_append, hslash,
    List.append_assoc, List.append_assoc, List.singleton_append]

theorem head?_path : (Bytes.ofText l.path).head? = some slash := by
  cases l with
  | pair granter grantee =>
    rw [ofText_path_pair, List.head?_append_of_ne_nil _ (by decide +kernel)]
    decide +kernel
  | held grantee =>
    rw [ofText_path_held, List.head?_append_of_ne_nil _ (by decide +kernel)]
    decide +kernel

/-- But for its slashes a path holds no byte with a meaning of its own. -/
theorem notMem_path {x : UInt8} (hx : x ∈ reserved) (hne : x ≠ slash) :
    x ∉ Bytes.ofText l.path := by
  have hfixed : ∀ x ∈ reserved, x ≠ slash →
      x ∉ Bytes.ofText "/authz/v1/grants/" ∧ x ∉ Bytes.ofText "/authz/v1/grantee/" := by
    decide +kernel
  obtain ⟨hgrants, hgrantee⟩ := hfixed x hx hne
  cases l with
  | pair granter grantee =>
    rw [ofText_path_pair, List.mem_append, List.mem_append, List.mem_cons, not_or, not_or, not_or]
    exact ⟨hgrants, granter.plain_toText.notMem hx, hne, grantee.plain_toText.notMem hx⟩
  | held grantee =>
    rw [ofText_path_held, List.mem_append, not_or]
    exact ⟨hgrantee, grantee.plain_toText.notMem hx⟩

/-- The path of a listing leads to an endpoint that answers its pages. -/
theorem exists_route :
    ∃ route, Route.ofPath? (Bytes.ofText l.path) = some route ∧
      ∀ (d : Chain) (query : Bytes), answer? d query route =
        (PageParams.parse? query).map fun params => respond (params.request >>= fun req =>
          d.query (l.page d.assembly.registry req) >>= pageJson) := by
  have htext (a : Address) := Percent.segmentText?_ofText a.plain_toText
  cases l with
  | pair granter grantee =>
    refine ⟨.pair (.ofText granter.toText) (.ofText grantee.toText), ?_, fun d query => ?_⟩
    · rw [ofText_path_pair, Route.ofPath?_pair granter.slash_notMem_toText
        grantee.slash_notMem_toText grantee.ofText_toText_ne_nil]
    · rw [answer?, htext, htext]
      cases PageParams.parse? query <;> rfl
  | held grantee =>
    refine ⟨.held (.ofText grantee.toText), ?_, fun d query => ?_⟩
    · rw [ofText_path_held, Route.ofPath?_held grantee.slash_notMem_toText
        grantee.ofText_toText_ne_nil]
    · rw [answer?, htext]
      cases PageParams.parse? query <;> rfl

/-- What the endpoint of a listing answers when it is asked for a page. -/
theorem serve_eq (d : Chain) (key : Option Bytes) (limit : UInt64) :
    serve d "GET" (l.path ++ "?" ++ pageQuery (key.map Hex.encode) limit) =
      respond (d.query (l.page d.assembly.registry (some (.ofCursor key limit))) >>= pageJson) := by
  have hkey : ∀ k ∈ key.map Hex.encode, Plain k := by
    intro k hk
    obtain ⟨b, -, rfl⟩ := Option.map_eq_some_iff.1 hk
    exact Hex.plain_encode b
  have huri : Bytes.ofText (l.path ++ "?" ++ pageQuery (key.map Hex.encode) limit) =
      Bytes.ofText l.path ++ questionMark :: Bytes.ofText (pageQuery (key.map Hex.encode) limit) := by
    have hquestion : Bytes.ofText "?" = [questionMark] := by decide +kernel
    rw [Bytes.ofText_append, Bytes.ofText_append, hquestion, List.append_assoc,
      List.singleton_append]
  have hnumber : numberSign ∉
      Bytes.ofText l.path ++ questionMark :: Bytes.ofText (pageQuery (key.map Hex.encode) limit) := by
    intro hmem
    rcases List.mem_append.1 hmem with hmem | hmem
    · exact l.notMem_path (by decide) (by decide) hmem
    · rcases List.mem_cons.1 hmem with hmem | hmem
      · exact absurd hmem (by decide)
      · exact numberSign_notMem_pageQuery hkey limit hmem
  obtain ⟨route, hroute, hanswer⟩ := l.exists_route
  have htarget := Target.ofUri?_eq l.head?_path (l.notMem_path (by decide) (by decide)) hnumber
  rw [← huri] at htarget
  rw [serve_of_route htarget hroute, serveRoute, hanswer, parse?_pageQuery hkey limit,
    Option.map_some, PageParams.request_cursor]
  rfl

/-- Pages that the endpoint of a listing answers. -/
def fromHttp (d : Chain) (key : Option String) (limit : UInt64) (views : List GrantView)
    (next : Option String) (d' : Chain) : Prop :=
  d' = d ∧ serve d "GET" (l.path ++ "?" ++ pageQuery key limit) = .json 200 (pageRecord views next)

theorem presents_fromHttp {d : Chain} {h : BlockHeader} (hh : d.queryHeader = .ok h)
    (hm : WellFormed d.assembly.registry d.committed) {view : Grant → GrantView}
    (hview : ∀ item ∈ live d.assembly.registry l.front h.time d.committed,
      GrantView.ofGrant item.2 = .ok (view item.2)) :
    Presents l.fromHttp Hex.encode (· = d)
      ((live d.assembly.registry l.front h.time d.committed).map fun item =>
        (item.1, view item.2)) := by
  rintro d rfl key limit
  refine ⟨d, rfl, fun views next t => ?_⟩
  rw [remaining_map, Paging.cutPage_map]
  generalize hall : live d.assembly.registry l.front h.time d.committed = all at hview ⊢
  have hshown : ∀ g ∈ (cutPage (.ofCursor key limit) (remaining key all)).items,
      GrantView.ofGrant g = .ok (view g) := by
    intro g hg
    obtain ⟨item, hmem, rfl⟩ := List.mem_map.1 hg
    exact hview item (List.mem_of_mem_filter (List.mem_of_mem_drop (List.mem_of_mem_take hmem)))
  have hserve : serve d "GET" (l.path ++ "?" ++ pageQuery (key.map Hex.encode) limit) =
      .json 200 (pageRecord ((cutPage (.ofCursor key limit) (remaining key all)).items.map view)
        ((cutPage (.ofCursor key limit) (remaining key all)).nextKey.map Hex.encode)) := by
    rw [serve_eq, l.query_page hh hm, hall]
    show respond (pageJson _) = _
    rw [pageJson_eq hshown rfl]
    rfl
  rw [fromHttp, hserve, json_pageRecord_inj]
  constructor
  · rintro ⟨rfl, rfl, rfl⟩
    exact ⟨rfl, rfl, rfl⟩
  · rintro ⟨rfl, rfl, rfl⟩
    exact ⟨rfl, rfl, rfl⟩

/-! ## Walks -/

/-- The grants of a listing that have not expired at `now`. -/
def liveGrants (l : Listing) (r : Registry) (now : Timestamp) (m : Pairs) : List Grant :=
  (live r l.front now m).map (·.2)

/-- Whatever the limits of the pages are, a walk that starts without a cursor ends and has read the
grants of the listing that have not expired, in the order of their keys and each once. -/
theorem walks_read_live_grants {r : Registry} {m : Pairs} (hm : WellFormed r m) (now : Timestamp)
    (l : Listing) :
    let gs := l.liveGrants r now m
    (∀ g, g ∈ gs ↔
      l.Covers g ∧ GrantTable.recordAt r m g.key = .ok (some g) ∧ g.isExpired now = false) ∧
    (gs.Pairwise fun g g' => g.key.toBytes < g'.key.toBytes) ∧
    (∀ c : Context, c.Reliable → c.header.time = now → c.store.content = m →
      ∀ limits read, Walk (l.fromContext r) limits 0 none c read ↔ read = gs) ∧
    (r.Builtin → ∃ view : Grant → GrantView, ∀ g ∈ gs, GrantView.ofGrant g = .ok (view g)) ∧
    ∀ (d : Chain) (h : BlockHeader), d.assembly.registry = r → d.committed = m →
      d.queryHeader = .ok h → h.time = now →
      (∀ limits read, Walk l.fromChain limits 0 none d read ↔ read = gs) ∧
      ∀ view : Grant → GrantView, (∀ g ∈ gs, GrantView.ofGrant g = .ok (view g)) →
        ∀ limits read, Walk l.fromHttp limits 0 none d read ↔ read = gs.map view := by
  intro gs
  have hsorted := GrantTable.sorted_live r l.front now m
  have hmem (g : Grant) : g ∈ gs ↔ l.Covers g ∧ GrantTable.recordAt r m g.key = .ok (some g) ∧
      g.isExpired now = false := by
    rw [← front_prefix_iff]
    exact hm.mem_live_iff l.allRange_prefix_front
  refine ⟨hmem, hm.sorted_live_keys l.allRange_prefix_front, ?_, fun hr => ?_, ?_⟩
  · rintro c hreliable rfl rfl limits read
    exact (l.presents_fromContext r _ _).walk_iff hsorted limits ⟨hreliable, rfl, hm, rfl⟩ read
  · refine GrantView.exists_ofGrants fun g hg => ?_
    obtain ⟨v, -, hrecorded⟩ := GrantTable.recordAt_key_iff.1 ((hmem g).1 hg).2.1
    exact (Grant.stored_of_decode hr hrecorded.reads).2.2.1
  · rintro d h rfl rfl hh rfl
    refine ⟨fun limits read => ?_, fun view hview limits read => ?_⟩
    · exact (l.presents_fromChain hh hm).walk_iff hsorted limits rfl read
    · have hshown : ∀ item ∈ live d.assembly.registry l.front h.time d.committed,
          GrantView.ofGrant item.2 = .ok (view item.2) :=
        fun item hmem => hview item.2 (List.mem_map_of_mem hmem)
      have hread : gs.map view = ((live d.assembly.registry l.front h.time d.committed).map
          fun item => (item.1, view item.2)).map (·.2) := by
        rw [List.map_map]
        exact List.map_map
      rw [hread]
      exact (l.presents_fromHttp hh hm hshown).walk_iff (List.pairwise_map.2 hsorted) limits rfl read

/-- A pair with two lasting grants, each followed by one that expired at 9, is read at 20. -/
theorem walks_read_live_grants_lasting :
    let granter : Address := ⟨.replicate 20 1, rfl⟩
    let grantee : Address := ⟨.replicate 20 2, rfl⟩
    let payload (url : String) := AuthorizationKind.genericCodec.encode url
    let entry (url : String) (expiration : Option Timestamp) : GenesisEntry :=
      ⟨granter, grantee, ⟨AuthorizationKind.generic.typeUrl, payload url⟩, expiration⟩
    let calls : List Chain.Call :=
      [.init ⟨"c", 1, ⟨5⟩⟩
        [entry "/a" none, entry "/b" (some ⟨9⟩), entry "/c" none, entry "/d" (some ⟨9⟩)], .commit,
        .begin ⟨"c", 2, ⟨20⟩⟩, .commit]
    let a : Assembly := ⟨.builtin, Router.authzRoutes⟩
    let d := ((Chain.opened a false ∅).run calls).2
    let lasting : List Grant :=
      [⟨granter, grantee, .generic "/a", none⟩, ⟨granter, grantee, .generic "/c", none⟩]
    d.committed.contains (GrantKey.toBytes ⟨grantee, granter, "/b"⟩) = true ∧
    ∀ l ∈ [Listing.pair granter grantee, .held grantee], ∀ limits,
      Walk (l.fromContext a.registry) limits 0 none
        (.start ⟨"c", 2, ⟨20⟩⟩ (.ofPairs d.committed)) lasting ∧
      Walk l.fromChain limits 0 none d lasting ∧
      ∃ views, lasting.mapM GrantView.ofGrant = .ok views ∧
        Walk l.fromHttp limits 0 none d views := by
  intro granter grantee payload entry calls a d lasting
  have hcalls : ∀ call ∈ calls, call.Obeys .outsideGrants := by
    simp [calls, Chain.Call.Obeys]
  have ha : a.registry.Builtin := rfl
  have hd : d.Consistent := Chain.Consistent.run (c := .opened a false ∅) ha
    Conduct.outsideGrants_outsideGrants hcalls (.opened a false)
  have hwithin : GrantTable.AllWithin a.registry d.committed := by
    have hentries : ∀ e ∈ d.committed.entries, e.2.length ≤ a.registry.maxValueBytes.toNat := by
      decide +kernel
    intro b v hget _
    exact hentries (b, v) (SortedMap.mem_entries_iff.2 hget)
  have hm : WellFormed a.registry d.committed := hd.committed.wellFormed ha hwithin
  have hlast : d.queryHeader = .ok ⟨"c", 2, ⟨20⟩⟩ := by decide +kernel
  have hlisted : ∀ l ∈ [Listing.pair granter grantee, .held grantee],
      l.liveGrants a.registry ⟨20⟩ d.committed = lasting := by decide +kernel
  refine ⟨by decide +kernel, fun l hl limits => ?_⟩
  obtain ⟨-, -, hcontext, hshown, hchain⟩ := walks_read_live_grants hm ⟨20⟩ l
  rw [hlisted l hl] at hcontext hshown hchain
  obtain ⟨view, hview⟩ := hshown ha
  have hassembly : d.assembly.registry = a.registry :=
    congrArg Assembly.registry (Chain.assembly_run _ calls)
  obtain ⟨hqueries, hhttp⟩ := hchain d _ hassembly rfl hlast rfl
  refine ⟨?_, (hqueries limits _).2 rfl, _, mapM_ofGrant hview, (hhttp view hview limits _).2 rfl⟩
  have hreliable : (Context.start ⟨"c", 2, ⟨20⟩⟩ (.ofPairs d.committed)).Reliable :=
    Store.reliable_ofPairs d.committed
  exact (hcontext _ hreliable rfl (Store.content_ofPairs d.committed) limits _).2 rfl

end Listing

end Query

end GrantLedger
