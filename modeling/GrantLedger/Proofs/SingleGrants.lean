import GrantLedger.Proofs.Lookups

/-!
# Single grants over HTTP

A grant can be asked for by itself, under the path of its pair and its type URL. The endpoint lets
the leading `/` of the type URL be left out: it puts one in front of every text that has none. The
ledger takes any text but the empty one for a type URL, though. So the endpoint finds the grants
whose type URL begins with `/`, in either spelling, and none but these
(`Chain.single_grants_agree_with_pages`). For a grant of another type URL, which pages show like any
other, it answers with the grant of the type URL that a `/` makes of it, or that there is none.
-/

namespace GrantLedger

/-! ## Percent-encoding -/

namespace Percent

/-- A byte as `%` and two digits. -/
def escapeByte (x : UInt8) : List Char := ['%', Hex.digit (x.toNat / 16), Hex.digit (x.toNat % 16)]

/-- A text with all of its bytes percent-encoded. -/
def escape (s : String) : String := String.ofList ((Bytes.ofText s).flatMap escapeByte)

theorem ascii_digit : ∀ n < 16, (Hex.digit n).toNat < 0x80 := by decide

theorem ofText_escape (s : String) :
    Bytes.ofText (escape s) = (Bytes.ofText s).flatMap fun x =>
      (escapeByte x).map fun c => UInt8.ofNat c.toNat := by
  rw [Bytes.ofText_of_ascii, escape, String.toList_ofList, List.map_flatMap]
  intro c hc
  rw [escape, String.toList_ofList] at hc
  obtain ⟨x, -, hc⟩ := List.mem_flatMap.1 hc
  have hx := x.toNat_lt
  simp only [escapeByte, List.mem_cons, List.not_mem_nil, or_false] at hc
  rcases hc with rfl | rfl | rfl
  · decide
  · exact ascii_digit _ (by omega)
  · exact ascii_digit _ (by omega)

theorem decode_escapeByte (x : UInt8) (rest : Bytes) :
    decode ((escapeByte x).map (fun c => UInt8.ofNat c.toNat) ++ rest) = x :: decode rest := by
  have hx := x.toNat_lt
  have hdigit : ∀ n < 16,
      Hex.value? (Char.ofNat (UInt8.ofNat (Hex.digit n).toNat).toNat) = some n := by
    decide
  have hmark : UInt8.ofNat '%'.toNat = mark := by decide
  simp only [escapeByte, List.map_cons, List.map_nil, List.cons_append, List.nil_append, hmark]
  rw [decode.eq_def]
  dsimp only
  rw [if_pos rfl, hdigit _ (by omega), hdigit _ (by omega)]
  dsimp only
  rw [Nat.div_add_mod, UInt8.ofNat_toNat]

/-- A text is read back from its bytes percent-encoded. -/
theorem segmentText?_escape (s : String) : segmentText? (Bytes.ofText (escape s)) = some s := by
  have hdecode (b : Bytes) :
      decode (b.flatMap fun x => (escapeByte x).map fun c => UInt8.ofNat c.toNat) = b := by
    induction b with
    | nil => rfl
    | cons x b ih => rw [List.flatMap_cons, decode_escapeByte, ih]
  rw [segmentText?, ofText_escape, hdecode, Bytes.text?_ofText]

theorem notMem_escape {y : UInt8} (s : String) (hy : y ∈ reserved) (hne : y ≠ mark) :
    y ∉ Bytes.ofText (escape s) := by
  have hdigit : ∀ n < 16, UInt8.ofNat (Hex.digit n).toNat ∉ reserved := by decide
  intro hmem
  rw [ofText_escape] at hmem
  obtain ⟨x, -, hmem⟩ := List.mem_flatMap.1 hmem
  have hx := x.toNat_lt
  simp only [escapeByte, List.map_cons, List.map_nil, List.mem_cons, List.not_mem_nil,
    or_false] at hmem
  rcases hmem with rfl | rfl | rfl
  · exact hne (by decide)
  · exact hdigit _ (by omega) hy
  · exact hdigit _ (by omega) hy

end Percent

namespace Http

/-! ## Type URLs in paths -/

theorem pathUrl_of_slash {s : String} (h : s.toList.head? = some '/') : pathUrl s = s := if_pos h

theorem pathUrl_of_not_slash {s : String} (h : s.toList.head? ≠ some '/') :
    pathUrl s = "/" ++ s := if_neg h

theorem head?_slash_append (s : String) : ("/" ++ s).toList.head? = some '/' := by
  rw [String.toList_append]
  rfl

theorem head?_pathUrl (s : String) : (pathUrl s).toList.head? = some '/' := by
  by_cases h : s.toList.head? = some '/'
  · rw [pathUrl_of_slash h, h]
  · rw [pathUrl_of_not_slash h, head?_slash_append]

theorem pathUrl_eq_self_iff {s : String} : pathUrl s = s ↔ s.toList.head? = some '/' :=
  ⟨fun h => h ▸ head?_pathUrl s, pathUrl_of_slash⟩

theorem pathUrl_ne_empty (s : String) : pathUrl s ≠ "" := by
  intro h
  have hslash := head?_pathUrl s
  rw [h] at hslash
  cases hslash

/-! ## Answers in JSON -/

/-- A failure is never answered as a success. -/
theorem statusOf_ne_ok : ∀ k : ErrorKind, statusOf k ≠ 200 := by
  intro k
  cases k <;> decide

theorem eq_ok_of_bind {α β : Type} {x : Except Error α} {f : α → Except Error β} {b : β}
    (h : x >>= f = .ok b) : ∃ a, x = .ok a ∧ f a = .ok b := by
  cases x with
  | error e => cases h
  | ok a => exact ⟨a, rfl, h⟩

theorem respond_eq_ok_iff {r : Except Error Json} {j : Json} :
    respond r = .json 200 j ↔ r = .ok j := by
  cases r with
  | ok body =>
    simp only [respond, Response.json, Response.mk.injEq, Option.some.injEq, true_and,
      Except.ok.injEq]
    exact ⟨Json.compact_injective, congrArg _⟩
  | error e =>
    constructor
    · intro h
      exact absurd (congrArg Response.status h) (statusOf_ne_ok e.kind)
    · intro h
      cases h

namespace GrantView

theorem of_ofGrant {g : Grant} {v : GrantView} (h : ofGrant g = .ok v) :
    v.granter = g.granter.toText ∧ v.grantee = g.grantee.toText ∧ v.msgTypeUrl = g.msgTypeUrl := by
  obtain ⟨any, -, h⟩ := eq_ok_of_bind h
  cases h
  exact ⟨rfl, rfl, rfl⟩

end GrantView

end Http

open GrantTable (WellFormed recordAt)
open Paging (cutPage)

namespace Query

namespace Listing

variable {r : Registry} {m : Pairs} {now : Timestamp} {granter grantee : Address} {g g' : Grant}

/-- A live grant of a pair is recorded under its type URL. -/
theorem recordAt_of_mem_pair (hm : WellFormed r m)
    (hg : g ∈ (pair granter grantee).liveGrants r now m) :
    recordAt r m ⟨grantee, granter, g.msgTypeUrl⟩ = .ok (some g) ∧ g.isExpired now = false := by
  obtain ⟨⟨rfl, rfl⟩, hrec, hlive⟩ := (mem_liveGrants_iff hm _).1 hg
  exact ⟨hrec, hlive⟩

/-- A live grant of a pair is known from its type URL. -/
theorem eq_of_msgTypeUrl_eq (hm : WellFormed r m)
    (hg : g ∈ (pair granter grantee).liveGrants r now m)
    (hg' : g' ∈ (pair granter grantee).liveGrants r now m) (h : g.msgTypeUrl = g'.msgTypeUrl) :
    g = g' := by
  have hrec := (recordAt_of_mem_pair hm hg).1
  rw [h, (recordAt_of_mem_pair hm hg').1] at hrec
  exact (Option.some.inj (Except.ok.inj hrec)).symm

theorem builtin_of_mem_liveGrants (hr : r.Builtin) (hm : WellFormed r m) {l : Listing}
    (hg : g ∈ l.liveGrants r now m) : g.authorization.Builtin := by
  obtain ⟨-, hrec, -⟩ := (mem_liveGrants_iff hm _).1 hg
  obtain ⟨v, -, hrecorded⟩ := GrantTable.recordAt_key_iff.1 hrec
  exact (Grant.stored_of_decode hr hrecorded.reads).2.2.1

theorem msgTypeUrl_ne_empty_of_mem (hr : r.Builtin) (h : GrantTable.AllCanonical m)
    (hw : GrantTable.AllWithin r m) {l : Listing} (hg : g ∈ l.liveGrants r now m) :
    g.msgTypeUrl ≠ "" := by
  obtain ⟨-, hrec, -⟩ := (mem_liveGrants_iff (h.wellFormed hr hw) _).1 hg
  obtain ⟨v, hstored, hrecorded⟩ := GrantTable.recordAt_key_iff.1 hrec
  obtain ⟨hsound, -⟩ := (h.recorded_iff hr hw hstored).1 hrecorded
  exact Authorization.msgTypeUrl_ne_empty hsound.builtin hsound.valid

end Listing

/-- A look-up finds the live grant of the pair for the type URL, or there is none. -/
theorem authorization_cases {r : Registry} {c : Context} (hc : c.Reliable)
    (hm : WellFormed r c.store.content) (granter grantee : Address) {url : String}
    (hurl : url ≠ "") :
    (∃ g ∈ (Listing.pair granter grantee).liveGrants r c.header.time c.store.content,
      g.msgTypeUrl = url ∧ (authorization r granter.toText grantee.toText url c).1 = .ok g) ∨
    ((∀ g ∈ (Listing.pair granter grantee).liveGrants r c.header.time c.store.content,
      g.msgTypeUrl ≠ url) ∧
      (authorization r granter.toText grantee.toText url c).1 =
        .error (.authorizationNotFound url)) := by
  have hnotFound {c' : Context} (h : Keeper.lookup r ⟨grantee, granter, url⟩ c = (.ok none, c')) :
      (authorization r granter.toText grantee.toText url c).1 =
        .error (.authorizationNotFound url) := by
    rw [authorization, if_neg hurl, account_toText, account_toText]
    show ((Keeper.lookup r ⟨grantee, granter, url⟩ >>= _) c).1 = _
    rw [Exec.bind_ok h]
    rfl
  rcases hm.recordAt_cases ⟨grantee, granter, url⟩ with hnone | ⟨g, hkey, hrec⟩
  · refine .inr ⟨fun g hg hgurl => ?_, hnotFound (by rw [Keeper.lookup_eq hc, hnone])⟩
    have hrec := (Listing.recordAt_of_mem_pair hm hg).1
    rw [hgurl, hnone] at hrec
    cases hrec
  · by_cases hexp : g.isExpired c.header.time = true
    · have hlookup : Keeper.lookup r ⟨grantee, granter, url⟩ c =
          (.ok none, c.put (GrantKey.toBytes ⟨grantee, granter, url⟩) none) := by
        rw [Keeper.lookup_eq hc, hrec]
        exact if_pos hexp
      refine .inr ⟨fun g' hg' hgurl => ?_, hnotFound hlookup⟩
      obtain ⟨hrec', hlive⟩ := Listing.recordAt_of_mem_pair hm hg'
      rw [hgurl, hrec] at hrec'
      cases hrec'
      exact absurd hexp (Bool.eq_false_iff.1 hlive)
    · have hlive := Bool.eq_false_iff.2 hexp
      have hfound := (authorization_eq_ok_iff hc (account_toText granter)
        (account_toText grantee)).2 ⟨hurl, hrec, hlive⟩
      refine .inl ⟨g, ?_, congrArg GrantKey.msgTypeUrl hkey, hfound⟩
      refine (Listing.mem_liveGrants_iff hm _).2 ⟨?_, hkey ▸ hrec, hlive⟩
      exact ⟨congrArg GrantKey.granter hkey, congrArg GrantKey.grantee hkey⟩

namespace Listing

/-- Whatever page is asked for, it holds live grants. -/
theorem live_of_query_page {d : Chain} (hm : WellFormed d.assembly.registry d.committed)
    {l : Listing} {req : Option PageRequest} {p : Page Grant}
    (h : d.query (l.page d.assembly.registry req) = .ok p) :
    ∃ header, d.queryHeader = .ok header ∧
      ∀ g ∈ p.items, g ∈ l.liveGrants d.assembly.registry header.time d.committed := by
  rw [Chain.query] at h
  cases hheader : d.queryHeader with
  | error e =>
    rw [hheader] at h
    cases h
  | ok header =>
    rw [hheader, l.page_eq] at h
    let c : Context := .start header (Store.branch (.ofPairs d.committed))
    have hc : c.Reliable := fun _ => rfl
    refine ⟨header, rfl, fun g hg => ?_⟩
    by_cases hreq : (req.getD .first).Contradictory
    · have hpage := page_of_contradictory (c := c) hc hm l.allRange_prefix_front hreq
      cases (congrArg Prod.fst hpage).symm.trans h
    · have hpage := page_of_not_contradictory (c := c) hc hm l.allRange_prefix_front hreq
      obtain rfl : cutPage _ _ = p := Except.ok.inj ((congrArg Prod.fst hpage).symm.trans h)
      obtain ⟨item, hmem, rfl⟩ := List.mem_map.1 hg
      exact List.mem_map_of_mem
        (List.mem_of_mem_filter (List.mem_of_mem_drop (List.mem_of_mem_take hmem)))

open Http

/-- What a page shows over HTTP is a live grant of the listing. -/
theorem live_of_serve {d : Chain} (hr : d.assembly.registry.Builtin)
    (hm : WellFormed d.assembly.registry d.committed) {l : Listing} {uri : String} {query : Bytes}
    (htarget : Target.ofUri? (.ofText uri) = some ⟨.ofText l.path, query⟩) {views : List GrantView}
    {next : Option String} {total : Option Nat}
    (hserve : serve d "GET" uri = .json 200 (shownPage views next total)) {v : GrantView}
    (hv : v ∈ views) :
    ∃ header, d.queryHeader = .ok header ∧
      ∃ g ∈ l.liveGrants d.assembly.registry header.time d.committed,
        GrantView.ofGrant g = .ok v := by
  obtain ⟨route, hroute, hanswer⟩ := l.exists_route
  rw [serve_of_route htarget hroute, serveRoute, hanswer] at hserve
  cases hparams : PageParams.parse? query with
  | none =>
    rw [hparams] at hserve
    cases hserve
  | some params =>
    rw [hparams] at hserve
    obtain ⟨req, -, hanswered⟩ := eq_ok_of_bind (respond_eq_ok_iff.1 hserve)
    obtain ⟨p, hpage, hshown⟩ := eq_ok_of_bind hanswered
    obtain ⟨header, hheader, hitems⟩ := live_of_query_page hm hpage
    obtain ⟨view, hview⟩ := GrantView.exists_ofGrants fun g (hg : g ∈ p.items) =>
      builtin_of_mem_liveGrants hr hm (hitems g hg)
    rw [pageJson_of_views hview] at hshown
    obtain ⟨rfl, -⟩ := shownPage_inj (Except.ok.inj hshown)
    obtain ⟨g, hg, rfl⟩ := List.mem_map.1 hv
    exact ⟨header, hheader, g, hitems g hg, hview g hg⟩

theorem ofUri?_path (l : Listing) :
    Target.ofUri? (.ofText l.path) = some ⟨.ofText l.path, []⟩ :=
  Target.ofUri?_path l.head?_path (l.notMem_path (by decide) (by decide))
    (l.notMem_path (by decide) (by decide))

/-- What the endpoint of a listing answers when no page is selected. -/
theorem serve_path (d : Chain) (l : Listing) :
    serve d "GET" l.path = respond (d.query (l.page d.assembly.registry none) >>= pageJson) := by
  obtain ⟨route, hroute, hanswer⟩ := l.exists_route
  have hparams : PageParams.parse? [] = some .none := by decide
  rw [serve_of_route l.ofUri?_path hroute, serveRoute, hanswer, hparams]
  rfl

end Listing

end Query

/-! ## One grant over HTTP -/

namespace Http

open Query (Listing)

/-- The address asks for the grant of a pair for the type URL `url`, however it spells that. -/
def AsksForGrant (granter grantee : Address) (url uri : String) : Prop :=
  ∃ segment query, Target.ofUri? (.ofText uri) =
      some ⟨Bytes.ofText (Listing.path (.pair granter grantee)) ++ slash :: segment, query⟩ ∧
    Percent.segmentText? segment = some url

/-- The address of the grant of a pair for a type URL, of which it encodes each byte. -/
def singleUri (granter grantee : Address) (url : String) : String :=
  Listing.path (.pair granter grantee) ++ "/" ++ Percent.escape url

variable {granter grantee : Address} {url url' uri uri' : String}

theorem asksForGrant_singleUri (granter grantee : Address) (url : String) :
    AsksForGrant granter grantee url (singleUri granter grantee url) := by
  have huri : Bytes.ofText (singleUri granter grantee url) =
      Bytes.ofText (Listing.path (.pair granter grantee)) ++
        slash :: Bytes.ofText (Percent.escape url) := by
    have hslash : Bytes.ofText "/" = [slash] := by decide +kernel
    rw [singleUri, Bytes.ofText_append, Bytes.ofText_append, hslash, List.append_assoc,
      List.singleton_append]
  have hhead : (Bytes.ofText (Listing.path (.pair granter grantee)) ++
      slash :: Bytes.ofText (Percent.escape url)).head? = some slash := by
    rw [List.head?_append, Listing.head?_path]
    rfl
  have hnotMem : ∀ x ∈ reserved, x ≠ slash → x ≠ Percent.mark →
      x ∉ Bytes.ofText (Listing.path (.pair granter grantee)) ++
        slash :: Bytes.ofText (Percent.escape url) := by
    intro x hx hslash hmark
    rw [List.mem_append, List.mem_cons, not_or, not_or]
    exact ⟨Listing.notMem_path _ hx hslash, hslash, Percent.notMem_escape url hx hmark⟩
  refine ⟨Bytes.ofText (Percent.escape url), [], ?_, Percent.segmentText?_escape url⟩
  rw [huri, Target.ofUri?_path hhead (hnotMem _ (by decide) (by decide) (by decide))
    (hnotMem _ (by decide) (by decide) (by decide))]

/-- The address leads to the endpoint of a single grant, which reads what was spelled. -/
theorem AsksForGrant.exists_route (h : AsksForGrant granter grantee url uri) (hurl : url ≠ "") :
    ∃ route query, (∀ d method, serve d method uri = serveRoute d method query route) ∧
      ∀ d, answer? d query route =
        some (respond (answerSingle d granter.toText grantee.toText url)) := by
  obtain ⟨segment, query, htarget, htext⟩ := h
  have hne : segment ≠ [] := by
    rintro rfl
    exact hurl (Option.some.inj (htext.symm.trans (Bytes.text?_ofText "")))
  have hroute := Route.ofPath?_single granter.slash_notMem_toText grantee.slash_notMem_toText hne
  refine ⟨.single (.ofText granter.toText) (.ofText grantee.toText) segment, query,
    fun d method => ?_, fun d => ?_⟩
  · refine serve_of_route htarget ?_ d method
    rw [Listing.ofText_path_pair, List.append_assoc, List.append_assoc, List.cons_append, hroute]
  · rw [answer?, Percent.segmentText?_ofText granter.plain_toText,
      Percent.segmentText?_ofText grantee.plain_toText, htext]
    rfl

/-- What the endpoint of a single grant answers. -/
theorem AsksForGrant.serve_get (h : AsksForGrant granter grantee url uri) (hurl : url ≠ "")
    (d : Chain) :
    serve d "GET" uri = respond (answerSingle d granter.toText grantee.toText url) := by
  obtain ⟨route, query, hserve, hanswer⟩ := h.exists_route hurl
  rw [hserve, serveRoute, hanswer]
  rfl

/-- Two addresses are answered alike, by every method, if a `/` in front is all that they differ
in. -/
theorem AsksForGrant.serve_congr (h : AsksForGrant granter grantee url uri)
    (h' : AsksForGrant granter grantee url' uri') (hurl : url ≠ "") (hurl' : url' ≠ "")
    (hpath : pathUrl url = pathUrl url') (d : Chain) (method : String) :
    serve d method uri = serve d method uri' := by
  obtain ⟨route, query, hserve, hanswer⟩ := h.exists_route hurl
  obtain ⟨route', query', hserve', hanswer'⟩ := h'.exists_route hurl'
  rw [hserve, hserve', serveRoute, serveRoute, hanswer, hanswer', answerSingle, answerSingle, hpath]

/-- What is answered about a type URL: the live grant of the pair for it, or that there is none. -/
theorem answerSingle_cases {d : Chain} (hr : d.assembly.registry.Builtin)
    (hm : WellFormed d.assembly.registry d.committed) {header : BlockHeader}
    (hheader : d.queryHeader = .ok header) (granter grantee : Address) (url : String) :
    (∃ g ∈ (Listing.pair granter grantee).liveGrants d.assembly.registry header.time d.committed,
      g.msgTypeUrl = pathUrl url ∧ ∃ v, GrantView.ofGrant g = .ok v ∧
        answerSingle d granter.toText grantee.toText url = .ok v.toJson) ∨
    ((∀ g ∈ (Listing.pair granter grantee).liveGrants d.assembly.registry header.time d.committed,
      g.msgTypeUrl ≠ pathUrl url) ∧
      answerSingle d granter.toText grantee.toText url =
        .error (.authorizationNotFound (pathUrl url))) := by
  let c : Context := .start header (Store.branch (.ofPairs d.committed))
  have hc : c.Reliable := fun _ => rfl
  have hquery : d.query (Query.authorization d.assembly.registry granter.toText grantee.toText
      (pathUrl url)) = (Query.authorization d.assembly.registry granter.toText grantee.toText
        (pathUrl url) c).1 := by
    rw [Chain.query, hheader]
    rfl
  rw [answerSingle, hquery]
  rcases Query.authorization_cases (c := c) hc hm granter grantee (pathUrl_ne_empty url) with
    ⟨g, hg, hurl, hfound⟩ | ⟨hother, hnone⟩
  · obtain ⟨view, hview⟩ := GrantView.exists_ofGrants fun g' (hg' : g' ∈ [g]) =>
      List.mem_singleton.1 hg' ▸ Listing.builtin_of_mem_liveGrants hr hm hg
    have hview := hview g (List.mem_singleton_self g)
    refine .inl ⟨g, hg, hurl, view g, hview, ?_⟩
    rw [hfound]
    show (GrantView.ofGrant g >>= _) = _
    rw [hview]
    rfl
  · rw [hnone]
    exact .inr ⟨hother, rfl⟩

end Http

namespace Chain

open Query (Listing)
open Http

/-- A chain with the routes of the authorization module alone, at any point of its life, all of
whose records are within the size cap, and a view that a page of the grants of a pair shows. Asked
for the type URL of the view, percent-encoded throughout or spelled in another way, the endpoint of
a single grant answers exactly this view if and only if the type URL begins with `/`. If it does
not, the answer is the live grant of the pair for the type URL with a `/` in front, or, if the pair
has none, that there is none. And a type URL that begins with `/` is answered alike with this `/` and
without it. -/
theorem single_grants_agree_with_pages {cap : UInt64} {a : Assembly}
    (ha : Assembly.standard cap = .ok a) (sweeps : Bool) {moves : List Move}
    (hmoves : ∀ m ∈ moves, m.Standard)
    (hw : GrantTable.AllWithin ((opened a sweeps ∅).live moves).assembly.registry
      ((opened a sweeps ∅).live moves).committed) (granter grantee : Address) :
    let d := (opened a sweeps ∅).live moves
    (∀ url, AsksForGrant granter grantee url (singleUri granter grantee url)) ∧
    (∀ page query views next total v,
      Target.ofUri? (.ofText page) =
        some ⟨.ofText (Listing.path (.pair granter grantee)), query⟩ →
      serve d "GET" page = .json 200 (shownPage views next total) → v ∈ views →
      ∀ uri, AsksForGrant granter grantee v.msgTypeUrl uri →
        (serve d "GET" uri = .json 200 v.toJson ↔ v.msgTypeUrl.toList.head? = some '/') ∧
        (v.msgTypeUrl.toList.head? ≠ some '/' → ∃ header, d.queryHeader = .ok header ∧
          let live :=
            (Listing.pair granter grantee).liveGrants d.assembly.registry header.time d.committed
          (∀ g ∈ live, g.msgTypeUrl = "/" ++ v.msgTypeUrl → ∃ w, GrantView.ofGrant g = .ok w ∧
            serve d "GET" uri = .json 200 w.toJson) ∧
          ((∀ g ∈ live, g.msgTypeUrl ≠ "/" ++ v.msgTypeUrl) →
            serve d "GET" uri = failureResponse (.authorizationNotFound ("/" ++ v.msgTypeUrl))))) ∧
    ∀ url rest, url = "/" ++ rest → rest ≠ "" → rest.toList.head? ≠ some '/' →
      ∀ uri uri', AsksForGrant granter grantee url uri → AsksForGrant granter grantee rest uri' →
        ∀ method, serve d method uri = serve d method uri' := by
  intro d
  obtain ⟨hconsistent, cap', hstandard⟩ :=
    Consistent.live_of_standard hmoves (.opened a sweeps) ⟨cap, ha⟩
  obtain ⟨hr, -⟩ := Assembly.of_standard hstandard
  have hm : WellFormed d.assembly.registry d.committed := hconsistent.committed.wellFormed hr hw
  refine ⟨asksForGrant_singleUri granter grantee, ?_, ?_⟩
  · intro page query views next total v htarget hserve hv uri huri
    obtain ⟨header, hheader, g, hg, hview⟩ := Listing.live_of_serve hr hm htarget hserve hv
    obtain ⟨-, -, hurl⟩ := GrantView.of_ofGrant hview
    have hne : v.msgTypeUrl ≠ "" :=
      hurl ▸ Listing.msgTypeUrl_ne_empty_of_mem hr hconsistent.committed hw hg
    rw [huri.serve_get hne, ← pathUrl_eq_self_iff]
    rcases answerSingle_cases hr hm hheader granter grantee v.msgTypeUrl with
      ⟨g', hg', hurl', w, hview', hanswer⟩ | ⟨hother, hanswer⟩
    · obtain ⟨-, -, hwurl⟩ := GrantView.of_ofGrant hview'
      rw [hanswer]
      refine ⟨respond_eq_ok_iff.trans ⟨fun h => ?_, fun h => ?_⟩,
        fun h => ⟨header, hheader, fun g₂ hg₂ hurl₂ => ?_, fun hnone => ?_⟩⟩
      · have hsame : w = v := GrantView.toJson_injective (Except.ok.inj h)
        rw [← hurl', ← hwurl, hsame]
      · obtain rfl := Listing.eq_of_msgTypeUrl_eq hm hg' hg (hurl'.trans (h.trans hurl))
        rw [Except.ok.inj (hview'.symm.trans hview)]
      · rw [pathUrl_of_not_slash h, ← hurl₂] at hurl'
        obtain rfl := Listing.eq_of_msgTypeUrl_eq hm hg' hg₂ hurl'
        exact ⟨w, hview', rfl⟩
      · rw [pathUrl_of_not_slash h] at hurl'
        exact absurd hurl' (hnone g' hg')
    · rw [hanswer]
      refine ⟨respond_eq_ok_iff.trans ⟨nofun, fun h => ?_⟩,
        fun h => ⟨header, hheader, fun g₂ hg₂ hurl₂ => ?_, fun _ => ?_⟩⟩
      · exact absurd (hurl.symm.trans h.symm) (hother g hg)
      · rw [pathUrl_of_not_slash h] at hother
        exact absurd hurl₂ (hother g₂ hg₂)
      · rw [pathUrl_of_not_slash h]
        rfl
  · rintro url rest rfl hrest hslash uri uri' huri huri' method
    have hpath : pathUrl ("/" ++ rest) = pathUrl rest := by
      rw [pathUrl_of_slash (head?_slash_append rest), pathUrl_of_not_slash hslash]
    refine huri.serve_congr huri' (fun h => ?_) hrest hpath d method
    exact pathUrl_ne_empty rest ((pathUrl_of_not_slash hslash).trans h)

/-- Of the grants that a page shows, the one for `/b` is found in both spellings, and with it the
text `b`, which a page shows as the type URL of another one. -/
theorem single_grants_agree_with_pages_both_spellings :
    let granter : Address := ⟨.replicate 20 1, rfl⟩
    let grantee : Address := ⟨.replicate 20 2, rfl⟩
    let payload (url : String) := AuthorizationKind.genericCodec.encode url
    let entry (url : String) : GenesisEntry :=
      ⟨granter, grantee, ⟨AuthorizationKind.generic.typeUrl, payload url⟩, none⟩
    let view (url : String) : GrantView := ⟨granter.toText, grantee.toText,
      AuthorizationKind.generic.typeUrl, url, Hex.encode (payload url), none⟩
    let moves : List Move :=
      [.call (.init ⟨"c", 1, ⟨5⟩⟩ [entry "/b", entry "b"]), .call .commit]
    let d := (opened ⟨⟨Registry.builtin.kinds, 65536⟩, Router.authzRoutes⟩ false ∅).live moves
    serve d "GET" (Listing.path (.pair granter grantee)) =
        .json 200 (shownPage [view "/b", view "b"] none none) ∧
      serve d "GET" (singleUri granter grantee "/b") = .json 200 (view "/b").toJson ∧
      serve d "GET" (singleUri granter grantee "b") = .json 200 (view "/b").toJson := by
  intro granter grantee payload entry view moves d
  let grant (url : String) : Grant := ⟨granter, grantee, .generic url, none⟩
  have hmoves : ∀ m ∈ moves, m.Standard := by simp [moves, Move.Standard]
  have hw : GrantTable.AllWithin d.assembly.registry d.committed :=
    GrantTable.allWithin_of_entries (by decide +kernel)
  have hpage : serve d "GET" (Listing.path (.pair granter grantee)) =
      .json 200 (shownPage [view "/b", view "b"] none none) := by
    have hquery : d.query ((Listing.pair granter grantee).page d.assembly.registry none) =
        .ok ⟨[grant "/b", grant "b"], none, none⟩ := by
      rw [Listing.page_eq]
      decide +kernel
    rw [Listing.serve_path, hquery]
    rfl
  obtain ⟨hasks, hsingle, hspelled⟩ := single_grants_agree_with_pages
    (Assembly.standard_eq 65536) false hmoves hw granter grantee
  obtain ⟨hfound, -⟩ := hsingle _ _ _ _ _ (view "/b") (Listing.ofUri?_path _) hpage
    List.mem_cons_self _ (hasks "/b")
  have hslash := hfound.2 (by decide)
  refine ⟨hpage, hslash, ?_⟩
  rw [← hslash]
  exact (hspelled "/b" "b" rfl (by decide) (by decide) _ _ (hasks "/b") (hasks "b") "GET").symm

/-- A page shows a grant for `a` and one for `b`. Asked for these, the endpoint of a single grant
answers that there is none for `/a`, and with the grant for `/b`. -/
theorem shown_grants_not_answered :
    let granter : Address := ⟨.replicate 20 1, rfl⟩
    let grantee : Address := ⟨.replicate 20 2, rfl⟩
    let payload (url : String) := AuthorizationKind.genericCodec.encode url
    let entry (url : String) : GenesisEntry :=
      ⟨granter, grantee, ⟨AuthorizationKind.generic.typeUrl, payload url⟩, none⟩
    let view (url : String) : GrantView := ⟨granter.toText, grantee.toText,
      AuthorizationKind.generic.typeUrl, url, Hex.encode (payload url), none⟩
    let moves : List Move :=
      [.call (.init ⟨"c", 1, ⟨5⟩⟩ [entry "/b", entry "a", entry "b"]), .call .commit]
    let a : Assembly := ⟨⟨Registry.builtin.kinds, 65536⟩, Router.authzRoutes⟩
    let d := (opened a false ∅).live moves
    Assembly.standard 65536 = .ok a ∧ (∀ m ∈ moves, m.Standard) ∧
      GrantTable.AllWithin d.assembly.registry d.committed ∧
      serve d "GET" (Listing.path (.pair granter grantee)) =
        .json 200 (shownPage [view "/b", view "a", view "b"] none none) ∧
      serve d "GET" (singleUri granter grantee "a") =
        failureResponse (.authorizationNotFound "/a") ∧
      serve d "GET" (singleUri granter grantee "b") = .json 200 (view "/b").toJson ∧
      ∀ url ∈ ["a", "b"],
        serve d "GET" (singleUri granter grantee url) ≠ .json 200 (view url).toJson := by
  intro granter grantee payload entry view moves a d
  have hw : GrantTable.AllWithin d.assembly.registry d.committed :=
    GrantTable.allWithin_of_entries (by decide +kernel)
  let grant (url : String) : Grant := ⟨granter, grantee, .generic url, none⟩
  have hpage : serve d "GET" (Listing.path (.pair granter grantee)) =
      .json 200 (shownPage [view "/b", view "a", view "b"] none none) := by
    have hquery : d.query ((Listing.pair granter grantee).page d.assembly.registry none) =
        .ok ⟨[grant "/b", grant "a", grant "b"], none, none⟩ := by
      rw [Listing.page_eq]
      decide +kernel
    rw [Listing.serve_path, hquery]
    rfl
  have hmissing : serve d "GET" (singleUri granter grantee "a") =
      failureResponse (.authorizationNotFound "/a") := by
    have hquery : d.query (Query.authorization d.assembly.registry granter.toText grantee.toText
        (pathUrl "a")) = .error (.authorizationNotFound "/a") := by decide +kernel
    rw [(asksForGrant_singleUri granter grantee "a").serve_get (by decide), answerSingle, hquery]
    rfl
  have hmistaken : serve d "GET" (singleUri granter grantee "b") =
      .json 200 (view "/b").toJson := by
    have hquery : d.query (Query.authorization d.assembly.registry granter.toText grantee.toText
        (pathUrl "b")) = .ok (grant "/b") := by decide +kernel
    rw [(asksForGrant_singleUri granter grantee "b").serve_get (by decide), answerSingle, hquery]
    rfl
  refine ⟨Assembly.standard_eq 65536, by simp [moves, Move.Standard], hw, hpage, hmissing,
    hmistaken, fun url hurl h => ?_⟩
  rcases List.mem_pair.1 hurl with rfl | rfl
  · rw [hmissing] at h
    exact absurd (congrArg Response.status h) (by decide)
  · rw [hmistaken] at h
    have hsame : respond (.ok (view "/b").toJson) = .json 200 (view "b").toJson := h
    have hview := GrantView.toJson_injective (Except.ok.inj (respond_eq_ok_iff.1 hsame))
    exact absurd (congrArg GrantView.msgTypeUrl hview) (by decide)

end Chain

end GrantLedger
