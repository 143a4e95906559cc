import Mathlib.Data.List.Basic
import GrantLedger.Http.Server
import GrantLedger.Proofs.AddressText
import GrantLedger.Proofs.JsonText
import GrantLedger.Proofs.Pages

/-!
# Pages as they are asked for and answered

What a client writes into the address of a request is what the node reads from it. Addresses, cursors
and numbers are written in letters and digits, which stand for themselves in a path and in a query
string (`Plain`), so nothing that separates the parts of an address occurs in them.

An answer shows one page only: from its text the grants and the next cursor can be told
(`Http.json_pageRecord_inj`).
-/

namespace GrantLedger

/-! ## Letters and digits -/

/-- A text of letters and digits. -/
def Plain (s : String) : Prop := ∀ c ∈ s.toList, c.isAlphanum = true

theorem plain_iff {s : String} : Plain s ↔ s.toList.all Char.isAlphanum = true :=
  List.all_eq_true.symm

/-- The bytes that have a meaning of their own in an address. -/
def reserved : Bytes :=
  [Http.slash, Http.questionMark, Http.numberSign, Percent.mark, 0x26, 0x2B, 0x3D]

theorem lt_of_isAlphanum {c : Char} (h : c.isAlphanum = true) : c.toNat < 0x80 := by
  have hranges : (decide (c.val ≥ 'A'.val ∧ c.val ≤ 'Z'.val) ||
      (c.val ≥ 'a'.val && c.val ≤ 'z'.val) || (c.val ≥ '0'.val && c.val ≤ '9'.val)) = true := h
  simp only [Bool.or_eq_true, Bool.and_eq_true, decide_eq_true_eq] at hranges
  rcases hranges with (hupper | hlower) | hdigit
  · exact Nat.lt_of_le_of_lt (UInt32.le_iff_toNat_le.1 hupper.2) (by decide)
  · exact Nat.lt_of_le_of_lt (UInt32.le_iff_toNat_le.1 hlower.2) (by decide)
  · exact Nat.lt_of_le_of_lt (UInt32.le_iff_toNat_le.1 hdigit.2) (by decide)

/-- A text of ASCII characters is written with one byte for each. -/
theorem Bytes.ofText_of_ascii {s : String} (hs : ∀ c ∈ s.toList, c.toNat < 0x80) :
    Bytes.ofText s = s.toList.map fun c => UInt8.ofNat c.toNat := by
  rw [Bytes.ofText_eq, List.map_eq_flatMap]
  refine List.flatMap_congr fun c hc => ?_
  have hle := Nat.le_of_lt_succ (hs c hc)
  rw [String.utf8EncodeChar_eq_singleton
    (Char.utf8Size_eq_one_iff.2 (UInt32.le_iff_toNat_le.2 hle))]
  rfl

theorem notMem_reserved_of_lt :
    ∀ n < 0x80, (Char.ofNat n).isAlphanum = true → UInt8.ofNat n ∉ reserved := by
  decide +kernel

namespace Plain

variable {s t : String}

theorem ofText_eq (hs : Plain s) :
    Bytes.ofText s = s.toList.map fun c => UInt8.ofNat c.toNat :=
  Bytes.ofText_of_ascii fun c hc => lt_of_isAlphanum (hs c hc)

theorem notMem_reserved (hs : Plain s) {x : UInt8} (hx : x ∈ Bytes.ofText s) :
    x.toNat < 0x80 ∧ x ∉ reserved := by
  rw [hs.ofText_eq] at hx
  obtain ⟨c, hc, rfl⟩ := List.mem_map.1 hx
  have hlt := lt_of_isAlphanum (hs c hc)
  constructor
  · rw [UInt8.toNat_ofNat']
    omega
  · refine notMem_reserved_of_lt c.toNat hlt ?_
    rw [Char.ofNat_toNat]
    exact hs c hc

theorem notMem (hs : Plain s) {x : UInt8} (hx : x ∈ reserved) : x ∉ Bytes.ofText s :=
  fun hmem => (hs.notMem_reserved hmem).2 hx

end Plain

theorem Address.plain_toText (a : Address) : Plain a.toText := by
  have hdigit : ∀ n < 58, (Base58.digit n).isAlphanum = true := by decide
  intro c hc
  rw [toText, Base58.encode, String.toList_ofList] at hc
  obtain ⟨d, hd, rfl⟩ := List.mem_map.1 hc
  exact hdigit d (Radix.transcode_lt (by decide) _ d hd)

theorem Address.slash_notMem_toText (a : Address) : Http.slash ∉ Bytes.ofText a.toText :=
  a.plain_toText.notMem (by decide)

theorem Address.ofText_toText_ne_nil (a : Address) : Bytes.ofText a.toText ≠ [] := fun h =>
  a.toText_ne_empty (Bytes.ofText_injective h)

theorem Hex.plain_encode (b : Bytes) : Plain (encode b) := by
  have hdigit : ∀ n < 16, (digit n).isAlphanum = true := by decide
  intro c hc
  rw [encode, String.toList_ofList, encodeChars] at hc
  obtain ⟨x, -, hc⟩ := List.mem_flatMap.1 hc
  have hx := x.toNat_lt
  rcases List.mem_pair.1 hc with rfl | rfl
  · exact hdigit _ (by omega)
  · exact hdigit _ (by omega)

theorem plain_toString (n : Nat) : Plain (toString n) := by
  intro c hc
  rw [Nat.toString_eq_repr, Nat.toList_repr] at hc
  have hdigit := Nat.isDigit_of_mem_toDigits (by decide) (by decide) hc
  rw [Char.isAlphanum, hdigit, Bool.or_true]

/-! ## Percent-encoding -/

namespace Percent

theorem decode_of_notMem {b : Bytes} (h : mark ∉ b) : decode b = b := by
  induction b with
  | nil => rfl
  | cons x b ih =>
    obtain ⟨hne, hrest⟩ := not_or.1 (mt List.mem_cons.2 h)
    rw [decode.eq_def]
    dsimp only
    rw [if_neg (Ne.symm hne), ih hrest]

theorem lossyChars_of_ascii {b : Bytes} (h : ∀ x ∈ b, x.toNat < 0x80) :
    lossyChars none b = b.map fun x => Char.ofNat x.toNat := by
  induction b with
  | nil => rfl
  | cons x b ih =>
    have hlead : lead x = .inl (Char.ofNat x.toNat) := if_pos (h x List.mem_cons_self)
    rw [lossyChars, hlead, List.map_cons, ← ih fun y hy => h y (List.mem_cons_of_mem x hy)]
    rfl

theorem segmentText?_ofText {s : String} (hs : Plain s) :
    segmentText? (Bytes.ofText s) = some s := by
  rw [segmentText?, decode_of_notMem (hs.notMem (by decide)), Bytes.text?_ofText]

theorem queryText_ofText {s : String} (hs : Plain s) : queryText (Bytes.ofText s) = s := by
  have hspace : (Bytes.ofText s).map (fun x => if x = 0x2B then 0x20 else x) = Bytes.ofText s := by
    refine (List.map_congr_left fun x hx => if_neg ?_).trans (List.map_id _)
    rintro rfl
    exact hs.notMem (by decide) hx
  rw [queryText, hspace, decode_of_notMem (hs.notMem (by decide)), lossyText,
    lossyChars_of_ascii fun x hx => (hs.notMem_reserved hx).1, hs.ofText_eq, List.map_map]
  have hback : ∀ c ∈ s.toList, ((fun x : UInt8 => Char.ofNat x.toNat) ∘
      fun c : Char => UInt8.ofNat c.toNat) c = c := by
    intro c hc
    have hlt := lt_of_isAlphanum (hs c hc)
    show Char.ofNat (UInt8.ofNat c.toNat).toNat = c
    rw [UInt8.toNat_ofNat', Nat.mod_eq_of_lt (by omega), Char.ofNat_toNat]
  rw [List.map_congr_left hback, List.map_id', String.ofList_toList]

end Percent

namespace Http

/-! ## Numbers -/

/-- The digits of a number of 64 bits read as the number. -/
theorem parseU64?_toString (n : UInt64) : parseU64? (toString n.toNat) = some n := by
  have hdigit : ∀ c ∈ Nat.toDigits 10 n.toNat, c.isDigit = true :=
    fun c => Nat.isDigit_of_mem_toDigits (by decide) (by decide)
  have hempty : (Nat.toDigits 10 n.toNat).isEmpty = false :=
    List.isEmpty_eq_false_iff.2 Nat.toDigits_ne_nil
  have hall : (Nat.toDigits 10 n.toNat).all (fun c => '0' ≤ c && c ≤ '9') = true :=
    List.all_eq_true.2 hdigit
  unfold parseU64?
  extract_lets digits value
  have hdigits : digits = Nat.toDigits 10 n.toNat := by
    simp only [digits, Nat.toString_eq_repr, Nat.toList_repr]
    split
    · next ds hds => exact absurd (hdigit '+' (hds ▸ List.mem_cons_self)) (by decide)
    · rfl
  have hvalue : value = n.toNat := by
    simp only [value, hdigits]
    exact Nat.ofDigitChars_ten_toDigits
  rw [hvalue, hdigits, hempty, hall, if_neg (by decide), if_pos n.toNat_lt, UInt64.ofNat_toNat]

/-! ## Query strings -/

/-- The query string that asks for a page. -/
def pageQuery : Option String → UInt64 → String
  | none, limit => "limit=" ++ toString limit.toNat
  | some key, limit => "key=" ++ key ++ "&limit=" ++ toString limit.toNat

/-- A name and its value as they are written. -/
def fieldBytes (field : String × String) : Bytes :=
  Bytes.ofText field.1 ++ 0x3D :: Bytes.ofText field.2

/-- Fields of letters and digits read as they were written. -/
theorem queryPairs_fields {fields : List (String × String)} (hne : fields ≠ [])
    (hplain : ∀ field ∈ fields, Plain field.1 ∧ Plain field.2) :
    queryPairs ([0x26].intercalate (fields.map fieldBytes)) = fields := by
  have hsep : ∀ part ∈ fields.map fieldBytes, (0x26 : UInt8) ∉ part := by
    intro part hpart
    obtain ⟨field, hfield, rfl⟩ := List.mem_map.1 hpart
    obtain ⟨hname, hvalue⟩ := hplain field hfield
    intro hmem
    rcases List.mem_append.1 hmem with hmem | hmem
    · exact hname.notMem (by decide) hmem
    · rcases List.mem_cons.1 hmem with hmem | hmem
      · exact absurd hmem (by decide)
      · exact hvalue.notMem (by decide) hmem
  have hfilled : ∀ part ∈ fields.map fieldBytes, decide (part ≠ []) = true := by
    intro part hpart
    obtain ⟨field, -, rfl⟩ := List.mem_map.1 hpart
    exact decide_eq_true fun h => List.cons_ne_nil _ _ (List.append_eq_nil_iff.1 h).2
  rw [queryPairs, List.splitOn_intercalate _ hsep (by simpa using hne)]
  dsimp only
  rw [List.filter_eq_self.2 hfilled, List.map_map]
  refine (List.map_congr_left fun field hfield => ?_).trans (List.map_id fields)
  obtain ⟨hname, hvalue⟩ := hplain field hfield
  rw [Function.comp_apply, fieldBytes, cut_append (hname.notMem (by decide))]
  exact Prod.ext (Percent.queryText_ofText hname) (Percent.queryText_ofText hvalue)

/-- The fields of the query string that asks for a page. -/
def pageFields : Option String → UInt64 → List (String × String)
  | none, limit => [("limit", toString limit.toNat)]
  | some key, limit => [("key", key), ("limit", toString limit.toNat)]

theorem ofText_pageQuery (key : Option String) (limit : UInt64) :
    Bytes.ofText (pageQuery key limit) = [0x26].intercalate ((pageFields key limit).map fieldBytes) := by
  have hkey : Bytes.ofText "key=" = Bytes.ofText "key" ++ [0x3D] := by decide +kernel
  have hlimit : Bytes.ofText "limit=" = Bytes.ofText "limit" ++ [0x3D] := by decide +kernel
  have hnext : Bytes.ofText "&limit=" = 0x26 :: (Bytes.ofText "limit" ++ [0x3D]) := by
    decide +kernel
  cases key with
  | none =>
    rw [pageQuery, pageFields, Bytes.ofText_append, hlimit, List.append_assoc]
    exact List.intercalate_singleton.symm
  | some k =>
    rw [pageQuery, pageFields, Bytes.ofText_append, Bytes.ofText_append, Bytes.ofText_append, hkey,
      hnext, List.append_assoc, List.append_assoc, List.map_cons, List.map_singleton,
      List.intercalate_cons_cons, List.intercalate_singleton, fieldBytes, fieldBytes]
    simp only [List.append_assoc, List.cons_append, List.nil_append]

/-- The page that a query string asks for. -/
theorem parse?_pageQuery {key : Option String} (hkey : ∀ k ∈ key, Plain k) (limit : UInt64) :
    PageParams.parse? (Bytes.ofText (pageQuery key limit)) = some ⟨key, none, some limit, none⟩ := by
  have hnames : Plain "key" ∧ Plain "limit" := ⟨plain_iff.2 (by decide), plain_iff.2 (by decide)⟩
  have hlimit := plain_toString limit.toNat
  have hread := parseU64?_toString limit
  rw [ofText_pageQuery, PageParams.parse?]
  cases key with
  | none =>
    rw [pageFields, queryPairs_fields (List.cons_ne_nil _ _) fun field hmem => ?_]
    · show (PageParams.add .none ("limit", toString limit.toNat) >>= pure) = _
      rw [PageParams.add, hread]
      rfl
    · obtain rfl := List.mem_singleton.1 hmem
      exact ⟨hnames.2, hlimit⟩
  | some k =>
    rw [pageFields, queryPairs_fields (List.cons_ne_nil _ _) fun field hmem => ?_]
    · show (PageParams.add ⟨some k, none, none, none⟩ ("limit", toString limit.toNat) >>= pure) = _
      rw [PageParams.add, hread]
      rfl
    · rcases List.mem_pair.1 hmem with rfl | rfl
      · exact ⟨hnames.1, hkey k rfl⟩
      · exact ⟨hnames.2, hlimit⟩

theorem numberSign_notMem_pageQuery {key : Option String} (hkey : ∀ k ∈ key, Plain k)
    (limit : UInt64) : numberSign ∉ Bytes.ofText (pageQuery key limit) := by
  have hnames : numberSign ∉ Bytes.ofText "key=" ∧ numberSign ∉ Bytes.ofText "limit=" ∧
      numberSign ∉ Bytes.ofText "&limit=" := by decide +kernel
  have hlimit : numberSign ∉ Bytes.ofText (toString limit.toNat) :=
    (plain_toString limit.toNat).notMem (by decide)
  cases key with
  | none =>
    simp only [pageQuery, Bytes.ofText_append, List.mem_append, not_or]
    exact ⟨hnames.2.1, hlimit⟩
  | some k =>
    simp only [pageQuery, Bytes.ofText_append, List.mem_append, not_or]
    exact ⟨⟨⟨hnames.1, (hkey k rfl).notMem (by decide)⟩, hnames.2.2⟩, hlimit⟩

theorem PageParams.request_cursor (key : Option Bytes) (limit : UInt64) :
    request ⟨key.map Hex.encode, .none, some limit, .none⟩ = .ok (some (.ofCursor key limit)) := by
  have hgiven : (⟨key.map Hex.encode, .none, some limit, .none⟩ : PageParams) ≠ none := by
    intro h
    cases congrArg PageParams.limit h
  rw [request, if_neg hgiven]
  cases key with
  | none => rfl
  | some b =>
    dsimp only [Option.map_some]
    rw [Hex.decode?_encode]
    rfl

/-! ## Targets and routes -/

theorem Target.ofUri?_eq {path query : Bytes} (hslash : path.head? = some slash)
    (hquestion : questionMark ∉ path) (hnumber : numberSign ∉ path ++ questionMark :: query) :
    ofUri? (path ++ questionMark :: query) = some ⟨path, query⟩ := by
  have hne : path ≠ [] := by
    rintro rfl
    cases hslash
  have hhead : (path ++ questionMark :: query).head? = some slash := by
    rw [List.head?_append_of_ne_nil _ hne, hslash]
  rw [ofUri?, if_pos hhead, ofPath, cut_of_not_mem hnumber]
  dsimp only
  rw [cut_append hquestion]
  dsimp only
  rw [if_neg hne]
  rfl

theorem Target.ofUri?_path {path : Bytes} (hslash : path.head? = some slash)
    (hquestion : questionMark ∉ path) (hnumber : numberSign ∉ path) :
    ofUri? path = some ⟨path, []⟩ := by
  have hne : path ≠ [] := by
    rintro rfl
    cases hslash
  rw [ofUri?, if_pos hslash, ofPath, cut_of_not_mem hnumber]
  dsimp only
  rw [cut_of_not_mem hquestion]
  dsimp only
  rw [if_neg hne]
  rfl

theorem strip?_append (front : String) (rest : Bytes) :
    strip? front (Bytes.ofText front ++ rest) = some rest := by
  rw [strip?, if_pos (Bytes.startsWith_iff.2 (List.prefix_append _ _)), List.drop_left]

theorem Route.ofPath?_pair {granter grantee : Bytes} (hgranter : slash ∉ granter)
    (hgrantee : slash ∉ grantee) (hne : grantee ≠ []) :
    ofPath? (Bytes.ofText "/authz/v1/grants/" ++ (granter ++ slash :: grantee)) =
      some (.pair granter grantee) := by
  rw [ofPath?, strip?_append]
  dsimp only
  rw [ofPairPath?, cut_append hgranter]
  dsimp only
  rw [cut_of_not_mem hgrantee]
  dsimp only
  rw [if_neg hne]

theorem Route.ofPath?_single {granter grantee url : Bytes} (hgranter : slash ∉ granter)
    (hgrantee : slash ∉ grantee) (hne : url ≠ []) :
    ofPath? (Bytes.ofText "/authz/v1/grants/" ++ (granter ++ slash :: (grantee ++ slash :: url))) =
      some (.single granter grantee url) := by
  rw [ofPath?, strip?_append]
  dsimp only
  rw [ofPairPath?, cut_append hgranter]
  dsimp only
  rw [cut_append hgrantee]
  dsimp only
  rw [if_neg hne]

theorem Route.ofPath?_held {grantee : Bytes} (hgrantee : slash ∉ grantee) (hne : grantee ≠ []) :
    ofPath? (Bytes.ofText "/authz/v1/grantee/" ++ grantee) = some (.held grantee) := by
  have hother : strip? "/authz/v1/grants/" (Bytes.ofText "/authz/v1/grantee/" ++ grantee) = none := by
    refine if_neg fun h => ?_
    have hprefix : Bytes.ofText "/authz/v1/grants/" <+: Bytes.ofText "/authz/v1/grantee/" :=
      List.prefix_of_prefix_length_le (Bytes.startsWith_iff.1 h) (List.prefix_append _ _)
        (by decide +kernel)
    exact absurd hprefix (by decide +kernel)
  rw [ofPath?, hother, strip?_append]
  dsimp only
  rw [ofGranteePath?, if_neg (by simp [hne, hgrantee])]

theorem serve_of_route {uri : String} {target : Target} {route : Route}
    (htarget : Target.ofUri? (.ofText uri) = some target)
    (hroute : Route.ofPath? target.path = some route) (d : Chain) (method : String) :
    serve d method uri = serveRoute d method target.query route := by
  rw [serve, htarget]
  dsimp only
  rw [hroute]

/-! ## Answers -/

theorem GrantView.toJson_injective {v w : GrantView} (h : v.toJson = w.toJson) : v = w := by
  obtain ⟨granter, grantee, kind, url, payload, expiration⟩ := v
  obtain ⟨granter', grantee', kind', url', payload', expiration'⟩ := w
  simp only [toJson, Json.record.injEq, List.cons.injEq, Prod.mk.injEq, true_and, and_true,
    Json.text.injEq] at h
  obtain ⟨rfl, rfl, rfl, rfl, rfl, hexpiration⟩ := h
  rw [Json.ofNat?_injective hexpiration]

/-- The record of a page that shows some grants. -/
def shownPage (views : List GrantView) (next : Option String) (total : Option Nat) : Json :=
  .record [
    ("grants", .list (views.map GrantView.toJson)),
    ("next_key", .ofText? next),
    ("total", .ofNat? total)]

theorem shownPage_inj {views views' : List GrantView} {next next' : Option String}
    {total total' : Option Nat} (h : shownPage views next total = shownPage views' next' total') :
    views = views' ∧ next = next' ∧ total = total' := by
  simp only [shownPage, Json.record.injEq, List.cons.injEq, Prod.mk.injEq, true_and, and_true,
    Json.list.injEq] at h
  obtain ⟨hviews, hnext, htotal⟩ := h
  exact ⟨List.map_injective_iff.2 (fun v w => GrantView.toJson_injective) hviews,
    Json.ofText?_injective hnext, Json.ofNat?_injective htotal⟩

/-- The record of a page of a walk, which asks for no total. -/
def pageRecord (views : List GrantView) (next : Option String) : Json :=
  shownPage views next none

theorem json_pageRecord_inj {status : Nat} {views views' : List GrantView}
    {next next' : Option String} :
    Response.json status (pageRecord views next) = .json status (pageRecord views' next') ↔
      views = views' ∧ next = next' := by
  constructor
  · intro h
    simp only [Response.json, Response.mk.injEq, true_and, Option.some.injEq] at h
    obtain ⟨hviews, hnext, -⟩ := shownPage_inj (Json.compact_injective h)
    exact ⟨hviews, hnext⟩
  · rintro ⟨rfl, rfl⟩
    rfl

theorem mapM_ofGrant {view : Grant → GrantView} {gs : List Grant}
    (h : ∀ g ∈ gs, GrantView.ofGrant g = .ok (view g)) :
    gs.mapM GrantView.ofGrant = .ok (gs.map view) := by
  induction gs with
  | nil => rfl
  | cons g gs ih =>
    rw [List.mapM_cons, h g List.mem_cons_self, ih fun g' hmem => h g' (List.mem_cons_of_mem g hmem)]
    rfl

theorem pageJson_of_views {view : Grant → GrantView} {p : Page Grant}
    (h : ∀ g ∈ p.items, GrantView.ofGrant g = .ok (view g)) :
    pageJson p = .ok (shownPage (p.items.map view) (p.nextKey.map Hex.encode) p.total) := by
  rw [pageJson, mapM_ofGrant h]
  rfl

theorem pageJson_eq {view : Grant → GrantView} {p : Page Grant}
    (h : ∀ g ∈ p.items, GrantView.ofGrant g = .ok (view g)) (htotal : p.total = none) :
    pageJson p = .ok (pageRecord (p.items.map view) (p.nextKey.map Hex.encode)) := by
  rw [pageJson_of_views h, htotal, pageRecord]

/-- Grants of the built-in kinds can be shown. -/
theorem GrantView.exists_ofGrants {gs : List Grant} (h : ∀ g ∈ gs, g.authorization.Builtin) :
    ∃ view : Grant → GrantView, ∀ g ∈ gs, ofGrant g = .ok (view g) := by
  refine ⟨fun g => ⟨g.granter.toText, g.grantee.toText, g.authorization.kind.typeUrl, g.msgTypeUrl,
    Hex.encode (g.authorization.encode.toOption.getD []),
    g.expiration.map fun t => t.millis.toNat⟩, fun g hg => ?_⟩
  obtain ⟨payload, hpayload⟩ := (h g hg).exists_encode
  dsimp only
  rw [ofGrant, Authorization.pack, hpayload]
  rfl

end Http

end GrantLedger
