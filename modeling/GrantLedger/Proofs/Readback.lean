import GrantLedger.Proofs.Accounting
import GrantLedger.Proofs.AuthzOnly

/-!
# How far an accepted grant can be read back

A ledger accepts grants without a look at how long their records will be, and reads records under a
size cap. So a grant that was accepted is read back as it was given, until it is used, revoked,
replaced or swept, exactly if its record is within the cap (`Query.authorization_of_stored`). As
long as all records are, no request fails for want of a record that can be read
(`Query.Request.aboutRequest_of_error`); one record beyond the cap, and the grants cannot be written
down as a genesis any more (`Genesis.exported_of_tooLarge`).
-/

namespace GrantLedger

/-- The failure lies with the request: it is malformed, or asks for what does not exist. -/
def Error.AboutRequest (e : Error) : Prop :=
  e.kind = .invalidRequest ∨ e.kind = .invalidAddress ∨ e.kind = .notFound

/-! ## Where all records can be read -/

/-- All grants that some pairs hold, in the order of their keys. -/
def GrantTable.grantsIn (r : Registry) (m : Pairs) : List Grant :=
  (listing r GrantKey.allRange m).map (·.2)

namespace Genesis

variable {r : Registry}

/-- What a grant is written down as, if it has not expired at `now`. -/
def entryOf? (now : Timestamp) (g : Grant) : Option GenesisEntry :=
  if g.isExpired now then none else (GenesisEntry.ofGrant g).toOption

/-- What grants are written down as. -/
def written (now : Timestamp) (gs : List Grant) : Genesis := gs.filterMap (entryOf? now)

theorem written_cons (now : Timestamp) (g : Grant) (gs : List Grant) :
    written now (g :: gs) = (entryOf? now g).toList ++ written now gs := by
  rw [written, List.filterMap_cons]
  cases entryOf? now g <;> rfl

theorem ofListed_eq (now : Timestamp) {items : List (Bytes × Grant)}
    (hbuiltin : ∀ item ∈ items, item.2.authorization.Builtin) :
    ofListed now (items.map .ok) = .ok (written now (items.map (·.2))) := by
  induction items with
  | nil => rfl
  | cons item items ih =>
    have ih := ih fun item' hmem => hbuiltin item' (List.mem_cons_of_mem item hmem)
    obtain ⟨b, hb⟩ := (hbuiltin item List.mem_cons_self).exists_encode
    rw [List.map_cons, ofListed, ih, List.map_cons, written_cons, entryOf?]
    split
    · rfl
    · rw [GenesisEntry.ofGrant, Authorization.pack, hb]
      rfl

/-- Grants that can all be read can be written down. -/
theorem exported_eq (hr : r.Builtin) {c : Context} (hc : c.Reliable)
    (hm : GrantTable.WellFormed r c.store.content) :
    exported r c =
      (.ok (written c.header.time (GrantTable.grantsIn r c.store.content)), c) := by
  have hall : GrantKey.allRange <+: GrantKey.allRange := List.prefix_refl _
  have hbuiltin : ∀ item ∈ GrantTable.listing r GrantKey.allRange c.store.content,
      item.2.authorization.Builtin := by
    rintro ⟨cursor, g⟩ hmem
    obtain ⟨v, -, hrec⟩ :=
      GrantTable.recordAt_key_iff.1 ((hm.mem_listing_iff hall).1 hmem).2
    exact (Grant.stored_of_decode hr hrec.reads).2.2.1
  rw [exported, Exec.bind_ok (Exec.blockTime_eq c), GrantTable.listAll,
    Exec.bind_ok (hm.list_eq hc hall), ofListed_eq c.header.time hbuiltin]
  rfl

end Genesis

namespace Query

variable {r : Registry} {c c' : Context} {e : Error}

theorem aboutRequest_of_account {s : String} (h : account s = .error e) : e.AboutRequest := by
  rw [account] at h
  cases hparse : Address.parse s with
  | error cause =>
    rw [hparse] at h
    cases h
    exact .inr (.inl rfl)
  | ok a =>
    rw [hparse] at h
    cases h

/-- What follows on the reading of an account fails on its own, or the account cannot be read. -/
theorem aboutRequest_of_bind_account {α : Type} {s : String} {f : Address → Exec α}
    (h : (Exec.ofExcept (account s) >>= f) c = (.error e, c'))
    (hf : ∀ a, f a c = (.error e, c') → e.AboutRequest) : e.AboutRequest := by
  rcases Exec.bind_eq_error_iff.1 h with hread | ⟨a, d, hread, h⟩
  · exact aboutRequest_of_account (congrArg Prod.fst hread)
  · obtain rfl : c = d := congrArg Prod.snd hread
    exact hf a h

theorem aboutRequest_of_page (hc : c.Reliable) (hm : GrantTable.WellFormed r c.store.content)
    {start : Bytes} (hstart : GrantKey.allRange <+: start) {req : Option PageRequest}
    (h : (GrantTable.list r start >>= fun items => page items req) c = (.error e, c')) :
    e.AboutRequest := by
  rw [Exec.bind_ok (hm.list_eq hc hstart)] at h
  rcases page_eq hc hm hstart req with ⟨p, -, hpage⟩ | ⟨-, hpage⟩
  · rw [hpage] at h
    cases h
  · rw [hpage] at h
    cases h
    exact .inl rfl

theorem aboutRequest_of_authorization (hc : c.Reliable)
    (hm : GrantTable.WellFormed r c.store.content) {granter grantee method : String}
    (h : authorization r granter grantee method c = (.error e, c')) : e.AboutRequest := by
  rw [authorization] at h
  dsimp only at h
  split at h
  · cases h
    exact .inl rfl
  · refine aboutRequest_of_bind_account h fun granter h => ?_
    refine aboutRequest_of_bind_account h fun grantee h => ?_
    have hlookup := Keeper.lookup_eq (r := r) hc ⟨grantee, granter, method⟩
    rcases hm.recordAt_cases ⟨grantee, granter, method⟩ with hrec | ⟨g, -, hrec⟩
    · rw [hrec] at hlookup
      rw [Exec.bind_ok hlookup] at h
      cases h
      exact .inr (.inr rfl)
    · rw [hrec] at hlookup
      dsimp only at hlookup
      split at hlookup
      · rw [Exec.bind_ok hlookup] at h
        cases h
        exact .inr (.inr rfl)
      · rw [Exec.bind_ok hlookup] at h
        cases h

/-- Where every record can be read, a request fails only for what it asks. -/
theorem Request.aboutRequest_of_error (hr : r.Builtin) (hc : c.Reliable)
    (hm : GrantTable.WellFormed r c.store.content) {q : Request}
    (h : (q.serve r c).1 = .error e) : e.AboutRequest := by
  have hserve : q.serve r c = (.error e, (q.serve r c).2) := Prod.ext h rfl
  have answered {α : Type} {x : Exec α} {f : α → Answer} {d : Context}
      (h : (x >>= fun a => pure (f a)) c = (.error e, d)) : x c = (.error e, d) := by
    rcases Exec.bind_eq_error_iff.1 h with h | ⟨a, d', -, h⟩
    · exact h
    · cases h
  cases q with
  | authorization granter grantee method =>
    exact aboutRequest_of_authorization hc hm (answered hserve)
  | authorizations granter grantee req =>
    refine aboutRequest_of_bind_account (answered hserve) fun granter h => ?_
    refine aboutRequest_of_bind_account h fun grantee h => ?_
    exact aboutRequest_of_page hc hm ((List.prefix_append _ _).trans (List.prefix_append _ _)) h
  | granteeGrants grantee req =>
    refine aboutRequest_of_bind_account (answered hserve) fun grantee h => ?_
    exact aboutRequest_of_page hc hm (List.prefix_append _ _) h
  | genesis =>
    have hfail := answered hserve
    rw [Genesis.exported_eq hr hc hm] at hfail
    cases hfail

/-! ## One record -/

/-- A stored grant that has not expired is answered as it was given, unless its record is beyond the
cap. -/
theorem authorization_of_stored (hr : r.Builtin) (hc : c.Reliable) {g : Grant} (hg : g.Sound)
    {b : Bytes} (hstored : g.stored = some b)
    (hget : c.store.content.get? g.key.toBytes = some b)
    (hexp : g.isExpired c.header.time = false) {granter grantee : String}
    (hgranter : Address.parse granter = .ok g.granter)
    (hgrantee : Address.parse grantee = .ok g.grantee) :
    authorization r granter grantee g.msgTypeUrl c =
      (if r.maxValueBytes.toNat < b.length then .error (.codec .tooLarge) else .ok g, c) := by
  have hmethod : g.msgTypeUrl ≠ "" := Authorization.msgTypeUrl_ne_empty hg.builtin hg.valid
  have hread (s : String) (a : Address) (h : Address.parse s = .ok a) :
      Exec.ofExcept (account s) c = (.ok a, c) := by
    rw [account, h]
    rfl
  have hrecord : GrantTable.recordAt r c.store.content g.key =
      (Grant.decode r g.granter g.grantee b).map some := by
    rw [GrantTable.recordAt, hget]
    rfl
  have hlookup := Keeper.lookup_eq (r := r) hc g.key
  rw [hrecord, Grant.decode_of_stored hr hg.builtin hstored] at hlookup
  rw [authorization]
  dsimp only
  rw [if_neg hmethod, Exec.bind_ok (hread granter g.granter hgranter),
    Exec.bind_ok (hread grantee g.grantee hgrantee)]
  split
  · next hlong =>
    rw [if_pos hlong] at hlookup
    exact Exec.bind_error hlookup
  · next hshort =>
    rw [if_neg hshort] at hlookup
    change _ = if g.isExpired c.header.time = true then _ else _ at hlookup
    rw [hexp, if_neg Bool.false_ne_true] at hlookup
    exact Exec.bind_ok hlookup

end Query

namespace Genesis

variable {r : Registry}

/-- A listed failure comes out, if the grants in front of it can be packed. -/
theorem ofListed_of_error {now : Timestamp} {e : Error} {items : List (Listed Grant)}
    (hitems : ∀ item ∈ items, item = .error e ∨
      ∃ x, item = .ok x ∧ x.2.authorization.Builtin)
    (hmem : .error e ∈ items) : ofListed now items = .error e := by
  induction items with
  | nil => cases hmem
  | cons item items ih =>
    rcases hitems item List.mem_cons_self with rfl | ⟨⟨cursor, g⟩, rfl, hbuiltin⟩
    · rfl
    · have hlater : .error e ∈ items := by
        rcases List.mem_cons.1 hmem with heq | hmem
        · cases heq
        · exact hmem
      have ih := ih (fun item' hmem => hitems item' (List.mem_cons_of_mem _ hmem)) hlater
      obtain ⟨b, hb⟩ := hbuiltin.exists_encode
      rw [ofListed, ih]
      split
      · rfl
      · rw [GenesisEntry.ofGrant, Authorization.pack, hb]
        rfl

/-- With one record beyond the cap, the grants cannot be written down. -/
theorem exported_of_tooLarge (hr : r.Builtin) {c : Context} (hc : c.Reliable)
    (hm : GrantTable.AllCanonical c.store.content)
    (hlong : ¬ GrantTable.AllWithin r c.store.content) :
    exported r c = (.error (.codec .tooLarge), c) := by
  have hread : ∀ b v, c.store.content.get? b = some v → b.startsWith GrantKey.allRange = true →
      ∃ x : Bytes × Grant, x.2.authorization.Builtin ∧
        GrantTable.readItem r GrantKey.allRange (.ok (b, v)) =
          if r.maxValueBytes.toNat < v.length then .error (.codec .tooLarge) else .ok x := by
    intro b v hget hstarts
    obtain ⟨g, hsound, rfl, hstored⟩ := hm b hstarts v hget
    have hdecode := Grant.decode_of_stored hr hsound.builtin hstored
    refine ⟨(g.key.toBytes.drop GrantKey.allRange.length, g), hsound.builtin, ?_⟩
    split at hdecode
    · next hlong =>
      rw [if_pos hlong, GrantTable.readItem_eq, GrantKey.parse_toBytes]
      exact congrArg (Except.map _) hdecode
    · next hshort =>
      rw [if_neg hshort]
      exact GrantTable.readItem_of_recorded ⟨rfl, hdecode⟩ _
  have hlist : ofListed c.header.time ((c.store.content.range GrantKey.allRange).map fun item =>
      GrantTable.readItem r GrantKey.allRange (.ok item)) = .error (.codec .tooLarge) := by
    refine ofListed_of_error (fun item hitem => ?_) ?_
    · obtain ⟨⟨b, v⟩, hmem, rfl⟩ := List.mem_map.1 hitem
      obtain ⟨hstarts, hget⟩ := Store.mem_range.1 hmem
      obtain ⟨x, hbuiltin, hx⟩ := hread b v hget hstarts
      rw [hx]
      split
      · exact .inl rfl
      · exact .inr ⟨x, rfl, hbuiltin⟩
    · simp only [GrantTable.AllWithin, not_forall, Nat.not_le] at hlong
      obtain ⟨b, v, hget, hstarts, hlong⟩ := hlong
      -- The listing names the record that is too long as a failure, in its place.
      obtain ⟨x, -, hx⟩ := hread b v hget hstarts
      rw [if_pos hlong] at hx
      exact List.mem_map.2 ⟨(b, v), Store.mem_range.2 ⟨hstarts, hget⟩, hx⟩
  rw [exported, Exec.bind_ok (Exec.blockTime_eq c), GrantTable.listAll,
    Exec.bind_ok (GrantTable.list_eq hc r _), hlist]
  rfl

end Genesis

/-! ## Runs -/

/-- Entries that neither give, load, use nor remove a grant leave its record. -/
theorem Replays.of_idle {r : Registry} {k : GrantKey} {es : List Entry} {g : Grant}
    {w : Option Bytes} (h : Replays r k.toBytes es g.stored w)
    (huntouched : Entry.Untouched k es) (huses : Entry.uses k es = 0)
    (hremove : ¬ Entry.Remove k g.expiration es) : w = g.stored := by
  induction es with
  | nil =>
    cases h
    rfl
  | cons e es ih =>
    rw [Entry.uses_cons, Nat.add_eq_zero_iff] at huses
    cases h with
    | @cons _ _ _ v _ hstep hlater =>
      rcases huntouched.step_cases hstep with
        ⟨rfl, -⟩ | ⟨value, g', -, -, -, hcount⟩ | ⟨rfl, rfl⟩ |
          ⟨now, value, rfl, hvalue, hstale, rfl⟩
      · exact ih hlater huntouched.of_cons huses.2 fun hlast => hremove (hlast.cons e)
      · rw [huses.1] at hcount
        cases hcount
      · exact absurd (.inl List.mem_cons_self) hremove
      · have hexp : expiredAt g.expiration now = true :=
          GrantTable.isExpired_of_isStale hvalue hstale
        exact absurd (.inr ⟨now, List.mem_cons_self, hexp⟩) hremove

namespace Chain

/-- What a request is answered from the committed pairs under a header. -/
def answerAt (c : Chain) (h : BlockHeader) (q : Query.Request) : Except Error Query.Answer :=
  (q.serve c.assembly.registry (.start h (Store.branch (.ofPairs c.committed)))).1

theorem query_serve {c : Chain} {h : BlockHeader} (hh : c.queryHeader = .ok h)
    (q : Query.Request) : c.query (q.serve c.assembly.registry) = c.answerAt h q := by
  rw [query, hh]
  rfl

/-- What a run leaves of a grant that an entry of its journal stores, up to where the grant is used,
revoked, replaced or swept. -/
theorem record_of_stores {c : Chain} (hr : c.assembly.registry.Builtin)
    (ha : c.assembly.router.AuthzOnly) {calls : List Call} {g : Grant} {before mid : List Entry}
    {e : Entry} (hjournal : c.journal calls = before ++ e :: mid) (hstores : e.Stores g)
    (hgrant : g.key.event Event.grantKind ∉ mid.flatMap Entry.events)
    (huses : Entry.uses g.key mid = 0) (hremove : ¬ Entry.Remove g.key g.expiration mid) :
    g.Sound ∧ (c.run calls).2.record g.key.toBytes = g.stored := by
  have hrun := replays_run_of_authzOnly hr ha calls g.key.startsWith_toBytes
  rw [hjournal] at hrun
  obtain ⟨u, -, hrun⟩ := hrun.exists_of_append
  cases hrun with
  | @cons _ _ _ v _ hstep hlater =>
    obtain ⟨hsound, rfl⟩ := Entry.Step.of_stores hstores hstep
    exact ⟨hsound, hlater.of_idle ⟨hgrant, genesis_notMem_after hjournal⟩ huses hremove⟩

/-- A chain with the routes of the authorization module alone, after any calls with headers that can
be read back. Its requests are answered at the time of some header. As long as all committed records
are within the cap, they fail only for what they ask. A grant that was accepted is, outside a block,
until it is used, revoked, replaced or swept, answered as it was given at every time up to its
expiration, if its record is within the cap; if it is not, the request fails, and so does the export
of the grants. -/
theorem accepted_grant_read_back {cap : UInt64} {a : Assembly} (ha : Assembly.standard cap = .ok a)
    (sweeps : Bool) {calls : List Call} (hcalls : ∀ call ∈ calls, call.HeaderFits) :
    let start := Chain.opened a sweeps ∅
    let c := (start.run calls).2
    (∃ h, c.queryHeader = .ok h ∧ ∀ q, c.query (q.serve a.registry) = c.answerAt h q) ∧
    (GrantTable.AllWithin a.registry c.committed →
      ∀ h q e, c.answerAt h q = .error e → e.AboutRequest) ∧
    (∀ g before e mid, start.journal calls = before ++ e :: mid → e.Stores g →
      g.key.event Event.grantKind ∉ mid.flatMap Entry.events → Entry.uses g.key mid = 0 →
      ¬ Entry.Remove g.key g.expiration mid → c.header = none →
      ∃ b, g.stored = some b ∧ c.committed.get? g.key.toBytes = some b ∧
        ∀ h granter grantee, g.isExpired h.time = false →
          Address.parse granter = .ok g.granter → Address.parse grantee = .ok g.grantee →
          c.answerAt h (.authorization granter grantee g.msgTypeUrl) =
            if cap.toNat < b.length then .error (.codec .tooLarge) else .ok (.grant g)) ∧
    (¬ GrantTable.AllWithin a.registry c.committed →
      ∀ h, c.answerAt h .genesis = .error (.codec .tooLarge)) := by
  intro start c
  obtain rfl : _ = a := Except.ok.inj ((Assembly.standard_eq cap).symm.trans ha)
  have hr : Registry.Builtin ⟨Registry.builtin.kinds, cap⟩ := rfl
  have honly := Router.authzOnly_authzRoutes
  have hassembly : c.assembly = start.assembly := assembly_run start calls
  have hconsistent : c.Consistent :=
    Consistent.run_of_authzOnly hr honly (.opened _ sweeps) calls
  have hreliable (h : BlockHeader) :
      (Context.start h (Store.branch (.ofPairs c.committed))).Reliable :=
    Store.reliable_ofPairs c.committed
  refine ⟨?_, fun hwithin h q e hfail => ?_, ?_, fun hlong h => ?_⟩
  · obtain ⟨last, hlast⟩ := ((HeadersFit.opened _ sweeps).run hcalls).exists_lastHeader
    have hheader : c.queryHeader = .ok (last.getD .zero) := by
      rw [queryHeader, hlast]
      rfl
    refine ⟨last.getD .zero, hheader, fun q => ?_⟩
    have hserve := query_serve hheader q
    rw [hassembly] at hserve
    exact hserve
  · rw [answerAt, hassembly] at hfail
    exact Query.Request.aboutRequest_of_error hr (hreliable h)
      (hconsistent.committed.wellFormed hr hwithin) hfail
  · intro g before e mid hjournal hstores hgrant huses hremove hclosed
    obtain ⟨hsound, hrecord⟩ := record_of_stores (c := start) hr honly hjournal hstores hgrant
      huses hremove
    obtain ⟨b, hb⟩ := Grant.exists_stored hsound.builtin
    have hget : c.committed.get? g.key.toBytes = some b := by
      rw [← hconsistent.record_eq hclosed, hrecord, hb]
    refine ⟨b, hb, hget, fun h granter grantee hexp hgranter hgrantee => ?_⟩
    have hanswer := Query.authorization_of_stored hr (hreliable h) hsound hb hget hexp hgranter
      hgrantee
    rw [answerAt, hassembly]
    by_cases hlong : cap.toNat < b.length
    · rw [if_pos hlong] at hanswer ⊢
      exact congrArg Prod.fst (Exec.bind_error hanswer)
    · rw [if_neg hlong] at hanswer ⊢
      exact congrArg Prod.fst (Exec.bind_ok hanswer)
  · have hexported := Genesis.exported_of_tooLarge hr (hreliable h) hconsistent.committed hlong
    rw [answerAt, hassembly]
    exact congrArg Prod.fst (Exec.bind_error hexported)

/-- A grant is answered up to its expiration. -/
theorem accepted_grant_read_back_to_the_last :
    let granter : Address := ⟨.replicate 20 1, rfl⟩
    let grantee : Address := ⟨.replicate 20 2, rfl⟩
    let calls : List Call :=
      [.init ⟨"c", 1, ⟨5⟩⟩ [],
        .deliver [.grant ⟨granter.toText, grantee.toText, .generic "/a", some ⟨9⟩⟩], .commit]
    ((Chain.opened ⟨.builtin, Router.authzRoutes⟩ false ∅).run calls).2.answerAt ⟨"c", 2, ⟨9⟩⟩
        (.authorization granter.toText grantee.toText "/a") =
      .ok (.grant ⟨granter, grantee, .generic "/a", some ⟨9⟩⟩) := by
  intro granter grantee calls
  let g : Grant := ⟨granter, grantee, .generic "/a", some ⟨9⟩⟩
  have hfits : BlockHeader.Fits ⟨"c", 1, ⟨5⟩⟩ :=
    (by decide : (BlockHeader.codec.encode ⟨"c", 1, ⟨5⟩⟩).length ≤ headerCap.toNat)
  have hcalls : ∀ call ∈ calls, call.HeaderFits := by
    simp [calls, Call.HeaderFits, hfits]
  have hjournal : (Chain.opened ⟨.builtin, Router.authzRoutes⟩ false ∅).journal calls =
      [.genesis []] ++ .grant g :: [] := by decide +kernel
  have hread := accepted_grant_read_back (Assembly.standard_eq Registry.defaultMaxValueBytes) false
    hcalls
  obtain ⟨b, hb, -, hanswer⟩ :=
    hread.2.2.1 g _ _ [] hjournal rfl (by simp) rfl (by simp [Entry.Remove]) (by decide +kernel)
  have hshort : ∀ b ∈ g.stored, b.length ≤ Registry.defaultMaxValueBytes.toNat := by
    decide +kernel
  have hlast := hanswer ⟨"c", 2, ⟨9⟩⟩ granter.toText grantee.toText (by decide) (by decide +kernel)
    (by decide +kernel)
  rw [if_neg (Nat.not_lt.2 (hshort b hb))] at hlast
  exact hlast

/-- A grant is accepted, and no request that meets its record can be served any more. -/
theorem accepted_grant_beyond_cap_unreadable :
    let granter : Address := ⟨.replicate 20 1, rfl⟩
    let grantee : Address := ⟨.replicate 20 2, rfl⟩
    let start := Chain.opened ⟨⟨Registry.builtin.kinds, 60⟩, Router.authzRoutes⟩ false ∅
    let calls : List Call :=
      [.init ⟨"c", 1, ⟨5⟩⟩ [],
        .deliver [.grant ⟨granter.toText, grantee.toText, .generic "/a", none⟩], .commit]
    let c := (start.run calls).2
    start.journal calls = [.genesis [], .grant ⟨granter, grantee, .generic "/a", none⟩] ∧
    ∀ q ∈ [Query.Request.authorization granter.toText grantee.toText "/a",
        .granteeGrants grantee.toText none, .genesis],
      c.query (q.serve c.assembly.registry) = .error (.codec .tooLarge) := by
  decide +kernel

end Chain

end GrantLedger
