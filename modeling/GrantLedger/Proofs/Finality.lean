import GrantLedger.Proofs.Inquiries
import GrantLedger.Proofs.Lookups
import GrantLedger.Proofs.Uses

/-!
# Expiry along a chain

A record that has expired may stay in the store for long: a failed transaction does not remove it, a
query never does, and the sweep may be off. What keeps it from counting again is the clock alone. A
block has to be above the last one, but nothing is asked of its time, and at an earlier time the
record is as good as ever (`Chain.expired_grant_revived`).

So the clock is what has to be followed. A chain is past a time if its last header and the block in
progress are (`Chain.Past`), and stays so until a block begins that is not. All this while no grant
with such an expiration is used or shown, whatever handlers write and whatever the kinds of
authorization are. If handlers keep out of the grants, what is stored under the key of one does not
change its expiration either, until the triple is granted again (`Chain.Fading`).
-/

namespace GrantLedger

open GrantTable (recordAt)
open Paging (exists_kept_of_mem)

/-! ## What queries show -/

namespace Query

/-- The answer shows a grant, in a genesis as a packed one. -/
def Answer.Shows (answer : Answer) (g : Grant) : Prop :=
  match answer with
  | .grant found => found = g
  | .page p => g ∈ p.items
  | .genesis entries => ∃ entry ∈ entries, GenesisEntry.ofGrant g = .ok entry

variable {c : Context} {g : Grant}

theorem unexpired_of_mem_page {items : List (Listed Grant)} {req : Option PageRequest}
    {p : Page Grant} (h : (page items req c).1 = .ok p) (hg : g ∈ p.items) :
    g.isExpired c.header.time = false := by
  rw [page, Exec.bind_ok (Exec.blockTime_eq c)] at h
  obtain ⟨cut, hcut, h⟩ := Exec.ofExcept_bind_eq_ok_iff.1 (Exec.eq_of_fst h)
  obtain ⟨⟨⟩, d, -, h⟩ := Exec.bind_eq_ok_iff.1 h
  cases h
  obtain ⟨cursor, v, -, hkept⟩ := exists_kept_of_mem hcut hg
  rw [unexpired] at hkept
  split at hkept
  · cases hkept
  · next hexp =>
    cases hkept
    exact Bool.eq_false_iff.2 hexp

end Query

namespace Genesis

theorem exists_unexpired_of_ofListed {now : Timestamp} {items : List (Listed Grant)}
    {entries : Genesis} (h : ofListed now items = .ok entries) {entry : GenesisEntry}
    (hentry : entry ∈ entries) :
    ∃ g : Grant, g.isExpired now = false ∧ GenesisEntry.ofGrant g = .ok entry := by
  induction items generalizing entries with
  | nil =>
    cases h
    cases hentry
  | cons item items ih =>
    rcases item with e | ⟨cursor, g⟩
    · cases h
    · rw [ofListed] at h
      split at h
      · exact ih h hentry
      · next hexp =>
        cases hpack : GenesisEntry.ofGrant g with
        | error e =>
          rw [hpack] at h
          cases h
        | ok packed =>
          cases hlater : ofListed now items with
          | error e =>
            rw [hpack, hlater] at h
            cases h
          | ok later =>
            rw [hpack, hlater] at h
            cases h
            rcases List.mem_cons.1 hentry with rfl | hentry
            · exact ⟨g, Bool.eq_false_iff.2 hexp, hpack⟩
            · exact ih hlater hentry

end Genesis

theorem GenesisEntry.expiration_of_ofGrant {g : Grant} {entry : GenesisEntry}
    (h : ofGrant g = .ok entry) : entry.expiration = g.expiration := by
  cases hpack : g.authorization.pack with
  | error e =>
    rw [ofGrant, hpack] at h
    cases h
  | ok any =>
    rw [ofGrant, hpack] at h
    cases h
    rfl

/-- No request shows a grant that has expired. -/
theorem Query.Request.unexpired_of_shows {r : Registry} {c : Context} (hc : c.Reliable)
    {q : Request} {answer : Answer} (h : (q.serve r c).1 = .ok answer) {g : Grant}
    (hg : answer.Shows g) : g.isExpired c.header.time = false := by
  have hlist {start : Bytes} {req : Option PageRequest} {p : Page Grant} {d : Context}
      (hpage : (GrantTable.list r start >>= fun items => page items req) c = (.ok p, d))
      (hmem : g ∈ p.items) : g.isExpired c.header.time = false := by
    rw [Exec.bind_ok (GrantTable.list_eq hc r start)] at hpage
    exact unexpired_of_mem_page (congrArg Prod.fst hpage) hmem
  cases q with
  | authorization granter grantee method =>
    obtain ⟨found, d, hfound, h⟩ := Exec.bind_eq_ok_iff.1 (Exec.eq_of_fst h)
    cases h
    obtain rfl : found = g := hg
    rw [Query.authorization] at hfound
    split at hfound
    · cases hfound
    · obtain ⟨granter, -, hfound⟩ := Exec.ofExcept_bind_eq_ok_iff.1 hfound
      obtain ⟨grantee, -, hfound⟩ := Exec.ofExcept_bind_eq_ok_iff.1 hfound
      obtain ⟨result, d', hlookup, hfound⟩ := Exec.bind_eq_ok_iff.1 hfound
      cases result with
      | none => cases hfound
      | some g' =>
        cases hfound
        exact ((Keeper.lookup_eq_some_iff hc).1 hlookup).2.1
  | authorizations granter grantee req =>
    obtain ⟨p, d, hpage, h⟩ := Exec.bind_eq_ok_iff.1 (Exec.eq_of_fst h)
    cases h
    obtain ⟨granter, -, hpage⟩ := Exec.ofExcept_bind_eq_ok_iff.1 hpage
    obtain ⟨grantee, -, hpage⟩ := Exec.ofExcept_bind_eq_ok_iff.1 hpage
    exact hlist hpage hg
  | granteeGrants grantee req =>
    obtain ⟨p, d, hpage, h⟩ := Exec.bind_eq_ok_iff.1 (Exec.eq_of_fst h)
    cases h
    obtain ⟨grantee, -, hpage⟩ := Exec.ofExcept_bind_eq_ok_iff.1 hpage
    exact hlist hpage hg
  | genesis =>
    obtain ⟨entries, d, hexport, h⟩ := Exec.bind_eq_ok_iff.1 (Exec.eq_of_fst h)
    cases h
    obtain ⟨entry, hentry, hpacked⟩ := hg
    rw [Genesis.exported, Exec.bind_ok (Exec.blockTime_eq c), GrantTable.listAll,
      Exec.bind_ok (GrantTable.list_eq hc r _)] at hexport
    obtain ⟨g', hexp, hpacked'⟩ :=
      Genesis.exists_unexpired_of_ofListed (Prod.mk.inj hexport).1 hentry
    have hsame : g.expiration = g'.expiration :=
      (GenesisEntry.expiration_of_ofGrant hpacked).symm.trans
        (GenesisEntry.expiration_of_ofGrant hpacked')
    rw [Grant.isExpired, hsame]
    exact hexp

/-! ## The clock -/

namespace Chain

/-- The last header and that of the block in progress are past a time. -/
structure Past (c : Chain) (e : Timestamp) : Prop where
  last : ∃ h, c.committed.get? lastHeaderKey = some (BlockHeader.codec.encode h) ∧ e < h.time
  current : ∀ h, c.header = some h → e < h.time

variable {c d : Chain} {e : Timestamp} {h : BlockHeader} {k : GrantKey}

theorem past_commit (hheader : c.header = some h) (he : e < h.time) : c.commit.2.Past e := by
  obtain ⟨-, hcommitted, -, hnone⟩ := commit_of_header hheader
  refine ⟨⟨h, ?_, he⟩, fun h' hh' => ?_⟩
  · rw [hcommitted, SortedMap.get?_insert_self]
  · rw [hnone] at hh'
    cases hh'

namespace Past

theorem started (hc : c.Past e) : c.Started := by
  intro _ hlast
  obtain ⟨h, hstored, -⟩ := hc.last
  rw [lastHeader_of_stored hstored] at hlast
  split at hlast <;> cases hlast

/-- Only a block that begins at or before the time brings the chain back behind it. -/
theorem move (hc : c.Past e) (m : Move)
    (hbegun : ∀ h, c.milestone? m = some (.begun h) → e < h.time) : (c.move m).Past e := by
  have stays {d : Chain} (hheader : d.header = c.header) (hcommitted : d.committed = c.committed) :
      d.Past e := ⟨hcommitted ▸ hc.last, hheader ▸ hc.current⟩
  cases m with
  | reopen a sweeps => exact ⟨hc.last, nofun⟩
  | call made =>
    cases made with
    | init header g =>
      cases hresult : (c.initChain header g).1 with
      | error _ =>
        rw [Chain.move, perform, initChain_of_error hresult]
        exact hc
      | ok _ =>
        obtain ⟨hnone, hlast, -⟩ := initChain_of_ok hresult
        exact absurd hlast (hc.started hnone)
    | begin header =>
      rcases c.beginBlock_cases header with ⟨_, heq⟩ | ⟨heq, -⟩
      · rw [Chain.move, perform, heq]
        exact hc
      · rw [milestone?, heq] at hbegun
        rw [Chain.move, perform, heq]
        refine ⟨hc.last, fun h hh => ?_⟩
        cases hh
        exact hbegun header rfl
    | deliver tx =>
      obtain ⟨metrics, hafter⟩ := sameState_deliverTx c tx
      exact stays (by rw [Chain.move, perform, hafter]) (by rw [Chain.move, perform, hafter])
    | endBlock =>
      obtain ⟨writes, metrics, hafter⟩ := sameState_endBlock c
      exact stays (by rw [Chain.move, perform, hafter]) (by rw [Chain.move, perform, hafter])
    | commit =>
      cases hheader : c.header with
      | none =>
        rw [Chain.move, perform, commit_of_header_none hheader]
        exact hc
      | some header => exact past_commit hheader (hc.current header hheader)

theorem live (hc : c.Past e) {moves : List Move}
    (hbegun : ∀ h, .begun h ∈ c.milestones moves → e < h.time) : (c.live moves).Past e := by
  induction moves generalizing c with
  | nil => exact hc
  | cons m moves ih =>
    have hfirst := hc.move m fun h hm => hbegun h (List.mem_append_left _ (Option.mem_toList.2 hm))
    exact ih hfirst fun h hmem => hbegun h (List.mem_append_right _ hmem)

/-- Queries run over the committed pairs, at a time past it. -/
theorem exists_context_of_query {α : Type} (hc : c.Past e) {x : Exec α} {a : α}
    (h : c.query x = .ok a) :
    ∃ start : Context, start.Reliable ∧ start.store.content = c.committed ∧
      e < start.header.time ∧ (x start).1 = .ok a := by
  obtain ⟨last, hstored, hlast⟩ := hc.last
  have hread := lastHeader_of_stored hstored
  split at hread
  · rw [query, queryHeader, hread] at h
    cases h
  · rw [query, queryHeader, hread] at h
    exact ⟨.start last (Store.branch (.ofPairs c.committed)), Store.reliable_ofPairs c.committed,
      rfl, hlast, h⟩

end Past

end Chain

theorem Grant.expiration_ne {g : Grant} {now e : Timestamp} (h : g.isExpired now = false)
    (he : e < now) : g.expiration ≠ some e :=
  fun hexp => UInt64.not_lt.2 (expiredAt_eq_false_iff.1 h e hexp) he

/-! ## Records that are left alone -/

/-- What a stored grant reads as has its expiration. -/
theorem Grant.expiration_of_decode {r : Registry} {g g' : Grant} {granter grantee : Address}
    {b : Bytes} (hb : g.stored = some b) (h : decode r granter grantee b = .ok g') :
    g'.expiration = g.expiration := by
  obtain ⟨any, -, rfl⟩ := Grant.stored_eq_some_iff.1 hb
  rw [decode, GrantRecord.decode, GrantRecord.lawful_codec.decode_encode] at h
  split at h
  · cases h
  · change ofRecord r granter grantee ⟨any, g.expiration⟩ = .ok g' at h
    rw [ofRecord] at h
    cases hunpack : r.unpack any with
    | error e =>
      rw [hunpack] at h
      cases h
    | ok a =>
      rw [hunpack] at h
      cases h
      rfl

/-- What is stored is a grant that expires at `e`, or nothing. -/
def EndsAt (e : Timestamp) (v : Option Bytes) : Prop :=
  ∀ b, v = some b → ∃ g : Grant, g.stored = some b ∧ g.expiration = some e

namespace EndsAt

variable {r : Registry} {e : Timestamp} {k : GrantKey} {v w : Option Bytes}

theorem none : EndsAt e none := nofun

theorem expiration_of_decode (h : EndsAt e v) {b : Bytes} (hb : v = some b)
    {granter grantee : Address} {g : Grant} (hdec : Grant.decode r granter grantee b = .ok g) :
    g.expiration = some e := by
  obtain ⟨g₀, hstored, hexp⟩ := h b hb
  exact (Grant.expiration_of_decode hstored hdec).trans hexp

theorem expiration_of_recordAt {m : Pairs} (h : EndsAt e (m.get? k.toBytes)) {g : Grant}
    (hrec : recordAt r m k = .ok (some g)) : g.expiration = some e := by
  obtain ⟨b, hget, hdec⟩ := GrantTable.recordAt_eq_some_iff.1 hrec
  exact h.expiration_of_decode hget hdec

/-- An entry other than a grant of the triple or a genesis leaves the expiration, if it leaves a
record. -/
theorem step {entry : Entry} (h : EndsAt e v) (hgrant : ∀ g, entry = .grant g → g.key ≠ k)
    (hgenesis : ∀ gs, entry ≠ .genesis gs) (hstep : entry.Step r k.toBytes v w) : EndsAt e w := by
  cases entry with
  | grant g =>
    have hne : g.key.toBytes ≠ k.toBytes := mt GrantKey.toBytes_injective (hgrant g rfl)
    rw [hstep.2, if_neg hne]
    exact h
  | revoke k' =>
    obtain rfl : w = _ := hstep
    split
    · exact none
    · exact h
  | use k' now =>
    rw [Entry.Step] at hstep
    split at hstep
    · obtain ⟨g, value, hv, hdec, -, -, rfl⟩ := hstep
      intro b hb
      obtain ⟨a, -, hnext⟩ := Option.bind_eq_some_iff.1 hb
      have hexp := h.expiration_of_decode hv hdec
      exact ⟨_, hnext, hexp⟩
    · obtain rfl : w = v := hstep
      exact h
  | genesis gs => exact absurd rfl (hgenesis gs)
  | sweep now =>
    obtain rfl : w = _ := hstep
    intro b hb
    exact h b (Option.filter_eq_some_iff.1 hb).1

theorem replays {es : List Entry} (h : EndsAt e v) (hgrant : ∀ g, .grant g ∈ es → g.key ≠ k)
    (hgenesis : ∀ gs, .genesis gs ∉ es) (hes : Replays r k.toBytes es v w) : EndsAt e w := by
  induction hes with
  | nil => exact h
  | cons hstep _ ih =>
    have hfirst := h.step (fun g heq => hgrant g (heq ▸ List.mem_cons_self))
      (fun gs heq => hgenesis gs (heq ▸ List.mem_cons_self)) hstep
    exact ih hfirst (fun g hmem => hgrant g (List.mem_cons_of_mem _ hmem))
      fun gs hmem => hgenesis gs (List.mem_cons_of_mem _ hmem)

end EndsAt

namespace Chain

/-- The lasting changes to grants of a move. -/
def journalOfMove (c : Chain) : Move → List Entry
  | .call made => c.journalOf made
  | .reopen .. => []

/-- The lasting changes to grants of a life. -/
def lifeJournal (c : Chain) : List Move → List Entry
  | [] => []
  | m :: moves => c.journalOfMove m ++ (c.move m).lifeJournal moves

/-- What is stored for a triple, committed and in the block in progress, ends at a time. -/
structure Fading (c : Chain) (k : GrantKey) (e : Timestamp) : Prop where
  committed : EndsAt e (c.committed.get? k.toBytes)
  current : EndsAt e (c.record k.toBytes)

variable {c d : Chain} {e : Timestamp} {h : BlockHeader} {k : GrantKey} {p : Conduct}

namespace Fading

theorem commit (hheader : c.header = some h) (hc : EndsAt e (c.record k.toBytes)) :
    c.commit.2.Fading k e where
  committed := by
    rw [committed_commit hheader k.startsWith_toBytes]
    exact hc
  current := by
    rw [record_commit k.startsWith_toBytes]
    exact hc

/-- No move but a grant of the triple makes anything else of its record. -/
theorem move (hc : c.Fading k e) (hpast : c.Past e) (hr : c.assembly.registry.Builtin)
    (hp : p.OutsideGrants) {m : Move} (hm : m.Obeys p)
    (hgrant : ∀ g, .grant g ∈ c.journalOfMove m → g.key ≠ k) : (c.move m).Fading k e := by
  cases m with
  | reopen a sweeps => exact ⟨hc.committed, hc.committed⟩
  | call made =>
    have hreplays := (accounts_perform hr hp hm).replays k.toBytes k.startsWith_toBytes
    have hcurrent : EndsAt e ((c.perform made).2.record k.toBytes) :=
      hc.current.replays hgrant (genesis_notMem_journalOf hpast.started made) hreplays
    rcases c.perform_cases made with ⟨-, hcommitted, -⟩ | ⟨header, -, -, hcommitted⟩ |
      ⟨header, rfl, hheader, -⟩
    · exact ⟨hcommitted ▸ hc.committed, hcurrent⟩
    · exact ⟨hcommitted ▸ hc.committed, hcurrent⟩
    · exact commit hheader hc.current

theorem live (hc : c.Fading k e) (hpast : c.Past e) (hr : c.assembly.registry.Builtin)
    (hp : p.OutsideGrants) {moves : List Move} (hmoves : ∀ m ∈ moves, m.Obeys p)
    (hbegun : ∀ h, .begun h ∈ c.milestones moves → e < h.time)
    (hgrant : ∀ g, .grant g ∈ c.lifeJournal moves → g.key ≠ k) :
    (c.live moves).Fading k e ∧ (c.live moves).assembly.registry.Builtin := by
  induction moves generalizing c with
  | nil => exact ⟨hc, hr⟩
  | cons m moves ih =>
    have hm := hmoves m List.mem_cons_self
    have hfirst := hc.move hpast hr hp hm fun g hmem => hgrant g (List.mem_append_left _ hmem)
    have hpast' := hpast.move m fun h hm =>
      hbegun h (List.mem_append_left _ (Option.mem_toList.2 hm))
    have hr' : (c.move m).assembly.registry.Builtin := by
      cases m with
      | call made =>
        rw [Chain.move, assembly_perform]
        exact hr
      | reopen a sweeps => exact hm
    exact ih hfirst hpast' hr' (fun m' hm' => hmoves m' (List.mem_cons_of_mem m hm'))
      (fun h hmem => hbegun h (List.mem_append_right _ hmem))
      fun g hmem => hgrant g (List.mem_append_right _ hmem)

/-- A use of the triple that lasts comes after a grant of it. -/
theorem exists_grant_of_use (hc : c.Fading k e) (hpast : c.Past e)
    (hr : c.assembly.registry.Builtin) (hp : p.OutsideGrants) {tx : List Message}
    (htx : ∀ m ∈ tx, p.Allows m) {xs ys : List Entry} {now : Timestamp}
    (hjournal : c.journalOf (.deliver tx) = xs ++ .use k now :: ys) :
    ∃ g, .grant g ∈ xs ∧ g.key = k := by
  by_contra hnone
  push Not at hnone
  have huse : .use k now ∈ c.journalOf (.deliver tx) := by
    rw [hjournal]
    exact List.mem_append_right _ List.mem_cons_self
  have hgenesis (gs : List Grant) : .genesis gs ∉ xs := fun hmem =>
    genesis_notMem_journalOf hpast.started (.deliver tx) gs
      (hjournal ▸ List.mem_append_left _ hmem)
  have hreplays := (accounts_deliver hr hp htx).replays k.toBytes k.startsWith_toBytes
  rw [hjournal] at hreplays
  obtain ⟨v, hbefore, hafter⟩ := hreplays.exists_of_append
  have hv := hc.current.replays hnone hgenesis hbefore
  cases hafter with
  | cons hstep _ =>
    rw [Entry.Step, if_pos rfl] at hstep
    obtain ⟨g, value, hvalue, hdec, hlive, -⟩ := hstep
    obtain ⟨header, _, hheader, rfl, -⟩ := exists_use_of_mem_journalOf huse
    exact Grant.expiration_ne hlive (hpast.current header hheader)
      (hv.expiration_of_decode hvalue hdec)

end Fading

/-! ## Once the clock is past the expiration -/

/-- A block past the expiration of grants is committed, and no block that begins after it is at or
before that expiration. From within this block on, none of these grants is used, however deep in a
transaction and whether that succeeds or not, and once it has been committed none is shown by a
query. This is so whatever the handlers write, for all kinds of authorization, over restarts, and
whether the records have been removed or not. Where handlers keep out of the grants and all kinds
are built in, a triple whose record was one of these has no other one, is found by no lookup and has
no use that lasts, until it is granted again. -/
theorem expiry_is_final {c : Chain} {h : BlockHeader} {e : Timestamp} (hheader : c.header = some h)
    (he : e < h.time) {moves : List Move}
    (hbegun : ∀ h', .begun h' ∈ c.commit.2.milestones moves → e < h'.time) :
    let d := c.commit.2.live moves
    let since := c.commit.2.lifeJournal moves
    (∀ tx u, u ∈ c.uses tx → u.grant.expiration ≠ some e) ∧
    (∀ tx u, u ∈ d.uses tx → u.grant.expiration ≠ some e) ∧
    (∀ (q : Query.Request) answer g, d.query (q.serve d.assembly.registry) = .ok answer →
      answer.Shows g → g.expiration ≠ some e) ∧
    ∀ p : Conduct, p.OutsideGrants → c.assembly.registry.Builtin → (∀ m ∈ moves, m.Obeys p) →
      ∀ k : GrantKey, EndsAt e (c.record k.toBytes) → (∀ g, .grant g ∈ since → g.key ≠ k) →
        d.Fading k e ∧
        (∀ s t g, Query.account s = .ok k.granter → Query.account t = .ok k.grantee →
          d.query (Query.authorization d.assembly.registry s t k.msgTypeUrl) ≠ .ok g) ∧
        ∀ tx, (∀ m ∈ tx, p.Allows m) → ∀ xs now ys,
          d.journalOf (.deliver tx) = xs ++ .use k now :: ys → ∃ g, .grant g ∈ xs ∧ g.key = k := by
  intro d since
  have hcommit : c.commit.2.Past e := past_commit hheader he
  have hpast : d.Past e := hcommit.live hbegun
  refine ⟨fun tx u hu => ?_, fun tx u hu => ?_, fun q answer g hq hg => ?_,
    fun p hp hr hmoves k hk hgrant => ?_⟩
  · obtain ⟨header, hcurrent, hlive⟩ := unexpired_of_mem_uses hu
    cases hheader.symm.trans hcurrent
    exact Grant.expiration_ne hlive he
  · obtain ⟨header, hcurrent, hlive⟩ := unexpired_of_mem_uses hu
    exact Grant.expiration_ne hlive (hpast.current header hcurrent)
  · obtain ⟨start, hreliable, -, hlate, hserve⟩ := hpast.exists_context_of_query hq
    exact Grant.expiration_ne (Query.Request.unexpired_of_shows hreliable hserve hg) hlate
  · have hr' : c.commit.2.assembly.registry.Builtin := (assembly_perform c .commit) ▸ hr
    obtain ⟨hfading, hregistry⟩ :=
      (Fading.commit hheader hk).live hcommit hr' hp hmoves hbegun hgrant
    refine ⟨hfading, fun s t g hs ht hfound => ?_, fun tx htx xs now ys hjournal => ?_⟩
    · obtain ⟨start, hreliable, hcontent, hlate, hfound⟩ := hpast.exists_context_of_query hfound
      obtain ⟨-, hrec, hlive⟩ := (Query.authorization_eq_ok_iff hreliable hs ht).1 hfound
      rw [hcontent] at hrec
      exact Grant.expiration_ne hlive hlate (hfading.committed.expiration_of_recordAt hrec)
    · exact hfading.exists_grant_of_use hpast hregistry hp htx hjournal

/-- A grant that expires at 10 is found stale at 20 by a block, and by a batch at 30 that fails. Its
record stays, and is of no use to anyone. -/
theorem expiry_is_final_stale_record :
    let granter : Address := ⟨.replicate 20 1, rfl⟩
    let grantee : Address := ⟨.replicate 20 2, rfl⟩
    let g : Grant := ⟨granter, grantee, .generic "/a", some ⟨10⟩⟩
    let payload := AuthorizationKind.genericCodec.encode "/a"
    let entry : GenesisEntry :=
      ⟨granter, grantee, ⟨AuthorizationKind.generic.typeUrl, payload⟩, some ⟨10⟩⟩
    let router := ((∅ : Router).insert "/a" .foreign).insert Message.execTypeUrl .authz
    let batch : List Message :=
      [.exec grantee.toText [.foreign "/a" [granter] (.ok ()) (.done (.ok []))]]
    let start := opened ⟨.builtin, router⟩ false ∅
    let c := start.live [.call (.init ⟨"c", 1, ⟨5⟩⟩ [entry]), .call .commit,
      .call (.begin ⟨"c", 2, ⟨20⟩⟩)]
    let moves : List Move := [.call (.begin ⟨"c", 3, ⟨30⟩⟩), .call (.deliver batch), .call .commit,
      .call (.begin ⟨"c", 4, ⟨40⟩⟩)]
    let d := c.commit.2.live moves
    d.record g.key.toBytes = g.stored ∧ g.stored.isSome = true ∧
      (∀ tx u, u ∈ d.uses tx → u.grant.expiration ≠ some ⟨10⟩) ∧
      (∀ found, d.query (Query.authorization d.assembly.registry granter.toText grantee.toText
        "/a") ≠ .ok found) ∧
      ∀ (q : Query.Request) answer found, d.query (q.serve d.assembly.registry) = .ok answer →
        answer.Shows found → found.expiration ≠ some ⟨10⟩ := by
  intro granter grantee g payload entry router batch start c moves
  have hheader : c.header = some ⟨"c", 2, ⟨20⟩⟩ := by decide +kernel
  have hmilestones : c.commit.2.milestones moves =
      [.begun ⟨"c", 3, ⟨30⟩⟩, .committed ⟨"c", 3, ⟨30⟩⟩, .begun ⟨"c", 4, ⟨40⟩⟩] := by
    decide +kernel
  have hbegun : ∀ h, .begun h ∈ c.commit.2.milestones moves → (⟨10⟩ : Timestamp) < h.time := by
    rw [hmilestones]
    intro h hmem
    obtain rfl | rfl : h = ⟨"c", 3, ⟨30⟩⟩ ∨ h = ⟨"c", 4, ⟨40⟩⟩ := by simpa using hmem
    · decide
    · decide
  have hr : c.assembly.registry.kinds = Registry.builtin.kinds := by decide +kernel
  have hrecord : c.record g.key.toBytes = g.stored := by decide +kernel
  have hends : EndsAt ⟨10⟩ (c.record g.key.toBytes) :=
    fun b hb => ⟨g, hrecord.symm.trans hb, rfl⟩
  have hmoves : ∀ m ∈ moves, m.Obeys .outsideGrants := by
    simp [moves, batch, Move.Obeys, Call.Obeys, Conduct.Allows, Conduct.AllowsAll,
      Conduct.AllowsAction]
  have hjournal : c.commit.2.lifeJournal moves = [] := by decide +kernel
  have hgrant : ∀ g', .grant g' ∈ c.commit.2.lifeJournal moves → g'.key ≠ g.key := by
    rw [hjournal]
    intro g' hmem
    cases hmem
  obtain ⟨-, huses, hshows, htriple⟩ :=
    expiry_is_final (e := ⟨10⟩) hheader (by decide) hbegun
  obtain ⟨-, hlookup, -⟩ := htriple .outsideGrants Conduct.outsideGrants_outsideGrants hr hmoves
    g.key hends hgrant
  have hstays : (c.commit.2.live moves).record g.key.toBytes = g.stored := by decide +kernel
  have hunfound (found : Grant) := hlookup granter.toText grantee.toText found
    (Query.account_toText granter) (Query.account_toText grantee)
  dsimp only
  exact ⟨hstays, by decide +kernel, huses, hunfound, hshows⟩

/-- At an earlier time the grant counts again: it expires at 10, a block at 20 is committed, and in
the block at 8 after it a batch uses the grant and a lookup finds it. -/
theorem expired_grant_revived :
    let granter : Address := ⟨.replicate 20 1, rfl⟩
    let grantee : Address := ⟨.replicate 20 2, rfl⟩
    let g : Grant := ⟨granter, grantee, .generic "/a", some ⟨10⟩⟩
    let payload := AuthorizationKind.genericCodec.encode "/a"
    let entry : GenesisEntry :=
      ⟨granter, grantee, ⟨AuthorizationKind.generic.typeUrl, payload⟩, some ⟨10⟩⟩
    let router := ((∅ : Router).insert "/a" .foreign).insert Message.execTypeUrl .authz
    let batch : List Message :=
      [.exec grantee.toText [.foreign "/a" [granter] (.ok ()) (.done (.ok []))]]
    let start := opened ⟨.builtin, router⟩ false ∅
    let moves : List Move := [.call (.init ⟨"c", 1, ⟨5⟩⟩ [entry]), .call .commit,
      .call (.begin ⟨"c", 2, ⟨20⟩⟩), .call .commit, .call (.begin ⟨"c", 3, ⟨8⟩⟩)]
    let c := start.live moves
    let after := (c.deliverTx batch).2.commit.2
    start.milestones moves = [.opened ⟨"c", 1, ⟨5⟩⟩, .committed ⟨"c", 1, ⟨5⟩⟩,
        .begun ⟨"c", 2, ⟨20⟩⟩, .committed ⟨"c", 2, ⟨20⟩⟩, .begun ⟨"c", 3, ⟨8⟩⟩] ∧
      start.lifeJournal moves = [.genesis [g]] ∧ c.record g.key.toBytes = g.stored ∧
      c.uses batch = [⟨g.key, g⟩] ∧ (c.deliverTx batch).1.isOk = true ∧
      after.query (Query.authorization .builtin granter.toText grantee.toText "/a") = .ok g := by
  intro granter grantee g payload entry router batch start moves c after
  exact ⟨by decide +kernel, by decide +kernel, by decide +kernel, by decide +kernel,
    by decide +kernel, by decide +kernel⟩

end Chain

end GrantLedger
