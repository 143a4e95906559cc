import GrantLedger.Proofs.Listing

/-!
# An expired grant counts as absent

Take two contexts that agree in everything, except that the store of one holds more records, all of
grants that have expired (`Context.AddsExpired`). Giving a grant, executing a batch without
revocations and every request come to the same in both, and leave two contexts that differ in the
same way (`Operation.expired_counts_as_absent`).

A computation that cannot tell such contexts apart is `Exec.Blind`. Blindness is closed under the
ways in which computations are put together, and a lookup of a grant is blind: it removes the record
on the one side and finds none on the other. A look at whether a record exists is not, so that a
revocation tells an expired grant from an absent one; using a grant is blind nevertheless, since it
looks only at a record that was found before.
-/

namespace GrantLedger

/-! ## Contexts that differ in expired records -/

theorem Grant.isExpired_mono {g : Grant} {t now : Timestamp} (h : g.isExpired t = true)
    (ht : t ≤ now) : g.isExpired now = true := by
  obtain ⟨granter, grantee, authorization, expiration⟩ := g
  cases expiration with
  | none => cases h
  | some e =>
    have hlt : e.millis < t.millis := of_decide_eq_true h
    have hle : t.millis ≤ now.millis := ht
    exact decide_eq_true (UInt64.lt_of_lt_of_le hlt hle : e.millis < now.millis)

namespace GrantTable

/-- `m'` holds what `m` holds and, where `m` holds nothing, records of grants that have expired. -/
def AddsExpired (r : Registry) (now : Timestamp) (m m' : Pairs) : Prop :=
  ∀ b, m'.get? b = m.get? b ∨
    (m.get? b = none ∧
      ∃ g v, m'.get? b = some v ∧ Grant.Recorded r g b v ∧ g.isExpired now = true)

namespace AddsExpired

variable {r : Registry} {now : Timestamp} {m m' : Pairs}

theorem mono {t : Timestamp} (h : AddsExpired r t m m') (ht : t ≤ now) :
    AddsExpired r now m m' := by
  intro b
  rcases h b with heq | ⟨hnone, g, v, hget, hrec, hexp⟩
  · exact .inl heq
  · exact .inr ⟨hnone, g, v, hget, hrec, Grant.isExpired_mono hexp ht⟩

/-- One write on both sides. -/
theorem put (h : AddsExpired r now m m') (b : Bytes) (v : Option Bytes) :
    AddsExpired r now (m.put b v) (m'.put b v) := by
  intro b'
  rw [Pairs.get?_put, Pairs.get?_put]
  split
  · exact .inl rfl
  · exact h b'

/-- A removal on one side, of what the other side does not hold. -/
theorem put_right (h : AddsExpired r now m m') {b : Bytes} (hnone : m.get? b = none) :
    AddsExpired r now m (m'.put b none) := by
  intro b'
  rw [Pairs.get?_put]
  split
  · next heq => exact .inl (heq ▸ hnone.symm)
  · exact h b'

/-- Under the key of a grant both sides hold the same, or one nothing and the other a record that
has expired. -/
theorem recordAt_cases (h : AddsExpired r now m m') (k : GrantKey) :
    m'.get? k.toBytes = m.get? k.toBytes ∨
      (m.get? k.toBytes = none ∧
        ∃ g, recordAt r m' k = .ok (some g) ∧ g.isExpired now = true) := by
  rcases h k.toBytes with heq | ⟨hnone, g, v, hget, hrec, hexp⟩
  · exact .inl heq
  · obtain rfl := GrantKey.toBytes_injective hrec.key_eq
    exact .inr ⟨hnone, g, recordAt_key_iff.2 ⟨v, hget, hrec⟩, hexp⟩

/-- Away from the keys of grants both sides hold the same. -/
theorem get?_eq (h : AddsExpired r now m m') {b : Bytes} (hb : ∀ k : GrantKey, b ≠ k.toBytes) :
    m'.get? b = m.get? b := by
  rcases h b with heq | ⟨-, g, v, -, hrec, -⟩
  · exact heq
  · exact absurd hrec.key_eq (hb g.key)

theorem range_eq (h : AddsExpired r now m m') {start : Bytes}
    (hstart : ∀ k : GrantKey, k.toBytes.startsWith start = false) :
    m'.range start = m.range start := by
  refine Store.eq_of_mem_iff (Store.sorted_range m' start) (Store.sorted_range m start)
    fun b v => ?_
  rw [Store.mem_range, Store.mem_range]
  refine and_congr_right fun hstarts => ?_
  rw [h.get?_eq fun k hk => ?_]
  rw [hk, hstart k] at hstarts
  cases hstarts

theorem wellFormed (h : AddsExpired r now m m') (hm : WellFormed r m) : WellFormed r m' := by
  intro b v hget hstarts
  rcases h b with heq | ⟨-, g, v', hget', hrec, -⟩
  · exact hm b v (heq ▸ hget) hstarts
  · obtain rfl : v' = v := Option.some.inj (hget'.symm.trans hget)
    exact ⟨g, hrec⟩

/-- A listing of the one side is that of the other without some expired grants. -/
theorem filter_listing (h : AddsExpired r now m m') (hm : WellFormed r m) {start : Bytes}
    (hstart : GrantKey.allRange <+: start) :
    (listing r start m').filter (fun item => m.contains item.2.key.toBytes) =
        listing r start m ∧
      ∀ item ∈ listing r start m', m.contains item.2.key.toBytes = false →
        item.2.isExpired now = true := by
  have hm' := h.wellFormed hm
  refine ⟨eq_listing ((sorted_listing r start m').filter _) fun cursor g => ?_, ?_⟩
  · rw [List.mem_filter, hm.mem_listing_iff hstart, hm'.mem_listing_iff hstart, SortedMap.contains,
      and_assoc]
    refine and_congr_right fun _ => ?_
    rcases h.recordAt_cases g.key with hsame | ⟨hnone, -⟩
    · rw [recordAt_congr hsame]
      refine and_iff_left_of_imp fun hrec => ?_
      obtain ⟨v, hget, -⟩ := recordAt_key_iff.1 hrec
      rw [hget]
      rfl
    · rw [hnone, recordAt_eq_none_iff.2 hnone]
      exact ⟨fun hbound => (by cases hbound.2), fun hrec => (by cases hrec)⟩
  · rintro ⟨cursor, g⟩ hmem hfree
    have hrec := ((hm'.mem_listing_iff hstart).1 hmem).2
    rcases h.recordAt_cases g.key with hsame | ⟨-, g', hrec', hexp⟩
    · rw [recordAt_congr hsame] at hrec
      obtain ⟨v, hget, -⟩ := recordAt_key_iff.1 hrec
      rw [SortedMap.contains, hget] at hfree
      cases hfree
    · rw [hrec] at hrec'
      cases hrec'
      exact hexp

end AddsExpired

end GrantTable

/-- The contexts, in a block at `now`, agree, except that the store of `d` may hold more records of
grants that have expired. -/
structure Context.AddsExpired (r : Registry) (now : Timestamp) (c d : Context) : Prop where
  time_eq : c.header.time = now
  header_eq : d.header = c.header
  events_eq : d.events = c.events
  reliable : c.Reliable
  reliable' : d.Reliable
  content : GrantTable.AddsExpired r now c.store.content d.store.content

namespace Context.AddsExpired

variable {r : Registry} {now : Timestamp} {c d c' d' : Context}

theorem put (h : c.AddsExpired r now d) (b : Bytes) (v : Option Bytes) :
    (c.put b v).AddsExpired r now (d.put b v) where
  time_eq := h.time_eq
  header_eq := h.header_eq
  events_eq := h.events_eq
  reliable := (Continues.put c b v).reliable h.reliable
  reliable' := (Continues.put d b v).reliable h.reliable'
  content := by
    rw [content_put, content_put]
    exact h.content.put b v

theorem put_right (h : c.AddsExpired r now d) {b : Bytes} (hnone : c.store.content.get? b = none) :
    c.AddsExpired r now (d.put b none) where
  time_eq := h.time_eq
  header_eq := h.header_eq
  events_eq := h.events_eq
  reliable := h.reliable
  reliable' := (Continues.put d b none).reliable h.reliable'
  content := by
    rw [content_put]
    exact h.content.put_right hnone

theorem emit (h : c.AddsExpired r now d) (e : Event) : (c.emit e).AddsExpired r now (d.emit e) where
  time_eq := h.time_eq
  header_eq := h.header_eq
  events_eq := congrArg (· ++ [e]) h.events_eq
  reliable := h.reliable
  reliable' := h.reliable'
  content := h.content

theorem dropEvents (h : c.AddsExpired r now d) : c.dropEvents.AddsExpired r now d.dropEvents where
  time_eq := h.time_eq
  header_eq := h.header_eq
  events_eq := rfl
  reliable := h.reliable
  reliable' := h.reliable'
  content := h.content

theorem child (h : c.AddsExpired r now d) : c.child.AddsExpired r now d.child where
  time_eq := h.time_eq
  header_eq := h.header_eq
  events_eq := rfl
  reliable := h.reliable
  reliable' := h.reliable'
  content := h.content

/-- Removals on both sides, which differ in keys that the one side does not hold. -/
theorem erase (h : c.AddsExpired r now d) {ks ks' : List Bytes}
    (hks : ∀ b, b ∈ ks ↔ b ∈ ks' ∧ c.store.content.contains b = true) :
    (c.erase ks).AddsExpired r now (d.erase ks') where
  time_eq := h.time_eq
  header_eq := h.header_eq
  events_eq := h.events_eq
  reliable := (continues_erase c ks).reliable h.reliable
  reliable' := (continues_erase d ks').reliable h.reliable'
  content := by
    intro b
    rw [get?_content_erase, get?_content_erase]
    by_cases hb : b ∈ ks'
    · rw [if_pos hb]
      refine .inl ?_
      split
      · rfl
      · next hnot =>
        have hfree : c.store.content.contains b = false :=
          Bool.eq_false_iff.2 fun hbound => hnot ((hks b).2 ⟨hb, hbound⟩)
        exact (Option.isSome_eq_false_iff.1 hfree |> Option.isNone_iff_eq_none.1).symm
    · rw [if_neg hb, if_neg fun hmem => hb ((hks b).1 hmem).1]
      exact h.content b

theorem adopt (h : c.AddsExpired r now d) (hc : c.child.Continues c') (hd : d.child.Continues d')
    (h' : c'.AddsExpired r now d') : (c.adopt c').AddsExpired r now (d.adopt d') where
  time_eq := h.time_eq
  header_eq := h.header_eq
  events_eq := congrArg₂ (· ++ ·) h.events_eq h'.events_eq
  reliable := (Continues.adopt c c').reliable h.reliable
  reliable' := (Continues.adopt d d').reliable h.reliable'
  content := by
    rw [hc.content_adopt, hd.content_adopt]
    exact h'.content

end Context.AddsExpired

/-! ## Computations that cannot tell -/

namespace Exec

variable {α β : Type} {r : Registry} {now : Timestamp} {c d : Context}

/-- The computation comes to the same in both contexts, and to contexts that differ in expired
records only. -/
structure Agrees (r : Registry) (now : Timestamp) (x : Exec α) (c d : Context) : Prop where
  result_eq : (x d).1 = (x c).1
  after : (x c).2.AddsExpired r now (x d).2

/-- The computation cannot tell an expired grant from an absent one. -/
structure Blind (r : Registry) (x : Exec α) : Prop where
  steady : x.Steady
  agrees : ∀ {now : Timestamp} {c d : Context}, c.AddsExpired r now d → x.Agrees r now c d

namespace Agrees

theorem of_eq {x : Exec α} {res : Except Error α} {c' d' : Context} (hc : x c = (res, c'))
    (hd : x d = (res, d')) (h : c'.AddsExpired r now d') : x.Agrees r now c d where
  result_eq := by rw [hc, hd]
  after := by rwa [hc, hd]

theorem exists_eq {x : Exec α} (h : x.Agrees r now c d) :
    ∃ res c' d', x c = (res, c') ∧ x d = (res, d') ∧ c'.AddsExpired r now d' :=
  ⟨(x c).1, (x c).2, (x d).2, rfl, Prod.ext h.result_eq rfl, h.after⟩

theorem bind {x : Exec α} {f : α → Exec β} (hx : x.Agrees r now c d)
    (hf : ∀ a c' d', x c = (.ok a, c') → x d = (.ok a, d') → c'.AddsExpired r now d' →
      (f a).Agrees r now c' d') : (x >>= f).Agrees r now c d := by
  obtain ⟨res, c', d', hc, hd, hafter⟩ := hx.exists_eq
  cases res with
  | error e => exact .of_eq (bind_error hc) (bind_error hd) hafter
  | ok a =>
    obtain ⟨res, c'', d'', hc', hd', hlast⟩ := (hf a c' d' hc hd hafter).exists_eq
    exact .of_eq ((bind_ok hc).trans hc') ((bind_ok hd).trans hd') hlast

theorem ofExcept (h : c.AddsExpired r now d) (e : Except Error α) :
    (Exec.ofExcept e).Agrees r now c d := .of_eq rfl rfl h

/-- A result that is known without the contexts leaves them as they are. -/
theorem ofExcept_bind (h : c.AddsExpired r now d) {e : Except Error α} {f : α → Exec β}
    (hf : ∀ a, (f a).Agrees r now c d) : (Exec.ofExcept e >>= f).Agrees r now c d := by
  refine (ofExcept h e).bind fun a c' d' hc hd _ => ?_
  obtain rfl : c = c' := congrArg Prod.snd hc
  obtain rfl : d = d' := congrArg Prod.snd hd
  exact hf a

end Agrees

namespace Blind

theorem ofExcept (e : Except Error α) : (Exec.ofExcept e).Blind r :=
  ⟨.ofExcept e, fun h => .ofExcept h e⟩

theorem pure (a : α) : (Pure.pure a : Exec α).Blind r := ofExcept (.ok a)

theorem throw (e : Error) : (MonadExcept.throw e : Exec α).Blind r := ofExcept (.error e)

theorem header : Exec.header.Blind r :=
  ⟨.header, fun h => .of_eq rfl (by rw [← h.header_eq]; rfl) h⟩

theorem bind {x : Exec α} {f : α → Exec β} (hx : x.Blind r) (hf : ∀ a, (f a).Blind r) :
    (x >>= f).Blind r :=
  ⟨.bind hx.steady fun a => (hf a).steady,
    fun h => (hx.agrees h).bind fun a _ _ _ _ hafter => (hf a).agrees hafter⟩

theorem blockTime : Exec.blockTime.Blind r := header.bind fun h => pure h.time

theorem emit (e : Event) : (Exec.emit e).Blind r := ⟨.emit e, fun h => .of_eq rfl rfl (h.emit e)⟩

theorem events : Exec.events.Blind r :=
  ⟨.events, fun h => .of_eq rfl (by rw [← h.events_eq]; rfl) h⟩

theorem takeEvents : Exec.takeEvents.Blind r :=
  ⟨.takeEvents, fun h => .of_eq rfl (by rw [← h.events_eq]; rfl) h.dropEvents⟩

theorem write (b : Bytes) (v : Option Bytes) : (Exec.write b v).Blind r :=
  ⟨.write b v, fun h => .of_eq (write_eq h.reliable b v) (write_eq h.reliable' b v) (h.put b v)⟩

/-- A look at a key that is no key of a grant. -/
theorem get {b : Bytes} (hb : ∀ k : GrantKey, b ≠ k.toBytes) : (Exec.get b).Blind r := by
  refine ⟨.get b, fun h => .of_eq (get_eq h.reliable b) ?_ h⟩
  rw [get_eq h.reliable' b, h.content.get?_eq hb]

/-- A scan of a range without keys of grants. -/
theorem scan {start : Bytes} (hstart : ∀ k : GrantKey, k.toBytes.startsWith start = false) :
    (Exec.scan start).Blind r := by
  refine ⟨.scan start, fun h => .of_eq (scan_eq h.reliable start) ?_ h⟩
  rw [scan_eq h.reliable' start, h.content.range_eq hstart]

theorem attempt {x : Exec α} (hx : x.Blind r) : x.attempt.Blind r := by
  refine ⟨.attempt hx.steady, fun h => ?_⟩
  obtain ⟨res, c', d', hc, hd, hafter⟩ := (hx.agrees h).exists_eq
  exact .of_eq (by rw [attempt_apply, hc]) (by rw [attempt_apply, hd]) hafter

theorem branch {x : Exec α} (hx : x.Blind r) : x.branch.Blind r := by
  refine ⟨.branch x, fun {_ c d} h => ?_⟩
  have hbranch := branch_eq h.reliable x
  have hbranch' := branch_eq h.reliable' x
  have hsteady := hx.steady c.child
  have hsteady' := hx.steady d.child
  obtain ⟨res, c', d', hc, hd, hafter⟩ := (hx.agrees h.child).exists_eq
  rw [hc] at hbranch hsteady
  rw [hd] at hbranch' hsteady'
  cases res with
  | error e => exact .of_eq hbranch hbranch' h
  | ok a => exact .of_eq hbranch hbranch' (h.adopt hsteady hsteady' hafter)

theorem ite {p : Prop} [Decidable p] {x y : Exec α} (hx : x.Blind r) (hy : y.Blind r) :
    (if p then x else y).Blind r := by
  split
  · exact hx
  · exact hy

/-- A check in front of a computation ends it or lets it go on. -/
theorem check {p : Prop} [Decidable p] {e : Error} {f : β → Exec α} {x : Exec α}
    (hx : x.Blind r) : (if p then MonadExcept.throw e >>= f else x).Blind r :=
  ite (ofExcept (.error e)) hx

end Blind

end Exec

/-! ## Grants -/

open Exec (Agrees Blind)

namespace GrantTable

theorem blind_save (r : Registry) (g : Grant) : (save g).Blind r :=
  .bind (.ofExcept _) fun _ => .write _ _

/-- A removal looks whether the record exists, which has to be the same on both sides. -/
theorem agrees_delete {r : Registry} {now : Timestamp} {k : GrantKey} {c d : Context}
    (h : c.AddsExpired r now d)
    (hsame : d.store.content.get? k.toBytes = c.store.content.get? k.toBytes) :
    (delete k).Agrees r now c d := by
  have hcontains : d.store.content.contains k.toBytes = c.store.content.contains k.toBytes :=
    congrArg Option.isSome hsame
  have hc := delete_eq (k := k) h.reliable
  have hd := delete_eq (k := k) h.reliable'
  rw [hcontains] at hd
  split at hc
  · next hbound =>
    rw [if_pos hbound] at hd
    exact .of_eq hc hd (h.put _ none)
  · next hbound =>
    rw [if_neg hbound] at hd
    exact .of_eq hc hd h

end GrantTable

namespace Keeper

variable (r : Registry)

theorem blind_grant (granter grantee : Address) (authorization : Authorization)
    (expiration : Option Timestamp) :
    (grant r granter grantee authorization expiration).Blind r := by
  refine .check (.bind (.ofExcept _) fun _ => .check (.bind .blockTime fun now => ?_))
  have hsave (g : Grant) (e : Event) : (GrantTable.save g >>= fun _ => Exec.emit e).Blind r :=
    .bind (GrantTable.blind_save r g) fun _ => .emit e
  cases expiration with
  | none => exact hsave _ _
  | some e => exact .check (hsave _ _)

/-- Both sides find the same record, or none of them finds one that has not expired. -/
theorem lookup_cases {r : Registry} {now : Timestamp} {c d : Context} (h : c.AddsExpired r now d)
    (k : GrantKey) :
    (d.store.content.get? k.toBytes = c.store.content.get? k.toBytes ∧
      (lookup r k).Agrees r now c d) ∨
    ∃ d', lookup r k c = (.ok none, c) ∧ lookup r k d = (.ok none, d') ∧
      c.AddsExpired r now d' := by
  have hc := lookup_eq (r := r) h.reliable k
  have hd := lookup_eq (r := r) h.reliable' k
  rw [h.header_eq, h.time_eq] at hd
  rw [h.time_eq] at hc
  rcases h.content.recordAt_cases k with hsame | ⟨hnone, g, hrec, hexp⟩
  · refine .inl ⟨hsame, ?_⟩
    rw [GrantTable.recordAt_congr hsame] at hd
    rcases hrec : GrantTable.recordAt r c.store.content k with e | _ | g
    · rw [hrec] at hc hd
      exact .of_eq hc hd h
    · rw [hrec] at hc hd
      exact .of_eq hc hd h
    · rw [hrec] at hc hd
      dsimp only at hc hd
      split at hc
      · next hexp =>
        rw [if_pos hexp] at hd
        exact .of_eq hc hd (h.put _ none)
      · next hexp =>
        rw [if_neg hexp] at hd
        exact .of_eq hc hd h
  · refine .inr ⟨_, ?_, ?_, h.put_right hnone⟩
    · rw [hc, GrantTable.recordAt_eq_none_iff.2 hnone]
    · rw [hd, hrec]
      exact if_pos hexp

theorem blind_lookup (k : GrantKey) : (lookup r k).Blind r := by
  refine ⟨steady_lookup r k, fun h => ?_⟩
  rcases lookup_cases h k with ⟨-, hagrees⟩ | ⟨d', hc, hd, hafter⟩
  · exact hagrees
  · exact .of_eq hc hd hafter

theorem agrees_settle {r : Registry} {now : Timestamp} {c d : Context}
    (h : c.AddsExpired r now d) {k : GrantKey}
    (hsame : d.store.content.get? k.toBytes = c.store.content.get? k.toBytes) (g : Grant)
    (answer : Acceptance) : (settle k g answer).Agrees r now c d := by
  rw [settle]
  split
  · exact GrantTable.agrees_delete h hsame
  · cases answer.updated with
    | none => exact .of_eq rfl rfl h
    | some updated => exact (GrantTable.blind_save r _).agrees h

theorem blind_authorize (grantee granter : Address) (url : String) :
    (authorize r grantee granter url).Blind r := by
  refine ⟨steady_authorize r grantee granter url, fun {_ c d} h => ?_⟩
  rcases lookup_cases h ⟨grantee, granter, url⟩ with ⟨hsame, hagrees⟩ | ⟨d', hc, hd, hafter⟩
  · refine hagrees.bind fun found c' d' hc hd hafter => ?_
    cases found with
    | none => exact .ofExcept hafter _
    | some g =>
      -- Finding a grant changes nothing, so that both sides still hold the same.
      obtain ⟨-, -, rfl⟩ := (lookup_eq_some_iff h.reliable).1 hc
      obtain ⟨-, -, rfl⟩ := (lookup_eq_some_iff h.reliable').1 hd
      refine .ofExcept_bind h fun answer => ?_
      dsimp only
      split
      · exact .ofExcept h (.error _)
      · exact (agrees_settle h hsame g answer).bind fun _ _ _ _ _ hafter =>
          (Blind.emit _).agrees hafter
  · exact .of_eq (Exec.bind_ok hc) (Exec.bind_ok hd) hafter

end Keeper

/-! ## Messages -/

mutual

/-- The message revokes nothing, and the handlers in it look at no grant record by themselves, at
any depth and whatever their steps return. -/
def Message.Blind : Message → Prop
  | .grant _ => True
  | .revoke _ => False
  | .exec _ msgs => Message.AllBlind msgs
  | .foreign _ _ _ action => action.Blind

/-- The messages revoke nothing, and the handlers in them look at no grant record by themselves. -/
def Message.AllBlind : List Message → Prop
  | [] => True
  | m :: ms => m.Blind ∧ Message.AllBlind ms

/-- The action revokes nothing and looks at no grant record by itself. -/
def Action.Blind : Action → Prop
  | .done _ => True
  | .get key next => (∀ k : GrantKey, key ≠ k.toBytes) ∧ ∀ r, (next r).Blind
  | .write _ _ next => ∀ r, (next r).Blind
  | .scan start next =>
    (∀ k : GrantKey, k.toBytes.startsWith start = false) ∧ ∀ r, (next r).Blind
  | .header next => ∀ h, (next h).Blind
  | .emit _ next => next.Blind
  | .events next => ∀ es, (next es).Blind
  | .takeEvents next => ∀ es, (next es).Blind
  | .branch body next => body.Blind ∧ ∀ r, (next r).Blind
  | .dispatch msg next => msg.Blind ∧ ∀ r, (next r).Blind

end

namespace Assembly

variable (a : Assembly)

theorem blind_handleGrant (m : MsgGrant) : (a.handleGrant m).Blind a.registry :=
  .bind (.ofExcept _) fun _ => .bind (Keeper.blind_grant _ _ _ _ _) fun _ => .pure _

theorem blind_permit (grantee : Address) (m : Message) : (a.permit grantee m).Blind a.registry :=
  .bind (.ofExcept _) fun _ => .ite (Keeper.blind_authorize _ _ _ _) (.pure _)

mutual

theorem blind_dispatch (m : Message) (hm : m.Blind) : (a.dispatch m).Blind a.registry := by
  match m with
  | .grant g =>
    rw [dispatch]
    split
    · exact .throw _
    · exact blind_handleGrant a g
    · exact .throw _
  | .revoke g => exact hm.elim
  | .exec grantee msgs =>
    rw [dispatch]
    split
    · exact .throw _
    · exact .bind (.ofExcept _) fun grantee =>
        .bind (.branch (blind_dispatchFor grantee msgs hm)) fun _ => .pure _
    · exact .throw _
  | .foreign url signers validity action =>
    rw [dispatch]
    split
    · exact .throw _
    · exact .throw _
    · exact blind_run action hm

theorem blind_dispatchFor (grantee : Address) (ms : List Message) (hms : Message.AllBlind ms) :
    (a.dispatchFor grantee ms).Blind a.registry := by
  match ms with
  | [] =>
    rw [dispatchFor]
    exact .pure _
  | m :: ms =>
    rw [dispatchFor]
    exact .bind (blind_permit a grantee m) fun _ => .bind (blind_dispatch m hms.1) fun _ =>
      .bind (blind_dispatchFor grantee ms hms.2) fun _ => .pure _

theorem blind_run (act : Action) (hact : act.Blind) : (a.run act).Blind a.registry := by
  match act with
  | .done result =>
    rw [run]
    exact .ofExcept result
  | .get key next =>
    rw [run]
    exact .bind (.attempt (.get hact.1)) fun r => blind_run (next r) (hact.2 r)
  | .write key value next =>
    rw [run]
    exact .bind (.attempt (.write key value)) fun r => blind_run (next r) (hact r)
  | .scan start next =>
    rw [run]
    exact .bind (.attempt (.scan hact.1)) fun r => blind_run (next r) (hact.2 r)
  | .header next =>
    rw [run]
    exact .bind .header fun h => blind_run (next h) (hact h)
  | .emit event next =>
    rw [run]
    exact .bind (.emit event) fun _ => blind_run next hact
  | .events next =>
    rw [run]
    exact .bind .events fun es => blind_run (next es) (hact es)
  | .takeEvents next =>
    rw [run]
    exact .bind .takeEvents fun es => blind_run (next es) (hact es)
  | .branch body next =>
    rw [run]
    exact .bind (.attempt (.branch (blind_run body hact.1))) fun r =>
      blind_run (next r) (hact.2 r)
  | .dispatch msg next =>
    rw [run]
    exact .bind (.attempt (blind_dispatch msg hact.1)) fun r => blind_run (next r) (hact.2 r)

end

end Assembly

/-! ## Requests -/

namespace Query

variable {r : Registry} {now : Timestamp} {c d : Context}

/-- Both sides give the same page, and each removes the expired grants that it came across. -/
theorem agrees_page (h : c.AddsExpired r now d) (hm : GrantTable.WellFormed r c.store.content)
    {start : Bytes} (hstart : GrantKey.allRange <+: start) (req : Option PageRequest) :
    (GrantTable.list r start >>= fun items => page items req).Agrees r now c d := by
  have hm' := h.content.wellFormed hm
  obtain ⟨hlisting, hexpired⟩ := h.content.filter_listing hm hstart
  have hdrop : ∀ item ∈ GrantTable.listing r start d.store.content,
      c.store.content.contains item.2.key.toBytes = false →
        unexpired now item.1 item.2 = .ok none := by
    intro item hmem hfree
    rw [unexpired, if_pos (hexpired item hmem hfree)]
  obtain ⟨houtcome, hexamined⟩ := paginate_filter req (unexpired now)
    (fun item => c.store.content.contains item.2.key.toBytes) hdrop
  rw [hlisting] at houtcome hexamined
  have hpage := page_eq h.reliable hm hstart req
  have hpage' := page_eq h.reliable' hm' hstart req
  dsimp only at hpage hpage'
  rw [h.time_eq] at hpage
  rw [h.header_eq, h.time_eq, ← houtcome] at hpage'
  rcases hpage with ⟨p, hok, hpage⟩ | ⟨hrefused, hpage⟩
  · rcases hpage' with ⟨p', hok', hpage'⟩ | ⟨hrefused', -⟩
    · obtain rfl : p = p' := Except.ok.inj (hok.symm.trans hok')
      refine .of_eq ((Exec.bind_ok (hm.list_eq h.reliable hstart)).trans hpage)
        ((Exec.bind_ok (hm'.list_eq h.reliable' hstart)).trans hpage') (h.erase fun b => ?_)
      -- The one side came across what the other did, as far as it is there.
      simp only [expired, hexamined, List.mem_map, List.mem_filter]
      constructor
      · rintro ⟨g, ⟨⟨item, ⟨hmem, hbound⟩, rfl⟩, hexp⟩, rfl⟩
        exact ⟨⟨_, ⟨⟨item, hmem, rfl⟩, hexp⟩, rfl⟩, hbound⟩
      · rintro ⟨⟨g, ⟨⟨item, hmem, rfl⟩, hexp⟩, rfl⟩, hbound⟩
        exact ⟨_, ⟨⟨item, ⟨hmem, hbound⟩, rfl⟩, hexp⟩, rfl⟩
    · rw [hok] at hrefused'
      cases hrefused'
  · rcases hpage' with ⟨p', hok', -⟩ | ⟨-, hpage'⟩
    · rw [hrefused] at hok'
      cases hok'
    · exact .of_eq ((Exec.bind_ok (hm.list_eq h.reliable hstart)).trans hpage)
        ((Exec.bind_ok (hm'.list_eq h.reliable' hstart)).trans hpage') h

theorem agrees_exported (h : c.AddsExpired r now d) (hm : GrantTable.WellFormed r c.store.content) :
    (Genesis.exported r).Agrees r now c d := by
  have hm' := h.content.wellFormed hm
  obtain ⟨hlisting, hexpired⟩ := h.content.filter_listing hm (List.prefix_refl GrantKey.allRange)
  have hgenesis := Genesis.ofListed_filter now
    (fun item => c.store.content.contains item.2.key.toBytes) hexpired
  rw [hlisting] at hgenesis
  have hc := hm.list_eq h.reliable (List.prefix_refl GrantKey.allRange)
  have hd := hm'.list_eq h.reliable' (List.prefix_refl GrantKey.allRange)
  refine .of_eq ((Exec.bind_ok (Exec.blockTime_eq c)).trans (Exec.bind_ok hc))
    ((Exec.bind_ok (Exec.blockTime_eq d)).trans ((Exec.bind_ok hd).trans ?_)) h
  rw [h.header_eq, h.time_eq, ← hgenesis]
  rfl

theorem blind_authorization (granter grantee method : String) :
    (authorization r granter grantee method).Blind r := by
  refine .check (.bind (.ofExcept _) fun _ => .bind (.ofExcept _) fun _ =>
    .bind (Keeper.blind_lookup r _) fun found => ?_)
  cases found with
  | none => exact .throw _
  | some g => exact .pure g

theorem Request.agrees_serve (h : c.AddsExpired r now d)
    (hm : GrantTable.WellFormed r c.store.content) (q : Request) :
    (q.serve r).Agrees r now c d := by
  have answer {α : Type} {x : Exec α} (hx : x.Agrees r now c d) (f : α → Answer) :
      (x >>= fun a => pure (f a)).Agrees r now c d :=
    hx.bind fun a _ _ _ _ hafter => (Blind.pure (f a)).agrees hafter
  cases q with
  | authorization granter grantee method =>
    exact answer ((blind_authorization granter grantee method).agrees h) .grant
  | authorizations granter grantee req =>
    refine answer (.ofExcept_bind h fun granter => .ofExcept_bind h fun grantee => ?_) .page
    exact agrees_page h hm ((List.prefix_append _ _).trans (List.prefix_append _ _)) req
  | granteeGrants grantee req =>
    refine answer (.ofExcept_bind h fun grantee => ?_) .page
    exact agrees_page h hm (List.prefix_append _ _) req
  | genesis => exact answer (agrees_exported h hm) .genesis

end Query

/-! ## Operations -/

/-- What may be asked of a ledger in a block. -/
inductive Operation where
  | grant (granter grantee : Address) (authorization : Authorization)
      (expiration : Option Timestamp)
  | exec (grantee : Address) (msgs : List Message)
  | request (q : Query.Request)

/-- What an operation that succeeds comes to. -/
inductive Outcome where
  | done
  /-- What the messages returned. -/
  | results (data : List Bytes)
  | answer (a : Query.Answer)
deriving DecidableEq

namespace Operation

/-- Put an operation to a ledger. -/
def perform (a : Assembly) : Operation → Exec Outcome
  | grant granter grantee authorization expiration => do
    Keeper.grant a.registry granter grantee authorization expiration
    return .done
  | exec grantee msgs => do return .results (← a.exec grantee msgs)
  | request q => do return .answer (← q.serve a.registry)

/-- The messages of a batch revoke nothing, and their handlers look at no grant record by
themselves. -/
def Blind : Operation → Prop
  | exec _ msgs => Message.AllBlind msgs
  | _ => True

theorem agrees_perform (a : Assembly) {now : Timestamp} {c d : Context}
    (h : c.AddsExpired a.registry now d) (hm : GrantTable.WellFormed a.registry c.store.content)
    {op : Operation} (hop : op.Blind) : (op.perform a).Agrees a.registry now c d := by
  have outcome {α : Type} {x : Exec α} (hx : x.Agrees a.registry now c d) (f : α → Outcome) :
      (x >>= fun a => pure (f a)).Agrees a.registry now c d :=
    hx.bind fun a _ _ _ _ hafter => (Exec.Blind.pure (f a)).agrees hafter
  cases op with
  | grant granter grantee authorization expiration =>
    exact outcome ((Keeper.blind_grant _ _ _ _ _).agrees h) fun _ => .done
  | exec grantee msgs =>
    exact outcome ((Exec.Blind.branch (a.blind_dispatchFor grantee msgs hop)).agrees h) .results
  | request q => exact outcome (q.agrees_serve h hm) .answer

/-- Over two stores that agree, except that one holds more records of grants that have expired at
`t`, an operation in a block that is not before `t` comes to the same result or failure with the
same events, and leaves two stores that again agree, except for records that have expired at the
time of the block. -/
theorem expired_counts_as_absent (a : Assembly) {t : Timestamp} {s s' : Store} (hs : s.Reliable)
    (hs' : s'.Reliable) (hm : GrantTable.WellFormed a.registry s.content)
    (hadds : GrantTable.AddsExpired a.registry t s.content s'.content) {h : BlockHeader}
    (ht : t ≤ h.time) {op : Operation} (hop : op.Blind) :
    let c := op.perform a (.start h s)
    let d := op.perform a (.start h s')
    d.1 = c.1 ∧ d.2.events = c.2.events ∧
      GrantTable.AddsExpired a.registry h.time c.2.store.content d.2.store.content := by
  have hstart : (Context.start h s).AddsExpired a.registry h.time (.start h s') :=
    ⟨rfl, rfl, rfl, hs, hs', hadds.mono ht⟩
  have hagrees := agrees_perform a hstart hm hop
  exact ⟨hagrees.result_eq, hagrees.after.events_eq, hagrees.after.content⟩

/-- A batch that needs a grant of which one store holds an expired record, and the other none. -/
theorem expired_counts_as_absent_unauthorized :
    let granter : Address := ⟨.replicate 20 1, rfl⟩
    let grantee : Address := ⟨.replicate 20 2, rfl⟩
    let g : Grant := ⟨granter, grantee, .generic "/a", some ⟨9⟩⟩
    let a : Assembly := ⟨.builtin, (∅ : Router).insert "/a" .foreign⟩
    let s : Store := .ofPairs ((∅ : Pairs).put g.key.toBytes g.stored)
    let op : Operation := .exec grantee [.foreign "/a" [granter] (.ok ()) (.done (.ok []))]
    (op.perform a (.start ⟨"c", 2, ⟨12⟩⟩ s)).1 = .error (.noGrant "/a" granter grantee) := by
  intro granter grantee g a s op
  obtain ⟨v, hv, hread⟩ :
      ∃ v, g.stored = some v ∧ Grant.decode a.registry granter grantee v = .ok g :=
    ⟨_, rfl, by decide +kernel⟩
  have hadds : GrantTable.AddsExpired a.registry ⟨10⟩ ∅ s.content := by
    intro b
    by_cases hb : b = g.key.toBytes
    · refine .inr ⟨rfl, g, v, ?_, ⟨hb, hread⟩, by decide⟩
      rw [Store.content_ofPairs, hb, Pairs.get?_put_self, hv]
    · exact .inl (Pairs.get?_put_ne _ _ hb)
  have hop : op.Blind := by
    simp [op, Blind, Message.AllBlind, Message.Blind, Action.Blind]
  have hsame := expired_counts_as_absent a (Store.reliable_ofPairs ∅) (Store.reliable_ofPairs _)
    (fun b v hget => nomatch hget) hadds (h := ⟨"c", 2, ⟨12⟩⟩) (by decide) hop
  rw [hsame.1]
  decide +kernel

end Operation

end GrantLedger
