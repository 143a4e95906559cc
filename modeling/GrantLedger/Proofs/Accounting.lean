import GrantLedger.Proofs.AddressText
import GrantLedger.Proofs.Runs

/-!
# A limited grant is used no more often than it says

A grant with `n` uses is stored at some point of a run. Up to the next grant under the same key,
each use that lasts takes one of them (`Replays.counted`): the invariant `GrantKey.Counted` is that
as many are left as `n` less the uses so far, or that the record is gone, by the last use, a
revocation or a sweep.
Uses that a failed branch took back are not in the journal, and neither counted nor consumed.

The count goes by the journal. The events that a run reports are those of its journal as long as no
handler takes events away; a handler that does so can keep a use from being told, but not from being
counted (`Chain.use_untold_where_events_are_taken`).
-/

namespace GrantLedger

theorem GrantKey.event_inj {k k' : GrantKey} {kind kind' : String} :
    k.event kind = k'.event kind' ↔ kind = kind' ∧ k = k' := by
  constructor
  · intro h
    obtain ⟨hkind, hurl, hgranter, hgrantee⟩ := Event.aboutGrant_injective h
    obtain ⟨grantee, granter, url⟩ := k
    obtain ⟨grantee', granter', url'⟩ := k'
    obtain rfl : url = url' := hurl
    obtain rfl : granter = granter' := hgranter
    obtain rfl : grantee = grantee' := hgrantee
    exact ⟨hkind, rfl⟩
  · rintro ⟨rfl, rfl⟩
    rfl

namespace Entry

/-- How often the entries use the grant of a key, going by their events. -/
def uses (k : GrantKey) (es : List Entry) : Nat :=
  (es.flatMap events).count (k.event Event.execKind)

theorem uses_cons (k : GrantKey) (e : Entry) (es : List Entry) :
    uses k (e :: es) = e.events.count (k.event Event.execKind) + uses k es := by
  rw [uses, uses, List.flatMap_cons, List.count_append]

theorem count_events_grant (k : GrantKey) (g : Grant) :
    (grant g).events.count (k.event Event.execKind) = 0 := by
  refine List.count_eq_zero.2 fun h => ?_
  have hkind := (GrantKey.event_inj.1 (List.mem_singleton.1 h)).1
  exact absurd hkind (by decide)

theorem count_events_revoke (k k' : GrantKey) :
    (revoke k').events.count (k.event Event.execKind) = 0 := by
  refine List.count_eq_zero.2 fun h => ?_
  have hkind := (GrantKey.event_inj.1 (List.mem_singleton.1 h)).1
  exact absurd hkind (by decide)

theorem count_events_use (k k' : GrantKey) (now : Timestamp) :
    (use k' now).events.count (k.event Event.execKind) = if k' = k then 1 else 0 := by
  split
  · next h =>
    rw [h]
    exact List.count_singleton_self
  · next h =>
    refine List.count_eq_zero.2 fun hmem => h ?_
    exact (GrantKey.event_inj.1 (List.mem_singleton.1 hmem)).2.symm

/-- The entries neither give nor load a grant under a key. -/
def Untouched (k : GrantKey) (es : List Entry) : Prop :=
  k.event Event.grantKind ∉ es.flatMap events ∧ ∀ gs, genesis gs ∉ es

theorem Untouched.of_cons {k : GrantKey} {e : Entry} {es : List Entry} (h : Untouched k (e :: es)) :
    Untouched k es := by
  refine ⟨fun hmem => h.1 ?_, fun gs hmem => h.2 gs (List.mem_cons_of_mem e hmem)⟩
  rw [List.flatMap_cons]
  exact List.mem_append_right _ hmem

theorem Untouched.key_ne {k : GrantKey} {g : Grant} {es : List Entry}
    (h : Untouched k (grant g :: es)) : g.key ≠ k := by
  rintro rfl
  refine h.1 ?_
  rw [List.flatMap_cons]
  exact List.mem_append_left _ (List.mem_singleton.2 rfl)

/-- The entries remove a grant with an expiration under a key otherwise than by its last use. -/
def Remove (k : GrantKey) (expiration : Option Timestamp) (es : List Entry) : Prop :=
  revoke k ∈ es ∨ ∃ now, sweep now ∈ es ∧ expiredAt expiration now = true

theorem Remove.cons {k : GrantKey} {expiration : Option Timestamp} {es : List Entry}
    (h : Remove k expiration es) (e : Entry) : Remove k expiration (e :: es) := by
  rcases h with hmem | ⟨now, hmem, hexp⟩
  · exact .inl (List.mem_cons_of_mem e hmem)
  · exact .inr ⟨now, List.mem_cons_of_mem e hmem, hexp⟩

end Entry

/-- The grant under a key with some uses and an expiration. -/
def GrantKey.limited (k : GrantKey) (n : UInt64) (expiration : Option Timestamp) : Grant :=
  ⟨k.granter, k.grantee, .method k.msgTypeUrl (some n), expiration⟩

namespace GrantKey

variable {r : Registry} {k : GrantKey} {n : UInt64} {expiration : Option Timestamp}

theorem builtin_limited : (k.limited n expiration).authorization.Builtin :=
  Authorization.builtin_method _ _

/-- A limited grant that may be stored has a use left. -/
theorem ne_zero_of_sound (h : (k.limited n expiration).Sound) : n ≠ 0 := by
  rintro rfl
  have hvalid := h.valid
  dsimp only [limited, Authorization.validate] at hvalid
  split at hvalid
  · cases hvalid
  · cases hvalid

/-- A use of a limited grant takes one use, and the last takes the grant. -/
theorem storedAfterUse_limited :
    (k.limited n expiration).storedAfterUse =
      if n = 1 then none else (k.limited (n - 1) expiration).stored := by
  rw [Grant.storedAfterUse, limited, Authorization.afterUse]
  split <;> rfl

theorem eq_limited_of_decode (hr : r.Builtin) {b : Bytes} {g : Grant}
    (hb : (k.limited n expiration).stored = some b)
    (h : Grant.decode r k.granter k.grantee b = .ok g) : g = k.limited n expiration := by
  have hread := Grant.decode_of_stored hr builtin_limited hb
  change Grant.decode r k.granter k.grantee b = _ at hread
  rw [h] at hread
  split at hread
  · cases hread
  · exact Except.ok.inj hread

end GrantKey

/-- A stored grant whose record has expired has expired. -/
theorem GrantTable.isExpired_of_isStale {r : Registry} {g : Grant} {b : Bytes} {now : Timestamp}
    (hb : g.stored = some b) (h : isStale r now b = true) : g.isExpired now = true := by
  obtain ⟨any, -, rfl⟩ := Grant.stored_eq_some_iff.1 hb
  rw [isStale, GrantRecord.decode, GrantRecord.lawful_codec.decode_encode] at h
  split at h
  · next record hread =>
    split at hread
    · cases hread
    · cases hread
      exact h
  · cases h

/-- What an entry that neither gives nor loads a grant under a key can do to its record: nothing,
use it, or remove it by a revocation or a sweep. -/
theorem Entry.Untouched.step_cases {r : Registry} {k : GrantKey} {e : Entry} {es : List Entry}
    {v w : Option Bytes} (h : Untouched k (e :: es)) (hstep : e.Step r k.toBytes v w) :
    (w = v ∧ e.events.count (k.event Event.execKind) = 0) ∨
      (∃ value g, v = some value ∧ Grant.decode r k.granter k.grantee value = .ok g ∧
        w = g.storedAfterUse ∧ e.events.count (k.event Event.execKind) = 1) ∨
      (w = none ∧ e = revoke k) ∨
      ∃ now value, w = none ∧ v = some value ∧ GrantTable.isStale r now value = true ∧
        e = sweep now := by
  cases e with
  | grant g =>
    have hne : g.key.toBytes ≠ k.toBytes := mt GrantKey.toBytes_injective h.key_ne
    exact .inl ⟨by rw [hstep.2, if_neg hne], count_events_grant k g⟩
  | revoke k' =>
    rw [Step] at hstep
    by_cases hk : k' = k
    · subst hk
      exact .inr (.inr (.inl ⟨by rw [hstep, if_pos rfl], rfl⟩))
    · have hne : k'.toBytes ≠ k.toBytes := mt GrantKey.toBytes_injective hk
      exact .inl ⟨by rw [hstep, if_neg hne], count_events_revoke k k'⟩
  | use k' now =>
    rw [Step] at hstep
    by_cases hk : k' = k
    · subst hk
      rw [if_pos rfl] at hstep
      obtain ⟨g, value, hv, hdec, -, -, hw⟩ := hstep
      exact .inr (.inl ⟨value, g, hv, hdec, hw, by rw [count_events_use, if_pos rfl]⟩)
    · have hne : k'.toBytes ≠ k.toBytes := mt GrantKey.toBytes_injective hk
      rw [if_neg hne] at hstep
      exact .inl ⟨hstep, by rw [count_events_use, if_neg hk]⟩
  | genesis gs => exact absurd List.mem_cons_self (h.2 gs)
  | sweep now =>
    rw [Step] at hstep
    cases v with
    | none => exact .inl ⟨hstep, rfl⟩
    | some value =>
      cases hstale : GrantTable.isStale r now value with
      | false => exact .inl ⟨by rw [hstep, Option.filter_some, hstale]; rfl, rfl⟩
      | true =>
        exact .inr (.inr (.inr ⟨now, value, by rw [hstep, Option.filter_some, hstale]; rfl, rfl,
          hstale, rfl⟩))

/-- A record that is absent stays so, and its grant cannot be used. -/
theorem Replays.of_none {r : Registry} {k : GrantKey} {es : List Entry} {w : Option Bytes}
    (h : Replays r k.toBytes es none w) (huntouched : Entry.Untouched k es) :
    w = none ∧ Entry.uses k es = 0 := by
  induction es with
  | nil =>
    cases h
    exact ⟨rfl, rfl⟩
  | cons e es ih =>
    cases h with
    | @cons _ _ _ v _ hstep hlater =>
      rw [Entry.uses_cons]
      rcases huntouched.step_cases hstep with
        ⟨rfl, hcount⟩ | ⟨value, g, hvalue, -⟩ | ⟨rfl, rfl⟩ | ⟨now, value, -, hvalue, -⟩
      · rw [hcount, Nat.zero_add]
        exact ih hlater huntouched.of_cons
      · cases hvalue
      · rw [Entry.count_events_revoke, Nat.zero_add]
        exact ih hlater huntouched.of_cons
      · cases hvalue

/-- The record of a grant with `n` uses after entries: it has as many uses left as the entries did
not take and its expiration, or it has been removed; after the last use it is absent. -/
structure GrantKey.Counted (k : GrantKey) (n : UInt64) (expiration : Option Timestamp)
    (es : List Entry) (v : Option Bytes) : Prop where
  /-- The grant is used at most `n` times. -/
  uses_le : Entry.uses k es ≤ n.toNat
  /-- After the last use the record is absent. -/
  spent : Entry.uses k es = n.toNat → v = none
  /-- Before that it has the other uses left, unless it was revoked or swept past its expiration. -/
  left : Entry.uses k es < n.toNat →
    v = (k.limited (UInt64.ofNat (n.toNat - Entry.uses k es)) expiration).stored ∨
      (v = none ∧ Entry.Remove k expiration es)

namespace GrantKey.Counted

variable {k : GrantKey} {n : UInt64} {expiration : Option Timestamp} {e : Entry} {es : List Entry}
  {v : Option Bytes}

theorem nil (hn : n ≠ 0) : k.Counted n expiration [] (k.limited n expiration).stored where
  uses_le := Nat.zero_le _
  spent hall := by
    have hzero : n.toNat = (0 : UInt64).toNat := hall.symm
    exact absurd (UInt64.toNat_inj.1 hzero) hn
  left _ := by
    rw [show Entry.uses k [] = 0 from rfl, Nat.sub_zero, UInt64.ofNat_toNat]
    exact .inl rfl

/-- Once all uses are taken, the record is absent and stays so. -/
theorem of_spent (huses : Entry.uses k es = 0) : k.Counted 0 expiration es none where
  uses_le := Nat.le_of_eq huses
  spent _ := rfl
  left hlt := absurd hlt (Nat.not_lt_zero _)

theorem of_removed (huses : Entry.uses k es = 0) (hremove : Entry.Remove k expiration es) :
    k.Counted n expiration es none where
  uses_le := huses ▸ Nat.zero_le _
  spent _ := rfl
  left _ := .inr ⟨rfl, hremove⟩

/-- An entry that does not use the grant does not count. -/
theorem cons_idle (h : k.Counted n expiration es v)
    (he : e.events.count (k.event Event.execKind) = 0) : k.Counted n expiration (e :: es) v := by
  have huses : Entry.uses k (e :: es) = Entry.uses k es := by
    rw [Entry.uses_cons, he, Nat.zero_add]
  constructor
  · rw [huses]
    exact h.uses_le
  · rw [huses]
    exact h.spent
  · intro hlt
    rw [huses] at hlt ⊢
    rcases h.left hlt with hstored | ⟨hnone, hremove⟩
    · exact .inl hstored
    · exact .inr ⟨hnone, hremove.cons e⟩

/-- After a use, the grant counts as one with one use less. -/
theorem cons_use (h : k.Counted (n - 1) expiration es v) (hn : n ≠ 0)
    (he : e.events.count (k.event Event.execKind) = 1) : k.Counted n expiration (e :: es) v := by
  have huses : Entry.uses k (e :: es) = 1 + Entry.uses k es := by
    rw [Entry.uses_cons, he]
  have hpos : 0 < n.toNat := Nat.pos_of_ne_zero fun hzero => hn (UInt64.toNat_inj.1 hzero)
  have hsub : (n - 1).toNat = n.toNat - 1 :=
    UInt64.toNat_sub_of_le n 1 (UInt64.le_iff_toNat_le.2 hpos)
  have hle := h.uses_le
  rw [hsub] at hle
  constructor
  · omega
  · intro hall
    exact h.spent (by omega)
  · intro hlt
    rcases h.left (by omega) with hstored | ⟨hnone, hremove⟩
    · rw [hsub, Nat.sub_sub, ← huses] at hstored
      exact .inl hstored
    · exact .inr ⟨hnone, hremove.cons e⟩

end GrantKey.Counted

/-- From a grant with `n` uses on, the uses of the entries are counted, up to the next grant under
its key. -/
theorem Replays.counted {r : Registry} (hr : r.Builtin) {k : GrantKey} {es : List Entry}
    {n : UInt64} {expiration : Option Timestamp} {w : Option Bytes} (hn : n ≠ 0)
    (h : Replays r k.toBytes es (k.limited n expiration).stored w)
    (huntouched : Entry.Untouched k es) : k.Counted n expiration es w := by
  -- The induction goes over all `n`: after a use it continues with one use less.
  induction es generalizing n with
  | nil =>
    cases h
    exact .nil hn
  | cons e es ih =>
    cases h with
    | @cons _ _ _ v _ hstep hlater =>
      rcases huntouched.step_cases hstep with
        ⟨rfl, hcount⟩ | ⟨value, g, hvalue, hdec, rfl, hcount⟩ | ⟨rfl, rfl⟩ |
        ⟨now, value, rfl, hvalue, hstale, rfl⟩
      · exact (ih hn hlater huntouched.of_cons).cons_idle hcount
      · -- A use takes one use, or the record if it was the last.
        obtain rfl := GrantKey.eq_limited_of_decode hr hvalue hdec
        rw [GrantKey.storedAfterUse_limited] at hlater
        refine .cons_use ?_ hn hcount
        split at hlater
        · next hone =>
          obtain ⟨rfl, hzero⟩ := of_none hlater huntouched.of_cons
          rw [hone]
          exact .of_spent hzero
        · next hone =>
          have hmore : n - 1 ≠ 0 := by
            intro hzero
            refine hone ?_
            rw [← UInt64.sub_add_cancel n 1, hzero, UInt64.zero_add]
          exact ih hmore hlater huntouched.of_cons
      · -- Once the record is removed, no use can follow.
        obtain ⟨rfl, hzero⟩ := of_none hlater huntouched.of_cons
        refine .of_removed ?_ (.inl List.mem_cons_self)
        rw [Entry.uses_cons, Entry.count_events_revoke, hzero]
      · obtain ⟨rfl, hzero⟩ := of_none hlater huntouched.of_cons
        have hexp : expiredAt expiration now = true := GrantTable.isExpired_of_isStale hvalue hstale
        refine .of_removed ?_ (.inr ⟨now, List.mem_cons_self, hexp⟩)
        rw [Entry.uses_cons, hzero]
        rfl

/-! ## Runs -/

namespace Entry

/-- The entry stores a grant: it gives it, or loads it as the last one under its key. -/
def Stores (g : Grant) : Entry → Prop
  | grant g' => g' = g
  | genesis gs => (gs.filter fun g' => g'.key = g.key).getLast? = some g
  | _ => False

theorem foldl_stored (k : GrantKey) (gs : List Grant) (v : Option Bytes) :
    gs.foldl (fun v g => if g.key.toBytes = k.toBytes then g.stored else v) v =
      (gs.filter fun g => g.key = k).getLast?.elim v Grant.stored := by
  induction gs generalizing v with
  | nil => rfl
  | cons g gs ih =>
    rw [List.foldl_cons, ih, List.filter_cons]
    simp only [GrantKey.toBytes_inj]
    by_cases hk : g.key = k
    · simp only [hk, if_true, decide_true, List.getLast?_cons]
      cases (gs.filter fun g => g.key = k).getLast? <;> rfl
    · simp only [hk, if_false, decide_false, Bool.false_eq_true]

theorem Step.of_stores {r : Registry} {e : Entry} {g : Grant} {v w : Option Bytes}
    (hstores : e.Stores g) (h : e.Step r g.key.toBytes v w) : g.Sound ∧ w = g.stored := by
  cases e with
  | grant g' =>
    obtain rfl : g' = g := hstores
    exact ⟨h.1, by rw [h.2, if_pos rfl]⟩
  | genesis gs =>
    have hlast : (gs.filter fun g' => g'.key = g.key).getLast? = some g := hstores
    refine ⟨h.1 g (List.mem_filter.1 (List.mem_of_getLast? hlast)).1, ?_⟩
    rw [h.2, foldl_stored, hlast]
    rfl
  | revoke k => exact hstores.elim
  | use k now => exact hstores.elim
  | sweep now => exact hstores.elim

end Entry

namespace Chain

/-- In every run, a grant with `n` uses that an entry of the journal stores is counted down by the
uses up to the next grant under its key. The events about grants are those of the journal where the
handlers take no events away, and otherwise some of them. -/
theorem limited_grant_counted {c : Chain} (hr : c.assembly.registry.Builtin) {calls : List Call}
    (hcalls : ∀ call ∈ calls, call.Obeys .discreet) :
    ((∀ call ∈ calls, call.Obeys .unobtrusive) →
      reports (c.run calls).1 = (c.journal calls).flatMap Entry.events) ∧
    (reports (c.run calls).1).Sublist ((c.journal calls).flatMap Entry.events) ∧
    ∀ (k : GrantKey) (n : UInt64) (expiration : Option Timestamp) (before : List Entry) (e : Entry)
      (mid rest : List Entry), c.journal calls = before ++ e :: (mid ++ rest) →
      e.Stores (k.limited n expiration) → k.event Event.grantKind ∉ mid.flatMap Entry.events →
      ∃ v, k.Counted n expiration mid v ∧
        Replays c.assembly.registry k.toBytes rest v ((c.run calls).2.record k.toBytes) ∧
        (rest = [] → (c.run calls).2.record k.toBytes = v) := by
  have hreports := reports_run hr Conduct.outsideGrants_discreet Conduct.reticent_discreet hcalls
  refine ⟨fun hkept => ?_, hreports.1, ?_⟩
  · exact (reports_run hr Conduct.outsideGrants_unobtrusive Conduct.reticent_unobtrusive hkept).2 id
  intro k n expiration before e mid rest hjournal hstores hgrant
  have hrun := replays_run hr Conduct.outsideGrants_discreet hcalls k.startsWith_toBytes
  rw [hjournal] at hrun
  obtain ⟨u, -, hrun⟩ := hrun.exists_of_append
  cases hrun with
  | @cons _ _ _ u' _ hstep hlater =>
    obtain ⟨v, hmid, hrest⟩ := hlater.exists_of_append
    obtain ⟨hsound, rfl⟩ := Entry.Step.of_stores hstores hstep
    have huntouched : Entry.Untouched k mid :=
      ⟨hgrant, fun gs hmem => genesis_notMem_after hjournal gs (List.mem_append_left rest hmem)⟩
    refine ⟨v, hmid.counted hr (GrantKey.ne_zero_of_sound hsound) huntouched, hrest, ?_⟩
    rintro rfl
    cases hrest
    rfl

/-- A batch takes one of the two uses that a genesis grants, and its event tells so. -/
theorem limited_grant_counted_once :
    let k : GrantKey := ⟨⟨.replicate 20 2, rfl⟩, ⟨.replicate 20 1, rfl⟩, "/a"⟩
    let router := ((∅ : Router).insert "/a" .foreign).insert Message.execTypeUrl .authz
    let payload := AuthorizationKind.methodCodec.encode ("/a", some 2)
    let calls : List Call :=
      [.init ⟨"c", 1, ⟨5⟩⟩
          [⟨k.granter, k.grantee, ⟨AuthorizationKind.method.typeUrl, payload⟩, none⟩],
        .deliver [.exec k.grantee.toText [.foreign "/a" [k.granter] (.ok ()) (.done (.ok []))]]]
    let run := (Chain.opened ⟨.builtin, router⟩ true ∅).run calls
    reports run.1 = [k.event Event.execKind] ∧
      k.Counted 2 none [.use k ⟨5⟩] (run.2.record k.toBytes) := by
  intro k router payload calls run
  have hcalls : ∀ call ∈ calls, call.Obeys .discreet := by
    simp [calls, Call.Obeys, Conduct.Allows, Conduct.AllowsAll, Conduct.AllowsAction]
  have hkept : ∀ call ∈ calls, call.Obeys .unobtrusive := by
    simp [calls, Call.Obeys, Conduct.Allows, Conduct.AllowsAll, Conduct.AllowsAction]
  have hjournal : (Chain.opened ⟨.builtin, router⟩ true ∅).journal calls =
      [] ++ .genesis [k.limited 2 none] :: ([.use k ⟨5⟩] ++ []) := by decide +kernel
  have hgrant : k.event Event.grantKind ∉ [Entry.use k ⟨5⟩].flatMap Entry.events := by
    decide +kernel
  obtain ⟨hreports, -, hcounts⟩ :=
    limited_grant_counted (c := .opened ⟨.builtin, router⟩ true ∅) rfl hcalls
  obtain ⟨v, hcounted, -, hlast⟩ :=
    hcounts k 2 none [] _ [.use k ⟨5⟩] [] hjournal rfl hgrant
  refine ⟨?_, ?_⟩
  · rw [hreports hkept, hjournal]
    rfl
  · rw [hlast rfl]
    exact hcounted

/-- Where a handler takes the events away they do not tell how often a grant has been used: none is
left of a transaction that succeeds, and yet one of the two uses is gone. -/
theorem use_untold_where_events_are_taken :
    let k : GrantKey := ⟨⟨.replicate 20 2, rfl⟩, ⟨.replicate 20 1, rfl⟩, "/a"⟩
    let router := ((∅ : Router).insert "/a" .foreign).insert Message.execTypeUrl .authz
    let payload := AuthorizationKind.methodCodec.encode ("/a", some 2)
    let c := ((Chain.opened ⟨.builtin, router⟩ true ∅).initChain ⟨"c", 1, ⟨5⟩⟩
      [⟨k.granter, k.grantee, ⟨AuthorizationKind.method.typeUrl, payload⟩, none⟩]).2
    let tx : List Message :=
      [.exec k.grantee.toText [.foreign "/a" [k.granter] (.ok ()) (.done (.ok []))],
        .foreign "/a" [k.granter] (.ok ()) (.takeEvents fun _ => .done (.ok []))]
    (∀ m ∈ tx, Conduct.discreet.Allows m) ∧ c.record k.toBytes = (k.limited 2 none).stored ∧
      (c.deliverTx tx).1.code = 0 ∧ (c.deliverTx tx).1.events = [] ∧
      (c.deliverTx tx).2.record k.toBytes = (k.limited 1 none).stored := by
  intro k router payload c tx
  refine ⟨?_, ?_, ?_, ?_, ?_⟩
  · simp [tx, Conduct.Allows, Conduct.AllowsAll, Conduct.AllowsAction, Conduct.discreet]
  all_goals decide +kernel

end Chain

end GrantLedger
