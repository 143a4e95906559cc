import GrantLedger.Proofs.Execution
import GrantLedger.Proofs.GrantRecord

/-!
# What the keeper does

Over a store without faults, giving, revoking, looking up and using a grant each read and write one
record, the one under the key of the grant. Each is described here by one equation; later proofs use
these and never open the operations.
-/

namespace GrantLedger

namespace Authorization

/-- The uses that are left, if they are limited. -/
def usesLeft : Authorization → Option UInt64
  | method _ uses => uses
  | _ => none

/-- A built-in authorization lets a message of type `url` run. -/
def Admits (a : Authorization) (url : String) : Prop :=
  match a with
  | generic _ => True
  | method name uses => name = url ∧ uses ≠ some 0
  | scripted _ => False

/-- What a built-in authorization is after a use, unless the use was the last. -/
def afterUse : Authorization → Option Authorization
  | method name (some n) => if n = 1 then none else some (method name (some (n - 1)))
  | a => some a

theorem afterUse_of_usesLeft {a : Authorization} (h : a.usesLeft = none) : a.afterUse = some a := by
  cases a with
  | method name uses =>
    obtain rfl : uses = none := h
    rfl
  | _ => rfl

/-- A built-in authorization always answers, and lets the messages run that it admits. -/
theorem Builtin.accept_eq {a : Authorization} (ha : a.Builtin) (url : String) :
    (a.Admits url ∧ ∃ answer, a.accept url = .ok answer ∧ answer.accept = true) ∨
      (¬ a.Admits url ∧ ∃ answer, a.accept url = .ok answer ∧ answer.accept = false) := by
  cases a with
  | generic _ => exact .inl ⟨trivial, _, rfl, rfl⟩
  | method name uses =>
    by_cases hname : url = name
    · subst hname
      cases uses with
      | none => exact .inl ⟨⟨rfl, by simp⟩, .accepted, by simp [accept], rfl⟩
      | some n =>
        by_cases hzero : n = 0
        · subst hzero
          exact .inr ⟨fun h => h.2 rfl, .rejected, by simp [accept], rfl⟩
        · refine .inl ⟨⟨rfl, by simpa using hzero⟩, ?_⟩
          by_cases hone : n = 1
          · exact ⟨⟨true, true, none⟩, by simp [accept, hone], rfl⟩
          · exact ⟨⟨true, false, _⟩, by simp [accept, hzero, hone]; rfl, rfl⟩
    · exact .inr ⟨fun h => hname h.1.symm, .rejected, by simp [accept, hname], rfl⟩
  | scripted s => exact absurd ha (not_builtin_scripted s)

end Authorization

namespace Grant

/-- What is stored of a grant after a use. -/
def storedAfterUse (g : Grant) : Option Bytes :=
  g.authorization.afterUse.bind fun a => { g with authorization := a }.stored

end Grant

namespace GrantTable

/-- The grant that some pairs hold under a key. -/
def recordAt (r : Registry) (m : Pairs) (k : GrantKey) : Except Error (Option Grant) :=
  match m.get? k.toBytes with
  | none => .ok none
  | some b => (Grant.decode r k.granter k.grantee b).map some

variable {r : Registry} {m : Pairs} {k : GrantKey} {g : Grant} {c : Context}

theorem recordAt_eq_some_iff :
    recordAt r m k = .ok (some g) ↔
      ∃ b, m.get? k.toBytes = some b ∧ Grant.decode r k.granter k.grantee b = .ok g := by
  rw [recordAt]
  cases m.get? k.toBytes with
  | none => simp
  | some b => cases hd : Grant.decode r k.granter k.grantee b <;> simp [Except.map, hd]

theorem recordAt_eq_none_iff : recordAt r m k = .ok none ↔ m.get? k.toBytes = none := by
  rw [recordAt]
  cases m.get? k.toBytes with
  | none => simp
  | some b => cases hd : Grant.decode r k.granter k.grantee b <;> simp [Except.map, hd]

theorem recordAt_congr {m' : Pairs} (h : m'.get? k.toBytes = m.get? k.toBytes) :
    recordAt r m' k = recordAt r m k := by
  rw [recordAt, recordAt, h]

theorem recordAt_put_ne {k' : GrantKey} (h : k' ≠ k) (v : Option Bytes) :
    recordAt r (m.put k.toBytes v) k' = recordAt r m k' :=
  recordAt_congr (Pairs.get?_put_ne m v (mt GrantKey.toBytes_injective h))

theorem recordAt_put_none : recordAt r (m.put k.toBytes none) k = .ok none := by
  rw [recordAt_eq_none_iff, Pairs.get?_put_self]

theorem recordAt_put_stored (hr : r.Builtin) {b : Bytes} (hgranter : g.granter = k.granter)
    (hgrantee : g.grantee = k.grantee) (hg : g.authorization.Builtin) (h : g.stored = some b)
    (hlen : b.length ≤ r.maxValueBytes.toNat) :
    recordAt r (m.put k.toBytes (some b)) k = .ok (some g) := by
  refine recordAt_eq_some_iff.2 ⟨b, Pairs.get?_put_self _ _ _, ?_⟩
  rw [← hgranter, ← hgrantee, Grant.decode_of_stored hr hg h, if_neg (Nat.not_lt.2 hlen)]

section

variable (hc : c.Reliable)

include hc

theorem save_eq {b : Bytes} (h : g.stored = some b) :
    save g c = (.ok (), c.put g.key.toBytes (some b)) := by
  obtain ⟨any, hpack, rfl⟩ := Grant.stored_eq_some_iff.1 h
  rw [save, Grant.toRecord_of_pack hpack]
  exact Exec.write_eq hc _ _

theorem get?_eq : get? r k c = (recordAt r c.store.content k, c) := by
  rw [get?, Exec.bind_ok (Exec.get_eq hc k.toBytes), recordAt]
  cases c.store.content.get? k.toBytes with
  | none => rfl
  | some b =>
    cases hd : Grant.decode r k.granter k.grantee b <;> simp [Exec.bind_apply, hd, Except.map]

theorem getOrPrune_eq (now : Timestamp) :
    getOrPrune r k now c =
      match recordAt r c.store.content k with
      | .error e => (.error e, c)
      | .ok none => (.ok none, c)
      | .ok (some g) =>
        if g.isExpired now then (.ok none, c.put k.toBytes none) else (.ok (some g), c) := by
  rw [getOrPrune]
  cases hrec : recordAt r c.store.content k with
  | error e => exact Exec.bind_error (by rw [get?_eq hc, hrec])
  | ok found =>
    rw [Exec.bind_ok (by rw [get?_eq hc, hrec])]
    cases found with
    | none => rfl
    | some g =>
      dsimp only
      split
      · exact Exec.bind_ok (Exec.write_eq hc k.toBytes none)
      · rfl

theorem delete_eq :
    delete k c =
      if c.store.content.contains k.toBytes then (.ok (), c.put k.toBytes none)
      else (.error (.grantNotFound k.msgTypeUrl), c) := by
  rw [delete, Exec.bind_ok (Exec.has_eq hc k.toBytes)]
  split
  · exact Exec.write_eq hc _ _
  · rfl

theorem delete_of_get? {b : Bytes} (h : c.store.content.get? k.toBytes = some b) :
    delete k c = (.ok (), c.put k.toBytes none) := by
  have hcontains : c.store.content.contains k.toBytes = true := by
    rw [SortedMap.contains, h]
    rfl
  rw [delete_eq hc, if_pos hcontains]

end

end GrantTable

namespace Keeper

/-- Why a grant cannot be given at a time, if it cannot. -/
def grantFault? (r : Registry) (granter grantee : Address) (authorization : Authorization)
    (expiration : Option Timestamp) (now : Timestamp) : Option Error :=
  if granter = grantee then some .selfGrant
  else
    match authorization.validate with
    | .error e => some e
    | .ok () =>
      if r.isRegistered authorization.kind.typeUrl then
        match expiration with
        | none => none
        | some e => if e ≤ now then some (.expirationPassed e now) else none
      else some (.kindNotRegistered authorization.kind.typeUrl)

variable {r : Registry} (hr : r.Builtin) {c : Context} (hc : c.Reliable)

include hr in
theorem builtin_of_grantFault? {granter grantee : Address} {authorization : Authorization}
    {expiration : Option Timestamp} {now : Timestamp}
    (h : grantFault? r granter grantee authorization expiration now = none) :
    authorization.Builtin := by
  unfold grantFault? at h
  split at h
  · cases h
  · split at h
    · cases h
    · split at h
      · next hreg => exact (hr.isRegistered_iff _).1 hreg
      · cases h

include hr hc in
/-- Giving a grant fails without a trace or binds its record. -/
theorem grant_eq (granter grantee : Address) (authorization : Authorization)
    (expiration : Option Timestamp) :
    grant r granter grantee authorization expiration c =
      match grantFault? r granter grantee authorization expiration c.header.time with
      | some e => (.error e, c)
      | none =>
        (.ok (), (c.put (Grant.key ⟨granter, grantee, authorization, expiration⟩).toBytes
          (Grant.stored ⟨granter, grantee, authorization, expiration⟩)).emit
            (.aboutGrant Event.grantKind authorization.msgTypeUrl granter grantee)) := by
  have hsave (ha : authorization.Builtin) :
      (GrantTable.save ⟨granter, grantee, authorization, expiration⟩ >>= fun _ =>
        Exec.emit (.aboutGrant Event.grantKind authorization.msgTypeUrl granter grantee)) c =
      (.ok (), (c.put (Grant.key ⟨granter, grantee, authorization, expiration⟩).toBytes
        (Grant.stored ⟨granter, grantee, authorization, expiration⟩)).emit
          (.aboutGrant Event.grantKind authorization.msgTypeUrl granter grantee)) := by
    obtain ⟨b, hb⟩ := Grant.exists_stored (g := ⟨granter, grantee, authorization, expiration⟩) ha
    rw [Exec.bind_ok (GrantTable.save_eq hc hb), hb]
    rfl
  unfold grant grantFault?
  dsimp only
  by_cases hself : granter = grantee
  · rw [if_pos hself, if_pos hself]
    rfl
  · rw [if_neg hself, if_neg hself]
    cases hvalid : authorization.validate with
    | error e => rfl
    | ok u =>
      rw [Exec.bind_ok (Exec.ofExcept_apply _ c)]
      by_cases hreg : r.isRegistered authorization.kind.typeUrl = true
      · have hsave := hsave ((hr.isRegistered_iff _).1 hreg)
        simp only [hreg, Bool.not_true, Bool.false_eq_true, if_false, if_true]
        rw [Exec.bind_ok (Exec.blockTime_eq c)]
        cases expiration with
        | none => exact hsave
        | some e =>
          dsimp only
          split
          · rfl
          · exact hsave
      · simp only [hreg, Bool.not_false, if_true]
        rfl

include hc in
/-- Revoking a grant removes its record, which has to exist. -/
theorem revoke_eq (granter grantee : Address) (url : String) :
    revoke granter grantee url c =
      if c.store.content.contains (GrantKey.toBytes ⟨grantee, granter, url⟩) then
        (.ok (), (c.put (GrantKey.toBytes ⟨grantee, granter, url⟩) none).emit
          (.aboutGrant Event.revokeKind url granter grantee))
      else (.error (.grantNotFound url), c) := by
  have hdelete := GrantTable.delete_eq (k := ⟨grantee, granter, url⟩) hc
  rw [revoke]
  split
  · next h =>
    rw [if_pos h] at hdelete
    exact Exec.bind_ok hdelete
  · next h =>
    rw [if_neg h] at hdelete
    exact Exec.bind_error hdelete

include hr hc in
theorem grant_of_error {granter grantee : Address} {authorization : Authorization}
    {expiration : Option Timestamp} {e : Error} {c' : Context}
    (h : grant r granter grantee authorization expiration c = (.error e, c')) : c' = c := by
  rw [grant_eq hr hc] at h
  split at h
  · cases h
    rfl
  · cases h

include hc in
theorem revoke_of_error {granter grantee : Address} {url : String} {e : Error} {c' : Context}
    (h : revoke granter grantee url c = (.error e, c')) : c' = c := by
  rw [revoke_eq hc] at h
  split at h
  · cases h
  · cases h
    rfl

include hc in
/-- Looking a grant up removes its record if it has expired. -/
theorem lookup_eq (k : GrantKey) :
    lookup r k c =
      match GrantTable.recordAt r c.store.content k with
      | .error e => (.error e, c)
      | .ok none => (.ok none, c)
      | .ok (some g) =>
        if g.isExpired c.header.time then (.ok none, c.put k.toBytes none)
        else (.ok (some g), c) := by
  rw [lookup, Exec.bind_ok (Exec.blockTime_eq c)]
  exact GrantTable.getOrPrune_eq hc c.header.time

end Keeper

/-- The context after the use of a grant: its record is written back if its uses are limited. -/
def Context.use (c : Context) (k : GrantKey) (g : Grant) : Context :=
  match g.authorization.usesLeft with
  | none => c
  | some _ => c.put k.toBytes g.storedAfterUse

namespace Context

theorem continues_use (c : Context) (k : GrantKey) (g : Grant) : c.Continues (c.use k g) := by
  rw [use]
  split
  · exact .refl c
  · exact .put c _ _

@[simp] theorem header_use (c : Context) (k : GrantKey) (g : Grant) :
    (c.use k g).header = c.header := (c.continues_use k g).header_eq

@[simp] theorem events_use (c : Context) (k : GrantKey) (g : Grant) :
    (c.use k g).events = c.events := by
  rw [use]
  split <;> rfl

/-- A use leaves the record after the use under the key and everything else as it was. -/
theorem get?_content_use {r : Registry} (hr : r.Builtin) {c : Context} {k : GrantKey} {g : Grant}
    (hrec : GrantTable.recordAt r c.store.content k = .ok (some g)) (b : Bytes) :
    (c.use k g).store.content.get? b =
      if b = k.toBytes then g.storedAfterUse else c.store.content.get? b := by
  rw [use]
  split
  · next hunlimited =>
    obtain ⟨b', hget, hdec⟩ := GrantTable.recordAt_eq_some_iff.1 hrec
    obtain ⟨-, -, -, hstored, -⟩ := Grant.stored_of_decode hr hdec
    have hafter : g.storedAfterUse = some b' := by
      rw [Grant.storedAfterUse, Authorization.afterUse_of_usesLeft hunlimited]
      exact hstored
    split
    · next hb => rw [hb, hget, hafter]
    · rfl
  · rw [content_put, Pairs.get?_put]

end Context

namespace Keeper

variable {r : Registry} (hr : r.Builtin) {c : Context} (hc : c.Reliable)

include hc in
theorem lookup_eq_some_iff {k : GrantKey} {g : Grant} {d : Context} :
    lookup r k c = (.ok (some g), d) ↔
      GrantTable.recordAt r c.store.content k = .ok (some g) ∧
        g.isExpired c.header.time = false ∧ d = c := by
  rw [lookup_eq hc]
  cases GrantTable.recordAt r c.store.content k with
  | error e => exact ⟨fun h => (by cases h), fun h => (by cases h.1)⟩
  | ok found =>
    cases found with
    | none => exact ⟨fun h => (by cases h), fun h => (by cases h.1)⟩
    | some g' =>
      dsimp only
      constructor
      · intro h
        split at h
        · cases h
        · next hexp =>
          cases h
          exact ⟨rfl, Bool.eq_false_iff.2 hexp, rfl⟩
      · rintro ⟨hrec, hexp, rfl⟩
        cases hrec
        rw [if_neg (by rw [hexp]; exact Bool.false_ne_true)]

include hc in
/-- Writing back the answer of an authorization that admits a message is a use of its grant. -/
theorem settle_eq {k : GrantKey} {g : Grant} {b : Bytes} {answer : Acceptance}
    (hget : c.store.content.get? k.toBytes = some b) (hgranter : g.granter = k.granter)
    (hgrantee : g.grantee = k.grantee) (hadmits : g.authorization.Admits k.msgTypeUrl)
    (haccept : g.authorization.accept k.msgTypeUrl = .ok answer) :
    settle k g answer c = (.ok (), c.use k g) := by
  obtain ⟨granter, grantee, authorization, expiration⟩ := g
  obtain rfl : granter = k.granter := hgranter
  obtain rfl : grantee = k.grantee := hgrantee
  cases authorization with
  | generic url =>
    cases haccept
    rfl
  | method name uses =>
    obtain ⟨hname, huses⟩ := hadmits
    subst hname
    dsimp only [Authorization.accept] at haccept
    rw [if_neg (not_not_intro rfl)] at haccept
    cases uses with
    | none =>
      cases haccept
      rfl
    | some n =>
      -- The last use deletes the record, any other writes it back with one use less.
      have hzero : n ≠ 0 := fun h => huses (congrArg some h)
      dsimp only at haccept
      rw [if_neg hzero] at haccept
      by_cases hone : n = 1
      · subst hone
        cases haccept
        exact GrantTable.delete_of_get? hc hget
      · rw [if_neg hone] at haccept
        cases haccept
        obtain ⟨b', hb'⟩ := Grant.exists_stored
          (g := ⟨k.granter, k.grantee, .method k.msgTypeUrl (some (n - 1)), expiration⟩)
          (Authorization.builtin_method _ _)
        have huse : Grant.storedAfterUse
            ⟨k.granter, k.grantee, .method k.msgTypeUrl (some n), expiration⟩ = some b' := by
          simpa [Grant.storedAfterUse, Authorization.afterUse, hone] using hb'
        exact (GrantTable.save_eq hc hb').trans (by rw [Context.use, huse]; rfl)
  | scripted s => exact hadmits.elim

include hr hc in
/-- A delegated message passes exactly if the key of its type holds a readable grant that has not
expired and admits it; passing is a use of that grant. -/
theorem authorize_eq_ok_iff {k : GrantKey} {c' : Context} :
    authorize r k.grantee k.granter k.msgTypeUrl c = (.ok (), c') ↔
      ∃ g, GrantTable.recordAt r c.store.content k = .ok (some g) ∧
        g.isExpired c.header.time = false ∧ g.authorization.Admits k.msgTypeUrl ∧
        c' = (c.use k g).emit (.aboutGrant Event.execKind k.msgTypeUrl k.granter k.grantee) := by
  rw [authorize, Exec.bind_eq_ok_iff]
  constructor
  · rintro ⟨found, d, hlookup, h⟩
    cases found with
    | none => cases h
    | some g =>
      obtain ⟨hrec, hexp, rfl⟩ := (lookup_eq_some_iff hc).1 hlookup
      obtain ⟨b, hget, hdec⟩ := GrantTable.recordAt_eq_some_iff.1 hrec
      obtain ⟨hgranter, hgrantee, hbuiltin, -⟩ := Grant.stored_of_decode hr hdec
      obtain ⟨answer, hacc, h⟩ := Exec.ofExcept_bind_eq_ok_iff.1 h
      split at h
      · cases h
      · next hanswer =>
        rcases hbuiltin.accept_eq k.msgTypeUrl with ⟨hadmits, -⟩ | ⟨-, answer', hacc', hfalse⟩
        · have hsettle := settle_eq hc hget hgranter hgrantee hadmits hacc
          have hafter := (Exec.bind_ok hsettle).symm.trans h
          exact ⟨g, hrec, hexp, hadmits, (Prod.mk.inj hafter).2.symm⟩
        · obtain rfl : answer = answer' := Except.ok.inj (hacc.symm.trans hacc')
          exact absurd (by rw [hfalse]; rfl) hanswer
  · rintro ⟨g, hrec, hexp, hadmits, rfl⟩
    obtain ⟨b, hget, hdec⟩ := GrantTable.recordAt_eq_some_iff.1 hrec
    obtain ⟨hgranter, hgrantee, hbuiltin, -⟩ := Grant.stored_of_decode hr hdec
    rcases hbuiltin.accept_eq k.msgTypeUrl with ⟨-, answer, hacc, htrue⟩ | ⟨hnot, -⟩
    · refine ⟨some g, c, (lookup_eq_some_iff hc).2 ⟨hrec, hexp, rfl⟩, ?_⟩
      refine Exec.ofExcept_bind_eq_ok_iff.2 ⟨answer, hacc, ?_⟩
      rw [if_neg (by rw [htrue]; exact Bool.false_ne_true)]
      exact Exec.bind_ok (settle_eq hc hget hgranter hgrantee hadmits hacc)
    · exact absurd hadmits hnot

end Keeper

end GrantLedger
