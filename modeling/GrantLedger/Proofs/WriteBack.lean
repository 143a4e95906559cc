import GrantLedger.Proofs.Delegation
import GrantLedger.Proofs.Listing

/-!
# Where an answer is written back

An authorization that accepts a message also answers what becomes of its grant. What is written back
is meant for the record that was looked up (`Acceptance.KeepsTo`). A spent grant is indeed removed
under that key, but an update is stored under a key of its own, made from the authorization that is
stored (`Acceptance.writeBack`). The two are one key as long as an update governs the same messages
as before, which the built-in authorizations see to. Otherwise the used grant stays as it was, and
another one appears or is replaced (`Assembly.permit_writes_back`).
-/

namespace GrantLedger

open GrantTable (recordAt WellFormed)

/-- Under two keys with the same accounts there is never the same record, since it says what messages
it is for. -/
theorem GrantTable.WellFormed.key_unique {r : Registry} {m : Pairs} (hm : WellFormed r m)
    {k k' : GrantKey} {b : Bytes} (hk : m.get? k.toBytes = some b)
    (hk' : m.get? k'.toBytes = some b) (hgrantee : k.grantee = k'.grantee)
    (hgranter : k.granter = k'.granter) : k = k' := by
  obtain ⟨g, hg⟩ := hm k.toBytes b hk k.startsWith_toBytes
  obtain ⟨g', hg'⟩ := hm k'.toBytes b hk' k'.startsWith_toBytes
  obtain rfl : k = g.key := GrantKey.toBytes_injective hg.key_eq
  obtain rfl : k' = g'.key := GrantKey.toBytes_injective hg'.key_eq
  have hreads := hg.reads
  have hsame : g.granter = g'.granter := hgranter
  have hsame' : g.grantee = g'.grantee := hgrantee
  rw [hsame, hsame', hg'.reads] at hreads
  rw [Except.ok.inj hreads]

namespace Acceptance

variable (answer : Acceptance) (k : GrantKey) (g : Grant) (m : Pairs)

/-- The pairs after the answer for a message under `k` by the grant `g` has been written back. -/
def writeBack : Pairs :=
  if answer.delete then m.put k.toBytes none
  else
    match answer.updated with
    | some updated =>
      let next : Grant := { g with authorization := updated }
      m.put next.key.toBytes next.stored
    | none => m

/-- An update governs the messages that the grant was used for. -/
def SameType (url : String) : Prop :=
  answer.delete = true ∨ ∀ updated, answer.updated = some updated → updated.msgTypeUrl = url

/-- Only the record under `k` is touched: it is gone if the answer was to delete it, holds the
updated authorization up to the old expiration if there is one, and is as it was otherwise. -/
structure KeepsTo (m' : Pairs) : Prop where
  elsewhere : ∀ b, b ≠ k.toBytes → m'.get? b = m.get? b
  here : m'.get? k.toBytes =
    if answer.delete then none
    else
      match answer.updated with
      | some updated => Grant.stored { g with authorization := updated }
      | none => m.get? k.toBytes

variable {answer k g m}

theorem keepsTo_of_put {v : Option Bytes}
    (h : v = if answer.delete then none
      else
        match answer.updated with
        | some updated => Grant.stored { g with authorization := updated }
        | none => m.get? k.toBytes) : answer.KeepsTo k g m (m.put k.toBytes v) :=
  ⟨fun _ hb => Pairs.get?_put_ne m v hb, (Pairs.get?_put_self m _ v).trans h⟩

/-- An update of the same type is stored under the key that was looked up. -/
theorem keepsTo_of_sameType (hkey : g.key = k) (h : answer.SameType k.msgTypeUrl) :
    answer.KeepsTo k g m (answer.writeBack k g m) := by
  rw [writeBack]
  by_cases hdelete : answer.delete = true
  · rw [if_pos hdelete]
    exact keepsTo_of_put (if_pos hdelete).symm
  · rw [if_neg hdelete]
    cases hupdated : answer.updated with
    | none =>
      refine ⟨fun b _ => rfl, ?_⟩
      rw [if_neg hdelete, hupdated]
    | some updated =>
      have hnext : Grant.key { g with authorization := updated } = k := by
        have hurl : updated.msgTypeUrl = k.msgTypeUrl := (h.resolve_left hdelete) updated hupdated
        subst hkey
        exact congrArg (GrantKey.mk g.grantee g.granter) hurl
      dsimp only
      rw [hnext]
      refine keepsTo_of_put ?_
      rw [if_neg hdelete, hupdated]

/-- A stored update of another type breaks the promise: it does not lie under the key that was
looked up, where the record of the used grant still is. -/
theorem sameType_of_keepsTo {r : Registry} (hm : WellFormed r m) (hkey : g.key = k)
    (hstored : answer.delete = false → ∀ updated, answer.updated = some updated →
      ∃ b, Grant.stored { g with authorization := updated } = some b)
    (h : answer.KeepsTo k g m (answer.writeBack k g m)) : answer.SameType k.msgTypeUrl := by
  rw [SameType, or_iff_not_imp_left]
  intro hdelete updated hupdated
  obtain ⟨b, hb⟩ := hstored (Bool.eq_false_iff.2 hdelete) updated hupdated
  let next : Grant := { g with authorization := updated }
  have hwritten : answer.writeBack k g m = m.put next.key.toBytes (some b) := by
    rw [writeBack, if_neg hdelete, hupdated, ← hb]
  by_contra hurl
  have hne : next.key ≠ k := fun heq => hurl (congrArg GrantKey.msgTypeUrl heq)
  have hbytes : next.key.toBytes ≠ k.toBytes := mt GrantKey.toBytes_injective hne
  have helsewhere := h.elsewhere next.key.toBytes hbytes
  have hhere := h.here
  rw [hwritten, Pairs.get?_put_self] at helsewhere
  rw [hwritten, Pairs.get?_put_ne m (some b) hbytes.symm, if_neg hdelete, hupdated] at hhere
  -- So the stored update would have been under both keys before.
  have hunder : m.get? k.toBytes = some b := hhere.trans hb
  have hgrantee : g.grantee = k.grantee := congrArg GrantKey.grantee hkey
  have hgranter : g.granter = k.granter := congrArg GrantKey.granter hkey
  exact hne (hm.key_unique helsewhere.symm hunder hgrantee hgranter)

end Acceptance

/-- The built-in authorizations update themselves to ones for the same messages. -/
theorem Authorization.Builtin.sameType {a : Authorization} (ha : a.Builtin) {url : String}
    {answer : Acceptance} (h : a.accept url = .ok answer) : answer.SameType url := by
  cases a with
  | generic _ =>
    cases h
    exact .inr nofun
  | method name uses =>
    dsimp only [accept] at h
    split at h
    · cases h
      exact .inr nofun
    · next hname =>
      obtain rfl : url = name := not_not.1 hname
      cases uses with
      | none =>
        cases h
        exact .inr nofun
      | some n =>
        dsimp only at h
        split at h
        · cases h
          exact .inr nofun
        · split at h
          · cases h
            exact .inl rfl
          · cases h
            refine .inr fun updated hupdated => ?_
            cases hupdated
            rfl
  | scripted s => exact absurd ha (not_builtin_scripted s)

namespace GrantTable

theorem save_eq_ok_iff {c c' : Context} (hc : c.Reliable) {g : Grant} :
    save g c = (.ok (), c') ↔ ∃ b, g.stored = some b ∧ c' = c.put g.key.toBytes (some b) := by
  constructor
  · intro h
    cases hpack : g.authorization.pack with
    | error e =>
      rw [save, Grant.toRecord, hpack] at h
      cases h
    | ok any =>
      have hb : g.stored = some _ := Grant.stored_eq_some_iff.2 ⟨any, hpack, rfl⟩
      rw [save_eq hc hb] at h
      cases h
      exact ⟨_, hb, rfl⟩
  · rintro ⟨b, hb, rfl⟩
    exact save_eq hc hb

end GrantTable

namespace Keeper

/-- Whatever an authorization answers, this is what writing it back comes to, if that succeeds. -/
theorem settle_of_ok {c c' : Context} (hc : c.Reliable) {k : GrantKey} {g : Grant}
    {answer : Acceptance} (h : settle k g answer c = (.ok (), c')) :
    c'.store.content = answer.writeBack k g c.store.content ∧ c'.events = c.events ∧
      (answer.delete = false → ∀ updated, answer.updated = some updated →
        ∃ b, Grant.stored { g with authorization := updated } = some b) := by
  rw [settle] at h
  rw [Acceptance.writeBack]
  by_cases hdelete : answer.delete = true
  · rw [if_pos hdelete, GrantTable.delete_eq hc] at h
    split at h
    · cases h
      rw [if_pos hdelete]
      exact ⟨Context.content_put c _ _, rfl, fun hkept => by rw [hdelete] at hkept; cases hkept⟩
    · cases h
  · rw [if_neg hdelete] at h
    rw [if_neg hdelete]
    cases hupdated : answer.updated with
    | none =>
      rw [hupdated] at h
      cases h
      exact ⟨rfl, rfl, fun _ updated hnone => by cases hnone⟩
    | some updated =>
      rw [hupdated] at h
      obtain ⟨b, hb, rfl⟩ := (GrantTable.save_eq_ok_iff hc).1 h
      dsimp only
      rw [hb]
      refine ⟨Context.content_put c _ _, rfl, fun _ other hother => ?_⟩
      cases hother
      exact ⟨b, hb⟩

/-- A check that passes has found an unexpired grant, whose authorization accepts the message, and
has written its answer back. -/
theorem exists_answer_of_authorize {r : Registry} {c c' : Context} (hc : c.Reliable)
    {k : GrantKey} (h : authorize r k.grantee k.granter k.msgTypeUrl c = (.ok (), c')) :
    ∃ g answer d, recordAt r c.store.content k = .ok (some g) ∧
      g.isExpired c.header.time = false ∧ g.authorization.accept k.msgTypeUrl = .ok answer ∧
      answer.accept = true ∧ settle k g answer c = (.ok (), d) ∧
      c' = d.emit (.aboutGrant Event.execKind k.msgTypeUrl k.granter k.grantee) := by
  rw [authorize, Exec.bind_eq_ok_iff] at h
  obtain ⟨found, d, hlookup, h⟩ := h
  cases found with
  | none => cases h
  | some g =>
    obtain ⟨hrec, hexp, rfl⟩ := (lookup_eq_some_iff hc).1 hlookup
    obtain ⟨answer, hanswer, h⟩ := Exec.ofExcept_bind_eq_ok_iff.1 h
    split at h
    · cases h
    · next haccept =>
      have haccept : answer.accept = true := by simpa using haccept
      obtain ⟨⟨⟩, e, hsettle, hemit⟩ := Exec.bind_eq_ok_iff.1 h
      exact ⟨g, answer, e, hrec, hexp, hanswer, haccept, hsettle, (Prod.mk.inj hemit).2.symm⟩

end Keeper

namespace Assembly

/-- A check that lets a delegated message pass has asked the unexpired grant of its key, and has
written the answer back. It has kept to that grant exactly if the answer was not to store an
authorization for messages of another type; those of the built-in kinds never answer so. -/
theorem permit_writes_back (a : Assembly) {c c' : Context} (hc : c.Reliable)
    (hm : WellFormed a.registry c.store.content) {grantee granter : Address} {m : Message}
    (hsigners : m.signers = [granter]) (hne : granter ≠ grantee)
    (h : a.permit grantee m c = (.ok (), c')) :
    let k : GrantKey := ⟨grantee, granter, m.typeUrl⟩
    ∃ g answer, recordAt a.registry c.store.content k = .ok (some g) ∧ g.key = k ∧
      g.isExpired c.header.time = false ∧ g.authorization.accept m.typeUrl = .ok answer ∧
      answer.accept = true ∧
      c'.store.content = answer.writeBack k g c.store.content ∧
      (answer.KeepsTo k g c.store.content c'.store.content ↔ answer.SameType m.typeUrl) ∧
      (a.registry.Builtin → answer.KeepsTo k g c.store.content c'.store.content) := by
  intro k
  have hsole : m.soleSigner = .ok granter := Message.soleSigner_eq_ok_iff.2 hsigners
  rw [permit, hsole, Exec.bind_ok (Exec.ofExcept_apply _ c), if_pos hne] at h
  obtain ⟨g, answer, d, hrec, hexp, hanswer, haccept, hsettle, rfl⟩ :=
    Keeper.exists_answer_of_authorize (k := k) hc h
  obtain ⟨hcontent, -, hstored⟩ := Keeper.settle_of_ok hc hsettle
  have hkey : g.key = k := hm.key_eq_of_recordAt hrec
  have hiff : answer.KeepsTo k g c.store.content (answer.writeBack k g c.store.content) ↔
      answer.SameType m.typeUrl :=
    ⟨Acceptance.sameType_of_keepsTo hm hkey hstored, Acceptance.keepsTo_of_sameType hkey⟩
  rw [Context.store_emit, hcontent]
  refine ⟨g, answer, hrec, hkey, hexp, hanswer, haccept, rfl, hiff, fun hr => hiff.2 ?_⟩
  obtain ⟨b, -, hread⟩ := GrantTable.recordAt_eq_some_iff.1 hrec
  obtain ⟨-, -, hbuiltin, -⟩ := Grant.stored_of_decode hr hread
  exact hbuiltin.sameType hanswer

/-- Of two uses one is left, up to the old expiration, and nothing else is touched. -/
theorem permit_writes_back_method :
    let granter : Address := ⟨.replicate 20 1, rfl⟩
    let grantee : Address := ⟨.replicate 20 2, rfl⟩
    let before : Grant := ⟨granter, grantee, .method "/a" (some 2), some ⟨9⟩⟩
    let after : Grant := ⟨granter, grantee, .method "/a" (some 1), some ⟨9⟩⟩
    let a : Assembly := ⟨.builtin, ∅⟩
    let m : Pairs := (∅ : Pairs).put before.key.toBytes before.stored
    let c : Context := .start ⟨"c", 1, ⟨5⟩⟩ (.ofPairs m)
    let checked := a.permit grantee (.foreign "/a" [granter] (.ok ()) (.done (.ok []))) c
    checked.2.store.content.get? before.key.toBytes = after.stored ∧
      ∀ b, b ≠ before.key.toBytes → checked.2.store.content.get? b = m.get? b := by
  intro granter grantee before after a m c checked
  obtain ⟨v, hv, hread⟩ :
      ∃ v, before.stored = some v ∧ Grant.decode a.registry granter grantee v = .ok before :=
    ⟨_, rfl, by decide +kernel⟩
  have hm : WellFormed a.registry m := by
    dsimp only [m]
    rw [hv]
    exact (GrantTable.wellFormed_empty _).put_record ⟨rfl, hread⟩
  have hpass : checked.1 = .ok () := by decide +kernel
  have hchecked : checked = (.ok (), checked.2) := Exec.eq_of_fst hpass
  have hrec : recordAt a.registry m before.key = .ok (some before) :=
    GrantTable.recordAt_key_iff.2 ⟨v, by dsimp only [m]; rw [hv, Pairs.get?_put_self], rfl, hread⟩
  obtain ⟨g, answer, hfound, -, -, hanswer, -, -, -, hkeeps⟩ :=
    permit_writes_back a (c := c) (Store.reliable_ofPairs m) hm rfl (by decide) hchecked
  obtain rfl : g = before := by
    have hfound : recordAt a.registry m before.key = .ok (some g) := hfound
    rw [hrec] at hfound
    exact (Option.some.inj (Except.ok.inj hfound)).symm
  cases hanswer
  obtain ⟨helsewhere, hhere⟩ := hkeeps rfl
  exact ⟨hhere, helsewhere⟩

/-- A scripted authorization whose next line governs other messages is not used up: its record
stays, and one for the other messages appears. -/
theorem permit_spares_used_grant :
    let granter : Address := ⟨.replicate 20 1, rfl⟩
    let grantee : Address := ⟨.replicate 20 2, rfl⟩
    let line (url : String) : ScriptLine := ⟨⟨url, true, false, none⟩, ⟨false, none⟩⟩
    let g : Grant := ⟨granter, grantee, .scripted ⟨line "/a", [line "/b"]⟩, some ⟨9⟩⟩
    let next : Grant := ⟨granter, grantee, .scripted ⟨line "/b", []⟩, some ⟨9⟩⟩
    let answer : Acceptance := ⟨true, false, some next.authorization⟩
    let a : Assembly := ⟨⟨[.generic, .method, .scripted], Registry.defaultMaxValueBytes⟩, ∅⟩
    let m : Pairs := (∅ : Pairs).put g.key.toBytes g.stored
    let checked := a.permit grantee (.foreign "/a" [granter] (.ok ()) (.done (.ok [])))
      (.start ⟨"c", 1, ⟨5⟩⟩ (.ofPairs m))
    WellFormed a.registry m ∧ checked.1 = .ok () ∧ g.authorization.accept "/a" = .ok answer ∧
      checked.2.store.content.get? g.key.toBytes = g.stored ∧
      checked.2.store.content.get? next.key.toBytes = next.stored ∧ next.stored.isSome = true ∧
      m.get? next.key.toBytes = none ∧
      ¬ answer.KeepsTo g.key g m checked.2.store.content := by
  intro granter grantee line g next answer a m checked
  obtain ⟨v, hv, hread⟩ :
      ∃ v, g.stored = some v ∧ Grant.decode a.registry granter grantee v = .ok g :=
    ⟨_, rfl, by decide +kernel⟩
  have hm : WellFormed a.registry m := by
    dsimp only [m]
    rw [hv]
    exact (GrantTable.wellFormed_empty _).put_record ⟨rfl, hread⟩
  have hsaved : checked.2.store.content.get? next.key.toBytes = next.stored := by decide +kernel
  have hsome : next.stored.isSome = true := by decide +kernel
  have habsent : m.get? next.key.toBytes = none := by decide +kernel
  refine ⟨hm, by decide +kernel, by decide +kernel, by decide +kernel, hsaved, hsome, habsent, ?_⟩
  intro hkeeps
  have helsewhere := hkeeps.elsewhere next.key.toBytes (by decide +kernel)
  rw [hsaved, habsent] at helsewhere
  rw [helsewhere] at hsome
  cases hsome

end Assembly

end GrantLedger
