import GrantLedger.Proofs.Journal

/-!
# Nothing is executed for another account without a live grant

A batch for `grantee` goes through exactly if each of its messages is permitted in the context that
the messages before it have left: its one signer is the grantee, or the signer has granted messages
of its type to the grantee and the grant is live (`Permits`). `Assembly.Executes` and
`Assembly.Delegated` say so for whole trees of nested batches, and `exec` agrees with them
(`Assembly.exec_iff_delegated`).

A grant for any message of a type does not look at the message, so that it governs the type under
whose key it is found rests on the records being filed under their own types; every execution keeps
them so (`Journaled.wellKeyed`).
-/

namespace GrantLedger

namespace GrantTable

/-- Every record that can be read is under the key of its own message type. -/
def WellKeyed (r : Registry) (m : Pairs) : Prop :=
  ∀ k g, recordAt r m k = .ok (some g) → g.msgTypeUrl = k.msgTypeUrl

theorem wellKeyed_empty (r : Registry) : WellKeyed r ∅ := nofun

end GrantTable

namespace Authorization

theorem msgTypeUrl_of_afterUse {a a' : Authorization} (h : a.afterUse = some a') :
    a'.msgTypeUrl = a.msgTypeUrl := by
  unfold afterUse at h
  split at h
  · split at h <;> cases h
    rfl
  · cases h
    rfl

theorem Builtin.afterUse {a a' : Authorization} (ha : a.Builtin) (h : a.afterUse = some a') :
    a'.Builtin := by
  unfold Authorization.afterUse at h
  split at h
  · split at h <;> cases h
    exact builtin_method _ _
  · cases h
    exact ha

end Authorization

namespace Grant

variable {r : Registry}

/-- Reading what a grant is stored as gives a grant of the same message type. -/
theorem msgTypeUrl_of_stored (hr : r.Builtin) {g g' : Grant} (hg : g.authorization.Builtin)
    {granter grantee : Address} {b : Bytes} (hb : g.stored = some b)
    (h : decode r granter grantee b = .ok g') : g'.msgTypeUrl = g.msgTypeUrl := by
  -- What is stored does not depend on the parties.
  have hread := decode_of_stored hr (g := { g with granter := granter, grantee := grantee }) hg hb
  change decode r granter grantee b = _ at hread
  rw [h] at hread
  split at hread
  · cases hread
  · cases hread
    rfl

/-- What a use leaves of a grant is for the same message type. -/
theorem msgTypeUrl_of_storedAfterUse (hr : r.Builtin) {g g' : Grant} (hg : g.authorization.Builtin)
    {granter grantee : Address} {b : Bytes} (hb : g.storedAfterUse = some b)
    (h : decode r granter grantee b = .ok g') : g'.msgTypeUrl = g.msgTypeUrl := by
  obtain ⟨a, ha, hstored⟩ := Option.bind_eq_some_iff.1 hb
  have hsame := msgTypeUrl_of_stored (g := { g with authorization := a }) hr (hg.afterUse ha)
    hstored h
  exact hsame.trans (Authorization.msgTypeUrl_of_afterUse ha)

end Grant

/-- The record under a key reads as a grant for the message type of the key, if it can be read. -/
def GrantKey.Files (r : Registry) (k : GrantKey) (v : Option Bytes) : Prop :=
  ∀ b g, v = some b → Grant.decode r k.granter k.grantee b = .ok g → g.msgTypeUrl = k.msgTypeUrl

theorem GrantTable.wellKeyed_iff {r : Registry} {m : Pairs} :
    WellKeyed r m ↔ ∀ k : GrantKey, k.Files r (m.get? k.toBytes) :=
  ⟨fun h k b g hget hdec => h k g (recordAt_eq_some_iff.2 ⟨b, hget, hdec⟩), fun h k g hrec =>
    have ⟨b, hget, hdec⟩ := recordAt_eq_some_iff.1 hrec
    h k b g hget hdec⟩

namespace GrantKey.Files

variable {r : Registry} (hr : r.Builtin) {k : GrantKey} {v w : Option Bytes}

include hr

theorem of_stored {g : Grant} (hg : g.authorization.Builtin) (hk : g.key.toBytes = k.toBytes) :
    k.Files r g.stored := by
  intro b g' hb hdec
  rw [Grant.msgTypeUrl_of_stored hr hg hb hdec, ← toBytes_injective hk]
  rfl

/-- No entry files a record under another message type. -/
theorem step {e : Entry} (h : k.Files r v) (hstep : e.Step r k.toBytes v w) : k.Files r w := by
  cases e with
  | grant g =>
    obtain ⟨hsound, rfl⟩ := hstep
    split
    · next hk => exact of_stored hr hsound.builtin hk
    · exact h
  | revoke k' =>
    obtain rfl : w = _ := hstep
    split
    · exact nofun
    · exact h
  | use k' now =>
    rw [Entry.Step] at hstep
    split at hstep
    · next hk =>
      obtain rfl := toBytes_injective hk
      obtain ⟨g, value, hv, hdec, -, -, rfl⟩ := hstep
      obtain ⟨-, -, hbuiltin, -⟩ := Grant.stored_of_decode hr hdec
      intro b g' hb hdec'
      rw [Grant.msgTypeUrl_of_storedAfterUse hr hbuiltin hb hdec', h value g hv hdec]
    · obtain rfl : w = v := hstep
      exact h
  | genesis gs =>
    obtain ⟨hsound, rfl⟩ := hstep
    induction gs generalizing v with
    | nil => exact h
    | cons g gs ih =>
      refine ih ?_ fun g' hg' => hsound g' (List.mem_cons_of_mem g hg')
      dsimp only
      split
      · next hk => exact of_stored hr (hsound g List.mem_cons_self).builtin hk
      · exact h
  | sweep now =>
    obtain rfl : w = _ := hstep
    intro b g hb hdec
    exact h b g (Option.filter_eq_some_iff.1 hb).1 hdec

end GrantKey.Files

theorem GrantTable.WellKeyed.put_stored {r : Registry} (hr : r.Builtin) {m : Pairs}
    (h : WellKeyed r m) {g : Grant} (hg : g.authorization.Builtin) :
    WellKeyed r (m.put g.key.toBytes g.stored) := by
  rw [wellKeyed_iff] at h ⊢
  intro k
  rw [Pairs.get?_put]
  split
  · next hk => exact .of_stored hr hg hk.symm
  · exact h k

/-- What a journal accounts for leaves the records filed under their own types. -/
theorem Journaled.wellKeyed {r : Registry} (hr : r.Builtin) {p : Conduct} {es : List Entry}
    {c c' : Context} (h : Journaled r p es c c') (hc : GrantTable.WellKeyed r c.store.content) :
    GrantTable.WellKeyed r c'.store.content := by
  rw [GrantTable.wellKeyed_iff] at hc ⊢
  intro k
  exact (h.replays k.toBytes k.startsWith_toBytes).keeps (fun e v w hv hstep => hv.step hr hstep)
    (hc k)

/-! ## Live grants -/

/-- The grant counts at a time for messages of type `url`. -/
structure Grant.Live (g : Grant) (now : Timestamp) (url : String) : Prop where
  unexpired : ∀ e, g.expiration = some e → now ≤ e
  governs : g.msgTypeUrl = url
  /-- If its uses are limited, some are left. -/
  usable : g.authorization.usesLeft ≠ some 0

theorem expiredAt_eq_false_iff {expiration : Option Timestamp} {now : Timestamp} :
    expiredAt expiration now = false ↔ ∀ e, expiration = some e → now ≤ e := by
  cases expiration with
  | none => exact ⟨fun _ => nofun, fun _ => rfl⟩
  | some e =>
    rw [expiredAt, decide_eq_false_iff_not]
    constructor
    · rintro h e' heq
      cases heq
      exact UInt64.not_lt.1 h
    · exact fun h => UInt64.not_lt.2 (h e rfl)

/-- With a built-in authorization, under the key of its own type, a grant admits a message exactly
if it has a use left. -/
theorem Authorization.Builtin.admits_iff {a : Authorization} (ha : a.Builtin) {url : String}
    (hurl : a.msgTypeUrl = url) : a.Admits url ↔ a.usesLeft ≠ some 0 := by
  cases a with
  | generic name => exact ⟨fun _ => nofun, fun _ => trivial⟩
  | method name uses => exact ⟨fun h => h.2, fun h => ⟨hurl, h⟩⟩
  | scripted s => exact absurd ha (not_builtin_scripted s)

theorem Message.soleSigner_eq_ok_iff {m : Message} {s : Address} :
    m.soleSigner = .ok s ↔ m.signers = [s] := by
  rw [soleSigner]
  split
  · next s' h => rw [h]; simp
  · next signers h =>
    constructor
    · nofun
    · intro h'
      exact absurd h' (h s)

/-- `grantee` may execute the message in `c`, and `c'` is the context after it has been checked. -/
inductive Permits (r : Registry) (grantee : Address) (m : Message) (c : Context) : Context → Prop
  /-- The grantee signed the message. -/
  | own (signed : m.signers = [grantee]) : Permits r grantee m c c
  /-- The signer has granted it to the grantee, and the grant is live. -/
  | granted {granter : Address} {g : Grant} {b : Bytes} (signed : m.signers = [granter])
      (ne : granter ≠ grantee)
      (bound : c.store.content.get? (GrantKey.toBytes ⟨grantee, granter, m.typeUrl⟩) = some b)
      (reads : Grant.decode r granter grantee b = .ok g)
      (live : g.Live c.header.time m.typeUrl) :
      Permits r grantee m c ((c.use ⟨grantee, granter, m.typeUrl⟩ g).emit
        (.aboutGrant Event.execKind m.typeUrl granter grantee))

namespace Assembly

variable {a : Assembly}

theorem permit_eq_ok_iff (hr : a.registry.Builtin) {grantee : Address} {m : Message}
    {c c' : Context} (hc : c.Reliable) (hkeyed : GrantTable.WellKeyed a.registry c.store.content) :
    a.permit grantee m c = (.ok (), c') ↔ Permits a.registry grantee m c c' := by
  rw [permit, Exec.ofExcept_bind_eq_ok_iff]
  constructor
  · rintro ⟨granter, hsole, h⟩
    have hsigned := Message.soleSigner_eq_ok_iff.1 hsole
    split at h
    · next hne =>
      obtain ⟨g, hrec, hexp, hadmits, rfl⟩ :=
        (Keeper.authorize_eq_ok_iff (k := ⟨grantee, granter, m.typeUrl⟩) hr hc).1 h
      obtain ⟨b, hget, hdec⟩ := GrantTable.recordAt_eq_some_iff.1 hrec
      obtain ⟨-, -, hbuiltin, -⟩ := Grant.stored_of_decode hr hdec
      have hurl : g.msgTypeUrl = m.typeUrl := hkeyed _ g hrec
      exact .granted hsigned hne hget hdec
        ⟨expiredAt_eq_false_iff.1 hexp, hurl, (hbuiltin.admits_iff hurl).1 hadmits⟩
    · next heq =>
      cases h
      exact .own (not_not.1 heq ▸ hsigned)
  · intro h
    cases h with
    | own signed =>
      refine ⟨grantee, Message.soleSigner_eq_ok_iff.2 signed, ?_⟩
      rw [if_neg (not_not_intro rfl)]
      rfl
    | @granted granter g b signed ne bound reads live =>
      refine ⟨granter, Message.soleSigner_eq_ok_iff.2 signed, ?_⟩
      rw [if_pos ne]
      obtain ⟨-, -, hbuiltin, -⟩ := Grant.stored_of_decode hr reads
      exact (Keeper.authorize_eq_ok_iff (k := ⟨grantee, granter, m.typeUrl⟩) hr hc).2
        ⟨g, GrantTable.recordAt_eq_some_iff.2 ⟨b, bound, reads⟩,
          expiredAt_eq_false_iff.2 live.unexpired, (hbuiltin.admits_iff live.governs).2 live.usable,
          rfl⟩

/-! ## Batches -/

mutual

/-- Executing a message succeeds with a result and leaves `c'`; batches in it are delegated. -/
inductive Executes (a : Assembly) : Message → Context → Bytes → Context → Prop
  /-- A message that is no batch is dispatched. -/
  | single {m : Message} {c c' : Context} {result : Bytes}
      (noBatch : ∀ grantee msgs, m ≠ .exec grantee msgs)
      (dispatched : a.dispatch m c = (.ok result, c')) : Executes a m c result c'
  /-- A batch is executed in a branch, which is adopted. -/
  | batch {c child : Context} {text : String} {grantee : Address} {msgs : List Message}
      {results : List Bytes} (routed : a.router.get? Message.execTypeUrl = some .authz)
      (parsed : Address.parse text = .ok grantee)
      (delegated : Delegated a grantee msgs c.child results child) :
      Executes a (.exec text msgs) c (resultsCodec.encode results) (c.adopt child)

/-- Each message is permitted to `grantee` and executed in the context that those before it have
left, and gives one result. -/
inductive Delegated (a : Assembly) :
    Address → List Message → Context → List Bytes → Context → Prop
  | nil {grantee : Address} {c : Context} : Delegated a grantee [] c [] c
  | cons {grantee : Address} {m : Message} {ms : List Message} {c c₁ c₂ c₃ : Context}
      {result : Bytes} {results : List Bytes} (permitted : Permits a.registry grantee m c c₁)
      (executed : Executes a m c₁ result c₂) (later : Delegated a grantee ms c₂ results c₃) :
      Delegated a grantee (m :: ms) c (result :: results) c₃

end

theorem Delegated.length_eq {grantee : Address} {ms : List Message} {c c' : Context}
    {results : List Bytes} (h : a.Delegated grantee ms c results c') :
    results.length = ms.length := by
  induction ms generalizing c results with
  | nil =>
    cases h
    rfl
  | cons m ms ih =>
    cases h with
    | cons _ _ later => exact congrArg (· + 1) (ih later)

/-- A batch message succeeds exactly if it is routed, names an account and its branch succeeds. -/
theorem dispatch_exec_eq_ok_iff {text : String} {msgs : List Message} {c c' : Context}
    {result : Bytes} (hc : c.Reliable) :
    a.dispatch (.exec text msgs) c = (.ok result, c') ↔
      a.router.get? Message.execTypeUrl = some .authz ∧
        ∃ grantee, Address.parse text = .ok grantee ∧
          ∃ results child, a.dispatchFor grantee msgs c.child = (.ok results, child) ∧
            result = resultsCodec.encode results ∧ c' = c.adopt child := by
  rw [dispatch, Message.typeUrl]
  rcases a.router.get? Message.execTypeUrl with _ | _ | _
  · exact ⟨nofun, fun h => nomatch h.1⟩
  · dsimp only
    cases Address.parse text with
    | error e =>
      rw [Except.mapError, Exec.bind_error (Exec.ofExcept_apply _ c)]
      exact ⟨nofun, fun ⟨_, _, h, _⟩ => nomatch h⟩
    | ok grantee =>
      rw [Except.mapError, Exec.bind_ok (Exec.ofExcept_apply _ c)]
      have hbranch := Exec.branch_eq hc (a.dispatchFor grantee msgs)
      rcases hfor : a.dispatchFor grantee msgs c.child with ⟨e | results, child⟩
      · rw [hfor] at hbranch
        rw [Exec.bind_error hbranch]
        refine ⟨nofun, ?_⟩
        rintro ⟨-, _, hgrantee, results, child', hfor', -⟩
        cases hgrantee
        rw [hfor] at hfor'
        cases hfor'
      · rw [hfor] at hbranch
        rw [Exec.bind_ok hbranch]
        constructor
        · intro h
          cases h
          exact ⟨rfl, grantee, rfl, results, child, hfor, rfl, rfl⟩
        · rintro ⟨-, _, hgrantee, results', child', hfor', rfl, rfl⟩
          cases hgrantee
          rw [hfor] at hfor'
          cases hfor'
          rfl
  · exact ⟨nofun, fun h => nomatch h.1⟩

mutual

/-- Dispatching succeeds exactly if every delegated message in the tree is permitted. -/
theorem dispatch_eq_ok_iff (hr : a.registry.Builtin) (m : Message)
    (hm : Conduct.outsideGrants.Allows m) {c c' : Context} (hc : c.Reliable)
    (hkeyed : GrantTable.WellKeyed a.registry c.store.content) {result : Bytes} :
    a.dispatch m c = (.ok result, c') ↔ a.Executes m c result c' := by
  match m with
  | .grant g =>
    refine ⟨.single nofun, fun h => ?_⟩
    cases h with
    | single _ dispatched => exact dispatched
  | .revoke g =>
    refine ⟨.single nofun, fun h => ?_⟩
    cases h with
    | single _ dispatched => exact dispatched
  | .foreign url signers validity action =>
    refine ⟨.single nofun, fun h => ?_⟩
    cases h with
    | single _ dispatched => exact dispatched
  | .exec text msgs =>
    rw [dispatch_exec_eq_ok_iff hc]
    have hchild : c.child.Reliable := hc
    constructor
    · rintro ⟨routed, grantee, parsed, results, child, hfor, rfl, rfl⟩
      exact .batch routed parsed ((dispatchFor_eq_ok_iff hr grantee msgs hm hchild hkeyed).1 hfor)
    · intro h
      cases h with
      | single noBatch _ => exact absurd rfl (noBatch text msgs)
      | batch routed parsed delegated =>
        exact ⟨routed, _, parsed, _, _,
          (dispatchFor_eq_ok_iff hr _ msgs hm hchild hkeyed).2 delegated, rfl, rfl⟩

/-- A batch goes through exactly if each of its messages is permitted where its turn comes. -/
theorem dispatchFor_eq_ok_iff (hr : a.registry.Builtin) (grantee : Address) (ms : List Message)
    (hms : Conduct.outsideGrants.AllowsAll ms) {c c' : Context} (hc : c.Reliable)
    (hkeyed : GrantTable.WellKeyed a.registry c.store.content) {results : List Bytes} :
    a.dispatchFor grantee ms c = (.ok results, c') ↔ a.Delegated grantee ms c results c' := by
  match ms with
  | [] =>
    rw [dispatchFor]
    constructor
    · intro h
      cases h
      exact .nil
    · intro h
      cases h
      rfl
  | m :: ms =>
    -- What the check and the message leave is again a reliable store with well-filed records.
    have hpermitted {c₁ : Context} (h : a.permit grantee m c = (.ok (), c₁)) :
        c₁.Reliable ∧ GrantTable.WellKeyed a.registry c₁.store.content := by
      have hjournal := journaled_permit (p := Conduct.outsideGrants) hr grantee m hc h
      exact ⟨hjournal.reliable hc, hjournal.wellKeyed hr hkeyed⟩
    have hdispatched {c₁ : Context} (h : a.permit grantee m c = (.ok (), c₁)) :
        (a.dispatch m c₁).2.Reliable ∧
          GrantTable.WellKeyed a.registry (a.dispatch m c₁).2.store.content := by
      obtain ⟨hc₁, hkeyed₁⟩ := hpermitted h
      have hjournal := journaled_dispatch hr Conduct.outsideGrants_outsideGrants m hms.1 hc₁
      exact ⟨hjournal.reliable hc₁, hjournal.wellKeyed hr hkeyed₁⟩
    rw [dispatchFor, Exec.bind_eq_ok_iff]
    constructor
    · rintro ⟨u, c₁, hpermit, h⟩
      obtain ⟨result, c₂, hdispatch, h⟩ := Exec.bind_eq_ok_iff.1 h
      obtain ⟨results', c₃, hlater, h⟩ := Exec.bind_eq_ok_iff.1 h
      cases h
      obtain ⟨hc₁, hkeyed₁⟩ := hpermitted hpermit
      have hafter := hdispatched hpermit
      rw [hdispatch] at hafter
      exact .cons ((permit_eq_ok_iff hr hc hkeyed).1 hpermit)
        ((dispatch_eq_ok_iff hr m hms.1 hc₁ hkeyed₁).1 hdispatch)
        ((dispatchFor_eq_ok_iff hr grantee ms hms.2 hafter.1 hafter.2).1 hlater)
    · intro h
      cases h with
      | cons permitted executed later =>
        have hpermit := (permit_eq_ok_iff hr hc hkeyed).2 permitted
        obtain ⟨hc₁, hkeyed₁⟩ := hpermitted hpermit
        have hdispatch := (dispatch_eq_ok_iff hr m hms.1 hc₁ hkeyed₁).2 executed
        have hafter := hdispatched hpermit
        rw [hdispatch] at hafter
        have hlater := (dispatchFor_eq_ok_iff hr grantee ms hms.2 hafter.1 hafter.2).2 later
        refine ⟨(), _, hpermit, Exec.bind_eq_ok_iff.2 ⟨_, _, hdispatch, ?_⟩⟩
        exact Exec.bind_eq_ok_iff.2 ⟨_, _, hlater, rfl⟩

end

/-- Executing a batch succeeds exactly if every message in it, at any depth, is signed by the
grantee or covered by a live grant where its turn comes; it gives one result for each message. In
every other case it fails and leaves the context as it was. -/
theorem exec_iff_delegated (hr : a.registry.Builtin) (grantee : Address) {ms : List Message}
    (hms : ∀ m ∈ ms, Conduct.outsideGrants.Allows m) {c : Context} (hc : c.Reliable)
    (hkeyed : GrantTable.WellKeyed a.registry c.store.content) :
    (∀ results c', a.exec grantee ms c = (.ok results, c') ↔
      ∃ child, a.Delegated grantee ms c.child results child ∧ c' = c.adopt child) ∧
    (∀ results child, a.Delegated grantee ms c.child results child →
      results.length = ms.length) ∧
    ((∀ results child, ¬ a.Delegated grantee ms c.child results child) →
      ∃ e, a.exec grantee ms c = (.error e, c)) := by
  have hchild : c.child.Reliable := hc
  have hiff {results : List Bytes} {child : Context} :
      a.dispatchFor grantee ms c.child = (.ok results, child) ↔
        a.Delegated grantee ms c.child results child :=
    dispatchFor_eq_ok_iff hr grantee ms (Conduct.allowsAll_iff.2 hms) hchild hkeyed
  have hbranch := Exec.branch_eq hc (a.dispatchFor grantee ms)
  rw [exec]
  refine ⟨fun results c' => ?_, fun _ _ => Delegated.length_eq, fun hnone => ?_⟩
  · constructor
    · intro h
      rw [hbranch] at h
      split at h
      · next results' child hfor =>
        cases h
        exact ⟨child, hiff.1 hfor, rfl⟩
      · cases h
    · rintro ⟨child, hdelegated, rfl⟩
      rw [hbranch, hiff.2 hdelegated]
  · rw [hbranch]
    split
    · next results child hfor => exact absurd (hiff.1 hfor) (hnone results child)
    · next e child _ => exact ⟨e, rfl⟩

/-- The last use of a limited grant. -/
theorem exec_iff_delegated_last_use :
    let a : Assembly := ⟨.builtin, (∅ : Router).insert "/a" .foreign⟩
    let k : GrantKey := ⟨⟨.replicate 20 2, rfl⟩, ⟨.replicate 20 1, rfl⟩, "/a"⟩
    let g : Grant := ⟨k.granter, k.grantee, .method "/a" (some 1), none⟩
    let c := (Context.start ⟨"c", 1, ⟨5⟩⟩ (.ofPairs ∅)).put g.key.toBytes g.stored
    let ms := [Message.foreign "/a" [k.granter] (.ok ()) (.done (.ok [7]))]
    ∃ child, a.Delegated k.grantee ms c.child [[7]] child := by
  intro a k g c ms
  have hms : ∀ m ∈ ms, Conduct.outsideGrants.Allows m := by
    simp [ms, Conduct.Allows, Conduct.AllowsAction]
  have hc : c.Reliable := Store.reliable_ofPairs ∅
  have hkeyed : GrantTable.WellKeyed .builtin c.store.content :=
    (GrantTable.wellKeyed_empty .builtin).put_stored rfl (Authorization.builtin_method _ _)
  -- The batch is run; that it went through then says what was permitted.
  have hok : (a.exec k.grantee ms c).1 = .ok [[7]] := by decide +kernel
  have hexec : a.exec k.grantee ms c = (.ok [[7]], (a.exec k.grantee ms c).2) := by
    rw [← hok, Prod.eta]
  have hiff := (exec_iff_delegated (a := a) rfl k.grantee hms hc hkeyed).1
  obtain ⟨child, hdelegated, -⟩ := (hiff [[7]] (a.exec k.grantee ms c).2).1 hexec
  exact ⟨child, hdelegated⟩

end Assembly

end GrantLedger
