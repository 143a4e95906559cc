import GrantLedger.Proofs.Counters
import GrantLedger.Proofs.Layering

/-!
# What the events tell

The events of a successful execution tell what has been executed, in that order: each grant and
revocation, each message of a batch that is delegated, in front of what it tells itself, and whatever
the handlers of foreign messages emit (`Assembly.Narrates`), provided that none of them takes events
away. Each operation that succeeds emits what it is to emit once, and a branch hands on what it has
told when it is merged; a branch that fails hands on nothing. If the handlers emit no event that
reports on grants, the events that do can be read off the messages (`Message.reports`), and these are
what the counters count.
-/

namespace GrantLedger

/-! ## What succeeds emits -/

namespace Exec

variable {α β : Type} {es es' : List Event}

/-- Whenever the computation succeeds, it has emitted `es`. -/
def Tells (es : List Event) (x : Exec α) : Prop :=
  ∀ c a d, x c = (.ok a, d) → d.events = c.events ++ es

namespace Tells

theorem silent {x : Exec α} (h : ∀ c, (x c).2.events = c.events) : x.Tells [] := by
  intro c a d hx
  have hevents := h c
  rw [hx] at hevents
  rw [hevents, List.append_nil]

theorem pure (a : α) : (Pure.pure a : Exec α).Tells [] := silent fun _ => rfl

theorem get (k : Bytes) : (Exec.get k).Tells [] := silent fun _ => rfl

theorem has (k : Bytes) : (Exec.has k).Tells [] := silent fun _ => rfl

theorem ofExcept (r : Except Error α) : (Exec.ofExcept r).Tells [] := silent fun _ => rfl

theorem blockTime : Exec.blockTime.Tells [] := silent fun _ => rfl

theorem write (k : Bytes) (v : Option Bytes) : (Exec.write k v).Tells [] := by
  refine silent fun c => ?_
  rw [Exec.write]
  split <;> rfl

theorem emit (e : Event) : (Exec.emit e).Tells [e] := by
  intro c a d h
  cases h
  rfl

/-- A failure is not asked what it has emitted. -/
theorem throw (e : Error) : (MonadExcept.throw e : Exec α).Tells es := nofun

theorem bind {x : Exec α} {f : α → Exec β} (hx : x.Tells es) (hf : ∀ a, (f a).Tells es') :
    (x >>= f).Tells (es ++ es') := by
  intro c b d h
  obtain ⟨a, c', hxc, hfc⟩ := bind_eq_ok_iff.1 h
  rw [hf a c' b d hfc, hx c a c' hxc, List.append_assoc]

/-- After something silent, only the rest is told. -/
theorem after {x : Exec α} {f : α → Exec β} (hx : x.Tells []) (hf : ∀ a, (f a).Tells es) :
    (x >>= f).Tells es := hx.bind hf

theorem ite {p : Prop} [Decidable p] {x y : Exec α} (hx : x.Tells es) (hy : y.Tells es) :
    (if p then x else y).Tells es := by
  split
  · exact hx
  · exact hy

/-- A check in front of a computation ends it or lets it go on. -/
theorem check {p : Prop} [Decidable p] {e : Error} {f : β → Exec α} {x : Exec α}
    (hx : x.Tells es) : (if p then MonadExcept.throw e >>= f else x).Tells es :=
  ite nofun hx

end Tells

end Exec

open Exec (Tells)

namespace GrantTable

theorem tells_save (g : Grant) : (save g).Tells [] := .after (.ofExcept _) fun _ => .write _ _

theorem tells_delete (k : GrantKey) : (delete k).Tells [] :=
  .after (.has _) fun _ => .ite (.write _ _) (.ofExcept _)

theorem tells_getOrPrune (r : Registry) (k : GrantKey) (now : Timestamp) :
    (getOrPrune r k now).Tells [] := by
  refine .after (.after (.get _) fun b => ?_) fun g => ?_
  · cases b with
    | none => exact .pure _
    | some b => exact .after (.ofExcept _) fun _ => .pure _
  · cases g with
    | none => exact .pure _
    | some g => exact .ite (.after (.write _ _) fun _ => .pure _) (.pure _)

end GrantTable

namespace Keeper

theorem tells_grant (r : Registry) (granter grantee : Address) (authorization : Authorization)
    (expiration : Option Timestamp) :
    (grant r granter grantee authorization expiration).Tells
      [.aboutGrant Event.grantKind authorization.msgTypeUrl granter grantee] := by
  refine .check (.after (.ofExcept _) fun _ => .check (.after .blockTime fun now => ?_))
  have hsave (g : Grant) (e : Event) :
      (GrantTable.save g >>= fun _ => Exec.emit e).Tells [e] :=
    .after (GrantTable.tells_save g) fun _ => .emit e
  cases expiration with
  | none => exact hsave _ _
  | some e => exact .check (hsave _ _)

theorem tells_revoke (granter grantee : Address) (url : String) :
    (revoke granter grantee url).Tells [.aboutGrant Event.revokeKind url granter grantee] :=
  .after (GrantTable.tells_delete _) fun _ => .emit _

theorem tells_authorize (r : Registry) (grantee granter : Address) (url : String) :
    (authorize r grantee granter url).Tells
      [.aboutGrant Event.execKind url granter grantee] := by
  refine .after (.after .blockTime fun _ => GrantTable.tells_getOrPrune _ _ _) fun g => ?_
  cases g with
  | none => exact .throw _
  | some g =>
    refine .after (.ofExcept _) fun answer => .check (.after (.ite ?_ ?_) fun _ => .emit _)
    · exact GrantTable.tells_delete _
    · cases answer.updated with
      | none => exact .pure _
      | some updated => exact GrantTable.tells_save _

end Keeper

/-! ## The narrative of a transaction -/

namespace Assembly

mutual

/-- What a message tells when its turn comes in `c`. -/
inductive Narrates (a : Assembly) : Message → Context → List Event → Prop
  | grant {m : MsgGrant} {c : Context} {granter grantee : Address}
      (parties : m.parties = .ok (granter, grantee)) :
      Narrates a (.grant m) c
        [.aboutGrant Event.grantKind m.authorization.msgTypeUrl granter grantee]
  | revoke {m : MsgRevoke} {c : Context} {granter grantee : Address}
      (parties : m.parties = .ok (granter, grantee)) :
      Narrates a (.revoke m) c [.aboutGrant Event.revokeKind m.msgTypeUrl granter grantee]
  /-- A batch tells what is told in its branch. -/
  | batch {c : Context} {text : String} {grantee : Address} {msgs : List Message}
      {events : List Event} (parsed : Address.parse text = .ok grantee)
      (inner : NarratesFor a grantee msgs c.child events) :
      Narrates a (.exec text msgs) c events
  /-- A foreign message tells what its handler adds to the events before it. -/
  | foreign {url : String} {signers : List Address} {validity : Except Error Unit}
      {action : Action} {c : Context} {events : List Event}
      (emitted : (a.run action c).2.events = c.events ++ events) :
      Narrates a (.foreign url signers validity action) c events

/-- What the messages of a batch for `grantee` tell, each where those before it have left it. -/
inductive NarratesFor (a : Assembly) : Address → List Message → Context → List Event → Prop
  | nil {grantee : Address} {c : Context} : NarratesFor a grantee [] c []
  /-- A message that the grantee signed tells only its own events. -/
  | own {grantee : Address} {m : Message} {ms : List Message} {c d : Context} {result : Bytes}
      {events later : List Event} (signed : m.signers = [grantee])
      (tells : Narrates a m c events) (executed : a.dispatch m c = (.ok result, d))
      (rest : NarratesFor a grantee ms d later) :
      NarratesFor a grantee (m :: ms) c (events ++ later)
  /-- A delegated message is told of before it tells its own events. -/
  | delegated {grantee signer : Address} {m : Message} {ms : List Message} {c c' d : Context}
      {result : Bytes} {events later : List Event} (signed : m.signers = [signer])
      (ne : signer ≠ grantee) (permitted : a.permit grantee m c = (.ok (), c'))
      (tells : Narrates a m c' events) (executed : a.dispatch m c' = (.ok result, d))
      (rest : NarratesFor a grantee ms d later) :
      NarratesFor a grantee (m :: ms) c
        (.aboutGrant Event.execKind m.typeUrl signer grantee :: (events ++ later))

end

/-- What messages tell one after the other. -/
inductive NarratesAll (a : Assembly) : List Message → Context → List Event → Prop
  | nil {c : Context} : NarratesAll a [] c []
  | cons {m : Message} {ms : List Message} {c d : Context} {result : Bytes}
      {events later : List Event} (tells : Narrates a m c events)
      (executed : a.dispatch m c = (.ok result, d)) (rest : NarratesAll a ms d later) :
      NarratesAll a (m :: ms) c (events ++ later)

variable {a : Assembly}

mutual

/-- Where no handler takes events away, executing a message adds to those before it. -/
theorem prefix_dispatch (m : Message) (hm : Conduct.keepsEvents.Allows m) {c : Context}
    (hc : c.Reliable) : c.events <+: (a.dispatch m c).2.events := by
  match m with
  | .grant g => exact (a.confined_dispatch_of_deaf (.grant g) trivial).prefix_events hc
  | .revoke g => exact (a.confined_dispatch_of_deaf (.revoke g) trivial).prefix_events hc
  | .exec text msgs => exact (a.confined_dispatch_of_deaf (.exec text msgs) trivial).prefix_events hc
  | .foreign url signers validity action =>
    rw [dispatch, Message.typeUrl]
    rcases a.router.get? url with _ | _ | _
    · exact List.prefix_refl _
    · exact List.prefix_refl _
    · exact prefix_run action hm hc

/-- Where it takes no events away, a handler adds to those before it, whatever it comes to. -/
theorem prefix_run (act : Action) (hact : Conduct.keepsEvents.AllowsAction act) {c : Context}
    (hc : c.Reliable) : c.events <+: (a.run act c).2.events := by
  match act with
  | .done result =>
    rw [run]
    exact List.prefix_refl _
  | .get key next =>
    rw [run, Exec.bind_ok (Exec.attempt_apply _ c)]
    exact prefix_run (next _) (hact _) hc
  | .write key value next =>
    rw [run, Exec.bind_ok (Exec.attempt_apply _ c), Exec.write_eq hc]
    have hput : (c.put key value).Reliable := (Context.Continues.put c key value).reliable hc
    exact prefix_run (next _) (hact.2 _) hput
  | .scan start next =>
    rw [run, Exec.bind_ok (Exec.attempt_apply _ c)]
    exact prefix_run (next _) (hact _) hc
  | .header next =>
    rw [run, Exec.bind_ok (x := Exec.header) (c := c) rfl]
    exact prefix_run (next _) (hact _) hc
  | .emit event next =>
    rw [run, Exec.bind_ok (Exec.emit_eq event c)]
    have hemit : (c.emit event).Reliable := hc
    exact (List.prefix_append c.events [event]).trans (prefix_run next hact.2 hemit)
  | .events next =>
    rw [run, Exec.bind_ok (Exec.events_eq c)]
    exact prefix_run (next _) (hact _) hc
  | .takeEvents next => exact hact.1.elim
  | .branch body next =>
    rw [run, Exec.bind_ok (Exec.attempt_apply _ c)]
    have hafter := (Exec.Steady.branch (a.run body) c).reliable hc
    exact ((a.extensional_run body).confined_branch.prefix_events hc).trans
      (prefix_run (next _) (hact.2 _) hafter)
  | .dispatch msg next =>
    rw [run, Exec.bind_ok (Exec.attempt_apply _ c)]
    have hafter := (a.steady_dispatch msg c).reliable hc
    exact (prefix_dispatch msg hact.1 hc).trans (prefix_run (next _) (hact.2 _) hafter)

end

mutual

/-- A message that succeeds has told its narrative. -/
theorem exists_narrates (m : Message) (hm : Conduct.keepsEvents.Allows m) {c d : Context}
    (hc : c.Reliable) {result : Bytes} (h : a.dispatch m c = (.ok result, d)) :
    ∃ events, a.Narrates m c events ∧ d.events = c.events ++ events := by
  match m with
  | .grant g =>
    rw [dispatch] at h
    generalize a.router.get? (Message.grant g).typeUrl = handler at h
    rcases handler with _ | _ | _
    · cases h
    · obtain ⟨⟨granter, grantee⟩, hparties, h⟩ := Exec.ofExcept_bind_eq_ok_iff.1 h
      have htells := (Keeper.tells_grant a.registry granter grantee g.authorization
        g.expiration).bind fun _ => Tells.pure ([] : Bytes)
      exact ⟨_, .grant hparties, htells _ _ _ h⟩
    · cases h
  | .revoke g =>
    rw [dispatch] at h
    generalize a.router.get? (Message.revoke g).typeUrl = handler at h
    rcases handler with _ | _ | _
    · cases h
    · obtain ⟨⟨granter, grantee⟩, hparties, h⟩ := Exec.ofExcept_bind_eq_ok_iff.1 h
      have htells := (Keeper.tells_revoke granter grantee g.msgTypeUrl).bind fun _ =>
        Tells.pure ([] : Bytes)
      exact ⟨_, .revoke hparties, htells _ _ _ h⟩
    · cases h
  | .exec text msgs =>
    obtain ⟨-, grantee, hparsed, results, child, hfor, -, rfl⟩ := (dispatch_exec_eq_ok_iff hc).1 h
    have hchild : c.child.Reliable := hc
    obtain ⟨events, hnarrates, hevents⟩ := exists_narratesFor grantee msgs hm hchild hfor
    exact ⟨events, .batch hparsed hnarrates, congrArg (c.events ++ ·) hevents⟩
  | .foreign url signers validity action =>
    rw [dispatch] at h
    generalize a.router.get? (Message.foreign url signers validity action).typeUrl = handler at h
    rcases handler with _ | _ | _
    · cases h
    · cases h
    · have h : a.run action c = (.ok result, d) := h
      obtain ⟨events, hevents⟩ := prefix_run (a := a) action hm hc
      refine ⟨events, .foreign hevents.symm, ?_⟩
      rw [hevents, h]

theorem exists_narratesFor (grantee : Address) (ms : List Message)
    (hms : Conduct.keepsEvents.AllowsAll ms) {c d : Context} (hc : c.Reliable)
    {results : List Bytes} (h : a.dispatchFor grantee ms c = (.ok results, d)) :
    ∃ events, a.NarratesFor grantee ms c events ∧ d.events = c.events ++ events := by
  match ms with
  | [] =>
    rw [dispatchFor] at h
    cases h
    exact ⟨[], .nil, (List.append_nil _).symm⟩
  | m :: ms =>
    rw [dispatchFor] at h
    obtain ⟨u, c₁, hpermit, h⟩ := Exec.bind_eq_ok_iff.1 h
    obtain ⟨result, c₂, hdispatch, h⟩ := Exec.bind_eq_ok_iff.1 h
    obtain ⟨results', c₃, hlater, h⟩ := Exec.bind_eq_ok_iff.1 h
    cases h
    have hc₁ : c₁.Reliable := ((a.steady_permit grantee m).continues hpermit).reliable hc
    have hc₂ : c₂.Reliable := ((a.steady_dispatch m).continues hdispatch).reliable hc₁
    obtain ⟨events, htells, hevents⟩ := exists_narrates m hms.1 hc₁ hdispatch
    obtain ⟨later, hrest, hlaterEvents⟩ := exists_narratesFor grantee ms hms.2 hc₂ hlater
    have hpermitted := hpermit
    rw [permit] at hpermit
    obtain ⟨signer, hsole, hpermit⟩ := Exec.ofExcept_bind_eq_ok_iff.1 hpermit
    have hsigned := Message.soleSigner_eq_ok_iff.1 hsole
    split at hpermit
    · next hne =>
      have hexec := Keeper.tells_authorize a.registry grantee signer m.typeUrl _ _ _ hpermit
      refine ⟨_, .delegated hsigned hne hpermitted htells hdispatch hrest, ?_⟩
      rw [hlaterEvents, hevents, hexec]
      simp
    · next heq =>
      cases hpermit
      refine ⟨_, .own (not_not.1 heq ▸ hsigned) htells hdispatch hrest, ?_⟩
      rw [hlaterEvents, hevents, List.append_assoc]

end

theorem exists_narratesAll (ms : List Message) (hms : ∀ m ∈ ms, Conduct.keepsEvents.Allows m)
    {c d : Context} (hc : c.Reliable) {results : List Bytes}
    (h : a.dispatchAll ms c = (.ok results, d)) :
    ∃ events, a.NarratesAll ms c events ∧ d.events = c.events ++ events := by
  induction ms generalizing c results with
  | nil =>
    rw [dispatchAll] at h
    cases h
    exact ⟨[], .nil, (List.append_nil _).symm⟩
  | cons m ms ih =>
    rw [dispatchAll] at h
    obtain ⟨result, c₁, hdispatch, h⟩ := Exec.bind_eq_ok_iff.1 h
    obtain ⟨results', c₂, hlater, h⟩ := Exec.bind_eq_ok_iff.1 h
    cases h
    have hc₁ : c₁.Reliable := ((a.steady_dispatch m).continues hdispatch).reliable hc
    obtain ⟨events, htells, hevents⟩ := exists_narrates m (hms m List.mem_cons_self) hc hdispatch
    obtain ⟨later, hrest, hlaterEvents⟩ :=
      ih (fun m' hm' => hms m' (List.mem_cons_of_mem m hm')) hc₁ hlater
    refine ⟨_, .cons htells hdispatch hrest, ?_⟩
    rw [hlaterEvents, hevents, List.append_assoc]

end Assembly

/-! ## Events that report on grants -/

namespace Message

mutual

/-- The events by which executing the message reports on grants, whatever its handlers do. -/
def reports : Message → List Event
  | .grant m => m.touched.map (·.event Event.grantKind)
  | .revoke m => m.touched.map (·.event Event.revokeKind)
  | .exec grantee msgs =>
    match Address.parse grantee with
    | .ok grantee => reportsFor grantee msgs
    | .error _ => []
  | .foreign .. => []

/-- The same of executing messages for `grantee`. -/
def reportsFor (grantee : Address) : List Message → List Event
  | [] => []
  | m :: ms =>
    (m.needs grantee).map (·.event Event.execKind) ++ (m.reports ++ reportsFor grantee ms)

end

end Message

/-- The action emits no event that reports on grants, takes no events away and dispatches nothing,
whatever its steps return. -/
def Action.Reticent : Action → Prop
  | .done _ => True
  | .get _ next => ∀ r, (next r).Reticent
  | .write _ _ next => ∀ r, (next r).Reticent
  | .scan _ next => ∀ r, (next r).Reticent
  | .header next => ∀ h, (next h).Reticent
  | .emit event next => event.isAboutGrants = false ∧ next.Reticent
  | .events next => ∀ es, (next es).Reticent
  | .takeEvents _ => False
  | .branch body next => body.Reticent ∧ ∀ r, (next r).Reticent
  | .dispatch _ _ => False

mutual

/-- All actions in the message are reticent. -/
def Message.Reticent : Message → Prop
  | .grant _ => True
  | .revoke _ => True
  | .exec _ msgs => Message.ReticentAll msgs
  | .foreign _ _ _ action => action.Reticent

/-- All actions in the messages are reticent. -/
def Message.ReticentAll : List Message → Prop
  | [] => True
  | m :: ms => m.Reticent ∧ Message.ReticentAll ms

end

namespace Exec

variable {α β : Type}

/-- Nothing that the computation emits reports on grants, whatever it comes to. -/
def Reticent (x : Exec α) : Prop :=
  ∀ c, ∃ es, (x c).2.events = c.events ++ es ∧ es.filter (·.isAboutGrants) = []

namespace Reticent

theorem silent {x : Exec α} (h : ∀ c, (x c).2.events = c.events) : x.Reticent :=
  fun c => ⟨[], by rw [h c, List.append_nil], rfl⟩

theorem write (k : Bytes) (v : Option Bytes) : (Exec.write k v).Reticent := by
  refine silent fun c => ?_
  rw [Exec.write]
  split <;> rfl

theorem emit {e : Event} (h : e.isAboutGrants = false) : (Exec.emit e).Reticent :=
  fun c => ⟨[e], rfl, List.filter_cons_of_neg (by rw [h]; exact Bool.false_ne_true)⟩

theorem bind {x : Exec α} {f : α → Exec β} (hx : x.Reticent) (hf : ∀ a, (f a).Reticent) :
    (x >>= f).Reticent := by
  intro c
  obtain ⟨es, hevents, hnone⟩ := hx c
  rw [bind_apply]
  generalize x c = p at hevents ⊢
  rcases p with ⟨e | a, d⟩
  · exact ⟨es, hevents, hnone⟩
  · obtain ⟨es', hevents', hnone'⟩ := hf a d
    have hevents : d.events = c.events ++ es := hevents
    refine ⟨es ++ es', ?_, by rw [List.filter_append, hnone, hnone', List.append_nil]⟩
    rw [← List.append_assoc, ← hevents]
    exact hevents'

theorem attempt {x : Exec α} (hx : x.Reticent) : x.attempt.Reticent := hx

/-- A branch hands on what has been emitted in it, or nothing. -/
theorem branch {x : Exec α} (hx : x.Reticent) : x.branch.Reticent := by
  intro c
  have hnothing : ∃ es, c.events = c.events ++ es ∧ es.filter (·.isAboutGrants) = [] :=
    ⟨[], (List.append_nil _).symm, rfl⟩
  obtain ⟨es, hevents, hnone⟩ := hx c.child
  rw [Exec.branch]
  generalize x c.child = p at hevents ⊢
  rcases p with ⟨e | a, child⟩
  · exact hnothing
  · dsimp only [Context.merge]
    rcases c.store.flush child.store.writes with ⟨_ | _, s⟩
    · exact hnothing
    · exact ⟨es, congrArg (c.events ++ ·) hevents, hnone⟩

end Reticent

end Exec

namespace Assembly

variable {a : Assembly}

theorem reticent_run (act : Action) (hact : act.Reticent) : (a.run act).Reticent := by
  match act with
  | .done result =>
    rw [run]
    exact .silent fun _ => rfl
  | .get key next =>
    rw [run]
    exact .bind (.attempt (.silent fun _ => rfl)) fun r => reticent_run (next r) (hact r)
  | .write key value next =>
    rw [run]
    exact .bind (.attempt (.write key value)) fun r => reticent_run (next r) (hact r)
  | .scan start next =>
    rw [run]
    exact .bind (.attempt (.silent fun _ => rfl)) fun r => reticent_run (next r) (hact r)
  | .header next =>
    rw [run]
    exact .bind (.silent fun _ => rfl) fun h => reticent_run (next h) (hact h)
  | .emit event next =>
    rw [run]
    exact .bind (.emit hact.1) fun _ => reticent_run next hact.2
  | .events next =>
    rw [run]
    exact .bind (.silent fun _ => rfl) fun es => reticent_run (next es) (hact es)
  | .takeEvents next => exact hact.elim
  | .branch body next =>
    rw [run]
    exact .bind (.attempt (.branch (reticent_run body hact.1))) fun r =>
      reticent_run (next r) (hact.2 r)
  | .dispatch msg next => exact hact.elim

mutual

/-- Of what a message tells, its reports are about grants. -/
theorem Narrates.filter_eq {m : Message} (hm : m.Reticent) {c : Context} {events : List Event}
    (h : a.Narrates m c events) : events.filter (·.isAboutGrants) = m.reports := by
  cases h with
  | grant parties =>
    rw [Message.reports, MsgGrant.touched, parties]
    rfl
  | revoke parties =>
    rw [Message.reports, MsgRevoke.touched, parties]
    rfl
  | batch parsed inner =>
    rw [Message.reports, parsed]
    exact inner.filter_eq hm
  | @foreign url signers validity action c events emitted =>
    obtain ⟨es, hevents, hnone⟩ := reticent_run (a := a) action hm c
    obtain rfl : events = es := List.append_cancel_left (emitted.symm.trans hevents)
    rw [Message.reports]
    exact hnone

theorem NarratesFor.filter_eq {grantee : Address} {ms : List Message}
    (hms : Message.ReticentAll ms) {c : Context} {events : List Event}
    (h : a.NarratesFor grantee ms c events) :
    events.filter (·.isAboutGrants) = Message.reportsFor grantee ms := by
  cases h with
  | nil => rfl
  | own signed tells executed rest =>
    rw [List.filter_append, tells.filter_eq hms.1, rest.filter_eq hms.2, Message.reportsFor,
      Message.needs, Message.soleSigner_eq_ok_iff.2 signed]
    simp
  | delegated signed ne permitted tells executed rest =>
    rw [List.filter_cons_of_pos rfl, List.filter_append, tells.filter_eq hms.1,
      rest.filter_eq hms.2, Message.reportsFor, Message.needs,
      Message.soleSigner_eq_ok_iff.2 signed]
    dsimp only
    rw [if_pos ne]
    rfl

end

theorem NarratesAll.filter_eq {ms : List Message} (hms : ∀ m ∈ ms, m.Reticent) {c : Context}
    {events : List Event} (h : a.NarratesAll ms c events) :
    events.filter (·.isAboutGrants) = ms.flatMap Message.reports := by
  induction h with
  | nil => rfl
  | cons tells executed rest ih =>
    rw [List.filter_append, tells.filter_eq (hms _ List.mem_cons_self),
      ih fun m hm => hms m (List.mem_cons_of_mem _ hm), List.flatMap_cons]

end Assembly

namespace Chain

/-- Where no handler takes events away, the events of a successful transaction tell its messages in
order; where the handlers besides emit no event that reports on grants and dispatch nothing, those
that report on grants are read off the messages. Over every run the counters go up by the
transactions, by those that failed, and by the events of their kinds that successful ones have
told. -/
theorem events_tell_messages :
    (∀ (c : Chain) (tx : List Message), (c.deliverTx tx).1.code = 0 →
      (∀ m ∈ tx, Conduct.keepsEvents.Allows m) →
      ∃ h, c.header = some h ∧
        c.assembly.NarratesAll tx (Context.start h c.view).child (c.deliverTx tx).1.events ∧
        ((∀ m ∈ tx, m.Reticent) →
          (c.deliverTx tx).1.events.filter (·.isAboutGrants) = tx.flatMap Message.reports)) ∧
    ∀ (c : Chain) (calls : List Call), Counted calls (c.run calls).1 c (c.run calls).2 := by
  refine ⟨fun c tx hcode hkept => ?_, fun c calls => c.counted_run calls⟩
  rw [deliverTx] at hcode ⊢
  rcases hrun : c.runTx tx with ⟨e | ⟨data, events⟩, c'⟩
  · rw [hrun] at hcode
    exact absurd hcode e.code_ne_zero
  · obtain ⟨h, child, hheader, hdispatch, rfl, -, -⟩ := runTx_of_ok hrun
    have hchild : (Context.start h c.view).child.Reliable := c.reliable_view
    obtain ⟨events, hnarrates, hevents⟩ := Assembly.exists_narratesAll tx hkept hchild hdispatch
    obtain rfl : child.events = events := hevents
    exact ⟨h, hheader, hnarrates, fun htx => hnarrates.filter_eq htx⟩

/-- A batch with a grant on behalf of another account and a message of the grantee's own, and a
transaction without messages. -/
theorem events_tell_messages_nested :
    let signer : Address := ⟨.replicate 20 1, rfl⟩
    let holder : Address := ⟨.replicate 20 2, rfl⟩
    let other : Address := ⟨.replicate 20 3, rfl⟩
    let held : Grant := ⟨signer, holder, .generic MsgGrant.typeUrl, none⟩
    let c : Chain := ⟨⟨.builtin, (Router.registerAuthz ∅).2.insert "/x" .foreign⟩, true,
      (∅ : Pairs).put held.key.toBytes held.stored, ∅, some ⟨"c", 1, ⟨5⟩⟩, .zero⟩
    let tx : List Message := [.exec holder.toText
      [.grant ⟨signer.toText, other.toText, .generic "/a", none⟩,
        .foreign "/x" [holder] (.ok ()) (.emit ⟨"x", []⟩ (.done (.ok [])))]]
    let calls : List Call := [.deliver tx, .deliver []]
    (c.deliverTx tx).1.events.filter (·.isAboutGrants) =
        [.aboutGrant Event.execKind MsgGrant.typeUrl signer holder,
          .aboutGrant Event.grantKind "/a" signer other] ∧
      (c.run calls).2.metrics.transactions = 2 ∧ (c.run calls).2.metrics.failures = 1 := by
  intro signer holder other held c tx calls
  obtain ⟨hevents, hcount⟩ := events_tell_messages
  have hcode : (c.deliverTx tx).1.code = 0 := by decide +kernel
  have hreticent : ∀ m ∈ tx, m.Reticent := by
    simp [tx, Message.Reticent, Message.ReticentAll, Action.Reticent, Event.isAboutGrants,
      Event.grantKind, Event.revokeKind, Event.execKind]
  have hkept : ∀ m ∈ tx, Conduct.keepsEvents.Allows m := by
    simp [tx, Conduct.Allows, Conduct.AllowsAll, Conduct.AllowsAction, Conduct.keepsEvents]
  have hreports : tx.flatMap Message.reports =
      [.aboutGrant Event.execKind MsgGrant.typeUrl signer holder,
        .aboutGrant Event.grantKind "/a" signer other] := by decide +kernel
  have hfailed : (c.run calls).1.countP Answer.isFailure = 1 := by decide +kernel
  have hzero : c.metrics = .zero := rfl
  have hdeliver : calls.countP Call.isDeliver = 2 := rfl
  clear_value c tx calls
  obtain ⟨h, -, -, hfilter⟩ := hevents c tx hcode hkept
  have hcounted := hcount c calls
  refine ⟨(hfilter hreticent).trans hreports, ?_, ?_⟩
  · rw [hcounted.transactions, hzero, hdeliver]
    rfl
  · rw [hcounted.failures, hzero, hfailed]
    rfl

/-- A handler that takes the events away leaves the grant of a transaction untold and uncounted,
though it emits and dispatches nothing. -/
theorem grant_untold_where_events_are_taken :
    let granter : Address := ⟨.replicate 20 1, rfl⟩
    let grantee : Address := ⟨.replicate 20 2, rfl⟩
    let c : Chain := ⟨⟨.builtin, (Router.registerAuthz ∅).2.insert "/x" .foreign⟩, true, ∅, ∅,
      some ⟨"c", 1, ⟨5⟩⟩, .zero⟩
    let tx : List Message := [.grant ⟨granter.toText, grantee.toText, .generic "/a", none⟩,
      .foreign "/x" [granter] (.ok ()) (.takeEvents fun _ => .done (.ok []))]
    (c.deliverTx tx).1.code = 0 ∧ (c.deliverTx tx).1.events = [] ∧
      (c.deliverTx tx).2.metrics.grants = 0 ∧
      tx.flatMap Message.reports = [.aboutGrant Event.grantKind "/a" granter grantee] := by
  decide +kernel

end Chain

end GrantLedger
