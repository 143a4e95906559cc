import GrantLedger.Proofs.Conduct
import GrantLedger.Proofs.Sweep

/-!
# What lasts of an execution

The journal of an execution is the list of its lasting changes to grants: grants given, revoked and
used, in order, less everything that a failed branch took back. `Assembly.journal` reads it off the
messages, following their execution; `Journaled` says that a journal accounts for an execution: the
events that report on grants are those of the entries, less those that a handler took away, and the
record under every key of the namespace of grants is what replaying the entries makes of the record
before. Every execution of messages whose handlers stay out of the namespace is accounted for by its
journal (`Assembly.journaled_dispatch`). So what holds of every step of a replay holds of every
execution, however its messages nest and whichever of its branches fail.
-/

namespace GrantLedger

/-- A lasting change to grants. -/
inductive Entry where
  | grant (g : Grant)
  | revoke (k : GrantKey)
  /-- A grant is used at a time. -/
  | use (k : GrantKey) (now : Timestamp)
  /-- Grants are loaded from a genesis, one after the other. -/
  | genesis (gs : List Grant)
  /-- The grants that have expired at a time are swept. -/
  | sweep (now : Timestamp)
deriving DecidableEq

/-- The event of some kind about the grant of a key. -/
def GrantKey.event (k : GrantKey) (kind : String) : Event :=
  .aboutGrant kind k.msgTypeUrl k.granter k.grantee

/-- The grant may be stored: its parties differ, and its authorization is built in and valid. -/
structure Grant.Sound (g : Grant) : Prop where
  granter_ne : g.granter ≠ g.grantee
  valid : g.authorization.validate = .ok ()
  builtin : g.authorization.Builtin

namespace Entry

/-- The event that reports an entry, if one does. -/
def events : Entry → List Event
  | grant g => [g.key.event Event.grantKind]
  | revoke k => [k.event Event.revokeKind]
  | use k _ => [k.event Event.execKind]
  | genesis _ => []
  | sweep _ => []

/-- The record under `b` goes from `v` to `w` by an entry. -/
def Step (r : Registry) (b : Bytes) (v w : Option Bytes) : Entry → Prop
  | grant g => g.Sound ∧ w = if g.key.toBytes = b then g.stored else v
  | revoke k => w = if k.toBytes = b then none else v
  | use k now =>
    if k.toBytes = b then
      ∃ g value, v = some value ∧ Grant.decode r k.granter k.grantee value = .ok g ∧
        g.isExpired now = false ∧ g.authorization.Admits k.msgTypeUrl ∧ w = g.storedAfterUse
    else w = v
  | genesis gs =>
    (∀ g ∈ gs, g.Sound) ∧ w = gs.foldl (fun v g => if g.key.toBytes = b then g.stored else v) v
  | sweep now => w = v.filter fun value => !GrantTable.isStale r now value

theorem isAboutGrants_of_mem_events {e : Entry} {event : Event} (h : event ∈ e.events) :
    event.isAboutGrants = true := by
  cases e with
  | grant g =>
    obtain rfl := List.mem_singleton.1 h
    rfl
  | revoke k =>
    obtain rfl := List.mem_singleton.1 h
    rfl
  | use k now =>
    obtain rfl := List.mem_singleton.1 h
    rfl
  | genesis gs => cases h
  | sweep now => cases h

end Entry

/-- The record under `b` goes from one state to another by entries. -/
inductive Replays (r : Registry) (b : Bytes) : List Entry → Option Bytes → Option Bytes → Prop
  | nil (v : Option Bytes) : Replays r b [] v v
  | cons {e : Entry} {es : List Entry} {u v w : Option Bytes} (step : e.Step r b u v)
      (later : Replays r b es v w) : Replays r b (e :: es) u w

namespace Replays

variable {r : Registry} {b : Bytes} {u v w : Option Bytes} {es xs ys : List Entry}

theorem single {e : Entry} (h : e.Step r b v w) : Replays r b [e] v w := .cons h (.nil w)

theorem append (h : Replays r b xs u v) (h' : Replays r b ys v w) : Replays r b (xs ++ ys) u w := by
  induction h with
  | nil => exact h'
  | cons step _ ih => exact .cons step (ih h')

theorem exists_of_append (h : Replays r b (xs ++ ys) u w) :
    ∃ v, Replays r b xs u v ∧ Replays r b ys v w := by
  induction xs generalizing u with
  | nil => exact ⟨u, .nil u, h⟩
  | cons e xs ih =>
    cases h with
    | cons step later =>
      obtain ⟨v, hxs, hys⟩ := ih later
      exact ⟨v, .cons step hxs, hys⟩

/-- What every step keeps, a replay keeps. -/
theorem keeps {P : Option Bytes → Prop} (h : Replays r b es u w)
    (hstep : ∀ (e : Entry) (v w : Option Bytes), P v → e.Step r b v w → P w) (hu : P u) : P w := by
  induction h with
  | nil => exact hu
  | cons step _ ih => exact ih (hstep _ _ _ hu step)

end Replays

/-- The events emitted so far that report on grants. -/
def Context.reports (c : Context) : List Event := c.events.filter (·.isAboutGrants)

theorem Context.reports_adopt (c child : Context) :
    (c.adopt child).reports = c.reports ++ child.reports := List.filter_append _ _

/-- Entries without events have nothing to be reported by. -/
theorem Conduct.Reports.of_no_events {p : Conduct} {entries : List Entry} {c c' : Context}
    (hsame : c'.reports = c.reports) (hnone : entries.flatMap Entry.events = []) :
    p.Reports c'.reports (c.reports ++ entries.flatMap Entry.events) := by
  rw [hsame, hnone, List.append_nil]
  exact .refl p c.reports

/-- The entries account for what happens from `c` to `c'` where handlers keep to `p`. -/
structure Journaled (r : Registry) (p : Conduct) (entries : List Entry) (c c' : Context) :
    Prop where
  /-- It happens in one context. -/
  continues : c.Continues c'
  /-- The entries are reported by their events, if handlers emit none that report on grants. -/
  reports : p.Reticent → p.Reports c'.reports (c.reports ++ entries.flatMap Entry.events)
  /-- The records change by the entries. -/
  replays : ∀ b : Bytes, b.startsWith GrantKey.allRange = true →
    Replays r b entries (c.store.content.get? b) (c'.store.content.get? b)

namespace Journaled

variable {r : Registry} {p : Conduct} {xs ys : List Entry} {c d e : Context}

theorem refl (c : Context) : Journaled r p [] c c where
  continues := .refl c
  reports _ := .of_no_events rfl rfl
  replays _ _ := .nil _

theorem trans (h : Journaled r p xs c d) (h' : Journaled r p ys d e) :
    Journaled r p (xs ++ ys) c e where
  continues := h.continues.trans h'.continues
  reports hp := by
    rw [List.flatMap_append]
    exact (h.reports hp).trans (h'.reports hp)
  replays b hb := (h.replays b hb).append (h'.replays b hb)

theorem reliable (h : Journaled r p xs c d) (hc : c.Reliable) : d.Reliable :=
  h.continues.reliable hc

/-- A write outside the namespace of grants needs no entry. -/
theorem put {k : Bytes} (hk : k.startsWith GrantKey.allRange = false) (v : Option Bytes) :
    Journaled r p [] c (c.put k v) where
  continues := .put c k v
  reports _ := .of_no_events rfl rfl
  replays b hb := by
    have hne : b ≠ k := by
      rintro rfl
      rw [hk] at hb
      cases hb
    rw [Context.content_put, Pairs.get?_put_ne _ _ hne]
    exact .nil _

theorem emit {event : Event} (h : p.emits event) : Journaled r p [] c (c.emit event) where
  continues := .emit c event
  reports hp := by
    have hnone : [event].filter (·.isAboutGrants) = [] :=
      List.filter_cons_of_neg (by rw [hp event h]; exact Bool.false_ne_true)
    refine .of_no_events ?_ rfl
    rw [Context.reports, Context.events_emit, List.filter_append, hnone, List.append_nil]
    rfl
  replays _ _ := .nil _

/-- Whoever may take events away leaves nothing reported. -/
theorem dropEvents (h : p.takes) : Journaled r p [] c c.dropEvents where
  continues := .dropEvents c
  reports _ := ⟨List.nil_sublist _, fun hkept => absurd h hkept⟩
  replays _ _ := .nil _

/-- What a successful branch did, its context has done. -/
theorem adopt {child : Context} (h : Journaled r p xs c.child child) :
    Journaled r p xs c (c.adopt child) where
  continues := .adopt c child
  reports hp := by
    rw [Context.reports_adopt]
    exact (Conduct.Reports.refl p _).append (h.reports hp)
  replays b hb := by
    rw [h.continues.content_adopt]
    exact h.replays b hb

/-- An entry that is reported by its event accounts for a change of one record. -/
theorem of_entry {entry : Entry} {event : Event} {c c' : Context} (hevents : entry.events = [event])
    (hcontinues : c.Continues c') (hsame : c'.events = c.events)
    (hstep : ∀ b, entry.Step r b (c.store.content.get? b) (c'.store.content.get? b)) :
    Journaled r p [entry] c (c'.emit event) where
  continues := hcontinues.trans (.emit c' event)
  reports _ := by
    have hmem : event ∈ entry.events := hevents ▸ List.mem_singleton.2 rfl
    have habout := Entry.isAboutGrants_of_mem_events hmem
    have hreports : (c'.emit event).reports = c.reports ++ [event] := by
      rw [Context.reports, Context.events_emit, hsame, List.filter_append,
        List.filter_cons_of_pos habout]
      rfl
    rw [hreports, List.flatMap_singleton, hevents]
    exact .refl p _
  replays b _ := .single (hstep b)

end Journaled

/-! ## The keeper -/

namespace Keeper

variable {r : Registry} {p : Conduct} (hr : r.Builtin) {c c' : Context} (hc : c.Reliable)

include hr in
theorem sound_of_grantFault? {granter grantee : Address} {authorization : Authorization}
    {expiration : Option Timestamp} {now : Timestamp}
    (h : grantFault? r granter grantee authorization expiration now = none) :
    Grant.Sound ⟨granter, grantee, authorization, expiration⟩ where
  granter_ne := by
    intro hself
    unfold grantFault? at h
    rw [if_pos hself] at h
    cases h
  valid := by
    unfold grantFault? at h
    split at h
    · cases h
    · split at h
      · cases h
      · assumption
  builtin := builtin_of_grantFault? hr h

include hr hc in
theorem journaled_grant {g : Grant}
    (h : grant r g.granter g.grantee g.authorization g.expiration c = (.ok (), c')) :
    Journaled r p [.grant g] c c' := by
  rw [grant_eq hr hc] at h
  split at h
  · cases h
  · next hfault =>
    cases h
    refine .of_entry rfl (.put c _ _) rfl fun b => ⟨sound_of_grantFault? hr hfault, ?_⟩
    rw [Context.content_put, Pairs.get?_put]
    exact if_congr eq_comm rfl rfl

include hc in
theorem journaled_revoke {k : GrantKey}
    (h : revoke k.granter k.grantee k.msgTypeUrl c = (.ok (), c')) :
    Journaled r p [.revoke k] c c' := by
  rw [revoke_eq hc] at h
  split at h
  · cases h
    refine .of_entry rfl (.put c _ _) rfl fun b => ?_
    rw [Context.content_put, Pairs.get?_put]
    exact if_congr eq_comm rfl rfl
  · cases h

include hr hc in
theorem journaled_authorize {k : GrantKey}
    (h : authorize r k.grantee k.granter k.msgTypeUrl c = (.ok (), c')) :
    Journaled r p [.use k c.header.time] c c' := by
  obtain ⟨g, hrec, hexp, hadmits, rfl⟩ := (authorize_eq_ok_iff hr hc).1 h
  refine .of_entry rfl (c.continues_use k g) (c.events_use k g) fun b => ?_
  rw [Entry.Step, Context.get?_content_use hr hrec]
  split
  · next hb =>
    obtain ⟨value, hget, hdec⟩ := GrantTable.recordAt_eq_some_iff.1 hrec
    exact ⟨g, value, hb ▸ hget, hdec, hexp, hadmits, if_pos hb.symm⟩
  · next hb => exact if_neg (Ne.symm hb)

end Keeper

/-! ## Messages -/

/-- The entry is of a kind that messages make. -/
def Entry.FromMessage : Entry → Prop
  | grant _ => True
  | revoke _ => True
  | use .. => True
  | genesis _ => False
  | sweep _ => False

/-- The entry of a message that gives a grant. -/
def MsgGrant.entries (m : MsgGrant) : List Entry :=
  match m.parties with
  | .ok (granter, grantee) => [.grant ⟨granter, grantee, m.authorization, m.expiration⟩]
  | .error _ => []

/-- The entry of a message that revokes a grant. -/
def MsgRevoke.entries (m : MsgRevoke) : List Entry :=
  match m.parties with
  | .ok (granter, grantee) => [.revoke ⟨grantee, granter, m.msgTypeUrl⟩]
  | .error _ => []

/-- The entry of a message that `grantee` may execute: it uses a grant if another account signs
it. -/
def Message.permitEntries (m : Message) (grantee : Address) (now : Timestamp) : List Entry :=
  match m.soleSigner with
  | .ok granter => if granter ≠ grantee then [.use ⟨grantee, granter, m.typeUrl⟩ now] else []
  | .error _ => []

/-- Entries last if what made them succeeds. -/
def Entry.lasting {α : Type} (result : Except Error α) (entries : List Entry) : List Entry :=
  match result with
  | .ok _ => entries
  | .error _ => []

namespace Assembly

mutual

/-- The lasting changes of executing a message in a context. -/
def journal (a : Assembly) (m : Message) (c : Context) : List Entry :=
  match m with
  | .grant msg => Entry.lasting (a.dispatch (.grant msg) c).1 msg.entries
  | .revoke msg => Entry.lasting (a.dispatch (.revoke msg) c).1 msg.entries
  | .exec grantee msgs =>
    Entry.lasting (a.dispatch (.exec grantee msgs) c).1 <|
      match Address.parse grantee with
      | .ok grantee => a.journalFor grantee msgs c.child
      | .error _ => []
  | .foreign url _ _ action =>
    if a.router.get? url = some .foreign then a.journalRun action c else []

/-- The lasting changes of executing messages for `grantee`, provided that all of them succeed. -/
def journalFor (a : Assembly) (grantee : Address) (msgs : List Message) (c : Context) :
    List Entry :=
  match msgs with
  | [] => []
  | m :: ms =>
    let permitted := (a.permit grantee m c).2
    m.permitEntries grantee c.header.time ++ a.journal m permitted ++
      a.journalFor grantee ms (a.dispatch m permitted).2

/-- The lasting changes of taking an action. -/
def journalRun (a : Assembly) (action : Action) (c : Context) : List Entry :=
  match action with
  | .done _ => []
  | .get key next => a.journalRun (next (Exec.get key c).1) c
  | .write key value next =>
    a.journalRun (next (Exec.write key value c).1) (Exec.write key value c).2
  | .scan start next => a.journalRun (next (Exec.scan start c).1) c
  | .header next => a.journalRun (next c.header) c
  | .emit event next => a.journalRun next (c.emit event)
  | .events next => a.journalRun (next c.events) c
  | .takeEvents next => a.journalRun (next c.events) c.dropEvents
  | .branch body next =>
    let (result, after) := Exec.branch (a.run body) c
    Entry.lasting result (a.journalRun body c.child) ++ a.journalRun (next result) after
  | .dispatch msg next =>
    let (result, after) := a.dispatch msg c
    a.journal msg c ++ a.journalRun (next result) after

end

/-- The lasting changes of dispatching messages in order, provided that all of them succeed. -/
def journalAll (a : Assembly) : List Message → Context → List Entry
  | [], _ => []
  | m :: ms, c => a.journal m c ++ a.journalAll ms (a.dispatch m c).2

/-! ### Messages neither load nor sweep -/

end Assembly

theorem Entry.mem_of_mem_lasting {α : Type} {result : Except Error α} {entries : List Entry}
    {e : Entry} (h : e ∈ lasting result entries) : e ∈ entries := by
  cases result with
  | ok _ => exact h
  | error _ => cases h

theorem MsgGrant.fromMessage_of_mem_entries {m : MsgGrant} {e : Entry} (h : e ∈ m.entries) :
    e.FromMessage := by
  rw [entries] at h
  split at h
  · obtain rfl := List.mem_singleton.1 h
    trivial
  · cases h

theorem MsgRevoke.fromMessage_of_mem_entries {m : MsgRevoke} {e : Entry} (h : e ∈ m.entries) :
    e.FromMessage := by
  rw [entries] at h
  split at h
  · obtain rfl := List.mem_singleton.1 h
    trivial
  · cases h

theorem Message.fromMessage_of_mem_permitEntries {m : Message} {grantee : Address}
    {now : Timestamp} {e : Entry} (h : e ∈ m.permitEntries grantee now) : e.FromMessage := by
  rw [permitEntries] at h
  split at h
  · split at h
    · obtain rfl := List.mem_singleton.1 h
      trivial
    · cases h
  · cases h

namespace Assembly

mutual

theorem fromMessage_of_mem_journal (a : Assembly) (m : Message) {c : Context} {e : Entry}
    (h : e ∈ a.journal m c) : e.FromMessage := by
  match m with
  | .grant msg =>
    rw [journal] at h
    exact MsgGrant.fromMessage_of_mem_entries (Entry.mem_of_mem_lasting h)
  | .revoke msg =>
    rw [journal] at h
    exact MsgRevoke.fromMessage_of_mem_entries (Entry.mem_of_mem_lasting h)
  | .exec text msgs =>
    rw [journal] at h
    have hmem := Entry.mem_of_mem_lasting h
    split at hmem
    · exact fromMessage_of_mem_journalFor a _ msgs hmem
    · cases hmem
  | .foreign url signers validity action =>
    rw [journal] at h
    split at h
    · exact fromMessage_of_mem_journalRun a action h
    · cases h

theorem fromMessage_of_mem_journalFor (a : Assembly) (grantee : Address) (ms : List Message)
    {c : Context} {e : Entry} (h : e ∈ a.journalFor grantee ms c) : e.FromMessage := by
  match ms with
  | [] =>
    rw [journalFor] at h
    cases h
  | m :: ms =>
    rw [journalFor] at h
    rcases List.mem_append.1 h with hmem | hmem
    · rcases List.mem_append.1 hmem with hmem | hmem
      · exact Message.fromMessage_of_mem_permitEntries hmem
      · exact fromMessage_of_mem_journal a m hmem
    · exact fromMessage_of_mem_journalFor a grantee ms hmem

theorem fromMessage_of_mem_journalRun (a : Assembly) (act : Action) {c : Context} {e : Entry}
    (h : e ∈ a.journalRun act c) : e.FromMessage := by
  match act with
  | .done result =>
    rw [journalRun] at h
    cases h
  | .get key next =>
    rw [journalRun] at h
    exact fromMessage_of_mem_journalRun a (next _) h
  | .write key value next =>
    rw [journalRun] at h
    exact fromMessage_of_mem_journalRun a (next _) h
  | .scan start next =>
    rw [journalRun] at h
    exact fromMessage_of_mem_journalRun a (next _) h
  | .header next =>
    rw [journalRun] at h
    exact fromMessage_of_mem_journalRun a (next _) h
  | .emit event next =>
    rw [journalRun] at h
    exact fromMessage_of_mem_journalRun a next h
  | .events next =>
    rw [journalRun] at h
    exact fromMessage_of_mem_journalRun a (next _) h
  | .takeEvents next =>
    rw [journalRun] at h
    exact fromMessage_of_mem_journalRun a (next _) h
  | .branch body next =>
    rw [journalRun] at h
    rcases List.mem_append.1 h with hmem | hmem
    · exact fromMessage_of_mem_journalRun a body (Entry.mem_of_mem_lasting hmem)
    · exact fromMessage_of_mem_journalRun a (next _) hmem
  | .dispatch msg next =>
    rw [journalRun] at h
    rcases List.mem_append.1 h with hmem | hmem
    · exact fromMessage_of_mem_journal a msg hmem
    · exact fromMessage_of_mem_journalRun a (next _) hmem

end

theorem fromMessage_of_mem_journalAll (a : Assembly) {ms : List Message} {c : Context} {e : Entry}
    (h : e ∈ a.journalAll ms c) : e.FromMessage := by
  induction ms generalizing c with
  | nil => cases h
  | cons m ms ih =>
    rcases List.mem_append.1 h with hmem | hmem
    · exact fromMessage_of_mem_journal a m hmem
    · exact ih hmem

/-! ### The journal accounts for the execution -/

section Journaled

variable {a : Assembly} {p : Conduct}

theorem journaled_handleGrant (hr : a.registry.Builtin) (m : MsgGrant) {c : Context}
    (hc : c.Reliable) :
    Journaled a.registry p (Entry.lasting (a.handleGrant m c).1 m.entries) c
      (a.handleGrant m c).2 := by
  rw [handleGrant, MsgGrant.entries]
  cases hparties : m.parties with
  | error e =>
    rw [Exec.bind_error (Exec.ofExcept_apply _ c)]
    exact .refl c
  | ok parties =>
    obtain ⟨granter, grantee⟩ := parties
    rw [Exec.bind_ok (Exec.ofExcept_apply _ c)]
    dsimp only
    rcases hgrant : Keeper.grant a.registry granter grantee m.authorization m.expiration c with
      ⟨e | u, c'⟩
    · rw [Exec.bind_error hgrant]
      obtain rfl := Keeper.grant_of_error hr hc hgrant
      exact .refl c'
    · rw [Exec.bind_ok hgrant]
      exact Keeper.journaled_grant (g := ⟨granter, grantee, m.authorization, m.expiration⟩) hr hc
        hgrant

theorem journaled_handleRevoke (r : Registry) (m : MsgRevoke) {c : Context} (hc : c.Reliable) :
    Journaled r p (Entry.lasting (handleRevoke m c).1 m.entries) c
      (handleRevoke m c).2 := by
  rw [handleRevoke, MsgRevoke.entries]
  cases hparties : m.parties with
  | error e =>
    rw [Exec.bind_error (Exec.ofExcept_apply _ c)]
    exact .refl c
  | ok parties =>
    obtain ⟨granter, grantee⟩ := parties
    rw [Exec.bind_ok (Exec.ofExcept_apply _ c)]
    dsimp only
    rcases hrevoke : Keeper.revoke granter grantee m.msgTypeUrl c with ⟨e | u, c'⟩
    · rw [Exec.bind_error hrevoke]
      obtain rfl := Keeper.revoke_of_error hc hrevoke
      exact .refl c'
    · rw [Exec.bind_ok hrevoke]
      exact Keeper.journaled_revoke (k := ⟨grantee, granter, m.msgTypeUrl⟩) hc hrevoke

theorem journaled_permit (hr : a.registry.Builtin) (grantee : Address) (m : Message)
    {c c' : Context} (hc : c.Reliable) (h : a.permit grantee m c = (.ok (), c')) :
    Journaled a.registry p (m.permitEntries grantee c.header.time) c c' := by
  rw [permit] at h
  rw [Message.permitEntries]
  cases hsigner : m.soleSigner with
  | error e =>
    rw [hsigner] at h
    cases h
  | ok granter =>
    rw [hsigner, Exec.bind_ok (Exec.ofExcept_apply _ c)] at h
    dsimp only
    split
    · next hne =>
      rw [if_pos hne] at h
      exact Keeper.journaled_authorize (k := ⟨grantee, granter, m.typeUrl⟩) hr hc h
    · next heq =>
      rw [if_neg heq] at h
      cases h
      exact .refl c

mutual

/-- The journal of a message accounts for its execution, whatever it comes to. -/
theorem journaled_dispatch (hr : a.registry.Builtin) (hp : p.OutsideGrants) (m : Message)
    (hm : p.Allows m) {c : Context} (hc : c.Reliable) :
    Journaled a.registry p (a.journal m c) c (a.dispatch m c).2 := by
  match m with
  | .grant g =>
    rw [journal, dispatch]
    rcases a.router.get? (Message.grant g).typeUrl with _ | _ | _
    · exact .refl c
    · exact journaled_handleGrant hr g hc
    · exact .refl c
  | .revoke g =>
    rw [journal, dispatch]
    rcases a.router.get? (Message.revoke g).typeUrl with _ | _ | _
    · exact .refl c
    · exact journaled_handleRevoke a.registry g hc
    · exact .refl c
  | .exec grantee msgs =>
    rw [journal, dispatch]
    rcases a.router.get? (Message.exec grantee msgs).typeUrl with _ | _ | _
    · exact .refl c
    · dsimp only
      cases hparse : Address.parse grantee with
      | error e =>
        rw [Except.mapError, Exec.bind_error (Exec.ofExcept_apply _ c)]
        exact .refl c
      | ok grantee =>
        rw [Except.mapError, Exec.bind_ok (Exec.ofExcept_apply _ c)]
        have hbranch := Exec.branch_eq hc (a.dispatchFor grantee msgs)
        rcases hfor : a.dispatchFor grantee msgs c.child with ⟨e | results, child⟩
        · -- The branch is dropped, with all that the messages before the failure did.
          rw [hfor] at hbranch
          rw [Exec.bind_error hbranch]
          exact .refl c
        · rw [hfor] at hbranch
          rw [Exec.bind_ok hbranch]
          have hchild : c.child.Reliable := hc
          exact (journaled_dispatchFor hr hp grantee msgs hm hchild hfor).adopt
    · exact .refl c
  | .foreign url signers validity action =>
    rw [journal, dispatch, Message.typeUrl]
    rcases a.router.get? url with _ | _ | _
    · exact .refl c
    · exact .refl c
    · exact journaled_run hr hp action hm hc

/-- The journal of a batch accounts for its execution if all of it succeeds. One that fails half way
leaves what its first messages did to the branch around it. -/
theorem journaled_dispatchFor (hr : a.registry.Builtin) (hp : p.OutsideGrants)
    (grantee : Address) (ms : List Message) (hms : p.AllowsAll ms) {c c' : Context}
    (hc : c.Reliable) {results : List Bytes}
    (h : a.dispatchFor grantee ms c = (.ok results, c')) :
    Journaled a.registry p (a.journalFor grantee ms c) c c' := by
  match ms with
  | [] =>
    rw [dispatchFor] at h
    cases h
    rw [journalFor]
    exact .refl c
  | m :: ms =>
    rw [dispatchFor] at h
    obtain ⟨u, c₁, hpermit, h⟩ := Exec.bind_eq_ok_iff.1 h
    obtain ⟨result, c₂, hdispatch, h⟩ := Exec.bind_eq_ok_iff.1 h
    obtain ⟨results', c₃, hlater, h⟩ := Exec.bind_eq_ok_iff.1 h
    cases h
    have hpermitted := journaled_permit (p := p) hr grantee m hc hpermit
    have hc₁ := hpermitted.reliable hc
    have hdispatched := journaled_dispatch hr hp m hms.1 hc₁
    rw [hdispatch] at hdispatched
    have hrest := journaled_dispatchFor hr hp grantee ms hms.2 (hdispatched.reliable hc₁) hlater
    rw [journalFor, hpermit]
    dsimp only
    rw [hdispatch]
    exact (hpermitted.trans hdispatched).trans hrest

/-- The journal of an action accounts for taking it, whatever it comes to. -/
theorem journaled_run (hr : a.registry.Builtin) (hp : p.OutsideGrants) (act : Action)
    (hact : p.AllowsAction act) {c : Context} (hc : c.Reliable) :
    Journaled a.registry p (a.journalRun act c) c (a.run act c).2 := by
  match act with
  | .done result =>
    rw [run, journalRun]
    exact .refl c
  | .get key next =>
    rw [run, journalRun, Exec.bind_ok (Exec.attempt_apply _ c)]
    exact journaled_run hr hp (next _) (hact _) hc
  | .write key value next =>
    rw [run, journalRun, Exec.bind_ok (Exec.attempt_apply _ c), Exec.write_eq hc]
    have hput : Journaled a.registry p [] c (c.put key value) := .put (hp key hact.1) value
    exact hput.trans (journaled_run hr hp (next _) (hact.2 _) (hput.reliable hc))
  | .scan start next =>
    rw [run, journalRun, Exec.bind_ok (Exec.attempt_apply _ c)]
    exact journaled_run hr hp (next _) (hact _) hc
  | .header next =>
    rw [run, journalRun, Exec.bind_ok (x := Exec.header) (c := c) rfl]
    exact journaled_run hr hp (next _) (hact _) hc
  | .emit event next =>
    rw [run, journalRun, Exec.bind_ok (Exec.emit_eq event c)]
    have hemit : Journaled a.registry p [] c (c.emit event) := .emit hact.1
    exact hemit.trans (journaled_run hr hp next hact.2 (hemit.reliable hc))
  | .events next =>
    rw [run, journalRun, Exec.bind_ok (Exec.events_eq c)]
    exact journaled_run hr hp (next _) (hact _) hc
  | .takeEvents next =>
    rw [run, journalRun, Exec.bind_ok (Exec.takeEvents_eq c)]
    have htake : Journaled a.registry p [] c c.dropEvents := .dropEvents hact.1
    exact htake.trans (journaled_run hr hp (next _) (hact.2 _) (htake.reliable hc))
  | .branch body next =>
    rw [run, journalRun, Exec.bind_ok (Exec.attempt_apply _ c), Exec.branch_eq hc]
    have hchild : c.child.Reliable := hc
    have hbody := journaled_run hr hp body hact.1 hchild
    rcases hrun : a.run body c.child with ⟨e | result, child⟩
    · exact journaled_run hr hp (next _) (hact.2 _) hc
    · rw [hrun] at hbody
      exact hbody.adopt.trans (journaled_run hr hp (next _) (hact.2 _) (hbody.adopt.reliable hc))
  | .dispatch msg next =>
    rw [run, journalRun, Exec.bind_ok (Exec.attempt_apply _ c)]
    have hmsg := journaled_dispatch hr hp msg hact.1 hc
    exact hmsg.trans (journaled_run hr hp (next _) (hact.2 _) (hmsg.reliable hc))

end

/-- The journal of messages accounts for dispatching them in order if all of them succeed. -/
theorem journaled_dispatchAll (hr : a.registry.Builtin) (hp : p.OutsideGrants)
    {ms : List Message} (hms : p.AllowsAll ms) {c c' : Context}
    (hc : c.Reliable) {results : List Bytes} (h : a.dispatchAll ms c = (.ok results, c')) :
    Journaled a.registry p (a.journalAll ms c) c c' := by
  induction ms generalizing c results with
  | nil =>
    rw [dispatchAll] at h
    cases h
    exact .refl _
  | cons m ms ih =>
    rw [dispatchAll] at h
    obtain ⟨result, c₁, hdispatch, h⟩ := Exec.bind_eq_ok_iff.1 h
    obtain ⟨results', c₂, hlater, h⟩ := Exec.bind_eq_ok_iff.1 h
    cases h
    have hdispatched := journaled_dispatch hr hp m hms.1 hc
    rw [journalAll]
    rw [hdispatch] at hdispatched ⊢
    exact hdispatched.trans (ih hms.2 (hdispatched.reliable hc) hlater)

end Journaled

end Assembly

end GrantLedger
