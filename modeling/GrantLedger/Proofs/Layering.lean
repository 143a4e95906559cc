import GrantLedger.Proofs.Footprints

/-!
# Executions cannot tell how their view is layered

What an execution comes to depends on the header, on what the store holds and on the events emitted
before it, and on nothing else: how its view is split over a stack of buffers does not show
(`Exec.Extensional`). This holds of every message, whatever its handlers do
(`Assembly.extensional_dispatch`). A branch begins without events, and so does a batch; what happens
in one does not depend on what was emitted around it. So if no handler asks for the events of the
context in which a message is executed (`Message.Deaf`), the execution depends on the store alone
(`Assembly.confined_dispatch_of_deaf`), whatever the handlers in its branches and batches ask for.
-/

namespace GrantLedger

namespace Context

/-- The context after some writes, with other events. -/
def become (c : Context) (w : WriteSet) (es : List Event) : Context :=
  { c with store := c.store.putAll w.entries, events := es }

theorem become_empty (c : Context) : c.become ∅ c.events = c := rfl

theorem extend_eq_become (c : Context) (w : WriteSet) (es : List Event) :
    c.extend w es = c.become w (c.events ++ es) := rfl

theorem become_become (c : Context) (w later : WriteSet) (es es' : List Event) :
    (c.become w es).become later es' = c.become (w.followedBy later) es' := by
  simp only [become, Store.putAll_putAll]

theorem Shows.become {K : Bytes → Prop} {h : BlockHeader} {m : Pairs} {c : Context}
    (hc : c.Shows K h m) (w : WriteSet) (es : List Event) :
    (c.become w es).Shows K h (m.update w.entries) :=
  have hextend := hc.extend w []
  ⟨hextend.reliable, hextend.header_eq, hextend.get?_eq⟩

/-- Adopting a branch that became something does to the context what was done to the branch. -/
theorem adopt_become (c : Context) (w : WriteSet) (es : List Event) :
    c.adopt (c.child.become w es) = c.extend w es := c.adopt_extend w es

end Context

namespace Exec

variable {α β : Type}

/-- What the computation comes to depends on nothing but the header, what the store holds, and the
events emitted before it. -/
def Extensional (x : Exec α) : Prop :=
  ∀ h m es, ∃ (result : Except Error α) (w : WriteSet) (es' : List Event),
    ∀ c : Context, c.Shows (fun _ => True) h m → c.events = es → x c = (result, c.become w es')

/-- What is confined to the store adds to the events before it. -/
theorem Confined.prefix_events {x : Exec α} (hx : x.Confined fun _ => True) {c : Context}
    (hc : c.Reliable) : c.events <+: (x c).2.events := by
  obtain ⟨e, -, hon⟩ := hx c.header c.store.content
  rw [hon c (.self _ hc)]
  exact List.prefix_append c.events e.events

namespace Extensional

/-- What does not depend on the events emitted before it adds to them. -/
theorem of_confined {x : Exec α} (hx : x.Confined fun _ => True) : x.Extensional := by
  intro h m es
  obtain ⟨e, -, hon⟩ := hx h m
  refine ⟨e.result, e.writes, es ++ e.events, fun c hc hes => ?_⟩
  rw [hon c hc, Effect.on, Context.extend_eq_become, hes]

theorem events : Exec.events.Extensional := by
  intro h m es
  refine ⟨.ok es, ∅, es, fun c _ hes => ?_⟩
  rw [events_eq, ← hes, Context.become_empty]

theorem takeEvents : Exec.takeEvents.Extensional := by
  intro h m es
  refine ⟨.ok es, ∅, [], fun c _ hes => ?_⟩
  rw [takeEvents_eq, hes]
  rfl

theorem bind {x : Exec α} {f : α → Exec β} (hx : x.Extensional) (hf : ∀ a, (f a).Extensional) :
    (x >>= f).Extensional := by
  intro h m es
  obtain ⟨result, w, es', hon⟩ := hx h m es
  cases result with
  | error e => exact ⟨.error e, w, es', fun c hc hes => bind_error (hon c hc hes)⟩
  | ok a =>
    obtain ⟨result', w', es'', hon'⟩ := hf a h (m.update w.entries) es'
    refine ⟨result', w.followedBy w', es'', fun c hc hes => ?_⟩
    rw [bind_ok (hon c hc hes), hon' _ (hc.become w es') rfl, Context.become_become]

theorem attempt {x : Exec α} (hx : x.Extensional) : x.attempt.Extensional := by
  intro h m es
  obtain ⟨result, w, es', hon⟩ := hx h m es
  refine ⟨.ok result, w, es', fun c hc hes => ?_⟩
  rw [attempt_apply, hon c hc hes]

/-- A branch begins without events, and so comes to the same whatever has been emitted before. -/
theorem confined_branch {x : Exec α} (hx : x.Extensional) : x.branch.Confined fun _ => True := by
  intro h m
  obtain ⟨result, w, es, hon⟩ := hx h m []
  cases result with
  | error e =>
    refine ⟨⟨.error e, ∅, []⟩, fun _ _ _ => trivial, fun c hc => ?_⟩
    rw [branch_eq hc.reliable, hon _ hc.child rfl, Effect.on, Context.extend_empty]
  | ok a =>
    refine ⟨⟨.ok a, w, es⟩, fun _ _ _ => trivial, fun c hc => ?_⟩
    rw [branch_eq hc.reliable, hon _ hc.child rfl, Effect.on]
    dsimp only
    rw [Context.adopt_become]

theorem branch {x : Exec α} (hx : x.Extensional) : x.branch.Extensional :=
  of_confined hx.confined_branch

/-- A branch in a branch of its own comes to the same as the branch, failure or not. -/
theorem branch_branch {x : Exec α} (hx : x.Extensional) {c : Context} (hc : c.Reliable) :
    x.branch.branch c = x.branch c := by
  have hchild : c.child.Reliable := hc
  have hself := Context.Shows.self (fun _ => True) hc
  obtain ⟨result, w, es, hon⟩ := hx c.header c.store.content []
  rw [branch_eq hc, branch_eq hc, branch_eq hchild, hon _ hself.child rfl,
    hon _ hself.child.child rfl]
  cases result with
  | error e => rfl
  | ok a =>
    dsimp only
    rw [Context.adopt_become, Context.adopt_become, Context.adopt_extend]

end Extensional

end Exec

/-! ## Messages -/

namespace Assembly

variable (a : Assembly)

theorem confined_permit_store (grantee : Address) (m : Message) :
    (a.permit grantee m).Confined fun _ => True :=
  confined_permit (fun _ _ => trivial) (.inr fun _ => trivial)

mutual

/-- Executing a message cannot tell how its view is layered, whatever its handlers do. -/
theorem extensional_dispatch (m : Message) : (a.dispatch m).Extensional := by
  match m with
  | .grant g => exact .of_confined (confined_dispatch_grant fun _ _ => trivial)
  | .revoke g => exact .of_confined (confined_dispatch_revoke fun _ _ => trivial)
  | .exec text msgs =>
    exact .of_confined (confined_dispatch_exec fun grantee _ =>
      (extensional_dispatchFor grantee msgs).confined_branch)
  | .foreign url signers validity action =>
    rw [dispatch]
    split
    · exact .of_confined (.throw _)
    · exact .of_confined (.throw _)
    · exact extensional_run action

theorem extensional_dispatchFor (grantee : Address) (ms : List Message) :
    (a.dispatchFor grantee ms).Extensional := by
  match ms with
  | [] =>
    rw [dispatchFor]
    exact .of_confined (.pure _)
  | m :: ms =>
    rw [dispatchFor]
    exact .bind (.of_confined (a.confined_permit_store grantee m)) fun _ =>
      .bind (extensional_dispatch m) fun _ => .bind (extensional_dispatchFor grantee ms) fun _ =>
        .of_confined (.pure _)

theorem extensional_run (act : Action) : (a.run act).Extensional := by
  match act with
  | .done result =>
    rw [run]
    exact .of_confined (.ofExcept result)
  | .get key next =>
    rw [run]
    exact .bind (.of_confined (.attempt (.get trivial))) fun r => extensional_run (next r)
  | .write key value next =>
    rw [run]
    exact .bind (.of_confined (.attempt (.write trivial value))) fun r => extensional_run (next r)
  | .scan start next =>
    rw [run]
    exact .bind (.of_confined (.attempt (.scan fun _ _ => trivial))) fun r =>
      extensional_run (next r)
  | .header next =>
    rw [run]
    exact .bind (.of_confined .header) fun h => extensional_run (next h)
  | .emit event next =>
    rw [run]
    exact .bind (.of_confined (.emit event)) fun _ => extensional_run next
  | .events next =>
    rw [run]
    exact .bind .events fun es => extensional_run (next es)
  | .takeEvents next =>
    rw [run]
    exact .bind .takeEvents fun es => extensional_run (next es)
  | .branch body next =>
    rw [run]
    exact .bind (.attempt (.branch (extensional_run body))) fun r => extensional_run (next r)
  | .dispatch msg next =>
    rw [run]
    exact .bind (.attempt (extensional_dispatch msg)) fun r => extensional_run (next r)

end

end Assembly

/-! ## Messages that do not ask for events -/

mutual

/-- Executing the message neither reads nor takes events of the context in which it is executed,
whatever the steps of its handler return. A batch is executed in a context of its own. -/
def Message.Deaf : Message → Prop
  | .foreign _ _ _ action => action.Deaf
  | _ => True

/-- The action neither reads nor takes events of its context. A branch is a context of its own. -/
def Action.Deaf : Action → Prop
  | .done _ => True
  | .get _ next => ∀ r, (next r).Deaf
  | .write _ _ next => ∀ r, (next r).Deaf
  | .scan _ next => ∀ r, (next r).Deaf
  | .header next => ∀ h, (next h).Deaf
  | .emit _ next => next.Deaf
  | .events _ => False
  | .takeEvents _ => False
  | .branch _ next => ∀ r, (next r).Deaf
  | .dispatch msg next => msg.Deaf ∧ ∀ r, (next r).Deaf

end

namespace Assembly

variable (a : Assembly)

mutual

/-- Executing a message that does not ask for events depends on the store alone. -/
theorem confined_dispatch_of_deaf (m : Message) (hm : m.Deaf) :
    (a.dispatch m).Confined fun _ => True := by
  match m with
  | .grant g => exact confined_dispatch_grant fun _ _ => trivial
  | .revoke g => exact confined_dispatch_revoke fun _ _ => trivial
  | .exec text msgs =>
    exact confined_dispatch_exec fun grantee _ =>
      (a.extensional_dispatchFor grantee msgs).confined_branch
  | .foreign url signers validity action =>
    rw [dispatch]
    split
    · exact .throw _
    · exact .throw _
    · exact confined_run_of_deaf action hm

theorem confined_run_of_deaf (act : Action) (hact : act.Deaf) :
    (a.run act).Confined fun _ => True := by
  match act with
  | .done result =>
    rw [run]
    exact .ofExcept result
  | .get key next =>
    rw [run]
    exact .bind (.attempt (.get trivial)) fun r => confined_run_of_deaf (next r) (hact r)
  | .write key value next =>
    rw [run]
    exact .bind (.attempt (.write trivial value)) fun r => confined_run_of_deaf (next r) (hact r)
  | .scan start next =>
    rw [run]
    exact .bind (.attempt (.scan fun _ _ => trivial)) fun r =>
      confined_run_of_deaf (next r) (hact r)
  | .header next =>
    rw [run]
    exact .bind .header fun h => confined_run_of_deaf (next h) (hact h)
  | .emit event next =>
    rw [run]
    exact .bind (.emit event) fun _ => confined_run_of_deaf next hact
  | .events next => exact hact.elim
  | .takeEvents next => exact hact.elim
  | .branch body next =>
    rw [run]
    exact .bind (.attempt (a.extensional_run body).confined_branch) fun r =>
      confined_run_of_deaf (next r) (hact r)
  | .dispatch msg next =>
    rw [run]
    exact .bind (.attempt (confined_dispatch_of_deaf msg hact.1)) fun r =>
      confined_run_of_deaf (next r) (hact.2 r)

end

theorem confined_dispatchFor_of_deaf (grantee : Address) {ms : List Message}
    (hms : ∀ m ∈ ms, m.Deaf) : (a.dispatchFor grantee ms).Confined fun _ => True := by
  induction ms with
  | nil =>
    rw [dispatchFor]
    exact .pure _
  | cons m ms ih =>
    rw [dispatchFor]
    have hdispatch := a.confined_dispatch_of_deaf m (hms m List.mem_cons_self)
    have hlater := ih fun m' hm' => hms m' (List.mem_cons_of_mem m hm')
    exact .bind (a.confined_permit_store grantee m) fun _ => .bind hdispatch fun _ =>
      .bind hlater fun _ => .pure _

end Assembly

end GrantLedger
