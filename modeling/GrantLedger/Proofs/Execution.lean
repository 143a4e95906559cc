import Mathlib.Tactic.Common
import GrantLedger.Chain.Basic
import GrantLedger.Proofs.StoreContent

/-!
# Executions stay within their context

Whatever runs in a context leaves the header and everything below the top of the store as they were
(`Context.Continues`): this holds of every message, whatever its handler does and whether it
succeeds. In particular a branch never reaches past its own buffer, so dropping the buffer undoes
all of it, and over a store without faults adopting it makes the branch's view the view of the
context.
-/

namespace GrantLedger

namespace Context

/-- The store of the context never fails. -/
def Reliable (c : Context) : Prop := c.store.Reliable

/-- The context after one write. -/
def put (c : Context) (k : Bytes) (v : Option Bytes) : Context :=
  { c with store := c.store.put k v }

/-- The context after one event. -/
def emit (c : Context) (e : Event) : Context := { c with events := c.events ++ [e] }

/-- The context after its events have been taken away. -/
def dropEvents (c : Context) : Context := { c with events := [] }

/-- The context after a successful branch that ended in `child`. -/
def adopt (c child : Context) : Context :=
  { c with
    store := c.store.putAll child.store.writes.entries
    events := c.events ++ child.events }

@[simp] theorem content_put (c : Context) (k : Bytes) (v : Option Bytes) :
    (c.put k v).store.content = c.store.content.put k v := Store.content_put c.store k v

@[simp] theorem header_put (c : Context) (k : Bytes) (v : Option Bytes) :
    (c.put k v).header = c.header := rfl

@[simp] theorem events_put (c : Context) (k : Bytes) (v : Option Bytes) :
    (c.put k v).events = c.events := rfl

@[simp] theorem store_emit (c : Context) (e : Event) : (c.emit e).store = c.store := rfl

@[simp] theorem header_emit (c : Context) (e : Event) : (c.emit e).header = c.header := rfl

@[simp] theorem events_emit (c : Context) (e : Event) : (c.emit e).events = c.events ++ [e] := rfl

@[simp] theorem header_adopt (c child : Context) : (c.adopt child).header = c.header := rfl

@[simp] theorem events_adopt (c child : Context) :
    (c.adopt child).events = c.events ++ child.events := rfl

@[simp] theorem content_child (c : Context) : c.child.store.content = c.store.content := rfl

@[simp] theorem header_child (c : Context) : c.child.header = c.header := rfl

/-- `c'` goes on from `c` in the same block, over the same stores below the top. -/
structure Continues (c c' : Context) : Prop where
  /-- The header is the same. -/
  header_eq : c'.header = c.header
  /-- What lies below the top of the store is the same. -/
  sameBelow : c.store.SameBelow c'.store

namespace Continues

theorem refl (c : Context) : c.Continues c := ⟨rfl, Store.SameBelow.refl c.store⟩

theorem trans {c d e : Context} (hcd : c.Continues d) (hde : d.Continues e) : c.Continues e :=
  ⟨hde.header_eq.trans hcd.header_eq, hcd.sameBelow.trans hde.sameBelow⟩

theorem reliable {c c' : Context} (h : c.Continues c') (hc : c.Reliable) : c'.Reliable :=
  h.sameBelow.reliable hc

theorem put (c : Context) (k : Bytes) (v : Option Bytes) : c.Continues (c.put k v) :=
  ⟨rfl, Store.sameBelow_put c.store k v⟩

theorem emit (c : Context) (e : Event) : c.Continues (c.emit e) :=
  ⟨rfl, Store.SameBelow.refl c.store⟩

theorem dropEvents (c : Context) : c.Continues c.dropEvents := ⟨rfl, Store.SameBelow.refl c.store⟩

theorem adopt (c child : Context) : c.Continues (c.adopt child) :=
  ⟨rfl, Store.sameBelow_putAll c.store _⟩

/-- A branch ends over the store that it started from. -/
theorem store_eq {c child : Context} (h : c.child.Continues child) :
    child.store = .buffered child.store.writes c.store := h.sameBelow.eq_buffered

/-- Adopting a branch makes its view the view of the context. -/
theorem content_adopt {c child : Context} (h : c.child.Continues child) :
    (c.adopt child).store.content = child.store.content := by
  conv_rhs => rw [h.store_eq]
  exact Store.content_putAll c.store child.store.writes.entries

end Continues

end Context

namespace Store

theorem sameBelow_of_apply {s s' : Store} {k : Bytes} {v : Option Bytes}
    (h : s.apply k v = .ok s') : s.SameBelow s' := by
  cases s with
  | base b =>
    cases v <;> simp only [apply, set, delete, Backend.guarded] at h <;> split at h <;> cases h <;>
      rfl
  | buffered w p => cases v <;> cases h <;> rfl

theorem sameBelow_applyAll (s : Store) (ws : List (Bytes × Option Bytes)) :
    s.SameBelow (s.applyAll ws).2 := by
  induction ws generalizing s with
  | nil => exact SameBelow.refl s
  | cons w ws ih =>
    obtain ⟨k, v⟩ := w
    rw [applyAll]
    split
    · next s' hs => exact (sameBelow_of_apply hs).trans (ih s')
    · exact SameBelow.refl s

end Store

namespace Exec

variable {α β : Type}

/-! ## Over a store without faults -/

section Reliable

variable {c : Context} (h : c.Reliable)

include h

theorem get_eq (k : Bytes) : Exec.get k c = (.ok (c.store.content.get? k), c) := by
  rw [Exec.get, Store.Reliable.get h]
  rfl

theorem has_eq (k : Bytes) : Exec.has k c = (.ok (c.store.content.contains k), c) := by
  rw [Exec.has, Store.Reliable.has h]
  rfl

theorem scan_eq (start : Bytes) :
    Exec.scan start c = (.ok ((c.store.content.range start).map .ok), c) := by
  rw [Exec.scan, Store.Reliable.scan h]
  rfl

theorem write_eq (k : Bytes) (v : Option Bytes) : Exec.write k v c = (.ok (), c.put k v) := by
  rw [Exec.write, Store.Reliable.apply h]
  rfl

/-- A branch that succeeds is adopted, and one that fails leaves the context as it was. -/
theorem branch_eq (x : Exec α) :
    Exec.branch x c =
      match x c.child with
      | (.ok a, child) => (.ok a, c.adopt child)
      | (.error e, _) => (.error e, c) := by
  rw [Exec.branch]
  split
  · next r child hx =>
    rw [hx]
    cases r with
    | error e => rfl
    | ok a =>
      rw [Context.merge, Store.Reliable.flush h]
      rfl

end Reliable

@[simp] theorem emit_eq (e : Event) (c : Context) : Exec.emit e c = (.ok (), c.emit e) := rfl

@[simp] theorem events_eq (c : Context) : Exec.events c = (.ok c.events, c) := rfl

@[simp] theorem takeEvents_eq (c : Context) :
    Exec.takeEvents c = (.ok c.events, c.dropEvents) := rfl

@[simp] theorem blockTime_eq (c : Context) : blockTime c = (.ok c.header.time, c) := rfl

@[simp] theorem ofExcept_apply (r : Except Error α) (c : Context) : ofExcept r c = (r, c) := rfl

theorem attempt_apply (x : Exec α) (c : Context) : attempt x c = (.ok (x c).1, (x c).2) := rfl

theorem bind_ok {x : Exec α} {f : α → Exec β} {c c' : Context} {a : α} (h : x c = (.ok a, c')) :
    (x >>= f) c = f a c' := by
  rw [bind_apply, h]

theorem bind_error {x : Exec α} {f : α → Exec β} {c c' : Context} {e : Error}
    (h : x c = (.error e, c')) : (x >>= f) c = (.error e, c') := by
  rw [bind_apply, h]

/-- A sequence succeeds exactly if both parts do. -/
theorem bind_eq_ok_iff {x : Exec α} {f : α → Exec β} {c c' : Context} {b : β} :
    (x >>= f) c = (.ok b, c') ↔ ∃ a d, x c = (.ok a, d) ∧ f a d = (.ok b, c') := by
  rw [bind_apply]
  constructor
  · intro h
    split at h
    · next a d hx => exact ⟨a, d, hx, h⟩
    · cases h
  · rintro ⟨a, d, hx, hf⟩
    rw [hx]
    exact hf

/-- A sequence fails exactly if one of its parts does. -/
theorem bind_eq_error_iff {x : Exec α} {f : α → Exec β} {c c' : Context} {e : Error} :
    (x >>= f) c = (.error e, c') ↔
      x c = (.error e, c') ∨ ∃ a d, x c = (.ok a, d) ∧ f a d = (.error e, c') := by
  rcases hx : x c with ⟨e' | a, d⟩
  · rw [bind_error hx]
    constructor
    · intro h
      cases h
      exact .inl rfl
    · rintro (h | ⟨a, d', h, -⟩)
      · cases h
        rfl
      · cases h
  · rw [bind_ok hx]
    constructor
    · exact fun h => .inr ⟨a, d, rfl, h⟩
    · rintro (h | ⟨a', d', h, hf⟩)
      · cases h
      · cases h
        exact hf

theorem ofExcept_bind_eq_ok_iff {r : Except Error α} {f : α → Exec β} {c c' : Context} {b : β} :
    (ofExcept r >>= f) c = (.ok b, c') ↔ ∃ a, r = .ok a ∧ f a c = (.ok b, c') := by
  rw [bind_apply, ofExcept_apply]
  cases r with
  | error e => exact ⟨nofun, fun ⟨_, h, _⟩ => nomatch h⟩
  | ok a =>
    constructor
    · exact fun h => ⟨a, rfl, h⟩
    · rintro ⟨a', heq, h⟩
      cases heq
      exact h

theorem ofExcept_ok_bind {r : Except Error α} {a : α} (h : r = .ok a) (f : α → Exec β) :
    ofExcept r >>= f = f a := by
  rw [h]
  rfl

/-- An execution is known from its result up to the context after it. -/
theorem eq_of_fst {p : Except Error α × Context} {r : Except Error α} (h : p.1 = r) :
    p = (r, p.2) := by
  subst h
  rfl

/-! ## Over any store -/

/-- The computation stays within its context, whatever it comes to. -/
def Steady (x : Exec α) : Prop := ∀ c : Context, c.Continues (x c).2

namespace Steady

theorem continues {x : Exec α} (hx : x.Steady) {c c' : Context} {r : Except Error α}
    (h : x c = (r, c')) : c.Continues c' := by
  have hc := hx c
  rwa [h] at hc

theorem ofExcept (r : Except Error α) : (Exec.ofExcept r).Steady := Context.Continues.refl

theorem pure (a : α) : (Pure.pure a : Exec α).Steady := Context.Continues.refl

theorem throw (e : Error) : (MonadExcept.throw e : Exec α).Steady := Context.Continues.refl

theorem get (k : Bytes) : (Exec.get k).Steady := Context.Continues.refl

theorem has (k : Bytes) : (Exec.has k).Steady := Context.Continues.refl

theorem scan (start : Bytes) : (Exec.scan start).Steady := Context.Continues.refl

theorem header : Exec.header.Steady := Context.Continues.refl

theorem blockTime : Exec.blockTime.Steady := Context.Continues.refl

theorem emit (e : Event) : (Exec.emit e).Steady := fun c => Context.Continues.emit c e

theorem events : Exec.events.Steady := Context.Continues.refl

theorem takeEvents : Exec.takeEvents.Steady := Context.Continues.dropEvents

theorem write (k : Bytes) (v : Option Bytes) : (Exec.write k v).Steady := by
  intro c
  rw [Exec.write]
  split
  · next s hs => exact ⟨rfl, Store.sameBelow_of_apply hs⟩
  · exact Context.Continues.refl c

theorem bind {x : Exec α} {f : α → Exec β} (hx : x.Steady) (hf : ∀ a, (f a).Steady) :
    (x >>= f).Steady := by
  intro c
  have hc := hx c
  rw [bind_apply]
  split
  · next a c' h =>
    rw [h] at hc
    exact hc.trans (hf a c')
  · next e c' h =>
    rw [h] at hc
    exact hc

theorem attempt {x : Exec α} (hx : x.Steady) : x.attempt.Steady := hx

theorem branch (x : Exec α) : x.branch.Steady := by
  intro c
  rw [Exec.branch]
  split
  · next r child _ =>
    cases r with
    | error e => exact Context.Continues.refl c
    | ok a =>
      have hbelow := Store.sameBelow_applyAll c.store child.store.writes.entries
      rw [Context.merge]
      split
      · next e s hs => exact ⟨rfl, by rw [Store.flush] at hs; rwa [hs] at hbelow⟩
      · next s hs => exact ⟨rfl, by rw [Store.flush] at hs; rwa [hs] at hbelow⟩

theorem ite {p : Prop} [Decidable p] {x y : Exec α} (hx : x.Steady) (hy : y.Steady) :
    (if p then x else y).Steady := by
  split
  · exact hx
  · exact hy

/-- A check in front of a computation ends it or lets it go on. -/
theorem check {p : Prop} [Decidable p] {e : Error} {f : β → Exec α} {x : Exec α} (hx : x.Steady) :
    (if p then MonadExcept.throw e >>= f else x).Steady :=
  ite (fun c => Context.Continues.refl c) hx

end Steady

end Exec

/-! ## Grants -/

open Exec (Steady)

namespace GrantTable

theorem steady_save (g : Grant) : (save g).Steady :=
  .bind (.ofExcept _) fun _ => .write _ _

theorem steady_get? (r : Registry) (k : GrantKey) : (get? r k).Steady := by
  refine .bind (.get _) fun b => ?_
  cases b with
  | none => exact .pure _
  | some b => exact .bind (.ofExcept _) fun _ => .pure _

theorem steady_getOrPrune (r : Registry) (k : GrantKey) (now : Timestamp) :
    (getOrPrune r k now).Steady := by
  refine .bind (steady_get? r k) fun g => ?_
  cases g with
  | none => exact .pure _
  | some g => exact .ite (.bind (.write _ _) fun _ => .pure _) (.pure _)

theorem steady_delete (k : GrantKey) : (delete k).Steady :=
  .bind (.has _) fun _ => .ite (.write _ _) (.ofExcept _)

end GrantTable

namespace Keeper

theorem steady_grant (r : Registry) (granter grantee : Address) (authorization : Authorization)
    (expiration : Option Timestamp) :
    (grant r granter grantee authorization expiration).Steady := by
  refine .check (.bind (.ofExcept _) fun _ => .check (.bind .blockTime fun now => ?_))
  have hsave (g : Grant) (e : Event) : (GrantTable.save g >>= fun _ => Exec.emit e).Steady :=
    .bind (GrantTable.steady_save g) fun _ => .emit e
  cases expiration with
  | none => exact hsave _ _
  | some e => exact .check (hsave _ _)

theorem steady_revoke (granter grantee : Address) (url : String) :
    (revoke granter grantee url).Steady :=
  .bind (GrantTable.steady_delete _) fun _ => .emit _

theorem steady_lookup (r : Registry) (k : GrantKey) : (lookup r k).Steady :=
  .bind .blockTime fun _ => GrantTable.steady_getOrPrune _ _ _

theorem steady_settle (k : GrantKey) (g : Grant) (answer : Acceptance) :
    (settle k g answer).Steady := by
  refine .ite (GrantTable.steady_delete k) ?_
  cases answer.updated with
  | none => exact .pure _
  | some updated => exact GrantTable.steady_save _

theorem steady_authorize (r : Registry) (grantee granter : Address) (url : String) :
    (authorize r grantee granter url).Steady := by
  refine .bind (steady_lookup r _) fun g => ?_
  cases g with
  | none => exact .throw _
  | some g =>
    exact .bind (.ofExcept _) fun answer =>
      .check (.bind (steady_settle _ g answer) fun _ => .emit _)

end Keeper

/-! ## Messages -/

namespace Assembly

variable (a : Assembly)

theorem steady_handleGrant (m : MsgGrant) : (a.handleGrant m).Steady :=
  .bind (.ofExcept _) fun _ => .bind (Keeper.steady_grant _ _ _ _ _) fun _ => .pure _

theorem steady_handleRevoke (m : MsgRevoke) : (handleRevoke m).Steady :=
  .bind (.ofExcept _) fun _ => .bind (Keeper.steady_revoke _ _ _) fun _ => .pure _

theorem steady_permit (grantee : Address) (m : Message) : (a.permit grantee m).Steady :=
  .bind (.ofExcept _) fun _ => .ite (Keeper.steady_authorize _ _ _ _) (.pure _)

mutual

/-- Executing a message stays within the context, whatever its handler does. -/
theorem steady_dispatch (m : Message) : (a.dispatch m).Steady := by
  match m with
  | .grant g =>
    rw [dispatch]
    split
    · exact .throw _
    · exact steady_handleGrant a g
    · exact .throw _
  | .revoke g =>
    rw [dispatch]
    split
    · exact .throw _
    · exact steady_handleRevoke g
    · exact .throw _
  | .exec grantee msgs =>
    rw [dispatch]
    split
    · exact .throw _
    · exact .bind (.ofExcept _) fun _ => .bind (.branch _) fun _ => .pure _
    · exact .throw _
  | .foreign url signers validity action =>
    rw [dispatch]
    split
    · exact .throw _
    · exact .throw _
    · exact steady_run action

/-- Taking an action stays within the context. -/
theorem steady_run (act : Action) : (a.run act).Steady := by
  match act with
  | .done result =>
    rw [run]
    exact .ofExcept result
  | .get key next =>
    rw [run]
    exact .bind (.attempt (.get key)) fun r => steady_run (next r)
  | .write key value next =>
    rw [run]
    exact .bind (.attempt (.write key value)) fun r => steady_run (next r)
  | .scan start next =>
    rw [run]
    exact .bind (.attempt (.scan start)) fun r => steady_run (next r)
  | .header next =>
    rw [run]
    exact .bind .header fun h => steady_run (next h)
  | .emit event next =>
    rw [run]
    exact .bind (.emit event) fun _ => steady_run next
  | .events next =>
    rw [run]
    exact .bind .events fun es => steady_run (next es)
  | .takeEvents next =>
    rw [run]
    exact .bind .takeEvents fun es => steady_run (next es)
  | .branch body next =>
    rw [run]
    exact .bind (.attempt (.branch _)) fun r => steady_run (next r)
  | .dispatch msg next =>
    rw [run]
    exact .bind (.attempt (steady_dispatch msg)) fun r => steady_run (next r)

end

theorem steady_dispatchAll (ms : List Message) : (a.dispatchAll ms).Steady := by
  induction ms with
  | nil =>
    rw [dispatchAll]
    exact .pure _
  | cons m ms ih =>
    rw [dispatchAll]
    exact .bind (steady_dispatch a m) fun _ => .bind ih fun _ => .pure _

end Assembly

end GrantLedger
