import Mathlib.Tactic.Common
import GrantLedger.Proofs.Execution

/-!
# How far a branch is all or nothing

A branch is meant to leave either all that its body did or nothing of it (`Exec.AllOrNothing`). A
body that fails leaves nothing, and over a store that takes every write one that succeeds leaves
everything. But the writes of a body that succeeds go to the store one after the other, and where
the store refuses one of them, those before it stay. So a branch keeps its promise exactly if those
change nothing (`Exec.allOrNothing_iff`). Inside another branch it always does, since a buffer
refuses no write.
-/

namespace GrantLedger

namespace Store

/-- Why the store refuses a write, if it does. -/
def refusal? : Store → Bytes × Option Bytes → Option StoreError
  | base b, (k, some _) => b.fault (.set k)
  | base b, (k, none) => b.fault (.delete k)
  | buffered .., _ => none

theorem apply_eq (s : Store) (k : Bytes) (v : Option Bytes) :
    s.apply k v =
      match s.refusal? (k, v) with
      | none => .ok (s.put k v)
      | some e => .error e := by
  cases s with
  | base b =>
    cases v with
    | none =>
      rw [apply, delete, Backend.guarded, refusal?]
      cases b.fault (.delete k) <;> rfl
    | some v =>
      rw [apply, set, Backend.guarded, refusal?]
      cases b.fault (.set k) <;> rfl
  | buffered w parent => cases v <;> rfl

/-- What a store refuses does not depend on what it holds. -/
theorem refusal?_put (s : Store) (k : Bytes) (v : Option Bytes) (w : Bytes × Option Bytes) :
    (s.put k v).refusal? w = s.refusal? w := by
  obtain ⟨k', v'⟩ := w
  cases s <;> cases v' <;> rfl

/-- Of these writes, done one after the other, the store takes `before` and refuses the next. -/
structure Stops (s : Store) (ws before : List (Bytes × Option Bytes)) (e : StoreError) : Prop where
  taken : ∀ w ∈ before, s.refusal? w = none
  refused : ∃ w after, ws = before ++ w :: after ∧ s.refusal? w = some e

theorem applyAll_of_taken {s : Store} {ws : List (Bytes × Option Bytes)}
    (h : ∀ w ∈ ws, s.refusal? w = none) : s.applyAll ws = (.ok (), s.putAll ws) := by
  induction ws generalizing s with
  | nil => rfl
  | cons w ws ih =>
    obtain ⟨k, v⟩ := w
    rw [applyAll, apply_eq, h (k, v) List.mem_cons_self]
    refine ih fun w hw => ?_
    rw [refusal?_put]
    exact h w (List.mem_cons_of_mem _ hw)

theorem Stops.applyAll {s : Store} {ws before : List (Bytes × Option Bytes)} {e : StoreError}
    (h : s.Stops ws before e) : s.applyAll ws = (.error e, s.putAll before) := by
  obtain ⟨htaken, ⟨k, v⟩, after, rfl, hrefused⟩ := h
  induction before generalizing s with
  | nil =>
    rw [List.nil_append, Store.applyAll, apply_eq, hrefused]
    rfl
  | cons w before ih =>
    obtain ⟨k', v'⟩ := w
    rw [List.cons_append, Store.applyAll, apply_eq, htaken (k', v') List.mem_cons_self]
    refine ih (fun w hw => ?_) ?_
    · rw [refusal?_put]
      exact htaken w (List.mem_cons_of_mem _ hw)
    · rw [refusal?_put]
      exact hrefused

theorem taken_or_stops (s : Store) (ws : List (Bytes × Option Bytes)) :
    (∀ w ∈ ws, s.refusal? w = none) ∨ ∃ before e, s.Stops ws before e := by
  induction ws with
  | nil => exact .inl nofun
  | cons w ws ih =>
    cases hw : s.refusal? w with
    | some e => exact .inr ⟨[], e, nofun, w, ws, rfl, hw⟩
    | none =>
      rcases ih with htaken | ⟨before, e, htaken, w', after, rfl, hrefused⟩
      · exact .inl (List.forall_mem_cons.2 ⟨hw, htaken⟩)
      · exact .inr ⟨w :: before, e, List.forall_mem_cons.2 ⟨hw, htaken⟩, w', after, rfl, hrefused⟩

end Store

namespace Exec

variable {α : Type} {x : Exec α} {c child : Context}

/-- A branch leaves all that its body did, if it succeeds, and nothing of it, if it fails. -/
def AllOrNothing (x : Exec α) (c : Context) : Prop :=
  match x.branch c with
  | (.ok a, c') =>
    ∃ child, x c.child = (.ok a, child) ∧ c'.header = c.header ∧
      c'.store.content = child.store.content ∧ c'.events = c.events ++ child.events
  | (.error _, c') =>
    c'.header = c.header ∧ c'.store.content = c.store.content ∧ c'.events = c.events

theorem branch_of_error {e : Error} (h : x c.child = (.error e, child)) :
    x.branch c = (.error e, c) := by
  rw [branch, h]
  rfl

theorem branch_of_taken {a : α} (h : x c.child = (.ok a, child))
    (htaken : ∀ w ∈ child.store.writes.entries, c.store.refusal? w = none) :
    x.branch c = (.ok a, c.adopt child) := by
  rw [branch, h]
  dsimp only
  rw [Context.merge, Store.flush, Store.applyAll_of_taken htaken]
  rfl

/-- A branch of whose writes one is refused fails and leaves the writes before it. -/
theorem branch_of_stops {a : α} {before : List (Bytes × Option Bytes)} {e : StoreError}
    (h : x c.child = (.ok a, child)) (hstops : c.store.Stops child.store.writes.entries before e) :
    x.branch c = (.error (.store e), { c with store := c.store.putAll before }) := by
  rw [branch, h]
  dsimp only
  rw [Context.merge, Store.flush, hstops.applyAll]

/-- A branch whose body acts only through its own context is all or nothing exactly if the writes
that a refused one leaves behind change nothing. Nothing is refused where the store of the context
is itself a buffer. -/
theorem allOrNothing_iff (hx : x.Steady) (c : Context) :
    (AllOrNothing x c ↔
      ∀ a child before e, x c.child = (.ok a, child) →
        c.store.Stops child.store.writes.entries before e →
        c.store.content.update before = c.store.content) ∧
    (∀ a child before e, x c.child = (.ok a, child) →
      c.store.Stops child.store.writes.entries before e →
      x.branch c = (.error (.store e), { c with store := c.store.putAll before })) ∧
    ∀ w parent, c.store = .buffered w parent → AllOrNothing x c := by
  have hiff : AllOrNothing x c ↔
      ∀ a child before e, x c.child = (.ok a, child) →
        c.store.Stops child.store.writes.entries before e →
        c.store.content.update before = c.store.content := by
    constructor
    · intro hall a child before e hbody hstops
      rw [AllOrNothing, branch_of_stops hbody hstops] at hall
      rw [← Store.content_putAll]
      exact hall.2.1
    · intro hrefused
      rw [AllOrNothing]
      rcases hbody : x c.child with ⟨e | a, child⟩
      · rw [branch_of_error hbody]
        exact ⟨rfl, rfl, rfl⟩
      · rcases c.store.taken_or_stops child.store.writes.entries with
          htaken | ⟨before, e, hstops⟩
        · rw [branch_of_taken hbody htaken]
          have hsteady := hx c.child
          rw [hbody] at hsteady
          exact ⟨child, rfl, rfl, hsteady.content_adopt, rfl⟩
        · rw [branch_of_stops hbody hstops]
          refine ⟨rfl, ?_, rfl⟩
          rw [Store.content_putAll]
          exact hrefused a child before e hbody hstops
  refine ⟨hiff, fun a child before e => branch_of_stops, fun w parent hstore => ?_⟩
  refine hiff.2 fun a child before e _ hstops => ?_
  obtain ⟨w', after, -, hrefused⟩ := hstops.refused
  rw [hstore] at hrefused
  cases hrefused

/-- A branch whose first write is refused leaves nothing, although it fails after its body
succeeded. -/
theorem allOrNothing_first_refused :
    AllOrNothing (Exec.set [2] [7] >>= fun _ => Exec.set [3] [7])
      (.start ⟨"c", 1, ⟨5⟩⟩ (.base (.withFaults ∅ [(.set [2], .dbIo)]))) := by
  refine (allOrNothing_iff (.bind (.write _ _) fun _ => .write _ _) _).1.2 ?_
  rintro a child (_ | ⟨w, before⟩) e hbody hstops
  · rfl
  · -- The refused write is the first one, so that nothing comes before it.
    obtain ⟨htaken, w', after, hentries, -⟩ := hstops
    cases hbody
    obtain ⟨rfl, -⟩ := List.cons.inj hentries
    exact absurd (htaken _ List.mem_cons_self) (by decide)

/-- A branch whose second write is refused fails and leaves the first. -/
theorem not_allOrNothing_second_refused :
    ¬ AllOrNothing (Exec.set [1] [7] >>= fun _ => Exec.set [2] [7])
      (.start ⟨"c", 1, ⟨5⟩⟩ (.base (.withFaults ∅ [(.set [2], .dbIo)]))) := by
  rintro ⟨-, hcontent, -⟩
  exact absurd hcontent (by decide)

end Exec

end GrantLedger
