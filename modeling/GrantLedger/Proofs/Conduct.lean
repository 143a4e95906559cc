import Mathlib.Tactic.Common
import GrantLedger.Message
import GrantLedger.Grant.Key

/-!
# What foreign handlers do by themselves

The handler of a foreign message may do anything to the context it is given: write any key, emit any
event, and take away what others have emitted. Messages nest, so a statement about all messages says
what the handlers in them keep to. A `Conduct` allows some direct writes and some events, and says
whether events may be taken away; a message obeys it if every action in it does, at any depth and
whatever its steps return. What a handler has done by the messages that it dispatches is not its own
doing.
-/

namespace GrantLedger

/-- What handlers may do by themselves. -/
structure Conduct where
  /-- The keys that they may write. -/
  writes : Bytes → Prop
  /-- The events that they may emit. -/
  emits : Event → Prop
  /-- They may take events away that have been emitted. -/
  takes : Prop

namespace Event

/-- The event is of a kind that reports on grants. -/
def isAboutGrants (e : Event) : Bool :=
  e.kind = grantKind || e.kind = revokeKind || e.kind = execKind

end Event

namespace Conduct

/-- Stay out of the keys of grant records. -/
def outsideGrants : Conduct :=
  ⟨fun k => k.startsWith GrantKey.allRange = false, fun _ => True, True⟩

/-- Stay out of the keys of grant records and emit no event that reports on grants. -/
def discreet : Conduct := ⟨outsideGrants.writes, fun e => e.isAboutGrants = false, True⟩

/-- Take no events away. -/
def keepsEvents : Conduct := ⟨fun _ => True, fun _ => True, False⟩

/-- Be discreet and take no events away. -/
def unobtrusive : Conduct := { discreet with takes := False }

/-- The conduct lets nobody write to the keys of grant records. -/
def OutsideGrants (p : Conduct) : Prop := ∀ k, p.writes k → k.startsWith GrantKey.allRange = false

/-- The conduct lets nobody emit an event that reports on grants. -/
def Reticent (p : Conduct) : Prop := ∀ e, p.emits e → e.isAboutGrants = false

theorem outsideGrants_outsideGrants : outsideGrants.OutsideGrants := fun _ => id

theorem outsideGrants_discreet : discreet.OutsideGrants := fun _ => id

theorem outsideGrants_unobtrusive : unobtrusive.OutsideGrants := fun _ => id

theorem reticent_discreet : discreet.Reticent := fun _ => id

theorem reticent_unobtrusive : unobtrusive.Reticent := fun _ => id

mutual

/-- Every action in the message obeys. -/
def Allows (p : Conduct) : Message → Prop
  | .grant _ => True
  | .revoke _ => True
  | .exec _ msgs => p.AllowsAll msgs
  | .foreign _ _ _ action => p.AllowsAction action

/-- Every action in the messages obeys. -/
def AllowsAll (p : Conduct) : List Message → Prop
  | [] => True
  | m :: ms => p.Allows m ∧ p.AllowsAll ms

/-- The action obeys, whatever its steps return. -/
def AllowsAction (p : Conduct) : Action → Prop
  | .done _ => True
  | .get _ next => ∀ r, p.AllowsAction (next r)
  | .write key _ next => p.writes key ∧ ∀ r, p.AllowsAction (next r)
  | .scan _ next => ∀ r, p.AllowsAction (next r)
  | .header next => ∀ h, p.AllowsAction (next h)
  | .emit event next => p.emits event ∧ p.AllowsAction next
  | .events next => ∀ es, p.AllowsAction (next es)
  | .takeEvents next => p.takes ∧ ∀ es, p.AllowsAction (next es)
  | .branch body next => p.AllowsAction body ∧ ∀ r, p.AllowsAction (next r)
  | .dispatch msg next => p.Allows msg ∧ ∀ r, p.AllowsAction (next r)

end

theorem allowsAll_iff {p : Conduct} {ms : List Message} :
    p.AllowsAll ms ↔ ∀ m ∈ ms, p.Allows m := by
  induction ms with
  | nil => simp [AllowsAll]
  | cons m ms ih => simp [AllowsAll, ih]

/-- What is reported where handlers keep to the conduct, of what happens: a part of it in its order,
and all of it if they take no events away. -/
def Reports (p : Conduct) (reported events : List Event) : Prop :=
  reported.Sublist events ∧ (¬ p.takes → reported = events)

namespace Reports

variable {p : Conduct} {xs ys zs es es' : List Event}

theorem refl (p : Conduct) (xs : List Event) : p.Reports xs xs := ⟨.refl xs, fun _ => rfl⟩

theorem append (h : p.Reports xs es) (h' : p.Reports ys es') : p.Reports (xs ++ ys) (es ++ es') :=
  ⟨h.1.append h'.1, fun hkept => by rw [h.2 hkept, h'.2 hkept]⟩

/-- What is reported later may have been taken away from what was reported before. -/
theorem trans (h : p.Reports ys (xs ++ es)) (h' : p.Reports zs (ys ++ es')) :
    p.Reports zs (xs ++ (es ++ es')) := by
  rw [← List.append_assoc]
  exact ⟨h'.1.trans (h.1.append_right es'), fun hkept => by rw [h'.2 hkept, h.2 hkept]⟩

end Reports

end Conduct

end GrantLedger
