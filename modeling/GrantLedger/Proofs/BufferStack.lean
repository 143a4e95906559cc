import Mathlib.Tactic.Common
import GrantLedger.Proofs.StoreContent

/-!
# A stack of buffers is one ordered map

Work on a stack of write buffers reads and writes at the top, lays buffers on top and gives them up
again, carrying their writes over, dropping them or keeping them aside. `Plain` says what each step
has to answer in terms of plain maps alone, one for each level of the stack: the map of a level is
the one below with the puts and deletes of the level laid over it (`Overlays`). Over a backend
without faults every run of steps, from a stack of any height, is a run on plain maps
(`BufferStack.run_refines`).

The relation that carries the proof is `Holds`: the levels of a stack stand for these maps. It is
kept by one write at the top (`Holds.put`), so by a flush, which is a row of writes.
-/

namespace GrantLedger

namespace BufferStack

/-! ## Work on a stack -/

/-- A step of work on a stack of write buffers. -/
inductive Step where
  | set (key value : Bytes)
  | delete (key : Bytes)
  | get (key : Bytes)
  | has (key : Bytes)
  | scan (start : Bytes)
  /-- Lay a buffer without writes on top. -/
  | branch
  /-- Lay a buffer with these writes on top. -/
  | resume (writes : WriteSet)
  /-- Carry the writes of the top buffer over to what lies below it. -/
  | flush
  /-- Give the top buffer up. -/
  | drop
  /-- Give the top buffer up and keep its writes aside. -/
  | detach

/-- What a step answers. -/
inductive Answer where
  | done (result : Except StoreError Unit)
  | value (result : Except StoreError (Option Bytes))
  | presence (result : Except StoreError Bool)
  | items (result : Except StoreError (List Scanned))
  /-- The writes that were kept aside. -/
  | writes (w : WriteSet)
  /-- There is no buffer on top. -/
  | refused

/-- The answer to a write. -/
def Answer.ofWrite (s : Store) : Except StoreError Store → Answer × Store
  | .ok s' => (done (.ok ()), s')
  | .error e => (done (.error e), s)

/-- Take a step on a stack. What needs a buffer on top is refused where there is none. -/
def Step.perform (s : Store) : Step → Answer × Store
  | set k v => Answer.ofWrite s (s.set k v)
  | delete k => Answer.ofWrite s (s.delete k)
  | get k => (.value (s.get k), s)
  | has k => (.presence (s.has k), s)
  | scan start => (.items (s.scan start), s)
  | branch => (.done (.ok ()), s.branch)
  | resume w => (.done (.ok ()), .buffered w s)
  | flush =>
    match s with
    | .base _ => (.refused, s)
    | .buffered w parent => (.done (parent.flush w).1, (parent.flush w).2)
  | drop =>
    match s with
    | .base _ => (.refused, s)
    | .buffered _ parent => (.done (.ok ()), parent)
  | detach =>
    match s with
    | .base _ => (.refused, s)
    | .buffered w parent => (.writes w, parent)

/-- Take steps one after the other. -/
def run (s : Store) : List Step → List Answer × Store
  | [] => ([], s)
  | step :: steps =>
    let (answer, s) := step.perform s
    let (answers, s) := run s steps
    (answer :: answers, s)

/-- Buffers with these writes over some pairs, the top one first. -/
def stack (m : Pairs) : List WriteSet → Store
  | [] => .ofPairs m
  | w :: ws => .buffered w (stack m ws)

/-! ## Plain maps -/

/-- `n` is `m` with the puts and deletes of `w` laid over it. -/
def Overlays (w : WriteSet) (m n : Pairs) : Prop := ∀ k, n.get? k = (w.get? k).getD (m.get? k)

/-- The pairs of a map whose keys begin with `start`, each once, in strictly increasing key
order. -/
structure Lists (m : Pairs) (start : Bytes) (pairs : List (Bytes × Bytes)) : Prop where
  sorted : pairs.Pairwise fun a b => a.1 < b.1
  mem_iff : ∀ k v, (k, v) ∈ pairs ↔ start <+: k ∧ m.get? k = some v

/-- The maps of the levels of a stack, the top one first. -/
inductive Layers (m : Pairs) : List WriteSet → List Pairs → Prop
  | nil : Layers m [] [m]
  | cons {w : WriteSet} {ws : List WriteSet} {n n' : Pairs} {ns : List Pairs}
      (below : Layers m ws (n :: ns)) (overlays : Overlays w n n') :
      Layers m (w :: ws) (n' :: n :: ns)

/-- What a step answers on plain maps, the top one first, and the maps after it. -/
inductive Plain : List Pairs → Step → Answer → List Pairs → Prop
  | set {m : Pairs} {ms : List Pairs} (k v : Bytes) :
      Plain (m :: ms) (.set k v) (.done (.ok ())) (m.insert k v :: ms)
  | delete {m : Pairs} {ms : List Pairs} (k : Bytes) :
      Plain (m :: ms) (.delete k) (.done (.ok ())) (m.erase k :: ms)
  | get {m : Pairs} {ms : List Pairs} (k : Bytes) :
      Plain (m :: ms) (.get k) (.value (.ok (m.get? k))) (m :: ms)
  | has {m : Pairs} {ms : List Pairs} (k : Bytes) :
      Plain (m :: ms) (.has k) (.presence (.ok (m.contains k))) (m :: ms)
  | scan {m : Pairs} {ms : List Pairs} {start : Bytes} {pairs : List (Bytes × Bytes)}
      (lists : Lists m start pairs) :
      Plain (m :: ms) (.scan start) (.items (.ok (pairs.map .ok))) (m :: ms)
  | branch {m : Pairs} {ms : List Pairs} :
      Plain (m :: ms) .branch (.done (.ok ())) (m :: m :: ms)
  | resume {w : WriteSet} {m n : Pairs} {ms : List Pairs} (overlays : Overlays w m n) :
      Plain (m :: ms) (.resume w) (.done (.ok ())) (n :: m :: ms)
  /-- The map below becomes that of the buffer. -/
  | flush {m n : Pairs} {ms : List Pairs} : Plain (n :: m :: ms) .flush (.done (.ok ())) (n :: ms)
  /-- The map below stays as it was. -/
  | drop {m n : Pairs} {ms : List Pairs} : Plain (n :: m :: ms) .drop (.done (.ok ())) (m :: ms)
  /-- The map below stays as it was, and the writes make it that of the buffer again. -/
  | detach {w : WriteSet} {m n : Pairs} {ms : List Pairs} (overlays : Overlays w m n) :
      Plain (n :: m :: ms) .detach (.writes w) (m :: ms)
  | refused {m : Pairs} {step : Step} (giveUp : step = .flush ∨ step = .drop ∨ step = .detach) :
      Plain [m] step .refused [m]

/-- Steps on plain maps, one after the other. -/
inductive PlainRun : List Pairs → List Step → List Answer → List Pairs → Prop
  | nil {ms : List Pairs} : PlainRun ms [] [] ms
  | cons {ms ms' ms'' : List Pairs} {step : Step} {steps : List Step} {answer : Answer}
      {answers : List Answer} (first : Plain ms step answer ms')
      (later : PlainRun ms' steps answers ms'') :
      PlainRun ms (step :: steps) (answer :: answers) ms''

/-! ## The levels of a stack stand for plain maps -/

theorem overlays_update (w : WriteSet) (m : Pairs) : Overlays w m (m.update w.entries) :=
  Pairs.get?_update_entries m w

theorem lists_range (m : Pairs) (start : Bytes) : Lists m start (m.range start) where
  sorted := Store.sorted_range m start
  mem_iff k v := by rw [Store.mem_range, Bytes.startsWith_iff]

/-- The levels of a stack over a backend without faults stand for these maps, the top one first. -/
inductive Holds : Store → List Pairs → Prop
  | base {b : Backend} (reliable : (Store.base b).Reliable) : Holds (.base b) [b.content]
  | buffered {w : WriteSet} {s : Store} {m : Pairs} {ms : List Pairs} (below : Holds s (m :: ms)) :
      Holds (.buffered w s) (m.update w.entries :: m :: ms)

namespace Holds

variable {s : Store} {m : Pairs} {ms : List Pairs}

theorem reliable (h : Holds s ms) : s.Reliable := by
  induction h with
  | base reliable => exact reliable
  | buffered _ ih => exact ih

theorem content_eq (h : Holds s (m :: ms)) : s.content = m := by
  induction s generalizing m ms with
  | base b =>
    cases h
    rfl
  | buffered w s ih =>
    cases h with
    | buffered below => rw [Store.content_buffered, ih below]

theorem getLast?_eq (h : Holds s ms) : ms.getLast? = some s.backend.content := by
  induction h with
  | base _ => rfl
  | buffered _ ih => rwa [List.getLast?_cons_cons]

/-- A write at the top changes the top map alone. -/
theorem put (h : Holds s (m :: ms)) (k : Bytes) (v : Option Bytes) :
    Holds (s.put k v) (m.put k v :: ms) := by
  cases h with
  | base reliable => exact .base (b := ⟨_, _⟩) reliable
  | @buffered w s n ns below =>
    rw [← Pairs.update_insert]
    exact .buffered below

theorem putAll (h : Holds s (m :: ms)) (ws : List (Bytes × Option Bytes)) :
    Holds (s.putAll ws) (m.update ws :: ms) := by
  induction ws generalizing s m with
  | nil => exact h
  | cons w ws ih =>
    rw [Pairs.update_cons]
    exact ih (h.put w.1 w.2)

theorem exists_cons (h : Holds s ms) : ∃ n ns, ms = n :: ns := by
  cases h <;> exact ⟨_, _, rfl⟩

theorem perform (h : Holds s ms) (step : Step) :
    ∃ ms', Plain ms step (step.perform s).1 ms' ∧ Holds (step.perform s).2 ms' := by
  obtain ⟨m, ms, rfl⟩ := h.exists_cons
  have hs := h.reliable
  cases step with
  | set k v =>
    have hset : s.set k v = .ok (s.put k (some v)) := hs.apply k (some v)
    rw [Step.perform, hset]
    exact ⟨_, .set k v, h.put k (some v)⟩
  | delete k =>
    have hdelete : s.delete k = .ok (s.put k none) := hs.apply k none
    rw [Step.perform, hdelete]
    exact ⟨_, .delete k, h.put k none⟩
  | get k =>
    rw [Step.perform, hs.get, h.content_eq]
    exact ⟨_, .get k, h⟩
  | has k =>
    rw [Step.perform, hs.has, h.content_eq]
    exact ⟨_, .has k, h⟩
  | scan start =>
    rw [Step.perform, hs.scan, h.content_eq]
    exact ⟨_, .scan (lists_range m start), h⟩
  | branch => exact ⟨_, .branch, .buffered (w := ∅) h⟩
  | resume w => exact ⟨_, .resume (overlays_update w m), .buffered h⟩
  | flush =>
    cases h with
    | base reliable => exact ⟨_, .refused (.inl rfl), .base reliable⟩
    | @buffered w s n ns below =>
      rw [Step.perform, below.reliable.flush]
      exact ⟨_, .flush, below.putAll w.entries⟩
  | drop =>
    cases h with
    | base reliable => exact ⟨_, .refused (.inr (.inl rfl)), .base reliable⟩
    | buffered below => exact ⟨_, .drop, below⟩
  | detach =>
    cases h with
    | base reliable => exact ⟨_, .refused (.inr (.inr rfl)), .base reliable⟩
    | @buffered w s n ns below => exact ⟨_, .detach (overlays_update w n), below⟩

theorem run (h : Holds s ms) (steps : List Step) :
    ∃ ms', PlainRun ms steps (run s steps).1 ms' ∧ Holds (run s steps).2 ms' := by
  induction steps generalizing s ms with
  | nil => exact ⟨ms, .nil, h⟩
  | cons step steps ih =>
    obtain ⟨ms', hfirst, hafter⟩ := h.perform step
    obtain ⟨ms'', hlater, hlast⟩ := ih hafter
    exact ⟨ms'', .cons hfirst hlater, hlast⟩

end Holds

theorem exists_layers (m : Pairs) (ws : List WriteSet) :
    ∃ ms, Layers m ws ms ∧ Holds (stack m ws) ms := by
  induction ws with
  | nil => exact ⟨[m], .nil, .base (Store.reliable_ofPairs m)⟩
  | cons w ws ih =>
    obtain ⟨ms, hlayers, hholds⟩ := ih
    obtain ⟨n, ns, rfl⟩ := hholds.exists_cons
    exact ⟨_, .cons hlayers (overlays_update w n), .buffered hholds⟩

/-- Over any pairs and from any stack of buffers, every run of steps answers as a run on the plain
maps of the levels, and the pairs at the bottom end up as the lowest map. Writes that were kept
aside bring the stack back that they came from. -/
theorem run_refines (m : Pairs) (ws : List WriteSet) (steps : List Step) :
    (∃ before after, Layers m ws before ∧
      PlainRun before steps (run (stack m ws) steps).1 after ∧
      after.getLast? = some (run (stack m ws) steps).2.backend.content) ∧
    ∀ s w, (Step.detach.perform s).1 = .writes w →
      (Step.resume w).perform (Step.detach.perform s).2 = (.done (.ok ()), s) := by
  refine ⟨?_, fun s w h => ?_⟩
  · obtain ⟨before, hlayers, hholds⟩ := exists_layers m ws
    obtain ⟨after, hrun, hlast⟩ := hholds.run steps
    exact ⟨before, after, hlayers, hrun, hlast.getLast?_eq⟩
  · cases s with
    | base b => cases h
    | buffered w' parent =>
      cases h
      rfl

end BufferStack

end GrantLedger
