import GrantLedger.Proofs.Runs

/-!
# What the counters count

The counters of a chain go up by what has been delivered and answered, and nothing else: one for each
transaction, one for each that failed, and one for each event of its kind that a successful one has
told (`Chain.Counted`). The other calls leave them alone.
-/

namespace GrantLedger

/-- How many events are of a kind. -/
def Event.ofKind (kind : String) (events : List Event) : Nat := events.countP fun e => e.kind = kind

namespace Metrics

/-- An event counts for one of the three kinds at most. -/
theorem countEvent_eq (m : Metrics) (e : Event) :
    m.countEvent e =
      { m with
        grants := m.grants + Event.ofKind Event.grantKind [e]
        revokes := m.revokes + Event.ofKind Event.revokeKind [e]
        execs := m.execs + Event.ofKind Event.execKind [e] } := by
  have hrevoke : Event.revokeKind ≠ Event.grantKind := by decide
  have hexec : Event.execKind ≠ Event.grantKind := by decide
  have hexec' : Event.execKind ≠ Event.revokeKind := by decide
  simp only [countEvent, Event.ofKind, List.countP_singleton]
  by_cases hg : e.kind = Event.grantKind
  · simp [hg, hrevoke.symm, hexec.symm]
  · by_cases hr : e.kind = Event.revokeKind
    · simp [hr, hrevoke, hexec'.symm]
    · by_cases he : e.kind = Event.execKind
      · simp [he, hexec, hexec']
      · simp [hg, hr, he]

/-- Counting events adds up those of each kind. -/
theorem countEvents_eq (m : Metrics) (events : List Event) :
    m.countEvents events =
      { m with
        grants := m.grants + Event.ofKind Event.grantKind events
        revokes := m.revokes + Event.ofKind Event.revokeKind events
        execs := m.execs + Event.ofKind Event.execKind events } := by
  induction events generalizing m with
  | nil => rfl
  | cons e events ih =>
    have hcons (kind : String) : Event.ofKind kind (e :: events) =
        Event.ofKind kind [e] + Event.ofKind kind events := by
      rw [Event.ofKind, Event.ofKind, Event.ofKind, ← List.countP_append, List.singleton_append]
    change (m.countEvent e).countEvents events = _
    rw [ih, countEvent_eq]
    simp only [hcons, Nat.add_assoc]

end Metrics

namespace Chain

/-- The call delivers a transaction. -/
def Call.isDeliver : Call → Bool
  | deliver _ => true
  | _ => false

namespace Answer

/-- The answer is to a transaction, and has a non-zero code. -/
def isFailure : Answer → Bool
  | delivered response => response.code ≠ 0
  | _ => false

/-- The events that a successful transaction has told. -/
def told : Answer → List Event
  | delivered response => if response.code = 0 then response.events else []
  | _ => []

/-- How many events of a kind the successful transactions among the answers have told. -/
def toldOf (kind : String) (answers : List Answer) : Nat :=
  Event.ofKind kind (answers.flatMap told)

theorem toldOf_append (kind : String) (xs ys : List Answer) :
    toldOf kind (xs ++ ys) = toldOf kind xs + toldOf kind ys := by
  rw [toldOf, Event.ofKind, List.flatMap_append, List.countP_append]
  rfl

theorem toldOf_singleton (kind : String) (answer : Answer) :
    toldOf kind [answer] = Event.ofKind kind answer.told := by
  rw [toldOf, List.flatMap_singleton]

end Answer

/-- From `c` to `d` the counters have gone up by the calls and their answers. -/
structure Counted (calls : List Call) (answers : List Answer) (c d : Chain) : Prop where
  transactions : d.metrics.transactions = c.metrics.transactions + calls.countP Call.isDeliver
  failures : d.metrics.failures = c.metrics.failures + answers.countP Answer.isFailure
  grants : d.metrics.grants = c.metrics.grants + Answer.toldOf Event.grantKind answers
  revokes : d.metrics.revokes = c.metrics.revokes + Answer.toldOf Event.revokeKind answers
  execs : d.metrics.execs = c.metrics.execs + Answer.toldOf Event.execKind answers

namespace Counted

variable {c d e : Chain}

theorem refl (c : Chain) : Counted [] [] c c := ⟨rfl, rfl, rfl, rfl, rfl⟩

theorem append {xs ys : List Call} {as bs : List Answer} (h : Counted xs as c d)
    (h' : Counted ys bs d e) : Counted (xs ++ ys) (as ++ bs) c e where
  transactions := by
    rw [h'.transactions, h.transactions, List.countP_append, Nat.add_assoc]
  failures := by
    rw [h'.failures, h.failures, List.countP_append, Nat.add_assoc]
  grants := by rw [h'.grants, h.grants, Answer.toldOf_append, Nat.add_assoc]
  revokes := by rw [h'.revokes, h.revokes, Answer.toldOf_append, Nat.add_assoc]
  execs := by rw [h'.execs, h.execs, Answer.toldOf_append, Nat.add_assoc]

/-- A call that delivers nothing moves at most the other two metrics. -/
theorem of_idle {call : Call} {answer : Answer} (hcall : call.isDeliver = false)
    (hanswer : answer.isFailure = false) (htold : answer.told = [])
    (h : ∃ blockHeight pruned, d.metrics = { c.metrics with blockHeight, pruned }) :
    Counted [call] [answer] c d := by
  obtain ⟨blockHeight, pruned, h⟩ := h
  constructor
  · rw [h, List.countP_singleton, hcall]
    rfl
  · rw [h, List.countP_singleton, hanswer]
    rfl
  all_goals
    rw [h, Answer.toldOf_singleton, htold]
    rfl

end Counted

variable (c : Chain)

/-! ## One call -/

theorem metrics_initChain (h : BlockHeader) (g : Genesis) :
    (c.initChain h g).2.metrics = c.metrics := by
  rw [initChain]
  split
  · rfl
  · split
    · rfl
    · rfl
    · obtain ⟨w, hw⟩ := exists_pending_inBlock { c with header := some h }
        (Exec.branch (g.load c.assembly.registry))
      rcases hload : { c with header := some h }.inBlock
        (Exec.branch (g.load c.assembly.registry)) with ⟨_ | _, c'⟩
      all_goals
        rw [hload] at hw ⊢
        obtain rfl : c' = _ := hw
        rfl

theorem metrics_endBlock : ∃ pruned, c.endBlock.2.metrics = { c.metrics with pruned } := by
  obtain ⟨w, hw⟩ :=
    c.exists_pending_inBlock (Exec.branch (Keeper.pruneExpired c.assembly.registry))
  rw [endBlock]
  split
  · exact ⟨c.metrics.pruned, rfl⟩
  · rcases hblock : c.inBlock _ with ⟨_ | n, c'⟩
    · rw [hblock] at hw
      obtain rfl : c' = _ := hw
      exact ⟨c.metrics.pruned, rfl⟩
    · rw [hblock] at hw
      obtain rfl : c' = _ := hw
      exact ⟨c.metrics.pruned + n, rfl⟩

theorem metrics_commit : ∃ blockHeight, c.commit.2.metrics = { c.metrics with blockHeight } := by
  rw [commit]
  split
  · exact ⟨c.metrics.blockHeight, rfl⟩
  · exact ⟨_, rfl⟩

/-- A delivered transaction counts once, and by its answer. -/
theorem counted_deliver (tx : List Message) :
    Counted [.deliver tx] [.delivered (c.deliverTx tx).1] c (c.deliverTx tx).2 := by
  rw [deliverTx]
  rcases hrun : c.runTx tx with ⟨e | ⟨data, events⟩, c'⟩
  · have hsame : (c.runTx tx).2 = c := runTx_of_error (e := e) (by rw [hrun])
    rw [hrun] at hsame
    obtain rfl : c' = c := hsame
    have hfail : (TxResponse.ofResult (.error e)).code ≠ 0 := e.code_ne_zero
    constructor
    · rfl
    · rw [List.countP_singleton, Answer.isFailure, if_pos (decide_eq_true hfail)]
    all_goals
      rw [Answer.toldOf_singleton, Answer.told, if_neg hfail]
      rfl
  · obtain ⟨-, -, -, -, -, -, hafter⟩ := runTx_of_ok hrun
    have hok : (TxResponse.ofResult (.ok (data, events))).code = 0 := rfl
    dsimp only
    rw [Metrics.countEvents_eq, hafter]
    constructor
    · rfl
    · rw [List.countP_singleton, Answer.isFailure, hok]
      rfl
    all_goals
      rw [Answer.toldOf_singleton, Answer.told, if_pos hok]
      rfl

theorem counted_perform (call : Call) :
    Counted [call] [(c.perform call).1] c (c.perform call).2 := by
  cases call with
  | init h g =>
    exact .of_idle rfl rfl rfl
      ⟨c.metrics.blockHeight, c.metrics.pruned, c.metrics_initChain h g⟩
  | begin h =>
    have hmetrics : (c.beginBlock h).2.metrics = c.metrics := by
      rcases c.beginBlock_cases h with ⟨e, heq⟩ | ⟨heq, -⟩ <;> rw [heq]
    exact .of_idle rfl rfl rfl ⟨c.metrics.blockHeight, c.metrics.pruned, hmetrics⟩
  | deliver tx => exact c.counted_deliver tx
  | endBlock =>
    obtain ⟨pruned, hmetrics⟩ := c.metrics_endBlock
    exact .of_idle rfl rfl rfl ⟨c.metrics.blockHeight, pruned, hmetrics⟩
  | commit =>
    obtain ⟨blockHeight, hmetrics⟩ := c.metrics_commit
    exact .of_idle rfl rfl rfl ⟨blockHeight, c.metrics.pruned, hmetrics⟩

/-! ## Runs -/

theorem counted_run (calls : List Call) : Counted calls (c.run calls).1 c (c.run calls).2 := by
  induction calls generalizing c with
  | nil => exact .refl c
  | cons call calls ih => exact (c.counted_perform call).append (ih (c.perform call).2)

end Chain

end GrantLedger
