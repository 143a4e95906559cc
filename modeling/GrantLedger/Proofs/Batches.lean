import GrantLedger.Proofs.Layering
import GrantLedger.Proofs.Transactions

/-!
# Batches compose

A batch of messages comes to the same as two shorter batches one after the other, provided that the
handlers of the second do not ask for the events of the batch in which they are executed
(`Message.Deaf`), since in a batch of their own the events of the first are out of their reach.
Everything else that the messages of the second batch see is what those of the first have left,
whether it lies in the same buffer or has been flushed to the one below: nothing that a keeper, a
handler or a nested batch does tells the two apart (`Assembly.extensional_dispatchFor`). A failure in
the second batch leaves the writes of the first behind, so both have to be in one branch, as the
messages of a transaction are (`Assembly.batches_compose`).
-/

namespace GrantLedger

namespace Exec

variable {α β γ : Type}

/-- Both have failed in the same way, or both have succeeded in the same context, with related
results. -/
inductive Alike (R : α → β → Prop) : Except Error α × Context → Except Error β × Context → Prop
  | failed (e : Error) (c d : Context) : Alike R (.error e, c) (.error e, d)
  | succeeded {a : α} {b : β} (h : R a b) (c : Context) : Alike R (.ok a, c) (.ok b, c)

/-- Over stores without faults the two computations end alike. -/
def Matches (R : α → β → Prop) (x : Exec α) (y : Exec β) : Prop :=
  ∀ c : Context, c.Reliable → Alike R (x c) (y c)

namespace Matches

theorem refl (x : Exec α) : x.Matches Eq x := by
  intro c _
  rcases x c with ⟨e | a, d⟩
  · exact .failed e d d
  · exact .succeeded rfl d

theorem throw (R : α → β → Prop) (e : Error) :
    (MonadExcept.throw e : Exec α).Matches R (MonadExcept.throw e) :=
  fun c _ => .failed e c c

theorem pure {R : α → β → Prop} {a : α} {b : β} (h : R a b) :
    (Pure.pure a : Exec α).Matches R (Pure.pure b) := fun c _ => .succeeded h c

theorem bind {δ : Type} {R : α → β → Prop} {S : γ → δ → Prop} {x : Exec α} {y : Exec β}
    {f : α → Exec γ} {g : β → Exec δ} (hx : x.Steady) (h : x.Matches R y)
    (hfg : ∀ a b, R a b → (f a).Matches S (g b)) : (x >>= f).Matches S (y >>= g) := by
  intro c hc
  have hxy := h c hc
  have hcontinues := hx c
  rw [bind_apply, bind_apply]
  generalize x c = p, y c = q at hxy hcontinues
  cases hxy with
  | failed e d d' => exact .failed e d d'
  | succeeded hab d => exact hfg _ _ hab d (hcontinues.reliable hc)

/-- A computation that fails at once fails in the same way at the head of a sequence. -/
theorem throw_bind {δ : Type} (R : α → δ → Prop) (e : Error) (g : β → Exec δ) :
    (MonadExcept.throw e : Exec α).Matches R (MonadExcept.throw e >>= g) :=
  fun c _ => .failed e c c

/-- Branches do not show where a computation has failed. -/
theorem branch_eq {x y : Exec α} (h : x.Matches Eq y) {c : Context} (hc : c.Reliable) :
    x.branch c = y.branch c := by
  have hchild := h c.child hc
  rw [Exec.branch_eq hc, Exec.branch_eq hc]
  generalize x c.child = p, y c.child = q at hchild
  cases hchild with
  | failed e d d' => rfl
  | succeeded hab d =>
    cases hab
    rfl

end Matches

/-- A computation that depends on the store alone may have a branch of its own after another one in
a branch, or share a branch with it. -/
theorem Extensional.two_branches_match {δ : Type} {R : γ → δ → Prop} {x : Exec α} {y : Exec β}
    (hx : x.Extensional) (hy : y.Confined fun _ => True) {f : α → β → γ} {g : α → β → δ}
    (hfg : ∀ a b, R (f a b) (g a b)) :
    Matches R
      (Exec.branch do
        let a ← x
        let b ← y
        return f a b)
      (do
        let a ← x.branch
        let b ← y.branch
        return g a b) := by
  intro c hc
  have hself := Context.Shows.self (fun _ => True) hc
  obtain ⟨result, w, es, hon⟩ := hx c.header c.store.content []
  have hx := hon c.child hself.child rfl
  have hbranch := Exec.branch_eq hc x
  rw [hx] at hbranch
  rw [Exec.branch_eq hc]
  cases result with
  | error e =>
    rw [bind_error hx, bind_error hbranch]
    exact .failed e c c
  | ok a =>
    dsimp only at hbranch
    rw [Context.adopt_become] at hbranch
    rw [bind_ok hx, bind_ok hbranch]
    -- The second part sees the writes of the first in the shared branch, or flushed below its own.
    obtain ⟨⟨result', w', es'⟩, -, hon'⟩ := hy c.header (c.store.content.update w.entries)
    have hshared := hon' _ (hself.child.become w es)
    have hown := hon' _ (hself.extend w es).child
    have hbranch' := Exec.branch_eq (hself.extend w es).reliable y
    rw [hown] at hbranch'
    cases result' with
    | error e =>
      rw [bind_error hshared, bind_error hbranch']
      exact .failed e _ _
    | ok b =>
      dsimp only [Effect.on] at hbranch'
      rw [Context.adopt_extend, Context.extend_extend] at hbranch'
      have hadopt : c.adopt ((c.child.become w es).extend w' es') =
          c.extend (w.followedBy w') (es ++ es') := by
        rw [Context.extend_eq_become, Context.become_become, Context.adopt_become]
        rfl
      rw [bind_ok hshared, bind_ok hbranch', ← hadopt]
      exact .succeeded (hfg a b) _

end Exec

namespace Assembly

variable (a : Assembly) (grantee : Address) (xs ys : List Message)

/-! ## Batches -/

theorem dispatchFor_append :
    a.dispatchFor grantee (xs ++ ys) = (do
      let results ← a.dispatchFor grantee xs
      let later ← a.dispatchFor grantee ys
      return results ++ later) := by
  induction xs with
  | nil => simp [dispatchFor]
  | cons m xs ih => simp [dispatchFor, ih]

theorem steady_exec : (a.exec grantee xs).Steady := .branch _

variable {ys}

/-- A batch comes to the same as the two that it is split into, but for what a failure of the second
leaves of the first. -/
theorem exec_append_matches (hys : ∀ m ∈ ys, m.Deaf) {δ : Type} {R : List Bytes → δ → Prop}
    {g : List Bytes → List Bytes → δ} (hg : ∀ results later, R (results ++ later) (g results later)) :
    (a.exec grantee (xs ++ ys)).Matches R (do
      let results ← a.exec grantee xs
      let later ← a.exec grantee ys
      return g results later) := by
  rw [exec, dispatchFor_append]
  exact (a.extensional_dispatchFor grantee xs).two_branches_match
    (a.confined_dispatchFor_of_deaf grantee hys) hg

/-- In one branch the two batches come to the same as the whole, failure or not. -/
theorem exec_append_eq (hys : ∀ m ∈ ys, m.Deaf) {c : Context} (hc : c.Reliable) :
    a.exec grantee (xs ++ ys) c =
      Exec.branch (do
        let results ← a.exec grantee xs
        let later ← a.exec grantee ys
        return results ++ later) c := by
  have hmatch := a.exec_append_matches grantee xs hys (R := Eq) fun _ _ => rfl
  rw [← hmatch.branch_eq hc]
  exact ((a.extensional_dispatchFor grantee (xs ++ ys)).branch_branch hc).symm

/-! ## Batches in transactions -/

/-- A batch message fails whatever is in it, or executes what is in it. -/
theorem dispatch_exec_cases (text : String) :
    (∃ e, ∀ msgs, a.dispatch (.exec text msgs) = throw e) ∨
      ∃ grantee, Address.parse text = .ok grantee ∧
        ∀ msgs, a.dispatch (.exec text msgs) = (do
          let results ← a.exec grantee msgs
          return resultsCodec.encode results) := by
  simp only [dispatch, Message.typeUrl]
  rcases a.router.get? Message.execTypeUrl with _ | _ | _
  · exact .inl ⟨_, fun _ => rfl⟩
  · cases Address.parse text with
    | error e => exact .inl ⟨_, fun _ => rfl⟩
    | ok grantee => exact .inr ⟨grantee, rfl, fun _ => rfl⟩
  · exact .inl ⟨_, fun _ => rfl⟩

/-- The data of one batch against that of the two it is split into. -/
def SplitResult (whole : Bytes) (parts : Bytes × Bytes) : Prop :=
  ∃ results later, whole = resultsCodec.encode (results ++ later) ∧
    parts = (resultsCodec.encode results, resultsCodec.encode later)

/-- The same in the middle of the data of other messages. -/
def SplitResults (whole parts : List Bytes) : Prop :=
  ∃ before d p after, SplitResult d p ∧ whole = before ++ d :: after ∧
    parts = before ++ p.1 :: p.2 :: after

theorem dispatch_exec_append_matches (hys : ∀ m ∈ ys, m.Deaf) (text : String) :
    (a.dispatch (.exec text (xs ++ ys))).Matches SplitResult (do
      let d ← a.dispatch (.exec text xs)
      let d' ← a.dispatch (.exec text ys)
      return (d, d')) := by
  rcases a.dispatch_exec_cases text with ⟨e, he⟩ | ⟨grantee, -, hexec⟩
  · rw [he, he]
    exact .throw_bind _ e _
  · have happend := a.exec_append_matches grantee xs hys
      (R := fun results p => results = p.1 ++ p.2) (g := Prod.mk) fun _ _ => rfl
    have h := happend.bind (S := SplitResult)
      (a.steady_exec grantee (xs ++ ys))
      (f := fun results => pure (resultsCodec.encode results))
      (g := fun p => pure (resultsCodec.encode p.1, resultsCodec.encode p.2))
      (fun results p hp => .pure ⟨p.1, p.2, by rw [hp], rfl⟩)
    simpa only [hexec, bind_assoc, pure_bind] using h

theorem dispatchAll_split_matches (hys : ∀ m ∈ ys, m.Deaf) (text : String)
    (before after : List Message) :
    (a.dispatchAll (before ++ .exec text (xs ++ ys) :: after)).Matches SplitResults
      (a.dispatchAll (before ++ .exec text xs :: .exec text ys :: after)) := by
  induction before with
  | nil =>
    have h := (a.dispatch_exec_append_matches xs hys text).bind (S := SplitResults)
      (a.steady_dispatch _)
      (f := fun d => do return d :: (← a.dispatchAll after))
      (g := fun p => do return p.1 :: p.2 :: (← a.dispatchAll after))
      (fun d p hp => .bind (a.steady_dispatchAll after) (.refl _) fun ds _ hds => by
        subst hds
        exact .pure ⟨[], d, p, ds, hp, rfl, rfl⟩)
    simpa only [List.nil_append, dispatchAll, bind_assoc, pure_bind] using h
  | cons m before ih =>
    simp only [List.cons_append, dispatchAll]
    refine .bind (a.steady_dispatch m) (.refl _) fun d _ hd => ?_
    subst hd
    refine .bind (a.steady_dispatchAll _) ih fun whole parts hsplit => ?_
    obtain ⟨before', d', p, after', hp, rfl, rfl⟩ := hsplit
    exact .pure ⟨d :: before', d', p, after', hp, rfl, rfl⟩

end Assembly

namespace Message

theorem validateAll_append (xs ys : List Message) :
    validateAll (xs ++ ys) = (do validateAll xs; validateAll ys) := by
  induction xs with
  | nil => rfl
  | cons m xs ih =>
    rw [List.cons_append, validateAll, validateAll, ih]
    cases m.validate <;> rfl

theorem validate_exec {msgs : List Message} (h : msgs ≠ []) (text : String) :
    validate (.exec text msgs) = (do discard (Role.grantee.parse text); validateAll msgs) := by
  cases msgs with
  | nil => exact absurd rfl h
  | cons m ms => rfl

end Message

namespace Chain

variable {c : Chain}

/-- Splitting a batch, if not at one of its ends, does not change what is found wrong with it. -/
theorem validateTx_split {xs ys : List Message} (hxs : xs ≠ []) (hys : ys ≠ []) (text : String)
    (before after : List Message) :
    validateTx (before ++ .exec text xs :: .exec text ys :: after) =
      validateTx (before ++ .exec text (xs ++ ys) :: after) := by
  have hne : xs ++ ys ≠ [] := List.append_ne_nil_of_left_ne_nil hxs ys
  have hempty (ms : List Message) (m : Message) : (before ++ m :: ms).isEmpty = false := by
    cases before <;> rfl
  rw [validateTx, validateTx, hempty, hempty]
  simp only [Message.validateAll_append, Message.validateAll, Message.validate_exec hxs,
    Message.validate_exec hys, Message.validate_exec hne]
  cases Role.grantee.parse text <;> cases Message.validateAll xs <;> rfl

/-- Transactions whose messages match, and in which the same is found wrong, both fail, or both
succeed and differ in their data only. -/
theorem runTx_of_matches {R : List Bytes → List Bytes → Prop} {tx tx' : List Message}
    (hvalid : validateTx tx' = validateTx tx)
    (h : (c.assembly.dispatchAll tx).Matches R (c.assembly.dispatchAll tx')) :
    (∃ e, c.runTx tx = (.error e, c) ∧ c.runTx tx' = (.error e, c)) ∨
      ∃ data data' events c', R data data' ∧ c.runTx tx = (.ok (data, events), c') ∧
        c.runTx tx' = (.ok (data', events), c') := by
  cases hv : validateTx tx with
  | error e => exact .inl ⟨e, runTx_of_invalid hv, runTx_of_invalid (hvalid.trans hv)⟩
  | ok u =>
    have hvalid' := hvalid.trans hv
    cases hh : c.header with
    | none => exact .inl ⟨.noBlock, runTx_of_no_block hh hv, runTx_of_no_block hh hvalid'⟩
    | some hd =>
      have hchild := h (Context.start hd c.view).child c.reliable_view
      rw [runTx_of_header hh hv, runTx_of_header hh hvalid']
      generalize c.assembly.dispatchAll tx _ = p, c.assembly.dispatchAll tx' _ = q at hchild
      cases hchild with
      | failed e d d' => exact .inl ⟨e, rfl, rfl⟩
      | succeeded hR d => exact .inr ⟨_, _, _, _, hR, rfl, rfl⟩

end Chain

/-- Executing a batch comes to the same as executing any two batches that it can be split into one
after the other, in one branch: the same error, and nothing done, or the results of both, the same
events and the same store. In a transaction the two may take the place of the one. What the handlers
of the second batch do must not depend on the events emitted before it. -/
theorem Assembly.batches_compose (a : Assembly) :
    (∀ (grantee : Address) (xs ys : List Message) (c : Context), c.Reliable →
      ((∀ m ∈ ys, m.Deaf) →
        a.exec grantee (xs ++ ys) c =
          Exec.branch (do
            let results ← a.exec grantee xs
            let later ← a.exec grantee ys
            return results ++ later) c) ∧
      ∀ e c', a.exec grantee (xs ++ ys) c = (.error e, c') → c' = c) ∧
    ∀ (c : Chain) (text : String) (before after xs ys : List Message), c.assembly = a →
      xs ≠ [] → ys ≠ [] → (∀ m ∈ ys, m.Deaf) →
      let whole := c.deliverTx (before ++ .exec text (xs ++ ys) :: after)
      let split := c.deliverTx (before ++ .exec text xs :: .exec text ys :: after)
      split.2 = whole.2 ∧ split.1.failure = whole.1.failure ∧ split.1.events = whole.1.events ∧
        (whole.1.failure = none → SplitResults whole.1.data split.1.data) := by
  refine ⟨fun grantee xs ys c hc => ⟨fun hys => ?_, fun e c' h => ?_⟩, ?_⟩
  · exact a.exec_append_eq grantee xs hys hc
  · rw [exec, Exec.branch_eq hc] at h
    split at h
    · cases h
    · cases h
      rfl
  · rintro c text before after xs ys rfl hxs hne hys whole split
    have hvalid := Chain.validateTx_split hxs hne text before after
    have hmatch := c.assembly.dispatchAll_split_matches xs hys text before after
    rcases Chain.runTx_of_matches hvalid hmatch with
      ⟨e, hwhole, hsplit⟩ | ⟨data, data', events, c', hdata, hwhole, hsplit⟩
    · dsimp only [whole, split]
      rw [Chain.deliverTx, Chain.deliverTx, hwhole, hsplit]
      refine ⟨rfl, rfl, rfl, fun hnone => ?_⟩
      cases hnone
    · dsimp only [whole, split]
      rw [Chain.deliverTx, Chain.deliverTx, hwhole, hsplit]
      exact ⟨rfl, rfl, rfl, fun _ => hdata⟩

/-- Of two uses one goes with each half of a split batch; a third message has none left, and takes
back what the first two did. -/
theorem Assembly.batches_compose_uses :
    let a : Assembly :=
      ⟨.builtin, ((∅ : Router).insert Message.execTypeUrl .authz).insert "/a" .foreign⟩
    let k : GrantKey := ⟨⟨.replicate 20 2, rfl⟩, ⟨.replicate 20 1, rfl⟩, "/a"⟩
    let g : Grant := ⟨k.granter, k.grantee, .method "/a" (some 2), none⟩
    let m : Message := .foreign "/a" [k.granter] (.ok ()) (.done (.ok [7]))
    let c : Chain := ⟨a, true, (∅ : Pairs).put k.toBytes g.stored, ∅, some ⟨"c", 1, ⟨5⟩⟩, .zero⟩
    let start : Context := .start ⟨"c", 1, ⟨5⟩⟩ c.view
    (Exec.branch (do
      let results ← a.exec k.grantee [m]
      let later ← a.exec k.grantee [m]
      return results ++ later) start).1 = .ok [[7], [7]] ∧
    (a.exec k.grantee ([m, m] ++ [m]) start).2 = start ∧
      (c.deliverTx [.exec k.grantee.toText [m], .exec k.grantee.toText [m]]).2.pending.get?
        k.toBytes = some none := by
  intro a k g m c start
  have hdeaf : ∀ m' ∈ [m], m'.Deaf := by simp [m, Message.Deaf, Action.Deaf]
  obtain ⟨hbatch, htx⟩ := batches_compose a
  have hboth : (a.exec k.grantee ([m] ++ [m]) start).1 = .ok [[7], [7]] := by decide +kernel
  have hthird : (a.exec k.grantee ([m, m] ++ [m]) start).1 =
      .error (.noGrant "/a" k.granter k.grantee) := by decide +kernel
  refine ⟨?_, ?_, ?_⟩
  · rw [← (hbatch k.grantee [m] [m] start c.reliable_view).1 hdeaf]
    exact hboth
  · exact (hbatch k.grantee [m, m] [m] start c.reliable_view).2 _ _ (Exec.eq_of_fst hthird)
  · obtain ⟨hsplit, -⟩ := htx c k.grantee.toText [] [] [m] [m] rfl (List.cons_ne_nil m [])
      (List.cons_ne_nil m []) hdeaf
    have hwhole : (c.deliverTx [.exec k.grantee.toText [m, m]]).2.pending.get? k.toBytes =
        some none := by decide +kernel
    exact (congrArg (fun c' => c'.pending.get? k.toBytes) hsplit).trans hwhole

/-- A handler that counts the events emitted before it answers otherwise in a batch of its own. And
a batch cannot be split at one of its ends: the batch without messages is not valid. -/
theorem Assembly.batches_not_composed :
    let a : Assembly := ⟨.builtin,
      (((∅ : Router).insert Message.execTypeUrl .authz).insert "/a" .foreign).insert "/b" .foreign⟩
    let grantee : Address := ⟨.replicate 20 1, rfl⟩
    let emits : Message := .foreign "/a" [grantee] (.ok ()) (.emit ⟨"x", []⟩ (.done (.ok [])))
    let counts : Message := .foreign "/b" [grantee] (.ok ())
      (.events fun es => .done (.ok [.ofNat es.length]))
    let c : Chain := ⟨a, true, ∅, ∅, some ⟨"c", 1, ⟨5⟩⟩, .zero⟩
    let start : Context := .start ⟨"c", 1, ⟨5⟩⟩ c.view
    (a.exec grantee ([emits] ++ [counts]) start).1 = .ok [[], [1]] ∧
      (Exec.branch (do
        let results ← a.exec grantee [emits]
        let later ← a.exec grantee [counts]
        return results ++ later) start).1 = .ok [[], [0]] ∧
      (c.deliverTx [.exec grantee.toText ([] ++ [emits])]).1.failure = none ∧
      (c.deliverTx [.exec grantee.toText [], .exec grantee.toText [emits]]).1.failure =
        some .emptyBatch := by
  decide +kernel

end GrantLedger
