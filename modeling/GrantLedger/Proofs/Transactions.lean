import GrantLedger.Proofs.Execution

/-!
# Transactions are all or nothing

A transaction runs in a branch of the pending writes, so one that fails leaves the chain as it was,
but for the metrics (`Chain.SameState`), however deep in its messages the failure lies. No call
reads the metrics. A block therefore comes to the same without its failed transactions: the others
get the same answers, and the block ends in the same state and under the same root.
-/

namespace GrantLedger

namespace Assembly

/-- Execute the messages of a transaction and take its events away. -/
def executeTx (a : Assembly) (msgs : List Message) : Exec (List Bytes × List Event) := do
  let data ← Exec.branch (a.dispatchAll msgs)
  return (data, ← Exec.takeEvents)

theorem executeTx_eq (a : Assembly) (msgs : List Message) {c : Context} (hc : c.Reliable) :
    a.executeTx msgs c =
      match a.dispatchAll msgs c.child with
      | (.ok data, child) =>
        (.ok (data, (c.adopt child).events), { c.adopt child with events := [] })
      | (.error e, _) => (.error e, c) := by
  have hbranch := Exec.branch_eq hc (a.dispatchAll msgs)
  rw [executeTx]
  split
  · next data child hx =>
    rw [hx] at hbranch
    rw [Exec.bind_ok hbranch]
    rfl
  · next e child hx =>
    rw [hx] at hbranch
    exact Exec.bind_error hbranch

end Assembly

namespace Chain

variable {c d : Chain}

theorem reliable_view (c : Chain) : c.view.Reliable := fun _ => rfl

/-- The writes that are carried over to the view of a chain are pending after it. -/
theorem view_putAll (c : Chain) (ws : List (Bytes × Option Bytes)) :
    { c with pending := (c.view.putAll ws).writes }.view = c.view.putAll ws :=
  (Store.SameBelow.eq_buffered (Store.sameBelow_putAll c.view ws)).symm

/-! ## One transaction -/

theorem runTx_of_invalid {msgs : List Message} {e : Error} (h : validateTx msgs = .error e) :
    c.runTx msgs = (.error e, c) := by
  rw [runTx, h]

theorem runTx_of_no_block (hh : c.header = none) {msgs : List Message}
    (hvalid : validateTx msgs = .ok ()) : c.runTx msgs = (.error .noBlock, c) := by
  rw [runTx, hvalid]
  dsimp only
  rw [inBlock, hh]

theorem runTx_of_header {h : BlockHeader} (hh : c.header = some h) {msgs : List Message}
    (hvalid : validateTx msgs = .ok ()) :
    c.runTx msgs =
      match c.assembly.dispatchAll msgs (Context.start h c.view).child with
      | (.ok data, child) =>
        (.ok (data, child.events),
          { c with pending := (c.view.putAll child.store.writes.entries).writes })
      | (.error e, _) => (.error e, c) := by
  have hexec := c.assembly.executeTx_eq msgs (c := .start h c.view) c.reliable_view
  have hrun : c.runTx msgs = c.inBlock (c.assembly.executeTx msgs) := by
    rw [runTx, hvalid]
    rfl
  obtain ⟨assembly, sweeps, committed, pending, header, metrics⟩ := c
  obtain rfl : header = some h := hh
  rw [hrun, inBlock]
  dsimp only at hexec ⊢
  split at hexec
  · rw [hexec]
    rfl
  · rw [hexec]
    rfl

/-- A transaction that fails leaves the chain as it was. -/
theorem runTx_of_error {msgs : List Message} {e : Error} (h : (c.runTx msgs).1 = .error e) :
    (c.runTx msgs).2 = c := by
  cases hvalid : validateTx msgs with
  | error e' => rw [runTx_of_invalid hvalid]
  | ok u =>
    cases hh : c.header with
    | none => rw [runTx_of_no_block hh hvalid]
    | some hd =>
      rw [runTx_of_header hh hvalid] at h ⊢
      split
      · next hx =>
        rw [hx] at h
        cases h
      · rfl

/-- A transaction that succeeds adopts the branch in which its messages ran. -/
theorem runTx_of_ok {c' : Chain} {msgs : List Message} {data : List Bytes} {events : List Event}
    (h : c.runTx msgs = (.ok (data, events), c')) :
    ∃ hd child, c.header = some hd ∧
      c.assembly.dispatchAll msgs (Context.start hd c.view).child = (.ok data, child) ∧
      events = child.events ∧ c'.view = ((Context.start hd c.view).adopt child).store ∧
      c' = { c with pending := c'.pending } := by
  cases hvalid : validateTx msgs with
  | error e =>
    rw [runTx_of_invalid hvalid] at h
    cases h
  | ok u =>
    cases hh : c.header with
    | none =>
      rw [runTx_of_no_block hh hvalid] at h
      cases h
    | some hd =>
      rw [runTx_of_header hh hvalid] at h
      split at h
      · next data' child hx =>
        cases h
        exact ⟨hd, child, rfl, hx, rfl, c.view_putAll _, by rw [hh]⟩
      · cases h

/-! ## Chains that differ in their metrics -/

/-- The chains are in the same state: nothing but the metrics tells them apart. -/
def SameState (c d : Chain) : Prop := ∃ m, d = { c with metrics := m }

theorem SameState.refl (c : Chain) : c.SameState c := ⟨c.metrics, rfl⟩

theorem SameState.symm (h : c.SameState d) : d.SameState c := by
  obtain ⟨m, rfl⟩ := h
  exact ⟨c.metrics, rfl⟩

theorem SameState.trans {e : Chain} (hcd : c.SameState d) (hde : d.SameState e) :
    c.SameState e := by
  obtain ⟨m, rfl⟩ := hcd
  obtain ⟨n, rfl⟩ := hde
  exact ⟨n, rfl⟩

/-- A transaction changes nothing but the pending writes and the metrics. -/
theorem sameState_deliverTx (c : Chain) (msgs : List Message) :
    { c with pending := (c.runTx msgs).2.pending }.SameState (c.deliverTx msgs).2 := by
  have hrun : (c.runTx msgs).2 = { c with pending := (c.runTx msgs).2.pending } := by
    rcases hrun : c.runTx msgs with ⟨e | ⟨data, events⟩, c'⟩
    · have hsame : (c.runTx msgs).2 = c := runTx_of_error (e := e) (by rw [hrun])
      rw [hrun] at hsame
      obtain rfl : c' = c := hsame
      rfl
    · obtain ⟨-, -, -, -, -, -, hafter⟩ := runTx_of_ok hrun
      exact hafter
  rw [← hrun]
  exact ⟨_, rfl⟩

/-- What runs in a block changes nothing but the pending writes. -/
theorem exists_pending_inBlock {α : Type} (c : Chain) (x : Exec α) :
    ∃ w, (c.inBlock x).2 = { c with pending := w } := by
  rw [inBlock]
  split
  · exact ⟨c.pending, rfl⟩
  · exact ⟨_, rfl⟩

/-- The end of a block changes nothing but the pending writes and the metrics. -/
theorem sameState_endBlock (c : Chain) :
    ∃ w, SameState { c with pending := w } c.endBlock.2 := by
  obtain ⟨w, hw⟩ :=
    c.exists_pending_inBlock (Exec.branch (Keeper.pruneExpired c.assembly.registry))
  rw [endBlock]
  split
  · exact ⟨c.pending, c.metrics, rfl⟩
  · rcases hblock : c.inBlock _ with ⟨e | n, c'⟩
    · rw [hblock] at hw
      obtain rfl : c' = _ := hw
      exact ⟨w, c.metrics, rfl⟩
    · rw [hblock] at hw
      obtain rfl : c' = _ := hw
      exact ⟨w, _, rfl⟩

theorem inBlock_metrics {α : Type} (c : Chain) (x : Exec α) (m : Metrics) :
    { c with metrics := m }.inBlock x =
      ((c.inBlock x).1, { (c.inBlock x).2 with metrics := m }) := by
  rw [inBlock, inBlock]
  dsimp only
  split <;> rfl

theorem runTx_metrics (c : Chain) (msgs : List Message) (m : Metrics) :
    { c with metrics := m }.runTx msgs =
      ((c.runTx msgs).1, { (c.runTx msgs).2 with metrics := m }) := by
  rw [runTx, runTx]
  split
  · rfl
  · exact inBlock_metrics c _ m

namespace SameState

theorem deliverTx (h : c.SameState d) (msgs : List Message) :
    (d.deliverTx msgs).1 = (c.deliverTx msgs).1 ∧
      (c.deliverTx msgs).2.SameState (d.deliverTx msgs).2 := by
  obtain ⟨m, rfl⟩ := h
  rw [Chain.deliverTx, Chain.deliverTx, runTx_metrics]
  exact ⟨rfl, _, rfl⟩

theorem endBlock (h : c.SameState d) :
    d.endBlock.1 = c.endBlock.1 ∧ c.endBlock.2.SameState d.endBlock.2 := by
  obtain ⟨m, rfl⟩ := h
  rw [Chain.endBlock, Chain.endBlock]
  split
  · exact ⟨rfl, m, rfl⟩
  · dsimp only
    rw [inBlock_metrics]
    rcases c.inBlock _ with ⟨_ | n, c'⟩
    · exact ⟨rfl, m, rfl⟩
    · exact ⟨rfl, _, rfl⟩

theorem commit (h : c.SameState d) :
    d.commit.1 = c.commit.1 ∧ c.commit.2.SameState d.commit.2 := by
  obtain ⟨m, rfl⟩ := h
  rw [Chain.commit, Chain.commit]
  dsimp only
  split
  · exact ⟨rfl, m, rfl⟩
  · exact ⟨rfl, _, rfl⟩

theorem committed_eq (h : c.SameState d) : d.committed = c.committed := by
  obtain ⟨m, rfl⟩ := h
  rfl

end SameState

/-- A transaction that is answered with a failure changes nothing but the metrics. -/
theorem deliverTx_of_code_ne_zero {msgs : List Message} (h : (c.deliverTx msgs).1.code ≠ 0) :
    c.SameState (c.deliverTx msgs).2 ∧ (c.deliverTx msgs).1.data = [] ∧
      (c.deliverTx msgs).1.events = [] := by
  have herror : ∀ e, (c.runTx msgs).1 = .error e → (c.runTx msgs).2 = c := fun e => runTx_of_error
  rw [deliverTx] at h ⊢
  rcases hrun : c.runTx msgs with ⟨e | ⟨data, events⟩, c'⟩
  · rw [hrun] at herror
    obtain rfl : c' = c := herror e rfl
    exact ⟨⟨_, rfl⟩, rfl, rfl⟩
  · rw [hrun] at h
    exact absurd rfl h

/-! ## Blocks -/

/-- Deliver transactions to the block in progress, one after the other. -/
def deliverAll (c : Chain) : List (List Message) → List TxResponse × Chain
  | [] => ([], c)
  | tx :: txs =>
    let (response, c) := c.deliverTx tx
    let (responses, c) := c.deliverAll txs
    (response :: responses, c)

/-- The transactions that succeed when all of them are delivered. -/
def succeeding (c : Chain) : List (List Message) → List (List Message)
  | [] => []
  | tx :: txs =>
    let (response, c) := c.deliverTx tx
    if response.isOk then tx :: c.succeeding txs else c.succeeding txs

theorem SameState.deliverAll (h : c.SameState d) (txs : List (List Message)) :
    (d.deliverAll txs).1 = (c.deliverAll txs).1 ∧
      (c.deliverAll txs).2.SameState (d.deliverAll txs).2 := by
  induction txs generalizing c d with
  | nil => exact ⟨rfl, h⟩
  | cons tx txs ih =>
    obtain ⟨hresponse, hafter⟩ := h.deliverTx tx
    obtain ⟨hresponses, hstate⟩ := ih hafter
    exact ⟨congrArg₂ List.cons hresponse hresponses, hstate⟩

/-- Without its failed transactions a block goes the same way. -/
theorem deliverAll_succeeding (c : Chain) (txs : List (List Message)) :
    (c.deliverAll (c.succeeding txs)).1 = (c.deliverAll txs).1.filter (·.isOk) ∧
      (c.deliverAll txs).2.SameState (c.deliverAll (c.succeeding txs)).2 := by
  induction txs generalizing c with
  | nil => exact ⟨rfl, .refl c⟩
  | cons tx txs ih =>
    obtain ⟨hresponses, hstate⟩ := ih (c.deliverTx tx).2
    rw [succeeding]
    dsimp only
    split
    · next hok =>
      refine ⟨?_, hstate⟩
      rw [deliverAll, deliverAll]
      dsimp only
      rw [hresponses, List.filter_cons_of_pos hok]
    · next hfail =>
      have hcode : (c.deliverTx tx).1.code ≠ 0 := by simpa [TxResponse.isOk] using hfail
      -- The rest meets the chain before the failed transaction instead of the one after it.
      obtain ⟨hsame, hafter⟩ := (deliverTx_of_code_ne_zero hcode).1.symm.deliverAll
        ((c.deliverTx tx).2.succeeding txs)
      refine ⟨?_, hstate.trans hafter⟩
      rw [hsame, hresponses, deliverAll]
      exact (List.filter_cons_of_neg hfail).symm

/-- A transaction answered with a non-zero code leaves the chain as it was and reports nothing.
Without such transactions a block gives the same answers to the others and comes to the same state
and root, whether or not it is ended before it is committed. -/
theorem failed_transactions_are_erasable (c : Chain) :
    (∀ tx, (c.deliverTx tx).1.code ≠ 0 →
      (c.deliverTx tx).2.pending = c.pending ∧ (c.deliverTx tx).2.header = c.header ∧
        (c.deliverTx tx).2.committed = c.committed ∧ (c.deliverTx tx).1.data = [] ∧
        (c.deliverTx tx).1.events = []) ∧
    ∀ txs,
      let kept := (c.deliverAll (c.succeeding txs)).2
      let full := (c.deliverAll txs).2
      (c.deliverAll (c.succeeding txs)).1 = (c.deliverAll txs).1.filter (·.isOk) ∧
        kept.commit.1 = full.commit.1 ∧
        kept.commit.2.committed = full.commit.2.committed ∧
        kept.endBlock.1 = full.endBlock.1 ∧
        kept.endBlock.2.commit.1 = full.endBlock.2.commit.1 ∧
        kept.endBlock.2.commit.2.committed = full.endBlock.2.commit.2.committed := by
  refine ⟨fun tx hcode => ?_, fun txs => ?_⟩
  · obtain ⟨⟨m, hafter⟩, hdata, hevents⟩ := deliverTx_of_code_ne_zero hcode
    rw [hafter]
    exact ⟨rfl, rfl, rfl, hdata, hevents⟩
  · obtain ⟨hresponses, hstate⟩ := c.deliverAll_succeeding txs
    obtain ⟨hroot, hcommitted⟩ := hstate.commit
    obtain ⟨hcount, hended⟩ := hstate.endBlock
    obtain ⟨hroot', hcommitted'⟩ := hended.commit
    exact ⟨hresponses, hroot, hcommitted.committed_eq, hcount, hroot', hcommitted'.committed_eq⟩

/-- The failure of a second message takes back what the first wrote. -/
theorem failed_write_is_erased :
    ((⟨⟨.builtin, (∅ : Router).insert "/a" .foreign⟩, true, ∅, ∅, some ⟨"c", 1, ⟨5⟩⟩, .zero⟩ :
      Chain).deliverTx
        [.foreign "/a" [] (.ok ()) (.write [7] (some [8]) fun _ => .done (.ok [])),
          .foreign "/a" [] (.ok ()) (.done (.error .selfGrant))]).2.pending = ∅ :=
  ((failed_transactions_are_erasable _).1 _ (by decide)).1

end Chain

end GrantLedger
