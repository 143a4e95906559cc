import GrantLedger.Proofs.Journal
import GrantLedger.Proofs.Transactions

/-!
# Runs of a chain and their journals

A run is any sequence of calls to a chain, in any order, successful or not. Its journal lists the
lasting changes to grants of all its calls; the record under every key of the namespace of grants
replays it (`Chain.replays_run`), and the events of the answers that report on grants are those of
its entries, as far as no handler has taken them away (`Chain.reports_run`). A genesis is loaded at
most once, before anything else lasts (`Chain.genesis_first`).
-/

namespace GrantLedger

/-! ## Genesis -/

namespace Genesis

variable {r : Registry} (hr : r.Builtin)

/-- The grant that an entry stores at a time, if it has not expired. -/
def grant? (r : Registry) (now : Timestamp) (e : GenesisEntry) : Option Grant :=
  match r.unpack e.authorization with
  | .ok a =>
    let g : Grant := ⟨e.granter, e.grantee, a, e.expiration⟩
    if g.isExpired now then none else some g
  | .error _ => none

/-- The grants that a genesis stores at a time, one after the other. -/
def grants (r : Registry) (now : Timestamp) (g : Genesis) : List Grant := g.filterMap (grant? r now)

theorem validate_of_mem {g : Genesis} (h : g.validate = .ok ()) {e : GenesisEntry} (he : e ∈ g) :
    e.validate = .ok () := by
  induction g with
  | nil => cases he
  | cons e' g ih =>
    change (e'.validate >>= fun _ => g.forM GenesisEntry.validate) = .ok () at h
    cases hvalid : e'.validate with
    | error _ =>
      rw [hvalid] at h
      cases h
    | ok u =>
      rw [hvalid] at h
      rcases List.mem_cons.1 he with rfl | he
      · exact hvalid
      · exact ih h he

include hr

/-- An entry that loads stores its grant, unless it has expired. -/
theorem loadEntry_of_ok {now : Timestamp} {e : GenesisEntry} (he : e.validate = .ok ())
    {c c' : Context} (hc : c.Reliable) (h : loadEntry r now e c = (.ok (), c')) :
    (grant? r now e = none ∧ c' = c) ∨
      ∃ g, grant? r now e = some g ∧ g.Sound ∧ c' = c.put g.key.toBytes g.stored := by
  obtain ⟨a, hunpack, h⟩ := Exec.ofExcept_bind_eq_ok_iff.1 h
  obtain ⟨u, hvalid, h⟩ := Exec.ofExcept_bind_eq_ok_iff.1 h
  have hbuiltin := (hr.pack_of_unpack hunpack).1
  rw [grant?, hunpack]
  dsimp only at h ⊢
  split at h
  · next hexp =>
    rw [if_pos hexp]
    cases h
    exact .inl ⟨rfl, rfl⟩
  · next hexp =>
    rw [if_neg hexp]
    obtain ⟨b, hb⟩ := Grant.exists_stored (g := ⟨e.granter, e.grantee, a, e.expiration⟩) hbuiltin
    rw [GrantTable.save_eq hc hb] at h
    cases h
    refine .inr ⟨_, rfl, ⟨fun hself => ?_, hvalid, hbuiltin⟩, by rw [hb]⟩
    rw [GenesisEntry.validate, if_pos hself] at he
    cases he

/-- Entries that load store their grants one after the other. -/
theorem loadAll_of_ok {now : Timestamp} {es : Genesis} (hes : ∀ e ∈ es, e.validate = .ok ())
    {c c' : Context} (hc : c.Reliable) (h : loadAll r now es c = (.ok (), c')) :
    c.Continues c' ∧ c'.events = c.events ∧ (∀ g ∈ grants r now es, g.Sound) ∧
      ∀ b, c'.store.content.get? b =
        (grants r now es).foldl (fun v g => if g.key.toBytes = b then g.stored else v)
          (c.store.content.get? b) := by
  induction es generalizing c with
  | nil =>
    cases h
    exact ⟨.refl c', rfl, nofun, fun b => rfl⟩
  | cons e es ih =>
    obtain ⟨u, d, hentry, hrest⟩ := Exec.bind_eq_ok_iff.1 h
    have hlater : ∀ e' ∈ es, e'.validate = .ok () :=
      fun e' he' => hes e' (List.mem_cons_of_mem e he')
    rw [grants, List.filterMap_cons]
    rcases loadEntry_of_ok hr (hes e List.mem_cons_self) hc hentry with
      ⟨hnone, rfl⟩ | ⟨g, hsome, hsound, rfl⟩
    · rw [hnone]
      exact ih hlater hc hrest
    · rw [hsome]
      have hput := Context.Continues.put c g.key.toBytes g.stored
      obtain ⟨hcontinues, hevents, hsounds, hget⟩ := ih hlater (hput.reliable hc) hrest
      refine ⟨hput.trans hcontinues, hevents, fun g' hg' => ?_, fun b => ?_⟩
      · rcases List.mem_cons.1 hg' with rfl | hg'
        · exact hsound
        · exact hsounds g' hg'
      · rw [hget, Context.content_put, Pairs.get?_put, List.foldl_cons]
        congr 1
        exact if_congr eq_comm rfl rfl

/-- A genesis that loads stores its grants one after the other. -/
theorem load_of_ok {g : Genesis} {c c' : Context} (hc : c.Reliable)
    (h : load r g c = (.ok (), c')) :
    c.Continues c' ∧ c'.events = c.events ∧ (∀ grant ∈ grants r c.header.time g, grant.Sound) ∧
      ∀ b, c'.store.content.get? b =
        (grants r c.header.time g).foldl (fun v g => if g.key.toBytes = b then g.stored else v)
          (c.store.content.get? b) := by
  obtain ⟨u, hvalid, h⟩ := Exec.ofExcept_bind_eq_ok_iff.1 h
  rw [Exec.bind_ok (Exec.blockTime_eq c)] at h
  exact loadAll_of_ok hr (fun e => validate_of_mem hvalid) hc h

theorem journaled_load {p : Conduct} {g : Genesis} {c c' : Context} (hc : c.Reliable)
    (h : load r g c = (.ok (), c')) :
    Journaled r p [.genesis (grants r c.header.time g)] c c' := by
  obtain ⟨hcontinues, hevents, hsound, hget⟩ := load_of_ok hr hc h
  have hsame : c'.reports = c.reports := congrArg (List.filter _) hevents
  exact ⟨hcontinues, fun _ => .of_no_events hsame rfl, fun b _ => .single ⟨hsound, hget b⟩⟩

end Genesis

theorem Journaled.sweep (r : Registry) (p : Conduct) (c : Context) :
    Journaled r p [.sweep c.header.time] c (c.sweep r c.header.time) where
  continues := c.continues_sweep r _
  reports _ := .of_no_events rfl rfl
  replays b hb := .single (by rw [Entry.Step, Context.get?_content_sweep, if_pos hb])

/-! ## Calls -/

namespace Chain

/-- A call to a chain. -/
inductive Call where
  /-- Start the chain from a genesis. -/
  | init (h : BlockHeader) (g : Genesis)
  | begin (h : BlockHeader)
  | deliver (tx : List Message)
  | endBlock
  | commit

/-- What a call answers. -/
inductive Answer where
  /-- To the start of the chain or of a block. -/
  | started (result : Except Error Unit)
  | delivered (response : TxResponse)
  | ended (result : Except Error Nat)
  | committed (result : Except Error Digest)

/-- The events of an answer. -/
def Answer.events : Answer → List Event
  | delivered response => response.events
  | _ => []

/-- Make a call. -/
def perform (c : Chain) : Call → Answer × Chain
  | .init h g => (.started (c.initChain h g).1, (c.initChain h g).2)
  | .begin h => (.started (c.beginBlock h).1, (c.beginBlock h).2)
  | .deliver tx => (.delivered (c.deliverTx tx).1, (c.deliverTx tx).2)
  | .endBlock => (.ended c.endBlock.1, c.endBlock.2)
  | .commit => (.committed c.commit.1, c.commit.2)

/-- Make calls one after the other. -/
def run (c : Chain) : List Call → List Answer × Chain
  | [] => ([], c)
  | call :: calls =>
    let (answer, c) := c.perform call
    let (answers, c) := c.run calls
    (answer :: answers, c)

/-- The handlers of the messages in a call keep to `p`. -/
def Call.Obeys (p : Conduct) : Call → Prop
  | deliver tx => ∀ m ∈ tx, p.Allows m
  | _ => True

/-- The value under a key in the block in progress. -/
def record (c : Chain) (b : Bytes) : Option Bytes := c.view.content.get? b

/-- The lasting changes to grants of a call. -/
def journalOf (c : Chain) : Call → List Entry
  | .init h g =>
    Entry.lasting (c.initChain h g).1 [.genesis (g.grants c.assembly.registry h.time)]
  | .deliver tx =>
    match c.header with
    | none => []
    | some h =>
      Entry.lasting (c.runTx tx).1 (c.assembly.journalAll tx (Context.start h c.view).child)
  | .endBlock =>
    match c.header with
    | none => []
    | some h => if c.sweeps then [.sweep h.time] else []
  | _ => []

/-- The lasting changes to grants of calls. -/
def journal (c : Chain) : List Call → List Entry
  | [] => []
  | call :: calls => c.journalOf call ++ (c.perform call).2.journal calls

variable {c : Chain} {p : Conduct}

/-! ## What the calls do -/

/-- A start that fails changes nothing. -/
theorem initChain_of_error {h : BlockHeader} {g : Genesis} {e : Error}
    (herror : (c.initChain h g).1 = .error e) : (c.initChain h g).2 = c := by
  rw [initChain] at herror ⊢
  split
  · rfl
  · next hnone =>
    split
    · rfl
    · rfl
    · next hlast =>
      rw [if_neg hnone, hlast] at herror
      obtain ⟨assembly, sweeps, committed, pending, header, metrics⟩ := c
      obtain rfl : header = none := by simpa using hnone
      have hbranch := Exec.branch_eq (c := .start h (.buffered pending (.ofPairs committed)))
        (fun _ => rfl) (g.load assembly.registry)
      dsimp only [inBlock, view] at herror ⊢
      split at hbranch
      · rw [hbranch] at herror
        cases herror
      · rw [hbranch]
        rfl

/-- A start that succeeds opens a first block in which the genesis has been loaded. -/
theorem initChain_of_ok {h : BlockHeader} {g : Genesis} (hok : (c.initChain h g).1 = .ok ()) :
    c.header = none ∧ c.lastHeader = .ok none ∧ (c.initChain h g).2.header = some h ∧
      (c.initChain h g).2.assembly = c.assembly ∧
      ∃ child, g.load c.assembly.registry (Context.start h c.view).child = (.ok (), child) ∧
        (c.initChain h g).2.view = ((Context.start h c.view).adopt child).store := by
  rw [initChain] at hok ⊢
  split at hok
  · cases hok
  · next hnone =>
    rw [if_neg hnone]
    split at hok
    · cases hok
    · cases hok
    · next hlast =>
      rw [hlast]
      have hbranch := Exec.branch_eq (c := .start h c.view) c.reliable_view
        (g.load c.assembly.registry)
      dsimp only [inBlock] at hok ⊢
      split at hbranch
      · next u child hload =>
        change Exec.branch _ (.start h { c with header := some h }.view) = _ at hbranch
        rw [hbranch]
        exact ⟨by simpa using hnone, rfl, rfl, rfl, child, hload, c.view_putAll _⟩
      · change Exec.branch _ (.start h { c with header := some h }.view) = _ at hbranch
        rw [hbranch] at hok
        cases hok

/-- A block begins above the last committed header, with no other block in progress, and this is the
only change. -/
theorem beginBlock_cases (c : Chain) (h : BlockHeader) :
    (∃ e, c.beginBlock h = (.error e, c)) ∨
      (c.beginBlock h = (.ok (), { c with header := some h }) ∧ c.header = none ∧
        ∃ last, c.lastHeader = .ok (some last) ∧ last.height < h.height) := by
  rw [beginBlock]
  split
  · exact .inl ⟨_, rfl⟩
  · next hnone =>
    split
    · exact .inl ⟨_, rfl⟩
    · exact .inl ⟨_, rfl⟩
    · next last hlast =>
      split
      · exact .inl ⟨_, rfl⟩
      · next habove =>
        exact .inr ⟨rfl, by simpa using hnone, last, hlast, UInt64.not_le.1 habove⟩

theorem assembly_perform (c : Chain) (call : Call) : (c.perform call).2.assembly = c.assembly := by
  cases call with
  | init h g =>
    cases hresult : (c.initChain h g).1 with
    | error e => rw [perform, initChain_of_error hresult]
    | ok u => exact (initChain_of_ok hresult).2.2.2.1
  | begin h => rcases c.beginBlock_cases h with ⟨e, heq⟩ | ⟨heq, -⟩ <;> rw [perform, heq]
  | deliver tx =>
    obtain ⟨m, hafter⟩ := sameState_deliverTx c tx
    rw [perform, hafter]
  | endBlock =>
    obtain ⟨w, m, hafter⟩ := sameState_endBlock c
    rw [perform, hafter]
  | commit =>
    rw [perform, commit]
    split <;> rfl

theorem record_commit {b : Bytes} (hb : b.startsWith GrantKey.allRange = true) :
    c.commit.2.record b = c.record b := by
  rw [commit]
  split
  · rfl
  · next h _ =>
    have hne : b ≠ lastHeaderKey := by
      rintro rfl
      exact absurd hb (by decide)
    change (Pairs.update (Pairs.update _ _) []).get? b = _
    rw [Pairs.update_nil, Pairs.update_insert, Pairs.get?_put_ne _ _ hne]
    rfl

/-- The sweep at the end of a block. -/
theorem endBlock_eq {h : BlockHeader} (hh : c.header = some h) (hsweeps : c.sweeps = true) :
    ∃ n, c.endBlock.1 = .ok n ∧ c.endBlock.2.header = some h ∧
      c.endBlock.2.view = ((Context.start h c.view).adopt
        ((Context.start h c.view).child.sweep c.assembly.registry h.time)).store := by
  have hchild : (Context.start h c.view).child.Reliable := c.reliable_view
  have hbranch := Exec.branch_eq (c := .start h c.view) c.reliable_view
    (Keeper.pruneExpired c.assembly.registry)
  have hprune : Keeper.pruneExpired c.assembly.registry (Context.start h c.view).child = _ :=
    (Exec.bind_ok (Exec.blockTime_eq _)).trans (GrantTable.pruneExpired_eq hchild _ _)
  rw [hprune] at hbranch
  rw [endBlock, hsweeps]
  dsimp only [inBlock]
  rw [hh]
  dsimp only
  rw [hbranch]
  exact ⟨_, rfl, rfl, c.view_putAll _⟩

/-- The entries account for what happens from `c` to `d`, with what events, where handlers keep to
`p`. -/
structure Accounts (p : Conduct) (es : List Entry) (c : Chain) (events : List Event) (d : Chain) :
    Prop where
  /-- The records change by the entries. -/
  replays : ∀ b : Bytes, b.startsWith GrantKey.allRange = true →
    Replays c.assembly.registry b es (c.record b) (d.record b)
  /-- The entries are reported by their events, if handlers emit none that report on grants. -/
  reports : p.Reticent → p.Reports (events.filter (·.isAboutGrants)) (es.flatMap Entry.events)

namespace Accounts

/-- Where no record changes, nothing has to be accounted for. -/
theorem of_record {d : Chain}
    (h : ∀ b : Bytes, b.startsWith GrantKey.allRange = true → d.record b = c.record b) :
    Accounts p [] c [] d where
  replays b hb := by
    rw [h b hb]
    exact .nil _
  reports _ := .refl p _

theorem refl (p : Conduct) (c : Chain) : Accounts p [] c [] c := of_record fun _ _ => rfl

/-- What a branch that is adopted accounts for, the chain accounts for. -/
theorem of_view {es : List Entry} {h : BlockHeader} {child : Context} {d : Chain}
    (hchild : Journaled c.assembly.registry p es (Context.start h c.view).child child)
    (hview : d.view = ((Context.start h c.view).adopt child).store) :
    Accounts p es c child.events d where
  replays b hb := by
    rw [record, record, hview]
    exact hchild.adopt.replays b hb
  reports hp := hchild.reports hp

end Accounts

theorem accounts_init (hr : c.assembly.registry.Builtin) (h : BlockHeader) (g : Genesis) :
    Accounts p (c.journalOf (.init h g)) c [] (c.initChain h g).2 := by
  rw [journalOf]
  cases hresult : (c.initChain h g).1 with
  | error e =>
    rw [initChain_of_error hresult]
    exact .refl p c
  | ok u =>
    obtain ⟨-, -, -, -, child, hload, hview⟩ := initChain_of_ok hresult
    have hchild := Genesis.journaled_load (p := p) hr (c := (Context.start h c.view).child)
      c.reliable_view hload
    exact ⟨(Accounts.of_view hchild hview).replays, fun _ => .refl p []⟩

theorem accounts_begin (h : BlockHeader) : Accounts p [] c [] (c.beginBlock h).2 := by
  refine .of_record fun b _ => ?_
  rcases c.beginBlock_cases h with ⟨e, heq⟩ | ⟨heq, -⟩
  · rw [heq]
  · rw [heq]
    rfl

theorem accounts_deliver (hr : c.assembly.registry.Builtin) (hp : p.OutsideGrants)
    {tx : List Message} (htx : ∀ m ∈ tx, p.Allows m) :
    Accounts p (c.journalOf (.deliver tx)) c (c.deliverTx tx).1.events (c.deliverTx tx).2 := by
  rw [journalOf, deliverTx]
  rcases hrun : c.runTx tx with ⟨e | ⟨data, events⟩, c'⟩
  · have hsame : (c.runTx tx).2 = c := runTx_of_error (e := e) (by rw [hrun])
    rw [hrun] at hsame
    obtain rfl : c' = c := hsame
    cases hheader : c'.header with
    | none => exact .of_record fun _ _ => rfl
    | some h => exact .of_record fun _ _ => rfl
  · obtain ⟨h, child, hheader, hdispatch, rfl, hview, -⟩ := runTx_of_ok hrun
    rw [hheader]
    have hchild : Journaled c.assembly.registry p
        (c.assembly.journalAll tx (Context.start h c.view).child)
        (Context.start h c.view).child child :=
      Assembly.journaled_dispatchAll hr hp (Conduct.allowsAll_iff.2 htx) c.reliable_view hdispatch
    have haccounts := Accounts.of_view hchild hview
    exact ⟨haccounts.replays, haccounts.reports⟩

theorem accounts_endBlock (p : Conduct) (c : Chain) :
    Accounts p (c.journalOf .endBlock) c [] c.endBlock.2 := by
  rw [journalOf]
  cases hheader : c.header with
  | none =>
    refine .of_record fun b _ => ?_
    rw [endBlock, inBlock, hheader]
    split <;> rfl
  | some h =>
    dsimp only
    split
    · next hsweeps =>
      obtain ⟨n, -, -, hview⟩ := endBlock_eq hheader hsweeps
      have hsweep := Journaled.sweep c.assembly.registry p (Context.start h c.view).child
      exact ⟨(Accounts.of_view hsweep hview).replays, fun _ => .refl p []⟩
    · next hsweeps =>
      rw [endBlock, if_pos (by simpa using hsweeps)]
      exact .refl p c

/-- The journal of a call accounts for it. -/
theorem accounts_perform (hr : c.assembly.registry.Builtin) (hp : p.OutsideGrants) {call : Call}
    (hcall : call.Obeys p) :
    Accounts p (c.journalOf call) c (c.perform call).1.events (c.perform call).2 := by
  cases call with
  | init h g => exact accounts_init hr h g
  | begin h => exact accounts_begin h
  | deliver tx => exact accounts_deliver hr hp hcall
  | endBlock => exact accounts_endBlock p c
  | commit => exact .of_record fun b hb => record_commit hb

/-! ## Runs -/

theorem assembly_run (c : Chain) (calls : List Call) : (c.run calls).2.assembly = c.assembly := by
  induction calls generalizing c with
  | nil => rfl
  | cons call calls ih => exact (ih (c.perform call).2).trans (assembly_perform c call)

theorem replays_run (hr : c.assembly.registry.Builtin) (hp : p.OutsideGrants) {calls : List Call}
    (hcalls : ∀ call ∈ calls, call.Obeys p) {b : Bytes}
    (hb : b.startsWith GrantKey.allRange = true) :
    Replays c.assembly.registry b (c.journal calls) (c.record b) ((c.run calls).2.record b) := by
  induction calls generalizing c with
  | nil => exact .nil _
  | cons call calls ih =>
    have hfirst := (accounts_perform hr hp (hcalls call List.mem_cons_self)).replays b hb
    have hassembly := assembly_perform c call
    have hrest := ih (c := (c.perform call).2) (hassembly ▸ hr)
      fun call' hcall' => hcalls call' (List.mem_cons_of_mem call hcall')
    rw [hassembly] at hrest
    exact hfirst.append hrest

/-- The events of the answers that report on grants. -/
def reports (answers : List Answer) : List Event :=
  (answers.flatMap Answer.events).filter (·.isAboutGrants)

theorem reports_run (hr : c.assembly.registry.Builtin) (hp : p.OutsideGrants) (hret : p.Reticent)
    {calls : List Call} (hcalls : ∀ call ∈ calls, call.Obeys p) :
    p.Reports (reports (c.run calls).1) ((c.journal calls).flatMap Entry.events) := by
  induction calls generalizing c with
  | nil => exact .refl p []
  | cons call calls ih =>
    have hfirst := (accounts_perform hr hp (hcalls call List.mem_cons_self)).reports hret
    have hrest := ih (c := (c.perform call).2) (assembly_perform c call ▸ hr)
      fun call' hcall' => hcalls call' (List.mem_cons_of_mem call hcall')
    have hsplit : reports (c.run (call :: calls)).1 =
        (c.perform call).1.events.filter (·.isAboutGrants) ++
          reports ((c.perform call).2.run calls).1 := List.filter_append _ _
    rw [hsplit, journal, List.flatMap_append]
    exact hfirst.append hrest

/-! ## The genesis comes first -/

/-- The chain has been started: a block is in progress or has been committed. -/
def Started (c : Chain) : Prop := c.header = none → c.lastHeader ≠ .ok none

theorem started_congr {d : Chain} (hheader : d.header = c.header)
    (hcommitted : d.committed = c.committed) : d.Started ↔ c.Started := by
  rw [Started, Started, lastHeader, lastHeader, hheader, hcommitted]

theorem started_deliverTx (tx : List Message) : (c.deliverTx tx).2.Started ↔ c.Started := by
  obtain ⟨m, hafter⟩ := sameState_deliverTx c tx
  exact started_congr (by rw [hafter]) (by rw [hafter])

theorem started_endBlock : c.endBlock.2.Started ↔ c.Started := by
  obtain ⟨w, m, hafter⟩ := sameState_endBlock c
  exact started_congr (by rw [hafter]) (by rw [hafter])

/-- A commit stores a header, whatever the transactions of the block wrote in its place. -/
theorem started_commit {h : BlockHeader} (hh : c.header = some h) : c.commit.2.Started := by
  intro _
  rw [commit, hh]
  dsimp only
  rw [lastHeader]
  dsimp only
  rw [Pairs.update_insert, Pairs.get?_put_self]
  dsimp only
  split
  · intro hlast
    cases hlast
  · intro hlast
    cases hlast

theorem started_perform (hc : c.Started) (call : Call) : (c.perform call).2.Started := by
  cases call with
  | init h g =>
    cases hresult : (c.initChain h g).1 with
    | error e =>
      rw [perform, initChain_of_error hresult]
      exact hc
    | ok u =>
      obtain ⟨hnone, hlast, -⟩ := initChain_of_ok hresult
      exact absurd hlast (hc hnone)
  | begin h =>
    rcases c.beginBlock_cases h with ⟨e, heq⟩ | ⟨heq, -⟩
    · rw [perform, heq]
      exact hc
    · rw [perform, heq]
      exact nofun
  | deliver tx => exact (started_deliverTx tx).2 hc
  | endBlock => exact started_endBlock.2 hc
  | commit =>
    cases hh : c.header with
    | none =>
      rw [perform, commit, hh]
      exact hc
    | some h => exact started_commit hh

theorem genesis_notMem_journalOf (hc : c.Started) (call : Call) (gs : List Grant) :
    .genesis gs ∉ c.journalOf call := by
  intro hmem
  cases call with
  | init h g =>
    cases hresult : (c.initChain h g).1 with
    | error e =>
      rw [journalOf, hresult] at hmem
      cases hmem
    | ok u =>
      obtain ⟨hnone, hlast, -⟩ := initChain_of_ok hresult
      exact absurd hlast (hc hnone)
  | begin h => cases hmem
  | deliver tx =>
    rw [journalOf] at hmem
    split at hmem
    · cases hmem
    · exact Assembly.fromMessage_of_mem_journalAll _ (Entry.mem_of_mem_lasting hmem)
  | endBlock =>
    rw [journalOf] at hmem
    split at hmem
    · cases hmem
    · split at hmem
      · cases List.mem_singleton.1 hmem
      · cases hmem
  | commit => cases hmem

theorem genesis_notMem_journal (hc : c.Started) (calls : List Call) (gs : List Grant) :
    .genesis gs ∉ c.journal calls := by
  induction calls generalizing c with
  | nil => exact nofun
  | cons call calls ih =>
    intro hmem
    rcases List.mem_append.1 hmem with hmem | hmem
    · exact genesis_notMem_journalOf hc call gs hmem
    · exact ih (started_perform hc call) hmem

/-- Before the start nothing lasts, and the start is a genesis. -/
theorem journalOf_of_not_started (hc : ¬ c.Started) (call : Call) :
    (c.journalOf call = [] ∧ ¬ (c.perform call).2.Started) ∨
      ∃ gs, c.journalOf call = [.genesis gs] ∧ (c.perform call).2.Started := by
  obtain ⟨hnone, hlast⟩ : c.header = none ∧ c.lastHeader = .ok none := by
    simpa [Started] using hc
  cases call with
  | init h g =>
    rw [perform, journalOf]
    cases hresult : (c.initChain h g).1 with
    | error e => exact .inl ⟨rfl, by rw [initChain_of_error hresult]; exact hc⟩
    | ok u =>
      obtain ⟨-, -, hheader, -⟩ := initChain_of_ok hresult
      refine .inr ⟨_, rfl, fun hnone' => ?_⟩
      rw [hheader] at hnone'
      cases hnone'
  | begin h =>
    refine .inl ⟨rfl, ?_⟩
    rcases c.beginBlock_cases h with ⟨e, heq⟩ | ⟨-, -, last, hsome, -⟩
    · rw [perform, heq]
      exact hc
    · rw [hsome] at hlast
      cases hlast
  | deliver tx =>
    refine .inl ⟨by rw [journalOf, hnone], ?_⟩
    exact fun hafter => hc ((started_deliverTx tx).1 hafter)
  | endBlock =>
    refine .inl ⟨by rw [journalOf, hnone], ?_⟩
    exact fun hafter => hc (started_endBlock.1 hafter)
  | commit =>
    refine .inl ⟨rfl, ?_⟩
    rw [perform, commit, hnone]
    exact hc

/-- A genesis is the first entry of a journal and the only one of its kind. -/
theorem genesis_first {calls : List Call} {xs ys : List Entry} {gs : List Grant}
    (h : c.journal calls = xs ++ .genesis gs :: ys) : xs = [] := by
  have hstarted {d : Chain} {calls : List Call} (hd : d.Started) {xs : List Entry}
      (h : d.journal calls = xs ++ .genesis gs :: ys) : False :=
    genesis_notMem_journal hd calls gs (h ▸ List.mem_append_right xs List.mem_cons_self)
  by_cases hc : c.Started
  · exact (hstarted hc h).elim
  · -- Calls that do not start the chain add no entry; after the one that does, `hstarted` applies.
    induction calls generalizing c with
    | nil => cases xs <;> cases h
    | cons call calls ih =>
      rw [journal] at h
      rcases journalOf_of_not_started hc call with ⟨hnil, hnot⟩ | ⟨gs', hgenesis, hafter⟩
      · rw [hnil] at h
        exact ih h hnot
      · rw [hgenesis] at h
        cases xs with
        | nil => rfl
        | cons x xs => exact (hstarted hafter (List.cons.inj h).2).elim

/-- Nothing is loaded after an entry of a journal. -/
theorem genesis_notMem_after {calls : List Call} {xs ys : List Entry} {e : Entry}
    (h : c.journal calls = xs ++ e :: ys) (gs : List Grant) : .genesis gs ∉ ys := by
  intro hmem
  obtain ⟨us, vs, rfl⟩ := List.append_of_mem hmem
  have hsplit : c.journal calls = (xs ++ e :: us) ++ .genesis gs :: vs := by
    rw [h, List.append_assoc, List.cons_append]
  have hnil := genesis_first hsplit
  exact List.cons_ne_nil e us (List.append_eq_nil_iff.1 hnil).2

end Chain

end GrantLedger
