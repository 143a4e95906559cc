import Mathlib.Data.List.Chain
import GrantLedger.Proofs.Lives

/-!
# The order of blocks

Over the life of a chain, what it achieves block by block is a list of milestones: a first block is
opened by a genesis, a block is begun, a block is committed, and a block is lost when the chain is
reopened. Where a chain stands is known from two headers alone, that of the last committed block and
that of the block in progress. A `Stage` keeps just these, `Stage.Step` says from which stage to
which a milestone leads, and a chain goes from stage to stage in no other way, whatever is written
by the handlers of its messages, under the key of the last header too (`Chain.At.live`).

What is to be known about the order of blocks is then read off the steps between stages.
-/

namespace GrantLedger

/-! ## Milestones and stages -/

/-- What a chain achieves in its life, or loses. -/
inductive Milestone where
  /-- A genesis has been loaded within a first block. -/
  | opened (h : BlockHeader)
  | begun (h : BlockHeader)
  | committed (h : BlockHeader)
  /-- The chain has been reopened, without the block that was in progress. -/
  | reopened
deriving DecidableEq

namespace Milestone

/-- The header that is committed, if a block is. -/
def commit? : Milestone → Option BlockHeader
  | committed h => some h
  | _ => none

/-- The headers that are committed, in order. -/
def commits (ms : List Milestone) : List BlockHeader := ms.filterMap commit?

theorem commits_snoc (ms : List Milestone) (m : Milestone) :
    commits (ms ++ [m]) = commits ms ++ m.commit?.toList := by
  rw [commits, List.filterMap_append]
  cases m <;> rfl

end Milestone

open Milestone (commits)

/-- Where a chain stands: its last committed block and the block in progress. -/
inductive Stage where
  /-- Nothing has been committed, and no block is in progress. -/
  | new
  /-- The first block is in progress. -/
  | first (h : BlockHeader)
  /-- No block is in progress after the last one. -/
  | idle (last : BlockHeader)
  /-- A block is in progress after the last one. -/
  | block (last h : BlockHeader)

namespace Stage

/-- The header of the last committed block. -/
def last? : Stage → Option BlockHeader
  | new => none
  | first _ => none
  | idle last => some last
  | block last _ => some last

/-- The header of the block in progress. -/
def current? : Stage → Option BlockHeader
  | new => none
  | first h => some h
  | idle _ => none
  | block _ h => some h

/-- What is left of a stage without the block in progress. -/
def settled : Stage → Stage
  | first _ => new
  | block last _ => idle last
  | s => s

/-- From which stage to which a milestone leads. A block is begun above the last one only, and what
is committed is the block in progress. -/
inductive Step : Stage → Milestone → Stage → Prop
  | opened (h : BlockHeader) : Step new (.opened h) (first h)
  | begun {last h : BlockHeader} (above : last.height < h.height) :
      Step (idle last) (.begun h) (block last h)
  | committedFirst (h : BlockHeader) : Step (first h) (.committed h) (idle h)
  | committed (last h : BlockHeader) : Step (block last h) (.committed h) (idle h)
  | reopened (s : Stage) : Step s .reopened s.settled

theorem last?_settled (s : Stage) : s.settled.last? = s.last? := by
  cases s <;> rfl

theorem current?_settled (s : Stage) : s.settled.current? = none := by
  cases s <;> rfl

theorem Step.last?_eq {s s' : Stage} {m : Milestone} (h : Step s m s') :
    s'.last? = m.commit?.or s.last? := by
  cases h with
  | reopened => exact last?_settled s
  | _ => rfl

/-- A block is in progress only if it has just been opened or begun. -/
theorem Step.of_current? {s s' : Stage} {m : Milestone} {h : BlockHeader} (hstep : Step s m s')
    (hcurrent : s'.current? = some h) :
    (s'.last? = none ∧ m = .opened h) ∨
      ∃ last, s'.last? = some last ∧ last.height < h.height ∧ m = .begun h := by
  cases hstep with
  | opened h' =>
    cases hcurrent
    exact .inl ⟨rfl, rfl⟩
  | @begun last h' above =>
    cases hcurrent
    exact .inr ⟨last, rfl, above, rfl⟩
  | reopened =>
    rw [current?_settled] at hcurrent
    cases hcurrent
  | _ => cases hcurrent

/-- Milestones lead from the very start to a stage. -/
inductive Reached : List Milestone → Stage → Prop
  | start : Reached [] new
  | snoc {ms : List Milestone} {s s' : Stage} {m : Milestone} (before : Reached ms s)
      (step : Step s m s') : Reached (ms ++ [m]) s'

namespace Reached

variable {ms : List Milestone} {s : Stage} {h last : BlockHeader}

/-- Each milestone is a step from what was reached before it. -/
theorem exists_step {pre post : List Milestone} {m : Milestone}
    (hms : Reached (pre ++ m :: post) s) : ∃ t u, Reached pre t ∧ Step t m u := by
  generalize hall : pre ++ m :: post = all at hms
  induction hms generalizing post with
  | start => simp at hall
  | @snoc ms t u m' before step ih =>
    rcases List.eq_nil_or_concat post with rfl | ⟨post', m'', rfl⟩
    · obtain ⟨rfl, heq⟩ := List.append_inj' hall rfl
      obtain rfl : m = m' := List.singleton_inj.1 heq
      exact ⟨t, u, before, step⟩
    · rw [List.concat_eq_append, ← List.cons_append, ← List.append_assoc] at hall
      exact ih (List.append_inj' hall rfl).1

/-- The last header of the stage is the last one that was committed. -/
theorem getLast?_commits (hs : Reached ms s) : (commits ms).getLast? = s.last? := by
  induction hs with
  | start => rfl
  | snoc before step ih =>
    rw [Milestone.commits_snoc, List.getLast?_append, ih, step.last?_eq]
    cases Milestone.commit? _ <;> rfl

theorem commits_eq_nil_iff (hs : Reached ms s) : commits ms = [] ↔ s.last? = none := by
  rw [← hs.getLast?_commits, List.getLast?_eq_none_iff]

theorem getLast?_of_current? (hs : Reached ms s) (hcurrent : s.current? = some h) :
    (s.last? = none ∧ ms.getLast? = some (.opened h)) ∨
      ∃ last, s.last? = some last ∧ last.height < h.height ∧
        ms.getLast? = some (.begun h) := by
  cases hs with
  | start => cases hcurrent
  | snoc before step =>
    rw [List.getLast?_concat, Option.some.injEq, Option.some.injEq]
    exact step.of_current? hcurrent

/-- Every committed header is above the one before it. -/
theorem isChain_commits (hs : Reached ms s) :
    (commits ms).IsChain fun h h' => h.height < h'.height := by
  induction hs with
  | start => exact .nil
  | @snoc ms s s' m before step ih =>
    rw [Milestone.commits_snoc]
    refine List.isChain_append.2 ⟨ih, ?_, ?_⟩
    · cases m.commit? with
      | none => exact .nil
      | some h => exact .singleton h
    · rw [before.getLast?_commits]
      intro last hlast h hh
      cases step with
      | committed =>
        cases hh
        rcases before.getLast?_of_current? rfl with ⟨hnone, -⟩ | ⟨last', hlast', above, -⟩
        · cases hnone
        · cases hlast.symm.trans hlast'
          exact above
      | committedFirst => cases hlast
      | _ => cases hh

theorem increasing (hs : Reached ms s) :
    (commits ms).Pairwise fun h h' => h.height < h'.height := by
  have htrans : IsTrans BlockHeader fun h h' => h.height < h'.height :=
    ⟨fun _ _ _ => UInt64.lt_trans⟩
  exact List.isChain_iff_pairwise.1 hs.isChain_commits

end Reached

end Stage

namespace Chain

/-! ## The milestones of a chain -/

/-- What a move achieves, if anything. -/
def milestone? (c : Chain) : Move → Option Milestone
  | .call (.init h g) => (c.initChain h g).1.toOption.map fun _ => .opened h
  | .call (.begin h) => (c.beginBlock h).1.toOption.map fun _ => .begun h
  | .call .commit => c.commit.1.toOption.bind fun _ => c.header.map .committed
  | .call _ => none
  | .reopen .. => some .reopened

/-- What moves achieve, one after the other. -/
def milestones (c : Chain) : List Move → List Milestone
  | [] => []
  | m :: moves => (c.milestone? m).toList ++ (c.move m).milestones moves

/-- The chain stands at a stage. -/
structure At (c : Chain) (s : Stage) : Prop where
  stored : c.committed.get? lastHeaderKey = s.last?.map BlockHeader.codec.encode
  header : c.header = s.current?

variable {c d : Chain} {ms : List Milestone} {s : Stage} {e : Error}

/-! ## What the calls do to the header -/

theorem beginBlock_of_error {h : BlockHeader} (herror : (c.beginBlock h).1 = .error e) :
    (c.beginBlock h).2 = c := by
  rcases c.beginBlock_cases h with ⟨e', heq⟩ | ⟨heq, -⟩
  · rw [heq]
  · rw [heq] at herror
    cases herror

theorem endBlock_of_error (herror : c.endBlock.1 = .error e) : c.endBlock.2 = c := by
  cases hheader : c.header with
  | none => exact endBlock_of_header_none hheader
  | some h =>
    by_cases hsweeps : c.sweeps = true
    · obtain ⟨n, hok, -⟩ := endBlock_eq hheader hsweeps
      rw [hok] at herror
      cases herror
    · rw [endBlock, if_pos (by simpa using hsweeps)]

theorem commit_of_header_none (hnone : c.header = none) : c.commit = (.error .noBlock, c) := by
  rw [commit, hnone]

/-- A commit keeps what the block in progress holds, and its header in the place of the last. -/
theorem commit_of_header {h : BlockHeader} (hheader : c.header = some h) :
    c.commit.1 = .ok (stateRoot c.commit.2.committed) ∧
      c.commit.2.committed =
        c.view.content.insert lastHeaderKey (BlockHeader.codec.encode h) ∧
      c.commit.2.pending = ∅ ∧ c.commit.2.header = none := by
  have hcommitted : c.commit.2.committed =
      c.committed.update (c.pending.insert lastHeaderKey
        (some (BlockHeader.codec.encode h))).entries := by
    rw [commit, hheader]
  rw [Pairs.update_insert] at hcommitted
  refine ⟨?_, hcommitted, ?_, ?_⟩
  all_goals rw [commit, hheader]

theorem commit_of_error (herror : c.commit.1 = .error e) : c.commit.2 = c := by
  cases hheader : c.header with
  | none => rw [commit_of_header_none hheader]
  | some h =>
    rw [(commit_of_header hheader).1] at herror
    cases herror

theorem commit_of_ok {root : Digest} (hok : c.commit.1 = .ok root) :
    ∃ h, c.header = some h ∧
      c.commit.2.committed =
        c.view.content.insert lastHeaderKey (BlockHeader.codec.encode h) ∧
      c.commit.2.pending = ∅ ∧ c.commit.2.header = none := by
  cases hheader : c.header with
  | none =>
    rw [commit_of_header_none hheader] at hok
    cases hok
  | some h => exact ⟨h, rfl, (commit_of_header hheader).2⟩

/-! ## From stage to stage -/

namespace At

theorem opened (a : Assembly) (sweeps : Bool) : (opened a sweeps ∅).At .new := ⟨rfl, rfl⟩

theorem congr (h : c.At s) (hcommitted : d.committed = c.committed)
    (hheader : d.header = c.header) : d.At s :=
  ⟨hcommitted ▸ h.stored, hheader.trans h.header⟩

/-- The header that is read back is that of the stage. -/
theorem last?_eq (h : c.At s) {last : Option BlockHeader} (hlast : c.lastHeader = .ok last) :
    s.last? = last := by
  have hstored := h.stored
  cases hstage : s.last? with
  | none =>
    rw [hstage] at hstored
    rw [lastHeader, hstored] at hlast
    cases hlast
    rfl
  | some stored =>
    rw [hstage] at hstored
    rw [lastHeader_of_stored hstored] at hlast
    split at hlast
    · cases hlast
    · exact Except.ok.inj hlast

theorem initChain_of_ok (h : c.At s) {header : BlockHeader} {g : Genesis}
    (hok : (c.initChain header g).1 = .ok ()) :
    s = .new ∧ (c.initChain header g).2.At (.first header) := by
  obtain ⟨hnone, hlast, hheader, -, child, -, hview⟩ := Chain.initChain_of_ok hok
  have hcurrent := h.header.symm.trans hnone
  have hstage : s = .new := by
    have hfresh := h.last?_eq hlast
    cases s with
    | new => rfl
    | first => cases hcurrent
    | idle => cases hfresh
    | block => cases hfresh
  subst hstage
  refine ⟨rfl, ?_, hheader⟩
  rw [committed_of_view hview]
  exact h.stored

theorem beginBlock (h : c.At s) (header : BlockHeader) {last : BlockHeader}
    (hnone : c.header = none) (hlast : c.lastHeader = .ok (some last)) :
    s = .idle last ∧ { c with header := some header }.At (.block last header) := by
  have hcurrent := h.header.symm.trans hnone
  have hstored := h.last?_eq hlast
  have hstage : s = .idle last := by
    cases s with
    | new => cases hstored
    | first => cases hstored
    | idle last' =>
      cases hstored
      rfl
    | block => cases hcurrent
  subst hstage
  exact ⟨rfl, h.stored, rfl⟩

theorem commit (h : c.At s) {header : BlockHeader} (hheader : c.header = some header) :
    Stage.Step s (.committed header) (.idle header) ∧ c.commit.2.At (.idle header) := by
  have hcurrent : s.current? = some header := h.header.symm.trans hheader
  obtain ⟨-, hcommitted, -, hnone⟩ := commit_of_header hheader
  refine ⟨?_, ?_, hnone⟩
  · cases s with
    | new => cases hcurrent
    | first =>
      cases hcurrent
      exact .committedFirst header
    | idle => cases hcurrent
    | block last =>
      cases hcurrent
      exact .committed last header
  · rw [hcommitted, SortedMap.get?_insert_self]
    rfl

/-- A move leads to a further stage by the milestone it achieves, and to none without one. -/
theorem move (h : c.At s) (hs : Stage.Reached ms s) (m : Move) :
    ∃ s', Stage.Reached (ms ++ (c.milestone? m).toList) s' ∧ (c.move m).At s' := by
  have stays {d : Chain} (hafter : d.At s) :
      ∃ s', Stage.Reached (ms ++ (none : Option Milestone).toList) s' ∧ d.At s' :=
    ⟨s, by rwa [Option.toList_none, List.append_nil], hafter⟩
  cases m with
  | reopen a sweeps =>
    -- The block in progress is lost, and the last header stays.
    refine ⟨s.settled, hs.snoc (.reopened s), ?_, s.current?_settled.symm⟩
    rw [s.last?_settled]
    exact h.stored
  | call made =>
    cases made with
    | init header g =>
      cases hresult : (c.initChain header g).1 with
      | error e =>
        rw [milestone?, Chain.move, perform, hresult, initChain_of_error hresult]
        exact stays h
      | ok u =>
        obtain ⟨rfl, hafter⟩ := h.initChain_of_ok hresult
        rw [milestone?, Chain.move, perform, hresult]
        exact ⟨_, hs.snoc (.opened header), hafter⟩
    | begin header =>
      rcases c.beginBlock_cases header with ⟨e, heq⟩ | ⟨heq, hnone, last, hlast, habove⟩
      · rw [milestone?, Chain.move, perform, heq]
        exact stays h
      · obtain ⟨rfl, hafter⟩ := h.beginBlock header hnone hlast
        rw [milestone?, Chain.move, perform, heq]
        exact ⟨_, hs.snoc (.begun habove), hafter⟩
    | deliver tx =>
      obtain ⟨metrics, hafter⟩ := sameState_deliverTx c tx
      refine stays (h.congr ?_ ?_)
      · rw [Chain.move, perform, hafter]
      · rw [Chain.move, perform, hafter]
    | endBlock =>
      obtain ⟨writes, metrics, hafter⟩ := sameState_endBlock c
      refine stays (h.congr ?_ ?_)
      · rw [Chain.move, perform, hafter]
      · rw [Chain.move, perform, hafter]
    | commit =>
      cases hheader : c.header with
      | none =>
        rw [milestone?, Chain.move, perform, commit_of_header_none hheader]
        exact stays h
      | some header =>
        obtain ⟨hstep, hafter⟩ := h.commit hheader
        rw [milestone?, Chain.move, perform, (commit_of_header hheader).1, hheader]
        exact ⟨_, hs.snoc hstep, hafter⟩

/-- A life leads to a stage by its milestones. -/
theorem live (h : c.At s) (hs : Stage.Reached ms s) (moves : List Move) :
    ∃ s', Stage.Reached (ms ++ c.milestones moves) s' ∧ (c.live moves).At s' := by
  induction moves generalizing c ms s with
  | nil => exact ⟨s, by rwa [milestones, List.append_nil], h⟩
  | cons m moves ih =>
    obtain ⟨t, ht, hafter⟩ := h.move hs m
    rw [milestones, ← List.append_assoc]
    exact ih hafter ht

end At

/-! ## The order of blocks -/

/-- In every life of a chain, whatever its handlers write and however often it is reopened, the
first block that is committed is one that a genesis has just opened and all later ones have just
been begun; no genesis opens a block once one has been committed; and the heights of committed
blocks increase. A call about blocks that fails changes nothing, and a commit keeps what the block
holds, with the block's own header. -/
theorem blocks_in_order (a : Assembly) (sweeps : Bool) (moves : List Move) :
    let start := opened a sweeps ∅
    let ms := start.milestones moves
    let c := start.live moves
    (∀ before h after, ms = before ++ .committed h :: after →
      (commits before = [] → before.getLast? = some (.opened h)) ∧
      (commits before ≠ [] → before.getLast? = some (.begun h))) ∧
    (∀ before h after, ms = before ++ .opened h :: after → commits before = []) ∧
    ((commits ms).Pairwise fun h h' => h.height < h'.height) ∧
    (∀ h g e, (c.initChain h g).1 = .error e → (c.initChain h g).2 = c) ∧
    (∀ h e, (c.beginBlock h).1 = .error e → (c.beginBlock h).2 = c) ∧
    (∀ e, c.endBlock.1 = .error e → c.endBlock.2 = c) ∧
    (∀ e, c.commit.1 = .error e → c.commit.2 = c) ∧
    ∀ root, c.commit.1 = .ok root → ∃ h, c.header = some h ∧
      c.commit.2.committed =
        c.view.content.insert lastHeaderKey (BlockHeader.codec.encode h) ∧
      c.commit.2.pending = ∅ ∧ c.commit.2.header = none := by
  intro start ms c
  obtain ⟨s, hs, -⟩ := (At.opened a sweeps).live .start moves
  change Stage.Reached ms s at hs
  refine ⟨fun before h after hms => ?_, fun before h after hms => ?_, hs.increasing,
    fun _ _ _ => initChain_of_error, fun _ _ => beginBlock_of_error, fun _ => endBlock_of_error,
    fun _ => commit_of_error, fun _ => commit_of_ok⟩
  · rw [hms] at hs
    obtain ⟨t, u, ht, hstep⟩ := hs.exists_step
    have hcurrent : t.current? = some h := by
      cases hstep <;> rfl
    rw [ne_eq, ht.commits_eq_nil_iff]
    rcases ht.getLast?_of_current? hcurrent with ⟨hnone, hopened⟩ | ⟨last, hlast, -, hbegun⟩
    · exact ⟨fun _ => hopened, fun hne => absurd hnone hne⟩
    · rw [hlast]
      exact ⟨nofun, fun _ => hbegun⟩
  · rw [hms] at hs
    obtain ⟨t, u, ht, hstep⟩ := hs.exists_step
    rw [ht.commits_eq_nil_iff]
    cases hstep
    rfl

/-- A handler forges the last header, a block is lost, and a second genesis is refused; the heights
of committed blocks increase all the same. -/
theorem blocks_in_order_forged_header :
    let forge : Action :=
      .write lastHeaderKey (some (BlockHeader.codec.encode ⟨"c", 9, ⟨9⟩⟩)) fun _ => .done (.ok [])
    let moves : List Move :=
      [.call (.init ⟨"c", 1, ⟨5⟩⟩ []), .call .commit, .call (.begin ⟨"c", 2, ⟨6⟩⟩),
        .call (.deliver [.foreign "/a" [] (.ok ()) forge]), .call .commit,
        .call (.begin ⟨"c", 4, ⟨7⟩⟩), .reopen ⟨.builtin, ∅⟩ true, .call (.begin ⟨"c", 3, ⟨7⟩⟩),
        .call .commit, .call (.init ⟨"c", 5, ⟨8⟩⟩ [])]
    let start := opened ⟨.builtin, (∅ : Router).insert "/a" .foreign⟩ false ∅
    start.milestones moves =
      [.opened ⟨"c", 1, ⟨5⟩⟩, .committed ⟨"c", 1, ⟨5⟩⟩, .begun ⟨"c", 2, ⟨6⟩⟩,
        .committed ⟨"c", 2, ⟨6⟩⟩, .begun ⟨"c", 4, ⟨7⟩⟩, .reopened, .begun ⟨"c", 3, ⟨7⟩⟩,
        .committed ⟨"c", 3, ⟨7⟩⟩] ∧
    (commits (start.milestones moves)).Pairwise fun h h' => h.height < h'.height := by
  intro forge moves start
  exact ⟨by decide +kernel, (blocks_in_order _ false moves).2.2.1⟩

end Chain

end GrantLedger
