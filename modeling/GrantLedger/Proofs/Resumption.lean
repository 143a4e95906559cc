import GrantLedger.Proofs.Lifecycle

/-!
# Going on after a commit

A commit writes the header of its block down whatever its length, and the header is read back under
a size cap. With a header within the cap a chain goes on after the commit, in the same process and
after it has been opened anew: the header is answered as the last one, and a block begins exactly if
it is above it (`Chain.ResumesAt`). With a longer one the chain has come to its end: the header can
never be read, and as every start of a block reads it, it is never replaced either
(`Chain.Halted.live`).
-/

namespace GrantLedger

/-! ## The length of a header -/

namespace BlockHeader

/-- Beside the name of its chain, a header takes three numbers. -/
theorem length_encode (h : BlockHeader) :
    (codec.encode h).length = (Bytes.ofText h.chainId).length + 24 := by
  change ((Codec.u64.write _ ++ Bytes.ofText h.chainId) ++
    (Codec.u64.write _ ++ Codec.u64.write _)).length = _
  simp only [List.length_append, Codec.write_u64, length_lowBytes]
  omega

/-- A header whose chain is named by `n` times the letter `c`. -/
def named (n : Nat) : BlockHeader := ⟨String.ofList (List.replicate n 'c'), 1, ⟨5⟩⟩

theorem length_named (n : Nat) : (Bytes.ofText (named n).chainId).length = n := by
  have hsize : 'c'.utf8Size = 1 := rfl
  rw [named, Bytes.ofText_eq, String.toList_ofList, List.length_flatMap]
  simp [hsize]

end BlockHeader

namespace Chain

variable {c d : Chain} {h : BlockHeader}

theorem lastHeader_congr (hcommitted : d.committed = c.committed) :
    d.lastHeader = c.lastHeader := by
  rw [lastHeader, lastHeader, hcommitted]

/-! ## A last header that can be read -/

/-- The block of `h` is the last one, and exactly the blocks above it can begin. -/
structure ResumesAt (c : Chain) (h : BlockHeader) : Prop where
  lastHeader : c.lastHeader = .ok (some h)
  /-- Requests are answered under the header. -/
  queryHeader : c.queryHeader = .ok h
  begins_iff : ∀ h', (c.beginBlock h').1 = .ok () ↔ h.height < h'.height

theorem resumesAt_of_lastHeader (hnone : c.header = none) (hlast : c.lastHeader = .ok (some h)) :
    c.ResumesAt h where
  lastHeader := hlast
  queryHeader := by
    rw [Chain.queryHeader, hlast]
    rfl
  begins_iff h' := by
    have hidle : ¬ c.header.isSome = true := by simp [hnone]
    rw [beginBlock, if_neg hidle, hlast]
    dsimp only
    by_cases hle : h'.height ≤ h.height
    · rw [if_pos hle]
      refine ⟨fun hok => ?_, fun hlt => absurd hle (UInt64.not_le.2 hlt)⟩
      cases hok
    · rw [if_neg hle]
      exact ⟨fun _ => UInt64.not_le.1 hle, fun _ => rfl⟩

/-! ## A last header that cannot be read -/

/-- No block is in progress, and the last header cannot be read. -/
structure Halted (c : Chain) : Prop where
  header : c.header = none
  lastHeader : c.lastHeader = .error (.codec .tooLarge)

namespace Halted

variable (hc : c.Halted)

include hc

theorem congr (hheader : d.header = c.header) (hcommitted : d.committed = c.committed) :
    d.Halted :=
  ⟨hheader.trans hc.header, (lastHeader_congr hcommitted).trans hc.lastHeader⟩

theorem beginBlock (h : BlockHeader) : c.beginBlock h = (.error (.codec .tooLarge), c) := by
  have hidle : ¬ c.header.isSome = true := by simp [hc.header]
  rw [Chain.beginBlock, if_neg hidle, hc.lastHeader]

theorem initChain (h : BlockHeader) (g : Genesis) :
    c.initChain h g = (.error (.codec .tooLarge), c) := by
  have hidle : ¬ c.header.isSome = true := by simp [hc.header]
  rw [Chain.initChain, if_neg hidle, hc.lastHeader]

theorem query {α : Type} (x : Exec α) : c.query x = .error (.codec .tooLarge) := by
  rw [Chain.query, queryHeader, hc.lastHeader]
  rfl

theorem reopen (a : Assembly) (sweeps : Bool) : (opened a sweeps c.committed).Halted :=
  ⟨rfl, hc.lastHeader⟩

/-- A halted chain stays halted, whatever is called and however often it is opened anew. -/
theorem live (moves : List Move) : (c.live moves).Halted := by
  refine live_keeps (P := Halted) (fun m _ c hc => ?_) hc
  cases m with
  | reopen a sweeps => exact hc.reopen a sweeps
  | call made =>
    cases made with
    | init h g =>
      rw [move, perform, hc.initChain]
      exact hc
    | begin h =>
      rw [move, perform, hc.beginBlock]
      exact hc
    | deliver tx =>
      obtain ⟨metrics, hafter⟩ := sameState_deliverTx c tx
      rw [move, perform, hafter]
      exact hc.congr rfl rfl
    | endBlock =>
      obtain ⟨writes, metrics, hafter⟩ := sameState_endBlock c
      rw [move, perform, hafter]
      exact hc.congr rfl rfl
    | commit =>
      rw [move, perform, commit_of_header_none hc.header]
      exact hc

end Halted

/-! ## Committed blocks -/

/-- The header of a block that has been committed is read back, unless it exceeds the cap. -/
theorem lastHeader_after_commit (hheader : c.header = some h) :
    c.commit.2.lastHeader =
      if 65512 < (Bytes.ofText h.chainId).length then .error (.codec .tooLarge)
      else .ok (some h) := by
  have hcap : headerCap.toNat = 65536 := rfl
  have hstored : c.commit.2.committed.get? lastHeaderKey = some (BlockHeader.codec.encode h) := by
    rw [(commit_of_header hheader).2.1, SortedMap.get?_insert_self]
  rw [lastHeader_of_stored hstored, BlockHeader.length_encode, hcap]
  exact if_congr (by omega) rfl rfl

/-- A block is committed. If the name of its chain has at most 65512 bytes, the chain goes on from
it, in the same process and opened anew, with any assembly. If the name is longer, the chain is at
its end: in its whole life after that the last header cannot be read, no block begins, no genesis
opens one, and no request is answered. -/
theorem resumes_iff_header_fits (a : Assembly) (sweeps : Bool) {moves : List Move}
    (hheader : ((opened a sweeps ∅).live moves).header = some h) :
    let c := (opened a sweeps ∅).live moves
    (∃ root, c.commit.1 = .ok root) ∧
    ((Bytes.ofText h.chainId).length ≤ 65512 →
      c.commit.2.ResumesAt h ∧ ∀ a' sweeps', (c.commit.2.move (.reopen a' sweeps')).ResumesAt h) ∧
    (65512 < (Bytes.ofText h.chainId).length → ∀ later,
      let d := c.commit.2.live later
      d.lastHeader = .error (.codec .tooLarge) ∧ d.queryHeader = .error (.codec .tooLarge) ∧
        (∀ h', d.beginBlock h' = (.error (.codec .tooLarge), d)) ∧
        (∀ h' g, d.initChain h' g = (.error (.codec .tooLarge), d)) ∧
        ∀ (α : Type) (x : Exec α), d.query x = .error (.codec .tooLarge)) := by
  intro c
  have hlast := lastHeader_after_commit hheader
  obtain ⟨hroot, -, -, hnone⟩ := commit_of_header hheader
  refine ⟨⟨_, hroot⟩, fun hshort => ?_, fun hlong later => ?_⟩
  · rw [if_neg (Nat.not_lt.2 hshort)] at hlast
    exact ⟨resumesAt_of_lastHeader hnone hlast,
      fun a' sweeps' => resumesAt_of_lastHeader rfl hlast⟩
  · rw [if_pos hlong] at hlast
    have hd : (c.commit.2.live later).Halted := Halted.live ⟨hnone, hlast⟩ later
    refine ⟨hd.lastHeader, ?_, hd.beginBlock, hd.initChain, fun α x => hd.query x⟩
    rw [queryHeader, hd.lastHeader]
    rfl

/-- A block is lost and the chain opened anew before the block at height 4 is committed. The chain
goes on above it. -/
theorem resumes_above_committed :
    let h : BlockHeader := ⟨"c", 4, ⟨9⟩⟩
    let moves : List Move :=
      [.call (.init ⟨"c", 1, ⟨5⟩⟩ []), .call .commit, .call (.begin ⟨"c", 7, ⟨6⟩⟩),
        .reopen ⟨.builtin, ∅⟩ true, .call (.begin h)]
    let c := (opened ⟨.builtin, ∅⟩ false ∅).live moves
    c.commit.2.restart.lastHeader = .ok (some h) ∧
      ∀ h', (c.commit.2.beginBlock h').1 = .ok () ↔ 4 < h'.height := by
  intro h moves c
  have hheader : c.header = some h := by decide +kernel
  have hshort : (Bytes.ofText h.chainId).length ≤ 65512 := by decide +kernel
  obtain ⟨hnow, hanew⟩ :=
    (resumes_iff_header_fits ⟨.builtin, ∅⟩ false hheader).2.1 hshort
  exact ⟨(hanew _ _).lastHeader, hnow.begins_iff⟩

theorem header_first_block (a : Assembly) (sweeps : Bool) (h : BlockHeader) :
    ((opened a sweeps ∅).live [.call (.init h [])]).header = some h := rfl

/-- The first block is committed under a name of 65513 bytes. The block above it does not begin,
neither in the same process nor after a restart. -/
theorem not_resumes_long_name :
    let h := BlockHeader.named 65513
    let c := (opened ⟨.builtin, Router.authzRoutes⟩ false ∅).live [.call (.init h [])]
    c.header = some h ∧ (∃ root, c.commit.1 = .ok root) ∧
      c.commit.2.lastHeader ≠ .ok (some h) ∧
      ∀ d ∈ [c.commit.2, c.commit.2.restart],
        (d.beginBlock ⟨"c", 2, ⟨6⟩⟩).1 = .error (.codec .tooLarge) := by
  intro h c
  have hheader : c.header = some h := header_first_block _ false h
  have hlast := lastHeader_after_commit hheader
  rw [BlockHeader.length_named, if_pos (Nat.lt_succ_self 65512)] at hlast
  obtain ⟨hroot, -, -, hnone⟩ := commit_of_header hheader
  have hnow : c.commit.2.Halted := ⟨hnone, hlast⟩
  have hanew : c.commit.2.restart.Halted := hnow.reopen _ _
  refine ⟨hheader, ⟨_, hroot⟩, fun heq => ?_, fun d hd => ?_⟩
  · rw [hlast] at heq
    cases heq
  · rcases List.mem_pair.1 hd with rfl | rfl
    · rw [hnow.beginBlock]
    · rw [hanew.beginBlock]

end Chain

end GrantLedger
