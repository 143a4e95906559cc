import GrantLedger.Proofs.Delegation
import GrantLedger.Proofs.Listing
import GrantLedger.Proofs.Runs

/-!
# What a chain holds

Whatever calls are made to a chain, every pair in the namespace of grants is the record of a grant
that may be stored, byte for byte, under the key of that grant (`GrantTable.AllCanonical`): in the
committed pairs and in the block in progress alike (`Chain.Consistent`). Each entry of a journal
keeps it so (`Canonical.step`), and the journal accounts for every call.

The size cap has no part in this, since records are written without a look at it. It only decides
which of them can be read (`GrantTable.AllCanonical.wellFormed`). The stored header is written and
read in the same way, under a cap of its own (`Chain.HeadersFit`).
-/

namespace GrantLedger

/-! ## Grants that may be stored -/

namespace Authorization

/-- A use leaves a valid authorization, if it leaves one. -/
theorem validate_of_afterUse {a a' : Authorization} (ha : a.validate = .ok ())
    (h : a.afterUse = some a') : a'.validate = .ok () := by
  cases a with
  | generic url =>
    cases h
    exact ha
  | scripted s =>
    cases h
    exact ha
  | method name uses =>
    cases uses with
    | none =>
      cases h
      exact ha
    | some n =>
      dsimp only [afterUse] at h
      split at h
      · cases h
      · next hone =>
        cases h
        dsimp only [validate] at ha ⊢
        split at ha
        · cases ha
        · next hname =>
          have hmore : ¬ some (n - 1) = some (0 : UInt64) := by
            intro hzero
            refine hone ?_
            rw [← UInt64.sub_add_cancel n 1, Option.some.inj hzero, UInt64.zero_add]
          rw [if_neg hname, if_neg hmore]

/-- A valid built-in authorization says what it governs. -/
theorem msgTypeUrl_ne_empty {a : Authorization} (hbuiltin : a.Builtin)
    (ha : a.validate = .ok ()) : a.msgTypeUrl ≠ "" := by
  intro hempty
  cases a with
  | generic url =>
    obtain rfl : url = "" := hempty
    cases ha
  | method name uses =>
    obtain rfl : name = "" := hempty
    cases ha
  | scripted s => exact not_builtin_scripted s hbuiltin

end Authorization

/-- What a use leaves of a grant that may be stored may be stored under the same key. -/
theorem Grant.Sound.afterUse {g : Grant} (h : g.Sound) {a : Authorization}
    (ha : g.authorization.afterUse = some a) :
    Grant.Sound { g with authorization := a } ∧
      Grant.key { g with authorization := a } = g.key := by
  refine ⟨⟨h.granter_ne, Authorization.validate_of_afterUse h.valid ha, h.builtin.afterUse ha⟩, ?_⟩
  exact congrArg (GrantKey.mk g.grantee g.granter) (Authorization.msgTypeUrl_of_afterUse ha)

/-! ## Records of such grants -/

/-- What is under `b`, if anything, is the record of a grant that may be stored, and `b` is the key
of that grant. -/
def Canonical (b : Bytes) (v : Option Bytes) : Prop :=
  ∀ value, v = some value → ∃ g : Grant, g.Sound ∧ g.key.toBytes = b ∧ g.stored = some value

namespace Canonical

variable {r : Registry} {b : Bytes} {v w : Option Bytes}

theorem none (b : Bytes) : Canonical b none := nofun

theorem stored {g : Grant} (hg : g.Sound) (hkey : g.key.toBytes = b) : Canonical b g.stored :=
  fun _ hvalue => ⟨g, hg, hkey, hvalue⟩

/-- Every entry of a journal leaves records of grants that may be stored. -/
theorem step (hr : r.Builtin) {e : Entry} (h : Canonical b v) (hstep : e.Step r b v w) :
    Canonical b w := by
  cases e with
  | grant g =>
    obtain ⟨hsound, rfl⟩ := hstep
    split
    · next hkey => exact stored hsound hkey
    · exact h
  | revoke k =>
    obtain rfl : w = _ := hstep
    split
    · exact none b
    · exact h
  | use k now =>
    rw [Entry.Step] at hstep
    split at hstep
    · next hkey =>
      obtain ⟨g, value, hv, hdec, -, -, rfl⟩ := hstep
      obtain ⟨g', hsound, hkey', hstored⟩ := h value hv
      obtain rfl : g'.key = k := GrantKey.toBytes_injective (hkey'.trans hkey.symm)
      -- What was read is the grant that had been stored.
      have hread : Grant.decode r g'.granter g'.grantee value = .ok g := hdec
      rw [Grant.decode_of_stored hr hsound.builtin hstored] at hread
      split at hread
      · cases hread
      · cases hread
        intro value' hvalue'
        obtain ⟨a, ha, hstored'⟩ := Option.bind_eq_some_iff.1 hvalue'
        obtain ⟨hsound', hsame⟩ := hsound.afterUse ha
        exact ⟨_, hsound', by rw [hsame, hkey'], hstored'⟩
    · obtain rfl : w = v := hstep
      exact h
  | genesis gs =>
    obtain ⟨hsound, rfl⟩ := hstep
    induction gs generalizing v with
    | nil => exact h
    | cons g gs ih =>
      refine ih ?_ fun g' hg' => hsound g' (List.mem_cons_of_mem g hg')
      dsimp only
      split
      · next hkey => exact stored (hsound g List.mem_cons_self) hkey
      · exact h
  | sweep now =>
    obtain rfl : w = _ := hstep
    exact fun value hvalue => h value (Option.filter_eq_some_iff.1 hvalue).1

end Canonical

namespace GrantTable

/-- Every pair in the namespace of grants is the record of a grant that may be stored, under the key
of that grant. -/
def AllCanonical (m : Pairs) : Prop :=
  ∀ b : Bytes, b.startsWith GrantKey.allRange = true → Canonical b (m.get? b)

/-- Every record is within the size cap of the registry. -/
def AllWithin (r : Registry) (m : Pairs) : Prop :=
  ∀ b v, m.get? b = some v → b.startsWith GrantKey.allRange = true →
    v.length ≤ r.maxValueBytes.toNat

theorem allWithin_of_entries {r : Registry} {m : Pairs}
    (h : ∀ e ∈ m.entries, e.2.length ≤ r.maxValueBytes.toNat) : AllWithin r m :=
  fun b v hget _ => h (b, v) (SortedMap.mem_entries_iff.2 hget)

theorem AllCanonical.wellFormed {r : Registry} (hr : r.Builtin) {m : Pairs} (h : AllCanonical m)
    (hwithin : AllWithin r m) : WellFormed r m := by
  intro b v hget hstarts
  obtain ⟨g, hsound, rfl, hstored⟩ := h b hstarts v hget
  refine ⟨g, rfl, ?_⟩
  rw [Grant.decode_of_stored hr hsound.builtin hstored]
  exact if_neg (Nat.not_lt.2 (hwithin _ v hget hstarts))

end GrantTable

/-! ## Runs -/

namespace Chain

/-- The records are those of grants that may be stored, in the committed pairs and in the block in
progress, and outside a block nothing is pending. -/
structure Consistent (c : Chain) : Prop where
  view : GrantTable.AllCanonical c.view.content
  committed : GrantTable.AllCanonical c.committed
  pending_eq : c.header = none → c.pending = ∅

variable {c : Chain} {p : Conduct}

theorem Consistent.opened (a : Assembly) (sweeps : Bool) : (opened a sweeps ∅).Consistent where
  view _ _ := nofun
  committed _ _ := nofun
  pending_eq _ := rfl

/-- What a chain adopts goes to the pending writes alone. -/
theorem committed_of_view {d : Chain} {h : BlockHeader} {child : Context}
    (hview : d.view = ((Context.start h c.view).adopt child).store) :
    d.committed = c.committed := by
  have hput :
      d.view = { c with pending := (c.view.putAll child.store.writes.entries).writes }.view :=
    hview.trans (c.view_putAll _).symm
  exact congrArg Backend.content (Store.base.inj (Store.buffered.inj hput).2)

theorem runTx_of_header_none (hnone : c.header = none) (tx : List Message) :
    (c.runTx tx).2 = c := by
  cases hvalid : validateTx tx with
  | error e => rw [runTx_of_invalid hvalid]
  | ok u => rw [runTx_of_no_block hnone hvalid]

theorem endBlock_of_header_none (hnone : c.header = none) : c.endBlock.2 = c := by
  rw [endBlock, inBlock, hnone]
  split <;> rfl

theorem committed_commit {h : BlockHeader} (hh : c.header = some h) {b : Bytes}
    (hb : b.startsWith GrantKey.allRange = true) :
    c.commit.2.committed.get? b = c.record b := by
  rw [← record_commit hb, commit, hh]
  rfl

/-- Outside a block the records in the view are the committed ones. -/
theorem Consistent.record_eq (h : c.Consistent) (hnone : c.header = none) (b : Bytes) :
    c.record b = c.committed.get? b := by
  rw [record, Chain.view, h.pending_eq hnone]
  rfl

/-- A call stays in the block in progress, or outside of any, or it opens a block, or it commits
one. -/
theorem perform_cases (c : Chain) (call : Call) :
    ((c.perform call).2.header = c.header ∧ (c.perform call).2.committed = c.committed ∧
      (c.header = none → (c.perform call).2.pending = c.pending)) ∨
    (∃ h, ((∃ g, call = .init h g) ∨ call = .begin h) ∧ (c.perform call).2.header = some h ∧
      (c.perform call).2.committed = c.committed) ∨
    (∃ h, call = .commit ∧ c.header = some h ∧ c.commit.2.header = none ∧ c.commit.2.pending = ∅ ∧
      c.commit.2.committed =
        c.committed.update (c.pending.insert lastHeaderKey
          (some (BlockHeader.codec.encode h))).entries) := by
  cases call with
  | init header genesis =>
    cases hresult : (c.initChain header genesis).1 with
    | error e =>
      rw [Chain.perform, initChain_of_error hresult]
      exact .inl ⟨rfl, rfl, fun _ => rfl⟩
    | ok u =>
      obtain ⟨-, -, hheader, -, child, -, hadopted⟩ := initChain_of_ok hresult
      exact .inr (.inl ⟨header, .inl ⟨genesis, rfl⟩, hheader, committed_of_view hadopted⟩)
  | begin header =>
    rcases c.beginBlock_cases header with ⟨e, heq⟩ | ⟨heq, -⟩
    · rw [Chain.perform, heq]
      exact .inl ⟨rfl, rfl, fun _ => rfl⟩
    · rw [Chain.perform, heq]
      exact .inr (.inl ⟨header, .inr rfl, rfl, rfl⟩)
  | deliver tx =>
    obtain ⟨m, hafter⟩ := sameState_deliverTx c tx
    have hidle (hnone : c.header = none) : (c.runTx tx).2.pending = c.pending := by
      rw [runTx_of_header_none hnone]
    rw [Chain.perform, hafter]
    exact .inl ⟨rfl, rfl, hidle⟩
  | endBlock =>
    obtain ⟨w, m, hafter⟩ := sameState_endBlock c
    have hidle (hnone : c.header = none) : c.endBlock.2.pending = c.pending := by
      rw [endBlock_of_header_none hnone]
    rw [Chain.perform]
    rw [hafter] at hidle ⊢
    exact .inl ⟨rfl, rfl, hidle⟩
  | commit =>
    rw [Chain.perform, Chain.commit]
    cases hheader : c.header with
    | none => exact .inl ⟨hheader, rfl, fun _ => rfl⟩
    | some header => exact .inr (.inr ⟨header, rfl, rfl, rfl, rfl, rfl⟩)

theorem Consistent.perform (hr : c.assembly.registry.Builtin) (hp : p.OutsideGrants) {call : Call}
    (hcall : call.Obeys p) (h : c.Consistent) : (c.perform call).2.Consistent := by
  have hview : GrantTable.AllCanonical (c.perform call).2.view.content := by
    intro b hb
    have hreplays := (accounts_perform hr hp hcall).replays b hb
    exact hreplays.keeps (fun e v w hv hstep => hv.step hr hstep) (h.view b hb)
  rcases c.perform_cases call with ⟨hheader, hcommitted, hpending⟩ |
    ⟨header, -, hheader, hcommitted⟩ | ⟨header, rfl, hheader, -, hpending, -⟩
  · refine ⟨hview, hcommitted ▸ h.committed, fun hnone => ?_⟩
    rw [hheader] at hnone
    exact (hpending hnone).trans (h.pending_eq hnone)
  · refine ⟨hview, hcommitted ▸ h.committed, fun hnone => ?_⟩
    rw [hheader] at hnone
    cases hnone
  · refine ⟨hview, fun b hb => ?_, fun _ => hpending⟩
    rw [Chain.perform, committed_commit hheader hb]
    exact h.view b hb

theorem Consistent.run (hr : c.assembly.registry.Builtin) (hp : p.OutsideGrants)
    {calls : List Call} (hcalls : ∀ call ∈ calls, call.Obeys p) (h : c.Consistent) :
    (c.run calls).2.Consistent := by
  induction calls generalizing c with
  | nil => exact h
  | cons call calls ih =>
    have hfirst := h.perform hr hp (hcalls call List.mem_cons_self)
    exact ih (assembly_perform c call ▸ hr)
      (fun call' hcall' => hcalls call' (List.mem_cons_of_mem call hcall')) hfirst

end Chain

/-! ## The stored header -/

theorem BlockHeader.lawful_codec : BlockHeader.codec.Lawful :=
  (Codec.lawful_text.pair (Codec.lawful_u64.pair Timestamp.lawful_codec)).via (fun _ => rfl)
    (fun _ => rfl)

/-- The header can be read back once it is stored. -/
def BlockHeader.Fits (h : BlockHeader) : Prop :=
  (codec.encode h).length ≤ Chain.headerCap.toNat

namespace Chain

/-- A header that is stored is read back, unless it exceeds the cap. -/
theorem lastHeader_of_stored {c : Chain} {h : BlockHeader}
    (hget : c.committed.get? lastHeaderKey = some (BlockHeader.codec.encode h)) :
    c.lastHeader =
      if headerCap.toNat < (BlockHeader.codec.encode h).length then .error (.codec .tooLarge)
      else .ok (some h) := by
  rw [lastHeader, hget]
  dsimp only
  rw [BlockHeader.lawful_codec.decode_encode]
  by_cases hlong : headerCap.toNat < (BlockHeader.codec.encode h).length
  · rw [if_pos hlong, if_pos hlong]
  · rw [if_neg hlong, if_neg hlong]

/-- The header of the call can be read back once it is stored. -/
def Call.HeaderFits : Call → Prop
  | init h _ => h.Fits
  | begin h => h.Fits
  | _ => True

/-- The header of the block in progress can be read back once it is stored, and so can what is
stored in its place. -/
structure HeadersFit (c : Chain) : Prop where
  header : ∀ h, c.header = some h → h.Fits
  stored : ∀ b, c.committed.get? lastHeaderKey = some b →
    ∃ h, BlockHeader.Fits h ∧ b = BlockHeader.codec.encode h

namespace HeadersFit

variable {c d : Chain}

theorem opened (a : Assembly) (sweeps : Bool) : (Chain.opened a sweeps ∅).HeadersFit :=
  ⟨nofun, nofun⟩

theorem congr (h : c.HeadersFit) (hheader : d.header = c.header)
    (hcommitted : d.committed = c.committed) : d.HeadersFit := by
  constructor
  · rw [hheader]
    exact h.header
  · rw [hcommitted]
    exact h.stored

theorem exists_lastHeader (h : c.HeadersFit) : ∃ last, c.lastHeader = .ok last := by
  cases hget : c.committed.get? lastHeaderKey with
  | none =>
    rw [lastHeader, hget]
    exact ⟨none, rfl⟩
  | some b =>
    obtain ⟨last, hfits, rfl⟩ := h.stored b hget
    exact ⟨some last, (lastHeader_of_stored hget).trans (if_neg (Nat.not_lt.2 hfits))⟩

theorem perform (h : c.HeadersFit) {call : Call} (hcall : call.HeaderFits) :
    (c.perform call).2.HeadersFit := by
  rcases c.perform_cases call with ⟨hheader, hcommitted, -⟩ |
    ⟨header, hopens, hheader, hcommitted⟩ | ⟨header, rfl, hheader, hclosed, -, hcommitted⟩
  · exact h.congr hheader hcommitted
  · have hfits : header.Fits := by
      rcases hopens with ⟨g, rfl⟩ | rfl
      · exact hcall
      · exact hcall
    refine ⟨fun header' heq => ?_, hcommitted ▸ h.stored⟩
    rw [hheader] at heq
    exact Option.some.inj heq ▸ hfits
  · refine ⟨fun header' heq => ?_, fun b hget => ⟨header, h.header header hheader, ?_⟩⟩
    · rw [Chain.perform, hclosed] at heq
      cases heq
    · rw [Chain.perform, hcommitted, Pairs.update_insert, Pairs.get?_put_self] at hget
      exact (Option.some.inj hget).symm

theorem run (h : c.HeadersFit) {calls : List Call} (hcalls : ∀ call ∈ calls, call.HeaderFits) :
    (c.run calls).2.HeadersFit := by
  induction calls generalizing c with
  | nil => exact h
  | cons call calls ih =>
    exact ih (h.perform (hcalls call List.mem_cons_self))
      fun call' hcall' => hcalls call' (List.mem_cons_of_mem call hcall')

end HeadersFit

end Chain

end GrantLedger
