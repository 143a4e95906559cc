import GrantLedger.Proofs.Lifecycle
import GrantLedger.Proofs.Readback

/-!
# Grants over a change of chains

A chain whose records can all be read writes its live grants down as a genesis, and a new chain that
starts from it holds the same records, byte for byte, but for those that have expired at its own
start (`Chain.live_grants_survive_export`). The table of grants lists the grants that may be stored,
each by the bytes it is stored as (`GrantTable.mem_grantsIn_iff`). What such a grant is written down
as loads as the grant itself (`Genesis.grants_written`), and a grant is stored by one record only.
So the records of the new chain are records of the old one (`GrantTable.Survives`), and what the new
chain lists is what the old one lists, without the grants that are gone.
-/

namespace GrantLedger

theorem Grant.Recorded.unique {r : Registry} {g g' : Grant} {b v : Bytes} (h : g.Recorded r b v)
    (h' : g'.Recorded r b v) : g = g' := by
  have hkey : g.key = g'.key := GrantKey.toBytes_injective (h.key_eq.symm.trans h'.key_eq)
  obtain ⟨hgrantee, hgranter, -⟩ := GrantKey.mk.inj hkey
  have hreads := h.reads
  rw [hgrantee, hgranter, h'.reads] at hreads
  exact (Except.ok.inj hreads).symm

namespace GrantTable

variable {r : Registry} {m m' : Pairs} {g : Grant} {alive : Grant → Bool}

/-! ## The grants of a table -/

/-- The record of the grant is within the size cap of the registry. -/
def Within (r : Registry) (g : Grant) : Prop :=
  ∀ v, g.stored = some v → v.length ≤ r.maxValueBytes.toNat

theorem AllWithin.within (hw : AllWithin r m) (hget : m.get? g.key.toBytes = g.stored) :
    Within r g := by
  intro v hv
  exact hw _ v (hget.trans hv) g.key.startsWith_toBytes

/-- A pair is the record of a grant exactly if the grant may be stored, as this very pair. -/
theorem AllCanonical.recorded_iff (hr : r.Builtin) (h : AllCanonical m) (hw : AllWithin r m)
    {v : Bytes} (hget : m.get? g.key.toBytes = some v) :
    g.Recorded r g.key.toBytes v ↔ g.Sound ∧ g.stored = some v := by
  have hlength := hw _ v hget g.key.startsWith_toBytes
  have reads {g' : Grant} (hsound : g'.Sound) (hstored : g'.stored = some v) :
      g'.Recorded r g'.key.toBytes v := by
    have hreads := Grant.decode_of_stored hr hsound.builtin hstored
    rw [if_neg (Nat.not_lt.2 hlength)] at hreads
    exact ⟨rfl, hreads⟩
  constructor
  · intro hrec
    obtain ⟨g', hsound, hkey, hstored⟩ := h _ g.key.startsWith_toBytes v hget
    obtain rfl : g = g' := hrec.unique (hkey ▸ reads hsound hstored)
    exact ⟨hsound, hstored⟩
  · rintro ⟨hsound, hstored⟩
    exact reads hsound hstored

theorem AllCanonical.recordAt_iff (hr : r.Builtin) (h : AllCanonical m) (hw : AllWithin r m) :
    recordAt r m g.key = .ok (some g) ↔ g.Sound ∧ m.get? g.key.toBytes = g.stored := by
  rw [recordAt_key_iff]
  constructor
  · rintro ⟨v, hget, hrec⟩
    obtain ⟨hsound, hstored⟩ := (h.recorded_iff hr hw hget).1 hrec
    exact ⟨hsound, hget.trans hstored.symm⟩
  · rintro ⟨hsound, hget⟩
    obtain ⟨v, hv⟩ := Grant.exists_stored hsound.builtin
    rw [hv] at hget
    exact ⟨v, hget, (h.recorded_iff hr hw hget).2 ⟨hsound, hv⟩⟩

theorem mem_listing_iff (hr : r.Builtin) (h : AllCanonical m) (hw : AllWithin r m)
    {cursor : Bytes} :
    (cursor, g) ∈ listing r GrantKey.allRange m ↔
      GrantKey.allRange ++ cursor = g.key.toBytes ∧ g.Sound ∧
        m.get? g.key.toBytes = g.stored := by
  rw [(h.wellFormed hr hw).mem_listing_iff (List.prefix_refl _), h.recordAt_iff hr hw]

theorem mem_grantsIn_iff (hr : r.Builtin) (h : AllCanonical m) (hw : AllWithin r m) :
    g ∈ grantsIn r m ↔ g.Sound ∧ m.get? g.key.toBytes = g.stored := by
  constructor
  · intro hmem
    obtain ⟨⟨cursor, g'⟩, hlisted, rfl⟩ := List.mem_map.1 hmem
    exact ((mem_listing_iff hr h hw).1 hlisted).2
  · intro hg
    obtain ⟨cursor, hcursor⟩ := Bytes.startsWith_iff.1 g.key.startsWith_toBytes
    exact List.mem_map.2 ⟨(cursor, g), (mem_listing_iff hr h hw).2 ⟨hcursor, hg⟩, rfl⟩

/-! ## Grants that survive -/

/-- In the namespace of grants, `m'` holds exactly the pairs of `m` that are records of grants that
are alive. -/
def Survives (r : Registry) (alive : Grant → Bool) (m m' : Pairs) : Prop :=
  ∀ b v, b.startsWith GrantKey.allRange = true →
    (m'.get? b = some v ↔
      m.get? b = some v ∧ ∃ g : Grant, g.Recorded r b v ∧ alive g = true)

namespace Survives

variable (hs : Survives r alive m m')

include hs

theorem allCanonical (h : AllCanonical m) : AllCanonical m' := by
  intro b hb v hget
  exact h b hb v ((hs b v hb).1 hget).1

theorem allWithin (hw : AllWithin r m) : AllWithin r m' := by
  intro b v hget hb
  exact hw b v ((hs b v hb).1 hget).1 hb

/-- The grants that survive are listed in the same order. -/
theorem grantsIn_eq (hr : r.Builtin) (h : AllCanonical m) (hw : AllWithin r m) :
    grantsIn r m' = (grantsIn r m).filter alive := by
  have hget {g : Grant} (hsound : g.Sound) :
      m'.get? g.key.toBytes = g.stored ↔
        m.get? g.key.toBytes = g.stored ∧ alive g = true := by
    obtain ⟨v, hv⟩ := Grant.exists_stored hsound.builtin
    rw [hv, hs _ v g.key.startsWith_toBytes]
    refine and_congr_right fun hget => ?_
    have hrec := (h.recorded_iff hr hw hget).2 ⟨hsound, hv⟩
    -- No other grant has the same record.
    constructor
    · rintro ⟨g', hrec', halive⟩
      rwa [hrec.unique hrec']
    · exact fun halive => ⟨g, hrec, halive⟩
  have hlisting : ((listing r GrantKey.allRange m).filter fun item => alive item.2) =
      listing r GrantKey.allRange m' := by
    refine eq_listing ((sorted_listing r GrantKey.allRange m).filter _) fun cursor g => ?_
    rw [List.mem_filter, mem_listing_iff hr h hw,
      mem_listing_iff hr (hs.allCanonical h) (hs.allWithin hw), and_assoc]
    refine and_congr_right fun _ => ?_
    rw [and_assoc]
    exact and_congr_right fun hsound => (hget hsound).symm
  rw [grantsIn, ← hlisting, grantsIn, List.filter_map]
  rfl

end Survives

end GrantTable

/-! ## Writing down and loading -/

namespace GenesisEntry

variable {r : Registry} {g : Grant} {e : GenesisEntry}

theorem ofGrant_eq_ok_iff :
    ofGrant g = .ok e ↔
      g.authorization.pack = .ok e.authorization ∧ e.granter = g.granter ∧
        e.grantee = g.grantee ∧ e.expiration = g.expiration := by
  obtain ⟨granter, grantee, any, expiration⟩ := e
  cases hpack : g.authorization.pack with
  | error cause => simp [ofGrant, hpack, bind, Except.bind]
  | ok any' =>
    have hentry : ofGrant g = .ok ⟨g.granter, g.grantee, any', g.expiration⟩ := by
      rw [ofGrant, hpack]
      rfl
    rw [hentry]
    simp only [Except.ok.injEq, mk.injEq]
    tauto

theorem validate_of_ofGrant (hg : g.Sound) (he : ofGrant g = .ok e) : e.validate = .ok () := by
  obtain ⟨hpack, hgranter, hgrantee, -⟩ := ofGrant_eq_ok_iff.1 he
  obtain ⟨payload, hpayload⟩ := hg.builtin.exists_encode
  rw [Authorization.pack, hpayload] at hpack
  have htyped : e.authorization.typeUrl ≠ "" := by
    rw [← Except.ok.inj hpack]
    change g.authorization.kind.typeUrl ≠ ""
    cases g.authorization.kind <;> decide
  rw [validate, hgranter, hgrantee, if_neg hg.granter_ne, if_neg htyped]

theorem unpack_of_ofGrant (hr : r.Builtin) (hg : g.Sound) (hw : GrantTable.Within r g)
    (he : ofGrant g = .ok e) : r.unpack e.authorization = .ok g.authorization := by
  obtain ⟨hpack, -⟩ := ofGrant_eq_ok_iff.1 he
  have hrecord := hw _ (Grant.stored_eq_some_iff.2 ⟨_, hpack, rfl⟩)
  have hpayload := Grant.length_value_le ⟨e.authorization, g.expiration⟩
  exact hr.unpack_of_pack hg.builtin hpack (Nat.le_trans hpayload hrecord)

end GenesisEntry

namespace Genesis

variable {r : Registry} {now now' : Timestamp} {g : Grant} {e : GenesisEntry} {gs : List Grant}

theorem entryOf?_eq_some_iff :
    entryOf? now g = some e ↔ g.isExpired now = false ∧ GenesisEntry.ofGrant g = .ok e := by
  rw [entryOf?]
  cases g.isExpired now with
  | true => simp
  | false => cases GenesisEntry.ofGrant g <;> simp [Except.toOption]

theorem mem_written_iff :
    e ∈ written now gs ↔
      ∃ g ∈ gs, g.isExpired now = false ∧ GenesisEntry.ofGrant g = .ok e := by
  simp only [written, List.mem_filterMap, entryOf?_eq_some_iff]

theorem exists_entryOf? (hg : g.Sound) (hexp : g.isExpired now = false) :
    ∃ e, GenesisEntry.ofGrant g = .ok e ∧ entryOf? now g = some e := by
  obtain ⟨payload, hpayload⟩ := hg.builtin.exists_encode
  have hpack : g.authorization.pack = .ok ⟨g.authorization.kind.typeUrl, payload⟩ := by
    rw [Authorization.pack, hpayload]
  let e : GenesisEntry :=
    ⟨g.granter, g.grantee, ⟨g.authorization.kind.typeUrl, payload⟩, g.expiration⟩
  have he : GenesisEntry.ofGrant g = .ok e :=
    GenesisEntry.ofGrant_eq_ok_iff.2 ⟨hpack, rfl, rfl, rfl⟩
  exact ⟨e, he, entryOf?_eq_some_iff.2 ⟨hexp, he⟩⟩

/-- What a grant is written down as loads as this grant. -/
theorem grant?_of_ofGrant (hr : r.Builtin) (hg : g.Sound) (hw : GrantTable.Within r g)
    (he : GenesisEntry.ofGrant g = .ok e) (now : Timestamp) :
    grant? r now e = if g.isExpired now then none else some g := by
  obtain ⟨-, hgranter, hgrantee, hexpiration⟩ := GenesisEntry.ofGrant_eq_ok_iff.1 he
  rw [grant?, GenesisEntry.unpack_of_ofGrant hr hg hw he]
  dsimp only
  rw [hgranter, hgrantee, hexpiration]

/-- Grants that are written down at one time load at another, but for those that have expired at one
of the two. -/
theorem grants_written (hr : r.Builtin)
    (hgs : ∀ g ∈ gs, g.Sound ∧ GrantTable.Within r g) (now now' : Timestamp) :
    grants r now' (written now gs) =
      gs.filter fun g => !g.isExpired now && !g.isExpired now' := by
  induction gs with
  | nil => rfl
  | cons g gs ih =>
    have ih := ih fun g' hg' => hgs g' (List.mem_cons_of_mem g hg')
    obtain ⟨hsound, hwithin⟩ := hgs g List.mem_cons_self
    rw [grants] at ih ⊢
    rw [written_cons, List.filterMap_append, ih, List.filter_cons]
    cases hexp : g.isExpired now with
    | true =>
      rw [entryOf?, if_pos hexp]
      rfl
    | false =>
      obtain ⟨e, he, hentry⟩ := exists_entryOf? hsound hexp
      have hgrant := grant?_of_ofGrant hr hsound hwithin he now'
      rw [hentry]
      cases hexp' : g.isExpired now' with
      | true => simp [hgrant, hexp']
      | false => simp [hgrant, hexp']

/-- Of what grants are written down as, what has not expired at another time is what the others of
them are written down as at that time. -/
theorem filter_written (hgs : ∀ g ∈ gs, g.Sound) (now now' : Timestamp) :
    (written now gs).filter (fun e => !expiredAt e.expiration now') =
      written now' (gs.filter fun g => !g.isExpired now && !g.isExpired now') := by
  induction gs with
  | nil => rfl
  | cons g gs ih =>
    have ih := ih fun g' hg' => hgs g' (List.mem_cons_of_mem g hg')
    rw [written_cons, List.filter_append, ih, List.filter_cons]
    cases hexp : g.isExpired now with
    | true =>
      rw [entryOf?, if_pos hexp]
      rfl
    | false =>
      obtain ⟨e, he, hentry⟩ := exists_entryOf? (hgs g List.mem_cons_self) hexp
      obtain ⟨-, -, -, hexpiration⟩ := GenesisEntry.ofGrant_eq_ok_iff.1 he
      have hexp'' : expiredAt e.expiration now' = g.isExpired now' := by
        rw [hexpiration]
        rfl
      rw [hentry]
      cases hexp' : g.isExpired now' with
      | true => simp [hexp'', hexp']
      | false =>
        have hentry' := entryOf?_eq_some_iff.2 ⟨hexp', he⟩
        simp [hexp'', hexp', written_cons, hentry']

theorem validate_of_forall {es : Genesis} (h : ∀ e ∈ es, e.validate = .ok ()) :
    es.validate = .ok () := by
  induction es with
  | nil => rfl
  | cons e es ih =>
    change (e.validate >>= fun _ => es.forM GenesisEntry.validate) = .ok ()
    rw [h e List.mem_cons_self]
    exact ih fun e' he' => h e' (List.mem_cons_of_mem e he')

theorem exists_loadEntry (hr : r.Builtin) (now : Timestamp) {a : Authorization}
    (hunpack : r.unpack e.authorization = .ok a) (hvalid : a.validate = .ok ()) {c : Context}
    (hc : c.Reliable) : ∃ d, loadEntry r now e c = (.ok (), d) := by
  rw [loadEntry, Exec.ofExcept_ok_bind hunpack, Exec.ofExcept_ok_bind hvalid]
  split
  · exact ⟨c, rfl⟩
  · obtain ⟨b, hb⟩ := Grant.exists_stored (g := ⟨e.granter, e.grantee, a, e.expiration⟩)
      (hr.pack_of_unpack hunpack).1
    exact ⟨_, GrantTable.save_eq hc hb⟩

/-- Entries that pass all checks load. -/
theorem exists_loadAll (hr : r.Builtin) (now : Timestamp) {es : Genesis}
    (hes : ∀ e ∈ es, e.validate = .ok () ∧
      ∃ a, r.unpack e.authorization = .ok a ∧ a.validate = .ok ())
    {c : Context} (hc : c.Reliable) : ∃ d, loadAll r now es c = (.ok (), d) := by
  induction es generalizing c with
  | nil => exact ⟨c, rfl⟩
  | cons e es ih =>
    obtain ⟨hvalidate, a, hunpack, hvalid⟩ := hes e List.mem_cons_self
    obtain ⟨d, hentry⟩ := exists_loadEntry hr now hunpack hvalid hc
    have hd : d.Reliable := by
      rcases loadEntry_of_ok hr hvalidate hc hentry with ⟨-, rfl⟩ | ⟨g, -, -, rfl⟩
      · exact hc
      · exact (Context.Continues.put c _ _).reliable hc
    rw [loadAll, Exec.bind_ok hentry]
    exact ih (fun e' he' => hes e' (List.mem_cons_of_mem e he')) hd

theorem exists_load (hr : r.Builtin) {es : Genesis}
    (hes : ∀ e ∈ es, e.validate = .ok () ∧
      ∃ a, r.unpack e.authorization = .ok a ∧ a.validate = .ok ())
    {c : Context} (hc : c.Reliable) : ∃ d, load r es c = (.ok (), d) := by
  rw [load, Exec.ofExcept_ok_bind (validate_of_forall fun e he => (hes e he).1),
    Exec.bind_ok (Exec.blockTime_eq c)]
  exact exists_loadAll hr c.header.time hes hc

/-- Storing grants one after the other leaves under `b` what all grants of that key are stored as. -/
theorem foldl_stored_of_agree {b : Bytes} {u : Option Bytes}
    (h : ∀ g ∈ gs, g.key.toBytes = b → g.stored = u) (v : Option Bytes) :
    gs.foldl (fun v g => if g.key.toBytes = b then g.stored else v) v =
      if ∃ g ∈ gs, g.key.toBytes = b then u else v := by
  induction gs generalizing v with
  | nil => simp
  | cons g gs ih =>
    rw [List.foldl_cons, ih fun g' hg' => h g' (List.mem_cons_of_mem g hg')]
    by_cases hkey : g.key.toBytes = b
    · rw [if_pos hkey, h g List.mem_cons_self hkey, ite_self,
        if_pos ⟨g, List.mem_cons_self, hkey⟩]
    · rw [if_neg hkey]
      simp [hkey]

/-- The grants of a table, written down and loaded where there are none yet, survive as far as they
have not expired. -/
theorem survives_load (hr : r.Builtin) {m : Pairs} (h : GrantTable.AllCanonical m)
    (hw : GrantTable.AllWithin r m) (now : Timestamp) {c : Context} (hc : c.Reliable)
    (hempty : c.store.content = ∅) :
    ∃ d, load r (written now (GrantTable.grantsIn r m)) c = (.ok (), d) ∧ c.Continues d ∧
      GrantTable.Survives r (fun g => !g.isExpired now && !g.isExpired c.header.time) m
        d.store.content := by
  have hgs : ∀ g ∈ GrantTable.grantsIn r m,
      g.Sound ∧ GrantTable.Within r g ∧ m.get? g.key.toBytes = g.stored := by
    intro g hmem
    obtain ⟨hsound, hget⟩ := (GrantTable.mem_grantsIn_iff hr h hw).1 hmem
    exact ⟨hsound, hw.within hget, hget⟩
  have hentries : ∀ e ∈ written now (GrantTable.grantsIn r m), e.validate = .ok () ∧
      ∃ a, r.unpack e.authorization = .ok a ∧ a.validate = .ok () := by
    intro e hmem
    obtain ⟨g, hg, -, he⟩ := mem_written_iff.1 hmem
    obtain ⟨hsound, hwithin, -⟩ := hgs g hg
    exact ⟨GenesisEntry.validate_of_ofGrant hsound he, g.authorization,
      GenesisEntry.unpack_of_ofGrant hr hsound hwithin he, hsound.valid⟩
  obtain ⟨d, hload⟩ := exists_load hr hentries hc
  obtain ⟨hcontinues, -, -, hget⟩ := load_of_ok hr hc hload
  refine ⟨d, hload, hcontinues, fun b v hb => ?_⟩
  have hloads := grants_written hr (fun g hg => ⟨(hgs g hg).1, (hgs g hg).2.1⟩) now c.header.time
  have hagree : ∀ g ∈ (GrantTable.grantsIn r m).filter fun g =>
      !g.isExpired now && !g.isExpired c.header.time, g.key.toBytes = b → g.stored = m.get? b := by
    rintro g hmem rfl
    exact (hgs g (List.mem_filter.1 hmem).1).2.2.symm
  rw [hget, hempty, SortedMap.get?_empty, hloads, foldl_stored_of_agree hagree]
  constructor
  · intro hstored
    split at hstored
    · next hlive =>
      obtain ⟨g, hmem, rfl⟩ := hlive
      obtain ⟨hmem, halive⟩ := List.mem_filter.1 hmem
      obtain ⟨hsound, -, hgrant⟩ := hgs g hmem
      exact ⟨hstored, g, (h.recorded_iff hr hw hstored).2 ⟨hsound, hgrant ▸ hstored⟩, halive⟩
    · cases hstored
  · rintro ⟨hstored, g, hrec, halive⟩
    obtain rfl := hrec.key_eq
    obtain ⟨hsound, hgrant⟩ := (h.recorded_iff hr hw hstored).1 hrec
    have hmem := (GrantTable.mem_grantsIn_iff hr h hw).2 ⟨hsound, hstored.trans hgrant.symm⟩
    rw [if_pos ⟨g, List.mem_filter.2 ⟨hmem, halive⟩, rfl⟩]
    exact hstored

end Genesis

/-! ## From one chain to the next -/

namespace Chain

variable {c : Chain} {h : BlockHeader}

/-- A chain whose records can all be read writes its live grants down, under its last header. -/
theorem exportGenesis_eq (hr : c.assembly.registry.Builtin)
    (hm : GrantTable.AllCanonical c.committed)
    (hw : GrantTable.AllWithin c.assembly.registry c.committed)
    (hlast : c.lastHeader = .ok (some h)) :
    c.exportGenesis =
      .ok (Genesis.written h.time (GrantTable.grantsIn c.assembly.registry c.committed)) := by
  have hheader : c.queryHeader = .ok h := by
    rw [queryHeader, hlast]
    rfl
  have hexported := Genesis.exported_eq hr (c := .start h (Store.branch (.ofPairs c.committed)))
    (fun _ => rfl) (hm.wellFormed hr hw)
  rw [exportGenesis, query, hheader]
  exact congrArg Prod.fst hexported

/-- A chain that has not been started starts from a genesis that loads. -/
theorem initChain_of_load {g : Genesis} {child : Context} (hnone : c.header = none)
    (hlast : c.lastHeader = .ok none)
    (hload : g.load c.assembly.registry (Context.start h c.view).child = (.ok (), child)) :
    (c.initChain h g).1 = .ok () := by
  have hbranch := Exec.branch_eq (c := .start h c.view) c.reliable_view
    (g.load c.assembly.registry)
  rw [hload] at hbranch
  have hidle : ¬ c.header.isSome = true := by simp [hnone]
  rw [initChain, if_neg hidle, hlast]
  dsimp only [inBlock]
  change Exec.branch _ (.start h { c with header := some h }.view) = _ at hbranch
  rw [hbranch]

/-- The header of a block that is committed is read back, if it can be. -/
theorem lastHeader_commit (hheader : c.header = some h) (hh : h.Fits) :
    c.commit.2.lastHeader = .ok (some h) := by
  obtain ⟨-, hcommitted, -⟩ := commit_of_header hheader
  have hstored : c.commit.2.committed.get? lastHeaderKey = some (BlockHeader.codec.encode h) := by
    rw [hcommitted, SortedMap.get?_insert_self]
  exact (lastHeader_of_stored hstored).trans (if_neg (Nat.not_lt.2 hh))

/-- Another chain of the same make starts from the grants of `c`, written down at `now`. In its first
block those survive that have not expired. -/
theorem survives_initChain (hr : c.assembly.registry.Builtin)
    (hm : GrantTable.AllCanonical c.committed)
    (hw : GrantTable.AllWithin c.assembly.registry c.committed) (now : Timestamp)
    (h' : BlockHeader) :
    ∃ d, (opened c.assembly c.sweeps ∅).initChain h'
        (Genesis.written now (GrantTable.grantsIn c.assembly.registry c.committed)) =
          (.ok (), d) ∧
      d.header = some h' ∧ d.assembly = c.assembly ∧
      GrantTable.Survives c.assembly.registry
        (fun g => !g.isExpired now && !g.isExpired h'.time) c.committed
        d.commit.2.committed := by
  let fresh := opened c.assembly c.sweeps ∅
  obtain ⟨child, hload, hcontinues, hsurvives⟩ := Genesis.survives_load hr hm hw now
    (c := (Context.start h' fresh.view).child) (fun _ => rfl) rfl
  have hinit := initChain_of_load (c := fresh) rfl rfl hload
  obtain ⟨-, -, hheader, hassembly, child', hload', hview⟩ := initChain_of_ok hinit
  obtain rfl : child = child' := congrArg Prod.snd (hload.symm.trans hload')
  refine ⟨_, Prod.ext hinit rfl, hheader, hassembly, fun b v hb => ?_⟩
  -- A commit adds the header only, and that is not under the key of a grant.
  rw [committed_commit hheader hb, record, hview, hcontinues.content_adopt]
  exact hsurvives b v hb

/-- A chain with the routes of the authorization module alone, at any point of its life, that was
last committed under the header `h` and all of whose records are within the size cap. Its grants can
be written down, and a new chain of the same make starts from them under any header `h'`. Once it
has committed, it holds exactly the pairs of those grants that have expired at neither header, and
it writes them down in the same order. -/
theorem live_grants_survive_export {cap : UInt64} {a : Assembly}
    (ha : Assembly.standard cap = .ok a) (sweeps : Bool) {moves : List Move}
    (hmoves : ∀ m ∈ moves, m.Standard) {h h' : BlockHeader} (hh : h.Fits) (hh' : h'.Fits)
    (hlast : ((opened a sweeps ∅).live moves).committed.get? lastHeaderKey =
      some (BlockHeader.codec.encode h))
    (hw : GrantTable.AllWithin ((opened a sweeps ∅).live moves).assembly.registry
      ((opened a sweeps ∅).live moves).committed) :
    let c := (opened a sweeps ∅).live moves
    ∃ g d root, c.exportGenesis = .ok g ∧
      (opened c.assembly c.sweeps ∅).initChain h' g = (.ok (), d) ∧ d.commit.1 = .ok root ∧
      (∀ b v, b.startsWith GrantKey.allRange = true →
        (d.commit.2.committed.get? b = some v ↔
          c.committed.get? b = some v ∧
            ∃ grant : Grant, grant.Recorded c.assembly.registry b v ∧
              ∀ e, grant.expiration = some e → h.time ≤ e ∧ h'.time ≤ e)) ∧
      d.commit.2.exportGenesis = .ok (g.filter fun e => !expiredAt e.expiration h'.time) := by
  intro c
  obtain ⟨hc, cap', hstandard⟩ := Consistent.live_of_standard hmoves (.opened a sweeps) ⟨cap, ha⟩
  obtain ⟨hr, -⟩ := Assembly.of_standard hstandard
  have hexport := exportGenesis_eq hr hc.committed hw
    ((lastHeader_of_stored hlast).trans (if_neg (Nat.not_lt.2 hh)))
  obtain ⟨d, hinit, hheader, hassembly, hsurvives⟩ :=
    survives_initChain hr hc.committed hw h.time h'
  have hafter : d.commit.2.assembly = c.assembly :=
    (assembly_perform d .commit).trans hassembly
  have hexport' := exportGenesis_eq (c := d.commit.2) (hafter ▸ hr)
    (hsurvives.allCanonical hc.committed) (hafter ▸ hsurvives.allWithin hw)
    (lastHeader_commit hheader hh')
  refine ⟨_, d, _, hexport, hinit, (commit_of_header hheader).1, fun b v hb => ?_, ?_⟩
  · rw [hsurvives b v hb]
    refine and_congr_right fun _ => exists_congr fun grant => and_congr_right fun _ => ?_
    simp only [Bool.and_eq_true, Bool.not_eq_true', Grant.isExpired, expiredAt_eq_false_iff]
    exact forall_and.symm.trans (forall_congr' fun e => forall_and.symm)
  · have hsound : ∀ grant ∈ GrantTable.grantsIn c.assembly.registry c.committed, grant.Sound :=
      fun grant hmem => ((GrantTable.mem_grantsIn_iff hr hc.committed hw).1 hmem).1
    rw [hexport', hafter, hsurvives.grantsIn_eq hr hc.committed hw,
      Genesis.filter_written hsound h.time h'.time]

/-- Of a lasting grant and one that expires at 9, both written down at 5, the lasting one alone
survives in a chain that starts at 20. -/
theorem live_grants_survive_export_lasting :
    let a : Assembly := ⟨⟨Registry.builtin.kinds, 65536⟩, Router.authzRoutes⟩
    let granter : Address := ⟨.replicate 20 1, rfl⟩
    let grantee : Address := ⟨.replicate 20 2, rfl⟩
    let h : BlockHeader := ⟨"c", 1, ⟨5⟩⟩
    let payload := AuthorizationKind.methodCodec.encode ("/a", some 2)
    let lasting : GenesisEntry :=
      ⟨granter, grantee, ⟨AuthorizationKind.method.typeUrl, payload⟩, none⟩
    let expiring : GenesisEntry :=
      ⟨grantee, granter, ⟨AuthorizationKind.method.typeUrl, payload⟩, some ⟨9⟩⟩
    let moves : List Move := [.call (.init h [lasting, expiring]), .call .commit]
    let c := (opened a false ∅).live moves
    c.exportGenesis = .ok [expiring, lasting] ∧
      ∃ d, (opened c.assembly c.sweeps ∅).initChain ⟨"d", 0, ⟨20⟩⟩ [expiring, lasting] =
          (.ok (), d) ∧
        d.commit.2.exportGenesis = .ok [lasting] := by
  intro a granter grantee h payload lasting expiring moves c
  have hstandard : Assembly.standard 65536 = .ok a := Assembly.standard_eq 65536
  have hmoves : ∀ m ∈ moves, m.Standard := by simp [moves, Move.Standard]
  have hfits : h.Fits := (by decide +kernel : (BlockHeader.codec.encode h).length ≤ 65536)
  have hfits' : BlockHeader.Fits ⟨"d", 0, ⟨20⟩⟩ :=
    (by decide +kernel : (BlockHeader.codec.encode ⟨"d", 0, ⟨20⟩⟩).length ≤ 65536)
  have hw : GrantTable.AllWithin c.assembly.registry c.committed := by
    have hentries : ∀ e ∈ c.committed.entries,
        e.2.length ≤ c.assembly.registry.maxValueBytes.toNat := by decide +kernel
    intro b v hget _
    exact hentries (b, v) (SortedMap.mem_entries_iff.2 hget)
  have hlast : c.committed.get? lastHeaderKey = some (BlockHeader.codec.encode h) := by
    decide +kernel
  have hwritten : c.exportGenesis = .ok [expiring, lasting] := by decide +kernel
  have hkept : ([expiring, lasting].filter fun e => !expiredAt e.expiration ⟨20⟩) = [lasting] := by
    decide
  obtain ⟨g, d, -, hexport, hinit, -, -, hexport'⟩ :=
    live_grants_survive_export hstandard false hmoves hfits hfits' hlast hw
  obtain rfl : g = [expiring, lasting] := Except.ok.inj (hexport.symm.trans hwritten)
  rw [hkept] at hexport'
  exact ⟨hwritten, d, hinit, hexport'⟩

end Chain

end GrantLedger
