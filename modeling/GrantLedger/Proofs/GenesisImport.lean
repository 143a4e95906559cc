import GrantLedger.Proofs.Encodings
import GrantLedger.Proofs.GenesisRoundtrip
import GrantLedger.Proofs.KeyLayout

/-!
# The start of a chain

A genesis is any list of entries: in any order, with several entries for one triple, and some that
have expired. A fresh chain starts from it exactly if all entries are admissible, those included
that are then skipped (`GenesisEntry.Admissible`), and otherwise it stays fresh. The record of a
triple is that of its last entry among those that have not expired (`Genesis.lastFor`). Entries are
stored one after the other, so this follows them from the end of the list; and an entry is the
packed form of the grant that it stores, so it is written down again as it was.
-/

namespace GrantLedger

/-! ## Entries -/

namespace GenesisEntry

/-- The entry may stand in a genesis: its accounts differ, and its authorization is of an admitted
kind, can be read and is valid. -/
structure Admissible (r : Registry) (e : GenesisEntry) : Prop where
  granter_ne : e.granter ≠ e.grantee
  authorization : ∃ k ∈ r.kinds, k.typeUrl = e.authorization.typeUrl ∧
    ∃ a, k.decode r.maxValueBytes e.authorization.value = .ok a ∧ a.validate = .ok ()

/-- The triple of the entry, if its authorization can be read. -/
def key? (r : Registry) (e : GenesisEntry) : Option GrantKey :=
  (r.unpack e.authorization).toOption.map fun a => ⟨e.grantee, e.granter, a.msgTypeUrl⟩

/-- What is stored of the entry. -/
def record (e : GenesisEntry) : Bytes := GrantRecord.codec.encode ⟨e.authorization, e.expiration⟩

/-- The record of the entry is within the size cap of the registry. -/
def Fits (r : Registry) (e : GenesisEntry) : Prop := e.record.length ≤ r.maxValueBytes.toNat

variable {r : Registry} {e e' : GenesisEntry} {g : Grant} {now : Timestamp} {k : GrantKey}

theorem admissible_iff : e.Admissible r ↔
    e.validate = .ok () ∧ ∃ a, r.unpack e.authorization = .ok a ∧ a.validate = .ok () := by
  constructor
  · rintro ⟨hne, k, hk, hurl, a, hdecode, hvalid⟩
    have htyped : e.authorization.typeUrl ≠ "" := by
      rw [← hurl]
      cases k <;> decide
    obtain ⟨rfl, hpayload⟩ := AuthorizationKind.decode_eq_ok_iff.1 hdecode
    refine ⟨?_, a, Registry.unpack_eq_ok_iff.2 ⟨hk, hurl, hpayload⟩, hvalid⟩
    rw [validate, if_neg hne, if_neg htyped]
  · rintro ⟨hvalidate, a, hunpack, hvalid⟩
    obtain ⟨hk, hurl, hpayload⟩ := Registry.unpack_eq_ok_iff.1 hunpack
    refine ⟨fun hself => ?_, a.kind, hk, hurl, a,
      AuthorizationKind.decode_eq_ok_iff.2 ⟨rfl, hpayload⟩, hvalid⟩
    rw [validate, if_pos hself] at hvalidate
    cases hvalidate

theorem key?_eq_some_iff : e.key? r = some k ↔
    ∃ a, r.unpack e.authorization = .ok a ∧ ⟨e.grantee, e.granter, a.msgTypeUrl⟩ = k := by
  rw [key?, Option.map_eq_some_iff]
  refine exists_congr fun a => and_congr_left fun _ => ?_
  cases r.unpack e.authorization <;> simp [Except.toOption]

theorem stored_of_ofGrant (h : ofGrant g = .ok e) : g.stored = some e.record := by
  obtain ⟨hpack, -, -, hexpiration⟩ := ofGrant_eq_ok_iff.1 h
  exact Grant.stored_eq_some_iff.2 ⟨_, hpack, by rw [record, hexpiration]⟩

/-- An entry is known from its triple and its record. -/
theorem eq_of_record (hfits : e.Fits r) (hkey : e.key? r = some k) (hkey' : e'.key? r = some k)
    (h : e.record = e'.record) : e = e' := by
  obtain ⟨a, -, rfl⟩ := key?_eq_some_iff.1 hkey
  obtain ⟨a', -, ha'⟩ := key?_eq_some_iff.1 hkey'
  obtain ⟨hgrantee, hgranter, -⟩ := GrantKey.mk.inj ha'
  have hlength : e.record.length < UInt64.size := Nat.lt_of_le_of_lt hfits r.maxValueBytes.toNat_lt
  obtain ⟨hauthorization, hexpiration⟩ :=
    GrantRecord.mk.inj (GrantRecord.lawful_codec.exact.encode_inj _ _ hlength h)
  obtain ⟨granter, grantee, authorization, expiration⟩ := e
  obtain ⟨granter', grantee', authorization', expiration'⟩ := e'
  dsimp only at hgrantee hgranter hauthorization hexpiration
  rw [hgrantee, hgranter, hauthorization, hexpiration]

end GenesisEntry

namespace Genesis

open GenesisEntry (ofGrant)

/-- The last entry of a triple among those that have not expired at `now`. -/
def lastFor (r : Registry) (now : Timestamp) (g : Genesis) (k : GrantKey) : Option GenesisEntry :=
  (g.filter fun e => e.key? r = some k && !expiredAt e.expiration now).getLast?

variable {r : Registry} {now : Timestamp} {e : GenesisEntry} {k : GrantKey}

/-! ## The grant of an entry -/

theorem grant?_eq_some_iff {g : Grant} :
    grant? r now e = some g ↔ r.unpack e.authorization = .ok g.authorization ∧
      e.granter = g.granter ∧ e.grantee = g.grantee ∧ e.expiration = g.expiration ∧
      expiredAt e.expiration now = false := by
  obtain ⟨granter, grantee, authorization, expiration⟩ := g
  rw [grant?]
  cases r.unpack e.authorization with
  | error cause => simp
  | ok a =>
    change (if expiredAt e.expiration now = true then none else some (Grant.mk _ _ _ _)) = _ ↔ _
    simp only [Option.ite_none_left_eq_some, Option.some.injEq, Grant.mk.injEq, Except.ok.injEq,
      Bool.not_eq_true]
    tauto

/-- An entry is what its grant is written down as. -/
theorem of_grant? (hr : r.Builtin) {g : Grant} (h : grant? r now e = some g) :
    e.key? r = some g.key ∧ expiredAt e.expiration now = false ∧ ofGrant g = .ok e := by
  obtain ⟨hunpack, hgranter, hgrantee, hexpiration, hlive⟩ := grant?_eq_some_iff.1 h
  refine ⟨GenesisEntry.key?_eq_some_iff.2 ⟨_, hunpack, ?_⟩, hlive, ?_⟩
  · rw [hgranter, hgrantee, Grant.key, Grant.msgTypeUrl]
  · exact GenesisEntry.ofGrant_eq_ok_iff.2
      ⟨(hr.pack_of_unpack hunpack).2, hgranter, hgrantee, hexpiration⟩

theorem exists_grant? (hkey : e.key? r = some k) (hlive : expiredAt e.expiration now = false) :
    ∃ g, grant? r now e = some g ∧ g.key = k := by
  obtain ⟨a, hunpack, rfl⟩ := GenesisEntry.key?_eq_some_iff.1 hkey
  exact ⟨⟨e.granter, e.grantee, a, e.expiration⟩,
    grant?_eq_some_iff.2 ⟨hunpack, rfl, rfl, rfl, hlive⟩, rfl⟩

theorem sound_of_grant? (hr : r.Builtin) (he : e.Admissible r) {g : Grant}
    (h : grant? r now e = some g) : g.Sound := by
  obtain ⟨hunpack, hgranter, hgrantee, -⟩ := grant?_eq_some_iff.1 h
  obtain ⟨-, a, hunpack', hvalid⟩ := GenesisEntry.admissible_iff.1 he
  obtain rfl : g.authorization = a := Except.ok.inj (hunpack.symm.trans hunpack')
  exact ⟨hgranter ▸ hgrantee ▸ he.granter_ne, hvalid, (hr.pack_of_unpack hunpack).1⟩

theorem key?_of_entryOf? (hr : r.Builtin) {g : Grant} (hg : g.Sound)
    (hwithin : GrantTable.Within r g) (h : entryOf? now g = some e) : e.key? r = some g.key := by
  obtain ⟨hlive, hentry⟩ := entryOf?_eq_some_iff.1 h
  have hgrant := grant?_of_ofGrant hr hg hwithin hentry now
  rw [hlive] at hgrant
  exact (of_grant? hr hgrant).1

/-! ## Loading -/

theorem lastFor_concat (es : Genesis) (e : GenesisEntry) :
    lastFor r now (es ++ [e]) k =
      if e.key? r = some k ∧ expiredAt e.expiration now = false then some e
      else lastFor r now es k := by
  rw [lastFor, List.filter_append]
  by_cases h : e.key? r = some k ∧ expiredAt e.expiration now = false
  · rw [if_pos h, List.filter_cons_of_pos (by simpa using h), List.filter_nil, List.getLast?_concat]
  · rw [if_neg h, List.filter_cons_of_neg (by simpa using h), List.filter_nil, List.append_nil,
      lastFor]

theorem lastFor_eq_some {es : Genesis} (h : lastFor r now es k = some e) :
    e ∈ es ∧ e.key? r = some k ∧ expiredAt e.expiration now = false := by
  simpa using List.mem_filter.1 (List.mem_of_getLast? h)

/-- Storing the grants of a genesis one after the other leaves of each triple the last entry. -/
theorem foldl_grants (hr : r.Builtin) (now : Timestamp) (es : Genesis) (k : GrantKey) :
    (grants r now es).foldl (fun v g => if g.key.toBytes = k.toBytes then g.stored else v) none =
      (lastFor r now es k).map GenesisEntry.record := by
  induction es using List.reverseRecOn with
  | nil => rfl
  | append_singleton es e ih =>
    rw [grants] at ih
    rw [grants, List.filterMap_append, List.foldl_append, ih, lastFor_concat]
    cases hgrant : grant? r now e with
    | none =>
      have hskipped : ¬ (e.key? r = some k ∧ expiredAt e.expiration now = false) := by
        rintro ⟨hkey, hlive⟩
        obtain ⟨g, hg, -⟩ := exists_grant? hkey hlive
        cases hgrant.symm.trans hg
      rw [if_neg hskipped, List.filterMap_cons, hgrant]
      rfl
    | some g =>
      obtain ⟨hkey, hlive, hentry⟩ := of_grant? hr hgrant
      have hlast : (e.key? r = some k ∧ expiredAt e.expiration now = false) ↔
          g.key.toBytes = k.toBytes := by
        rw [and_iff_left hlive, hkey, Option.some.injEq, GrantKey.toBytes_inj]
      simp only [List.filterMap_cons, hgrant, List.filterMap_nil, List.foldl_cons, List.foldl_nil,
        hlast]
      split
      · exact GenesisEntry.stored_of_ofGrant hentry
      · rfl

theorem exists_authorization_of_loadAll {es : Genesis} {c d : Context}
    (h : loadAll r now es c = (.ok (), d)) {e : GenesisEntry} (he : e ∈ es) :
    ∃ a, r.unpack e.authorization = .ok a ∧ a.validate = .ok () := by
  induction es generalizing c with
  | nil => cases he
  | cons e' es ih =>
    obtain ⟨u, c', hentry, hrest⟩ := Exec.bind_eq_ok_iff.1 h
    rcases List.mem_cons.1 he with rfl | he
    · obtain ⟨a, hunpack, hthen⟩ := Exec.ofExcept_bind_eq_ok_iff.1 hentry
      obtain ⟨v, hvalid, -⟩ := Exec.ofExcept_bind_eq_ok_iff.1 hthen
      exact ⟨a, hunpack, hvalid⟩
    · exact ih hrest he

/-- A genesis loads exactly if all its entries are admissible. -/
theorem exists_load_iff (hr : r.Builtin) {g : Genesis} {c : Context} (hc : c.Reliable) :
    (∃ d, load r g c = (.ok (), d)) ↔ ∀ e ∈ g, e.Admissible r := by
  simp only [GenesisEntry.admissible_iff]
  constructor
  · rintro ⟨d, hload⟩ e he
    obtain ⟨u, hvalid, hthen⟩ := Exec.ofExcept_bind_eq_ok_iff.1 hload
    rw [Exec.bind_ok (Exec.blockTime_eq c)] at hthen
    exact ⟨validate_of_mem hvalid he, exists_authorization_of_loadAll hthen he⟩
  · exact fun h => exists_load hr h hc

/-! ## Writing down again -/

section Written

variable {m : Pairs} {es : Genesis} (hm : GrantTable.AllCanonical m)
  (hfits : ∀ e ∈ es, e.Fits r)
  (hlast : ∀ k : GrantKey, m.get? k.toBytes = (lastFor r now es k).map GenesisEntry.record)

include hm hfits hlast

theorem allWithin_of_lastFor : GrantTable.AllWithin r m := by
  intro b v hget hb
  obtain ⟨g, -, rfl, -⟩ := hm b hb v hget
  obtain ⟨e, he, rfl⟩ := Option.map_eq_some_iff.1 ((hlast g.key).symm.trans hget)
  exact hfits e (lastFor_eq_some he).1

/-- Of a table that holds the last entry of each triple, these entries are written down. -/
theorem mem_written_iff_lastFor (hr : r.Builtin) (hes : ∀ e ∈ es, e.Admissible r) :
    e ∈ written now (GrantTable.grantsIn r m) ↔ ∃ k, lastFor r now es k = some e := by
  have hwithin := allWithin_of_lastFor hm hfits hlast
  rw [mem_written_iff]
  constructor
  · rintro ⟨g, hg, hlive, hentry⟩
    obtain ⟨hsound, hget⟩ := (GrantTable.mem_grantsIn_iff hr hm hwithin).1 hg
    have hkey := key?_of_entryOf? hr hsound (hwithin.within hget)
      (entryOf?_eq_some_iff.2 ⟨hlive, hentry⟩)
    rw [hlast, GenesisEntry.stored_of_ofGrant hentry] at hget
    obtain ⟨e', he', hrecord⟩ := Option.map_eq_some_iff.1 hget
    obtain ⟨hmem, hkey', -⟩ := lastFor_eq_some he'
    obtain rfl : e' = e := GenesisEntry.eq_of_record (hfits e' hmem) hkey' hkey hrecord
    exact ⟨g.key, he'⟩
  · rintro ⟨k, he⟩
    obtain ⟨hmem, hkey, hlive⟩ := lastFor_eq_some he
    obtain ⟨g, hg, rfl⟩ := exists_grant? hkey hlive
    obtain ⟨-, -, hentry⟩ := of_grant? hr hg
    obtain ⟨-, -, -, hexpiration⟩ := GenesisEntry.ofGrant_eq_ok_iff.1 hentry
    rw [hexpiration] at hlive
    have hget : m.get? g.key.toBytes = g.stored := by
      rw [hlast, he, GenesisEntry.stored_of_ofGrant hentry]
      rfl
    have hsound := sound_of_grant? hr (hes e hmem) hg
    exact ⟨g, (GrantTable.mem_grantsIn_iff hr hm hwithin).2 ⟨hsound, hget⟩, hlive, hentry⟩

/-- What is written down is in the order of its triples. -/
theorem sorted_written (hr : r.Builtin) :
    (written now (GrantTable.grantsIn r m)).Pairwise fun e e' =>
      ∃ k k', e.key? r = some k ∧ e'.key? r = some k' ∧ k.place < k'.place := by
  have hwithin := allWithin_of_lastFor hm hfits hlast
  have hkey {g : Grant} (hg : g ∈ GrantTable.grantsIn r m) {e : GenesisEntry}
      (he : entryOf? now g = some e) : e.key? r = some g.key := by
    obtain ⟨hsound, hget⟩ := (GrantTable.mem_grantsIn_iff hr hm hwithin).1 hg
    exact key?_of_entryOf? hr hsound (hwithin.within hget) he
  have hsorted : (GrantTable.grantsIn r m).Pairwise fun g g' => g.key.toBytes < g'.key.toBytes :=
    List.pairwise_map.2 ((hm.wellFormed hr hwithin).sorted_keys (List.prefix_refl _))
  rw [written, List.pairwise_filterMap]
  refine hsorted.imp_of_mem fun {g g'} hg hg' hlt e he e' he' => ?_
  exact ⟨g.key, g'.key, hkey hg he, hkey hg' he', GrantKey.toBytes_lt_iff_place.1 hlt⟩

end Written

end Genesis

/-! ## Fresh chains -/

namespace Chain

variable {a : Assembly} {sweeps : Bool} {h : BlockHeader} {g : Genesis}

theorem initChain_opened_eq_ok_iff (ha : a.registry.Builtin) :
    ((opened a sweeps ∅).initChain h g).1 = .ok () ↔ ∀ e ∈ g, e.Admissible a.registry := by
  rw [← Genesis.exists_load_iff ha (c := (Context.start h (opened a sweeps ∅).view).child)
    (fun _ => rfl)]
  constructor
  · intro hok
    obtain ⟨-, -, -, -, child, hload, -⟩ := initChain_of_ok hok
    exact ⟨child, hload⟩
  · rintro ⟨child, hload⟩
    exact initChain_of_load rfl rfl hload

/-- After its first commit, a chain holds the last entry of each triple. -/
theorem committed_of_initChain (ha : a.registry.Builtin)
    (hok : ((opened a sweeps ∅).initChain h g).1 = .ok ()) (k : GrantKey) :
    ((opened a sweeps ∅).initChain h g).2.commit.2.committed.get? k.toBytes =
      (g.lastFor a.registry h.time k).map GenesisEntry.record := by
  obtain ⟨-, -, hheader, -, child, hload, hview⟩ := initChain_of_ok hok
  obtain ⟨hcontinues, -, -, hget⟩ := Genesis.load_of_ok ha
    (c := (Context.start h (opened a sweeps ∅).view).child) (fun _ => rfl) hload
  rw [committed_commit hheader k.startsWith_toBytes, record, hview, hcontinues.content_adopt, hget]
  exact Genesis.foldl_grants ha h.time g k

/-- A fresh chain starts from a genesis exactly if all entries are admissible. Then its first commit
succeeds, and if all records fit, what it writes down after it is, in the order of the triples, the
last entry of each triple among those that have not expired. If it does not start, it is as fresh
as before. -/
theorem initChain_exact (ha : a.registry.Builtin) (sweeps : Bool) (h : BlockHeader) (g : Genesis) :
    let c := opened a sweeps ∅
    let started := c.initChain h g
    (started.1 = .ok () ↔ ∀ e ∈ g, e.Admissible a.registry) ∧
      (started.1 = .ok () → h.Fits → (∀ e ∈ g, e.Fits a.registry) →
        ∃ root out, started.2.commit.1 = .ok root ∧
          started.2.commit.2.exportGenesis = .ok out ∧
          (out.Pairwise fun e e' => ∃ k k', e.key? a.registry = some k ∧
            e'.key? a.registry = some k' ∧ k.place < k'.place) ∧
          ∀ e, e ∈ out ↔ ∃ k, g.lastFor a.registry h.time k = some e) ∧
      ∀ e, started.1 = .error e → started.2 = c := by
  intro c started
  refine ⟨initChain_opened_eq_ok_iff ha, fun hok hh hfits => ?_, fun e => initChain_of_error⟩
  obtain ⟨-, -, hheader, hassembly, -⟩ := initChain_of_ok hok
  have hobeys : ∀ call ∈ [Call.init h g, .commit], call.Obeys .outsideGrants := by
    simp [Call.Obeys]
  have hconsistent : started.2.commit.2.Consistent :=
    (Consistent.opened a sweeps).run ha Conduct.outsideGrants_outsideGrants hobeys
  have hafter : started.2.commit.2.assembly = a := (assembly_perform _ .commit).trans hassembly
  have hlast := committed_of_initChain ha hok
  have hwithin := Genesis.allWithin_of_lastFor hconsistent.committed hfits hlast
  have hexport := exportGenesis_eq (hafter ▸ ha) hconsistent.committed (hafter ▸ hwithin)
    (lastHeader_commit hheader hh)
  rw [hafter] at hexport
  refine ⟨_, _, (commit_of_header hheader).1, hexport, ?_, fun e => ?_⟩
  · exact Genesis.sorted_written hconsistent.committed hfits hlast ha
  · exact Genesis.mem_written_iff_lastFor hconsistent.committed hfits hlast ha
      ((initChain_opened_eq_ok_iff ha).1 hok)

/-- Of three entries for one triple the second counts: the third has expired at the start. -/
theorem initChain_exact_repeated :
    let a : Assembly := ⟨.builtin, Router.authzRoutes⟩
    let granter : Address := ⟨.replicate 20 1, rfl⟩
    let grantee : Address := ⟨.replicate 20 2, rfl⟩
    let method (uses : Option UInt64) : AnyValue :=
      ⟨AuthorizationKind.method.typeUrl, AuthorizationKind.methodCodec.encode ("/a", uses)⟩
    let generic : AnyValue :=
      ⟨AuthorizationKind.generic.typeUrl, AuthorizationKind.genericCodec.encode "/a"⟩
    let second : GenesisEntry := ⟨granter, grantee, method (some 2), some ⟨9⟩⟩
    let other : GenesisEntry := ⟨grantee, granter, generic, none⟩
    let g : Genesis := [⟨granter, grantee, method none, none⟩, second, other,
      ⟨granter, grantee, generic, some ⟨4⟩⟩]
    let started := (opened a false ∅).initChain ⟨"c", 0, ⟨5⟩⟩ g
    (∀ e ∈ g, e.Admissible a.registry) ∧
      started.2.commit.2.exportGenesis = .ok [other, second] ∧
      ∃ k, g.lastFor a.registry ⟨5⟩ k = some second := by
  intro a granter grantee method generic second other g started
  have hok : started.1 = .ok () := by decide +kernel
  have hexport : started.2.commit.2.exportGenesis = .ok [other, second] := by decide +kernel
  have hh : BlockHeader.Fits ⟨"c", 0, ⟨5⟩⟩ :=
    (by decide +kernel : (BlockHeader.codec.encode ⟨"c", 0, ⟨5⟩⟩).length ≤ 65536)
  have hfits : ∀ e ∈ g, e.Fits a.registry :=
    (by decide +kernel : ∀ e ∈ g, e.record.length ≤ a.registry.maxValueBytes.toNat)
  obtain ⟨hadmissible, hwritten, -⟩ := initChain_exact (a := a) rfl false ⟨"c", 0, ⟨5⟩⟩ g
  obtain ⟨-, out, -, hout, -, hmem⟩ := hwritten hok hh hfits
  obtain rfl : out = [other, second] := Except.ok.inj (hout.symm.trans hexport)
  exact ⟨hadmissible.1 hok, hexport, (hmem second).1 (by simp)⟩

end Chain

end GrantLedger
