import GrantLedger.Proofs.Counters
import GrantLedger.Proofs.Footprints

/-!
# Transactions about different grants commute

What a transaction of authorization messages comes to depends on the records of the grants that it
touches and on nothing else in the block, and these are the only ones that it changes; this holds
of one that fails as well, since it comes to nothing. So if two transactions touch different grants,
neither sees whether the other has been delivered before it, and their writes, which are under
different keys, may be made in either order (`Chain.disjoint_transactions_commute`).
-/

namespace GrantLedger

namespace Metrics

/-- The metrics after a transaction has come to `result`. -/
def afterTx (m : Metrics) : Except Error (List Bytes × List Event) → Metrics
  | .ok (_, events) => { m with transactions := m.transactions + 1 }.countEvents events
  | .error _ => { m with transactions := m.transactions + 1, failures := m.failures + 1 }

theorem afterTx_comm (m : Metrics) (r r' : Except Error (List Bytes × List Event)) :
    (m.afterTx r).afterTx r' = (m.afterTx r').afterTx r := by
  rcases r with _ | ⟨_, events⟩ <;> rcases r' with _ | ⟨_, events'⟩ <;>
    simp only [afterTx, countEvents_eq, Nat.add_right_comm]

end Metrics

namespace Chain

theorem deliverTx_of_runTx {c c' : Chain} {tx : List Message}
    {result : Except Error (List Bytes × List Event)} (h : c.runTx tx = (result, c')) :
    c.deliverTx tx = (.ofResult result, { c' with metrics := c'.metrics.afterTx result }) := by
  rw [deliverTx, h]
  cases result <;> rfl

/-- The chains agree on what executes messages, on the block in progress, and on what it holds under
the keys in `K`. -/
structure AgreeOn (K : Bytes → Prop) (c d : Chain) : Prop where
  assembly_eq : d.assembly = c.assembly
  header_eq : d.header = c.header
  get?_eq : ∀ k, K k → d.view.content.get? k = c.view.content.get? k

theorem AgreeOn.refl (K : Bytes → Prop) (c : Chain) : AgreeOn K c c := ⟨rfl, rfl, fun _ _ => rfl⟩

/-- The chain with more pending writes. -/
def pend (c : Chain) (w : WriteSet) : Chain := { c with pending := c.pending.followedBy w }

theorem view_pend (c : Chain) (w : WriteSet) : (c.pend w).view = c.view.putAll w.entries :=
  (Store.putAll_buffered c.pending w (.ofPairs c.committed)).symm

/-- Writes under other keys, and a count of them, are not seen. -/
theorem agreeOn_pend {K : Bytes → Prop} (c : Chain) {w : WriteSet} (h : ∀ k, K k → w.get? k = none)
    (m : Metrics) : AgreeOn K c { c.pend w with metrics := m } where
  assembly_eq := rfl
  header_eq := rfl
  get?_eq k hk := by
    change (c.pend w).view.content.get? k = _
    rw [view_pend, Store.content_putAll, Pairs.get?_update_entries, h k hk]
    rfl

/-- In all chains that agree with `c` under the keys in `K` the transaction comes to `result` and to
the writes `w`, which are under keys in `K`. -/
structure ComesTo (K : Bytes → Prop) (c : Chain) (tx : List Message)
    (result : Except Error (List Bytes × List Event)) (w : WriteSet) : Prop where
  within : ∀ k v, w.get? k = some v → K k
  runTx_eq : ∀ d, AgreeOn K c d → d.runTx tx = (result, d.pend w)

namespace ComesTo

variable {K K' : Bytes → Prop} {c : Chain} {tx tx' : List Message}
  {result result' : Except Error (List Bytes × List Event)} {w w' : WriteSet}

theorem of_error {e : Error} (h : ∀ d, AgreeOn K c d → d.runTx tx = (.error e, d)) :
    ComesTo K c tx (.error e) ∅ := ⟨nofun, h⟩

theorem deliverTx_eq (h : ComesTo K c tx result w) :
    c.deliverTx tx = (.ofResult result, { c.pend w with metrics := c.metrics.afterTx result }) :=
  deliverTx_of_runTx (h.runTx_eq c (.refl K c))

theorem get?_eq_none (h : ComesTo K c tx result w) (hapart : ∀ b, ¬ (K b ∧ K' b)) {b : Bytes}
    (hb : K' b) : w.get? b = none := by
  rw [Option.eq_none_iff_forall_ne_some]
  exact fun v hv => hapart b ⟨h.within b v hv, hb⟩

/-- After a transaction that has touched other keys it comes to the same. -/
theorem deliverTx_after (h : ComesTo K c tx result w) (h' : ComesTo K' c tx' result' w')
    (hapart : ∀ b, ¬ (K b ∧ K' b)) :
    (c.deliverTx tx).2.deliverTx tx' =
      (.ofResult result', { (c.pend w).pend w' with
        metrics := (c.metrics.afterTx result).afterTx result' }) := by
  rw [h.deliverTx_eq]
  exact deliverTx_of_runTx (h'.runTx_eq _ (c.agreeOn_pend (fun b hb => h.get?_eq_none hapart hb) _))

theorem pend_pend_comm (h : ComesTo K c tx result w) (h' : ComesTo K' c tx' result' w')
    (hapart : ∀ b, ¬ (K b ∧ K' b)) : (c.pend w).pend w' = (c.pend w').pend w := by
  have hwrites :
      (c.pending.followedBy w).followedBy w' = (c.pending.followedBy w').followedBy w := by
    refine SortedMap.followedBy_comm c.pending fun b => ?_
    cases hb : w'.get? b with
    | none => exact .inr rfl
    | some v => exact .inl (h.get?_eq_none hapart (h'.within b v hb))
  exact congrArg (fun p => { c with pending := p }) hwrites

end ComesTo

/-- A transaction of authorization messages comes to the same in all chains that agree on the grants
that it touches, and writes no other records. -/
theorem exists_comesTo {K : Bytes → Prop} {c : Chain} (hr : c.assembly.registry.Builtin)
    {tx : List Message} (htx : Message.AuthzOnlyAll tx)
    (hK : ∀ k ∈ Message.touchedAll tx, K k.toBytes) : ∃ result w, ComesTo K c tx result w := by
  cases hvalid : validateTx tx with
  | error e => exact ⟨.error e, ∅, .of_error fun d _ => runTx_of_invalid hvalid⟩
  | ok u =>
    cases hh : c.header with
    | none =>
      exact ⟨.error .noBlock, ∅, .of_error fun d hd =>
        runTx_of_no_block (hd.header_eq.trans hh) hvalid⟩
    | some h =>
      obtain ⟨⟨result, w, events⟩, hwithin, hon⟩ :=
        Assembly.confined_dispatchAll (a := c.assembly) hr htx hK h c.view.content
      have hdispatch (d : Chain) (hd : AgreeOn K c d) :
          d.assembly.dispatchAll tx (Context.start h d.view).child =
            (result, (Context.start h d.view).child.extend w events) := by
        rw [hd.assembly_eq]
        exact hon _ ⟨d.reliable_view, rfl, hd.get?_eq⟩
      cases result with
      | error e =>
        refine ⟨.error e, ∅, .of_error fun d hd => ?_⟩
        rw [runTx_of_header (hd.header_eq.trans hh) hvalid, hdispatch d hd]
      | ok data =>
        refine ⟨.ok (data, events), w, hwithin, fun d hd => ?_⟩
        rw [runTx_of_header (hd.header_eq.trans hh) hvalid, hdispatch d hd]
        dsimp only
        rw [Context.store_extend_child]
        have hpending : (d.view.putAll w.entries).writes = d.pending.followedBy w := by
          rw [← view_pend]
          rfl
        exact congrArg (fun p => (_, { d with pending := p })) hpending

/-- In a ledger with built-in authorizations, two transactions of authorization messages that touch
different grants get the same answers in either order, and leave the same chain: the same pending
writes, and so the same root. -/
theorem disjoint_transactions_commute {c : Chain} (hr : c.assembly.registry.Builtin)
    {tx tx' : List Message} (htx : Message.AuthzOnlyAll tx) (htx' : Message.AuthzOnlyAll tx')
    (hdisjoint : ∀ k ∈ Message.touchedAll tx, k ∉ Message.touchedAll tx') :
    let first := (c.deliverTx tx).2.deliverTx tx'
    let second := (c.deliverTx tx').2.deliverTx tx
    second.1 = (c.deliverTx tx).1 ∧ first.1 = (c.deliverTx tx').1 ∧ first.2 = second.2 ∧
      first.2.pending = second.2.pending ∧ first.2.commit.1 = second.2.commit.1 := by
  intro first second
  let K (b : Bytes) : Prop := ∃ k ∈ Message.touchedAll tx, k.toBytes = b
  let K' (b : Bytes) : Prop := ∃ k ∈ Message.touchedAll tx', k.toBytes = b
  -- Different grants lie under different keys.
  have hapart (b : Bytes) : ¬ (K b ∧ K' b) := by
    rintro ⟨⟨k, hk, rfl⟩, k', hk', hbytes⟩
    exact hdisjoint k hk (GrantKey.toBytes_injective hbytes ▸ hk')
  have hapart' (b : Bytes) : ¬ (K' b ∧ K b) := fun hb => hapart b hb.symm
  obtain ⟨result, w, h⟩ := exists_comesTo (K := K) hr htx fun k hk => ⟨k, hk, rfl⟩
  obtain ⟨result', w', h'⟩ := exists_comesTo (K := K') hr htx' fun k hk => ⟨k, hk, rfl⟩
  have hfirst : first = _ := h.deliverTx_after h' hapart
  have hsecond : second = _ := h'.deliverTx_after h hapart'
  have hchain : first.2 = second.2 := by
    rw [hfirst, hsecond, h.pend_pend_comm h' hapart, c.metrics.afterTx_comm result result']
  refine ⟨?_, ?_, hchain, congrArg Chain.pending hchain, congrArg (fun d => d.commit.1) hchain⟩
  · rw [hsecond, h.deliverTx_eq]
  · rw [hfirst, h'.deliverTx_eq]

/-- A batch that spends a grant on revoking another one, and a third grant of the same account. -/
theorem disjoint_transactions_commute_one_account :
    let signer : Address := ⟨.replicate 20 1, rfl⟩
    let holder : Address := ⟨.replicate 20 2, rfl⟩
    let other : Address := ⟨.replicate 20 3, rfl⟩
    let spent : Grant := ⟨signer, holder, .method MsgRevoke.typeUrl (some 1), none⟩
    let revoked : Grant := ⟨signer, other, .generic "/a", none⟩
    let committed := ((∅ : Pairs).put spent.key.toBytes spent.stored).put revoked.key.toBytes
      revoked.stored
    let c : Chain := ⟨⟨.builtin, (Router.registerAuthz ∅).2⟩, true, committed, ∅,
      some ⟨"c", 1, ⟨5⟩⟩, .zero⟩
    let tx : List Message := [.exec holder.toText [.revoke ⟨signer.toText, other.toText, "/a"⟩]]
    let tx' : List Message := [.grant ⟨signer.toText, other.toText, .generic "/b", none⟩]
    let first := (c.deliverTx tx).2.deliverTx tx'
    let second := (c.deliverTx tx').2.deliverTx tx
    first.1.code = 0 ∧ second.1.code = 0 ∧ first.2.pending = second.2.pending := by
  intro signer holder other spent revoked committed c tx tx' first second
  have hdisjoint : ∀ k ∈ Message.touchedAll tx, k ∉ Message.touchedAll tx' := by decide +kernel
  have hok : (c.deliverTx tx).1.code = 0 := by decide +kernel
  have hok' : (c.deliverTx tx').1.code = 0 := by decide +kernel
  have hauthz : Message.AuthzOnlyAll tx := ⟨⟨trivial, trivial⟩, trivial⟩
  have hauthz' : Message.AuthzOnlyAll tx' := ⟨trivial, trivial⟩
  have hbuiltin : c.assembly.registry.Builtin := rfl
  clear_value c tx tx'
  obtain ⟨hsecond, hfirst, -, hpending, -⟩ :=
    disjoint_transactions_commute hbuiltin hauthz hauthz' hdisjoint
  exact ⟨hfirst ▸ hok', hsecond ▸ hok, hpending⟩

end Chain

end GrantLedger
