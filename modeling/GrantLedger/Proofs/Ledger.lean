import Mathlib.Data.Finmap
import GrantLedger.Proofs.Keeper

/-!
# The byte store is a table of grants

Seen from outside, the keeper works on a finite map from grantee, granter and message type to an
authorization and an expiration. `Ledger.answer` says what each call does to such a map, with no
word about bytes, keys or records; `Represents` says when a store holds a map, and every sequence of
calls, at whatever times, answers as the map does and leaves a store that holds the map after it
(`Represents.serveAll`).

The one thing that sets a store apart from a map is the size cap: a record that exceeds it is
written and cannot be read again. So every stored value has to stay within the cap.
-/

namespace GrantLedger

/-- What a grant says apart from who gave it, who holds it and what it is for. -/
structure Terms where
  authorization : Authorization
  expiration : Option Timestamp
deriving DecidableEq

/-- Grants by grantee, granter and message type. -/
abbrev Ledger := Finmap fun _ : GrantKey => Terms

namespace Keeper

/-- A call to the keeper. -/
inductive Call where
  | grant (granter grantee : Address) (terms : Terms)
  | revoke (granter grantee : Address) (url : String)
  | lookup (k : GrantKey)

/-- What a call that succeeds answers. -/
inductive Reply where
  | done
  /-- The grant that was found, if there was one. -/
  | found (g : Option Grant)

/-- A call at a moment of its own. -/
structure Request where
  /-- The block in which the call is made. -/
  header : BlockHeader
  call : Call

/-- Serve a call. -/
def Call.serve (r : Registry) : Call → Exec Reply
  | grant granter grantee terms => do
    Keeper.grant r granter grantee terms.authorization terms.expiration
    return .done
  | revoke granter grantee url => do
    Keeper.revoke granter grantee url
    return .done
  | lookup k => return .found (← Keeper.lookup r k)

/-- The authorization that a call gives, if it gives one, is of a built-in kind. -/
def Call.Builtin : Call → Prop
  | grant _ _ terms => terms.authorization.Builtin
  | _ => True

/-- Serve requests over a store, one after the other. -/
def serveAll (r : Registry) : List Request → Store → List (Except Error Reply) × Store
  | [], s => ([], s)
  | q :: qs, s =>
    let (reply, c) := q.call.serve r (.start q.header s)
    let (replies, s) := serveAll r qs c.store
    (reply :: replies, s)

end Keeper

namespace Terms

/-- The grant with these terms under a key. -/
def grantAt (t : Terms) (k : GrantKey) : Grant :=
  ⟨k.granter, k.grantee, t.authorization, t.expiration⟩

/-- Why terms cannot be granted at a time: the parties are one, the authorization is invalid, or the
expiration has been reached. -/
def refusal? (t : Terms) (granter grantee : Address) (now : Timestamp) : Option Error :=
  if granter = grantee then some .selfGrant
  else
    match t.authorization.validate, t.expiration with
    | .error e, _ => some e
    | .ok (), none => none
    | .ok (), some e => if e ≤ now then some (.expirationPassed e now) else none

end Terms

namespace Ledger

open Keeper (Call Reply Request)

/-- What a call answers on a map at a time, and the map after it. -/
def answer (l : Ledger) (now : Timestamp) : Call → Except Error Reply × Ledger
  | .grant granter grantee terms =>
    match terms.refusal? granter grantee now with
    | some e => (.error e, l)
    | none => (.ok .done, l.insert ⟨grantee, granter, terms.authorization.msgTypeUrl⟩ terms)
  | .revoke granter grantee url =>
    if ⟨grantee, granter, url⟩ ∈ l then (.ok .done, l.erase ⟨grantee, granter, url⟩)
    else (.error (.grantNotFound url), l)
  | .lookup k =>
    match l.lookup k with
    | none => (.ok (.found none), l)
    | some t =>
      if expiredAt t.expiration now then (.ok (.found none), l.erase k)
      else (.ok (.found (some (t.grantAt k))), l)

/-- What requests answer on a map, one after the other, and the map after them. -/
def answerAll (l : Ledger) : List Request → List (Except Error Reply) × Ledger
  | [] => ([], l)
  | q :: qs =>
    let (reply, l) := l.answer q.header.time q.call
    let (replies, l) := l.answerAll qs
    (reply :: replies, l)

end Ledger

/-- Every value in the store is within the size cap of the registry. -/
def Store.Within (s : Store) (r : Registry) : Prop :=
  ∀ k v, s.content.get? k = some v → v.length ≤ r.maxValueBytes.toNat

theorem Store.within_of_entries {s : Store} {r : Registry}
    (h : ∀ e ∈ s.content.entries, e.2.length ≤ r.maxValueBytes.toNat) : s.Within r :=
  fun k v hget => h (k, v) (SortedMap.mem_entries_iff.2 hget)

theorem Store.Within.length_le {s : Store} {r : Registry} {k b : Bytes}
    (h : (s.put k (some b)).Within r) : b.length ≤ r.maxValueBytes.toNat :=
  h k b (by rw [Store.content_put, Pairs.get?_put_self])

/-- The store holds the map: reading the record under a key gives what the map binds the key to, and
there is nothing else in the store. -/
structure Represents (r : Registry) (s : Store) (l : Ledger) : Prop where
  /-- The records are those of the map. -/
  recordAt_eq : ∀ k, GrantTable.recordAt r s.content k = .ok ((l.lookup k).map fun t => t.grantAt k)
  /-- Everything in the store is a record. -/
  isKey : ∀ b v, s.content.get? b = some v → ∃ k ∈ l, b = k.toBytes

namespace Keeper

open Exec (Steady)

theorem Call.steady_serve (r : Registry) (call : Call) : (call.serve r).Steady := by
  cases call with
  | grant granter grantee terms => exact .bind (steady_grant _ _ _ _ _) fun _ => .pure _
  | revoke granter grantee url => exact .bind (steady_revoke _ _ _) fun _ => .pure _
  | lookup k => exact .bind (steady_lookup _ _) fun _ => .pure _

/-- With a built-in authorization, the registry has no say in what can be granted. -/
theorem grantFault?_eq_refusal? {r : Registry} (hr : r.Builtin) {terms : Terms}
    (ht : terms.authorization.Builtin) (granter grantee : Address) (now : Timestamp) :
    grantFault? r granter grantee terms.authorization terms.expiration now =
      terms.refusal? granter grantee now := by
  have hreg : r.isRegistered terms.authorization.kind.typeUrl = true :=
    (hr.isRegistered_iff _).2 ht
  unfold grantFault? Terms.refusal?
  simp only [hreg, if_true]
  cases terms.authorization.validate with
  | error e => rfl
  | ok u => cases terms.expiration <;> rfl

end Keeper

namespace Represents

variable {r : Registry} {s : Store} {l : Ledger}

theorem empty (r : Registry) : Represents r (.ofPairs ∅) ∅ where
  recordAt_eq _ := rfl
  isKey b v h := by cases h

theorem contains_iff (h : Represents r s l) (k : GrantKey) :
    s.content.contains k.toBytes = true ↔ k ∈ l := by
  have hrec := h.recordAt_eq k
  rw [SortedMap.contains, ← Finmap.lookup_isSome]
  cases hl : l.lookup k with
  | none =>
    rw [hl] at hrec
    rw [GrantTable.recordAt_eq_none_iff.1 hrec]
    rfl
  | some t =>
    rw [hl] at hrec
    obtain ⟨b, hget, -⟩ := GrantTable.recordAt_eq_some_iff.1 hrec
    rw [hget]
    rfl

/-- Writing the record of a grant binds its key. -/
theorem insert (h : Represents r s l) (hr : r.Builtin) {k : GrantKey} {t : Terms} {b : Bytes}
    (ht : t.authorization.Builtin) (hb : (t.grantAt k).stored = some b)
    (hlen : b.length ≤ r.maxValueBytes.toNat) :
    Represents r (s.put k.toBytes (some b)) (l.insert k t) where
  recordAt_eq k' := by
    rw [Store.content_put]
    by_cases hk : k' = k
    · subst hk
      rw [Finmap.lookup_insert]
      exact GrantTable.recordAt_put_stored hr rfl rfl ht hb hlen
    · rw [GrantTable.recordAt_put_ne hk, h.recordAt_eq, Finmap.lookup_insert_of_ne l hk]
  isKey b' v hget := by
    rw [Store.content_put, Pairs.get?_put] at hget
    split at hget
    · next heq => exact ⟨k, Finmap.mem_insert.2 (.inl rfl), heq⟩
    · obtain ⟨k', hmem, heq⟩ := h.isKey b' v hget
      exact ⟨k', Finmap.mem_insert.2 (.inr hmem), heq⟩

/-- Removing a record unbinds its key. -/
theorem erase (h : Represents r s l) (k : GrantKey) :
    Represents r (s.put k.toBytes none) (l.erase k) where
  recordAt_eq k' := by
    rw [Store.content_put]
    by_cases hk : k' = k
    · subst hk
      rw [Finmap.lookup_erase]
      exact GrantTable.recordAt_put_none
    · rw [GrantTable.recordAt_put_ne hk, h.recordAt_eq, Finmap.lookup_erase_ne hk]
  isKey b v hget := by
    rw [Store.content_put, Pairs.get?_put] at hget
    split at hget
    · cases hget
    · next hne =>
      obtain ⟨k', hmem, rfl⟩ := h.isKey b v hget
      exact ⟨k', Finmap.mem_erase.2 ⟨fun heq => hne (heq ▸ rfl), hmem⟩, rfl⟩

section Serve

variable {c : Context} (h : Represents r c.store l) (hc : c.Reliable)

include h hc

/-- A call answers as the map does, and leaves a store that holds the map after it. -/
theorem serve (hr : r.Builtin) {call : Keeper.Call} (hcall : call.Builtin)
    (hwithin : (call.serve r c).2.store.Within r) :
    (call.serve r c).1 = (l.answer c.header.time call).1 ∧
      Represents r (call.serve r c).2.store (l.answer c.header.time call).2 := by
  cases call with
  | grant granter grantee terms =>
    have hgrant := Keeper.grant_eq hr hc granter grantee terms.authorization terms.expiration
    rw [Keeper.grantFault?_eq_refusal? hr hcall] at hgrant
    rw [Ledger.answer]
    cases hrefusal : terms.refusal? granter grantee c.header.time with
    | some e =>
      rw [hrefusal] at hgrant
      rw [Keeper.Call.serve, Exec.bind_error hgrant]
      exact ⟨rfl, h⟩
    | none =>
      obtain ⟨b, hb⟩ := Grant.exists_stored
        (g := ⟨granter, grantee, terms.authorization, terms.expiration⟩) hcall
      rw [hrefusal, hb] at hgrant
      rw [Keeper.Call.serve, Exec.bind_ok hgrant] at hwithin ⊢
      exact ⟨rfl, h.insert hr hcall hb (Store.Within.length_le hwithin)⟩
  | revoke granter grantee url =>
    have hrevoke := Keeper.revoke_eq hc granter grantee url
    rw [Ledger.answer]
    by_cases hmem : ⟨grantee, granter, url⟩ ∈ l
    · rw [if_pos ((h.contains_iff _).2 hmem)] at hrevoke
      rw [Keeper.Call.serve, Exec.bind_ok hrevoke, if_pos hmem]
      exact ⟨rfl, h.erase _⟩
    · rw [if_neg (mt (h.contains_iff _).1 hmem)] at hrevoke
      rw [Keeper.Call.serve, Exec.bind_error hrevoke, if_neg hmem]
      exact ⟨rfl, h⟩
  | lookup k =>
    have hlookup := Keeper.lookup_eq (r := r) hc k
    rw [h.recordAt_eq k] at hlookup
    rw [Ledger.answer]
    cases hl : l.lookup k with
    | none =>
      rw [hl] at hlookup
      rw [Keeper.Call.serve, Exec.bind_ok hlookup]
      exact ⟨rfl, h⟩
    | some t =>
      rw [hl] at hlookup
      -- The grant under the key expires when its terms do.
      change _ = if expiredAt t.expiration c.header.time = true then _ else _ at hlookup
      dsimp only
      split
      · next hexp =>
        rw [if_pos hexp] at hlookup
        rw [Keeper.Call.serve, Exec.bind_ok hlookup]
        exact ⟨rfl, h.erase k⟩
      · next hexp =>
        rw [if_neg hexp] at hlookup
        rw [Keeper.Call.serve, Exec.bind_ok hlookup]
        exact ⟨rfl, h⟩

end Serve

/-- Requests answer one after the other as the map does, and after each of them the store holds the
map. -/
theorem serveAll (h : Represents r s l) (hs : s.Reliable) (hr : r.Builtin)
    {qs : List Keeper.Request} (hqs : ∀ q ∈ qs, q.call.Builtin)
    (hwithin : ∀ ps, ps <+: qs → (Keeper.serveAll r ps s).2.Within r) :
    (Keeper.serveAll r qs s).1 = (l.answerAll qs).1 ∧
      ∀ ps, ps <+: qs → Represents r (Keeper.serveAll r ps s).2 (l.answerAll ps).2 := by
  induction qs generalizing s l with
  | nil =>
    refine ⟨rfl, fun ps hps => ?_⟩
    obtain rfl : ps = [] := List.prefix_nil.1 hps
    exact h
  | cons q qs ih =>
    -- The bound after the first request is the one for the prefix of that request alone.
    have hfirst : (q.call.serve r (.start q.header s)).2.store.Within r :=
      hwithin [q] (List.prefix_append [q] qs)
    have hc : (Context.start q.header s).Reliable := hs
    obtain ⟨hreply, hafter⟩ := serve h hc hr (hqs q List.mem_cons_self) hfirst
    have hsteady := Keeper.Call.steady_serve r q.call (.start q.header s)
    obtain ⟨hreplies, hall⟩ := ih hafter (hsteady.reliable hc)
      (fun q' hq' => hqs q' (List.mem_cons_of_mem q hq'))
      fun ps hps => hwithin (q :: ps) (List.cons_prefix_cons.2 ⟨rfl, hps⟩)
    refine ⟨congrArg₂ List.cons hreply hreplies, fun ps hps => ?_⟩
    cases ps with
    | nil => exact h
    | cons q' ps =>
      obtain ⟨rfl, htail⟩ := List.cons_prefix_cons.1 hps
      exact hall ps htail

end Represents

/-- A store that starts empty behaves as a map that starts empty, over every sequence of requests
with built-in authorizations, as long as every stored value is within the size cap. -/
theorem Keeper.serveAll_refines {r : Registry} (hr : r.Builtin) {qs : List Keeper.Request}
    (hqs : ∀ q ∈ qs, q.call.Builtin)
    (hwithin : ∀ ps, ps <+: qs → (Keeper.serveAll r ps (.ofPairs ∅)).2.Within r) :
    (Keeper.serveAll r qs (.ofPairs ∅)).1 = (Ledger.answerAll ∅ qs).1 ∧
      ∀ ps, ps <+: qs →
        Represents r (Keeper.serveAll r ps (.ofPairs ∅)).2 (Ledger.answerAll ∅ ps).2 :=
  (Represents.empty r).serveAll (Store.reliable_ofPairs ∅) hr hqs hwithin

/-- A grant that is looked up after its expiration. -/
theorem Keeper.serveAll_refines_expired :
    (Keeper.serveAll .builtin
      [⟨⟨"c", 1, ⟨5⟩⟩, .grant ⟨.replicate 20 1, rfl⟩ ⟨.replicate 20 2, rfl⟩
        ⟨.method "/a" (some 2), some ⟨9⟩⟩⟩,
        ⟨⟨"c", 2, ⟨10⟩⟩, .lookup ⟨⟨.replicate 20 2, rfl⟩, ⟨.replicate 20 1, rfl⟩, "/a"⟩⟩]
      (.ofPairs ∅)).1 = [.ok .done, .ok (.found none)] := by
  refine (Keeper.serveAll_refines rfl (by simp [Call.Builtin, Authorization.builtin_method])
    fun ps hps => Store.within_of_entries ?_).1
  have hinit := (List.mem_inits ps _).2 hps
  clear hps
  revert ps
  decide

end GrantLedger
