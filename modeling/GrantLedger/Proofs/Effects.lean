import GrantLedger.Proofs.Execution

/-!
# What a computation comes to

Over a store without faults no operation of the keeper can tell how its view is split over a stack
of buffers, nor what has been emitted before it. So what it comes to is an `Effect`: a result,
writes, and events that are added to those before. A computation is *confined* to a set of keys if
its effect is the same in all contexts that agree on the header and under these keys, and writes no
other key (`Exec.Confined`). The notion is closed under the ways in which computations are put
together; in particular a branch of a confined computation comes to the same as the computation, but
for what is left of a failure.
-/

namespace GrantLedger

/-! ## Writes one after the other -/

namespace SortedMap

variable {κ ν : Type} [LT κ] [DecidableEq κ] [DecidableLT κ] [LE κ] [Std.IsLinearOrder κ]
  [Std.LawfulOrderLT κ]

/-- The bindings of a map with later ones in place of them. -/
def followedBy (m later : SortedMap κ ν) : SortedMap κ ν :=
  later.entries.foldl (fun m e => m.insert e.1 e.2) m

theorem get?_followedBy (m later : SortedMap κ ν) (k : κ) :
    (m.followedBy later).get? k = (later.get? k).or (m.get? k) := by
  obtain ⟨es, hs⟩ := later
  change (es.foldl (fun m e => m.insert e.1 e.2) m).get? k =
    ((es.find? fun e => e.1 = k).map (·.2)).or (m.get? k)
  induction es generalizing m with
  | nil => rfl
  | cons e es ih =>
    obtain ⟨k', v⟩ := e
    rw [List.foldl_cons, ih (m.insert k' v) hs.of_cons, get?_insert]
    by_cases h : k' = k
    · subst h
      simp [find?_of_sorted_cons hs]
    · simp [h, Ne.symm h]

@[simp] theorem empty_followedBy (m : SortedMap κ ν) : (∅ : SortedMap κ ν).followedBy m = m :=
  ext_get? fun k => by rw [get?_followedBy, get?_empty, Option.or_none]

theorem followedBy_assoc (m n o : SortedMap κ ν) :
    (m.followedBy n).followedBy o = m.followedBy (n.followedBy o) :=
  ext_get? fun k => by simp only [get?_followedBy, Option.or_assoc]

/-- Bindings of different keys may be made in either order. -/
theorem followedBy_comm (m : SortedMap κ ν) {n o : SortedMap κ ν}
    (h : ∀ k, n.get? k = none ∨ o.get? k = none) :
    (m.followedBy n).followedBy o = (m.followedBy o).followedBy n := by
  refine ext_get? fun k => ?_
  simp only [get?_followedBy]
  rcases h k with hk | hk <;> simp [hk]

end SortedMap

theorem Pairs.update_followedBy (m : Pairs) (w later : WriteSet) :
    m.update (w.followedBy later).entries = (m.update w.entries).update later.entries := by
  refine SortedMap.ext_get? fun k => ?_
  simp only [get?_update_entries, SortedMap.get?_followedBy]
  cases later.get? k <;> rfl

namespace Store

theorem putAll_base (b : Backend) (ws : List (Bytes × Option Bytes)) :
    (base b).putAll ws = base { b with content := b.content.update ws } := by
  induction ws generalizing b with
  | nil => rfl
  | cons w ws ih =>
    rw [Pairs.update_cons]
    exact ih { b with content := b.content.put w.1 w.2 }

/-- Writes to a buffer join those that are pending in it. -/
theorem putAll_buffered (w later : WriteSet) (parent : Store) :
    (buffered w parent).putAll later.entries = buffered (w.followedBy later) parent := by
  have : ∀ (ws : List (Bytes × Option Bytes)) (w : WriteSet),
      (buffered w parent).putAll ws =
        buffered (ws.foldl (fun w e => w.insert e.1 e.2) w) parent := by
    intro ws
    induction ws with
    | nil => exact fun _ => rfl
    | cons e ws ih => exact fun w => ih (w.insert e.1 e.2)
  exact this later.entries w

theorem putAll_putAll (s : Store) (w later : WriteSet) :
    (s.putAll w.entries).putAll later.entries = s.putAll (w.followedBy later).entries := by
  cases s with
  | base b => rw [putAll_base, putAll_base, putAll_base, Pairs.update_followedBy]
  | buffered pending parent =>
    rw [putAll_buffered, putAll_buffered, putAll_buffered, SortedMap.followedBy_assoc]

end Store

namespace Context

/-- The context after some writes and events. -/
def extend (c : Context) (w : WriteSet) (es : List Event) : Context :=
  { c with store := c.store.putAll w.entries, events := c.events ++ es }

@[simp] theorem content_extend (c : Context) (w : WriteSet) (es : List Event) :
    (c.extend w es).store.content = c.store.content.update w.entries :=
  Store.content_putAll c.store w.entries

@[simp] theorem extend_empty (c : Context) : c.extend ∅ [] = c := by
  obtain ⟨header, store, events⟩ := c
  exact congrArg (Context.mk header store) (List.append_nil events)

theorem extend_extend (c : Context) (w later : WriteSet) (es more : List Event) :
    (c.extend w es).extend later more = c.extend (w.followedBy later) (es ++ more) := by
  simp only [extend, Store.putAll_putAll, List.append_assoc]

theorem put_eq_extend (c : Context) (k : Bytes) (v : Option Bytes) :
    c.put k v = c.extend (SortedMap.insert ∅ k v) [] := by
  simp only [extend, List.append_nil]
  rfl

theorem continues_extend (c : Context) (w : WriteSet) (es : List Event) :
    c.Continues (c.extend w es) := ⟨rfl, Store.sameBelow_putAll c.store w.entries⟩

/-- What is written in a branch is pending in it. -/
theorem store_extend_child (c : Context) (w : WriteSet) (es : List Event) :
    (c.child.extend w es).store = .buffered w c.store := by
  change (Store.buffered ∅ c.store).putAll w.entries = _
  rw [Store.putAll_buffered, SortedMap.empty_followedBy]

/-- Adopting a branch does to the context what was done to the branch. -/
theorem adopt_extend (c : Context) (w : WriteSet) (es : List Event) :
    c.adopt (c.child.extend w es) = c.extend w es := by
  rw [adopt, store_extend_child]
  rfl

end Context

/-! ## Effects -/

/-- What a computation comes to. -/
structure Effect (α : Type) where
  /-- How it ends. -/
  result : Except Error α
  /-- What it writes, also if it fails. -/
  writes : WriteSet
  /-- What it emits, also if it fails. -/
  events : List Event

namespace Effect

variable {α : Type}

/-- The effect, taken on a context. -/
def on (e : Effect α) (c : Context) : Except Error α × Context :=
  (e.result, c.extend e.writes e.events)

/-- The effect writes no keys outside `K`. -/
def Within (K : Bytes → Prop) (e : Effect α) : Prop :=
  ∀ k v, e.writes.get? k = some v → K k

theorem within_of_empty {K : Bytes → Prop} {e : Effect α} (h : e.writes = ∅) : e.Within K := by
  intro k v hget
  rw [h] at hget
  cases hget

end Effect

/-- The store of the context never fails, its header is `h`, and under the keys in `K` it holds what
`m` holds. -/
structure Context.Shows (K : Bytes → Prop) (h : BlockHeader) (m : Pairs) (c : Context) : Prop where
  reliable : c.Reliable
  header_eq : c.header = h
  get?_eq : ∀ k, K k → c.store.content.get? k = m.get? k

namespace Context.Shows

variable {K : Bytes → Prop} {h : BlockHeader} {m : Pairs} {c : Context}

theorem self (K : Bytes → Prop) {c : Context} (hc : c.Reliable) :
    c.Shows K c.header c.store.content := ⟨hc, rfl, fun _ _ => rfl⟩

theorem child (hc : c.Shows K h m) : c.child.Shows K h m := ⟨hc.reliable, hc.header_eq, hc.get?_eq⟩

theorem extend (hc : c.Shows K h m) (w : WriteSet) (es : List Event) :
    (c.extend w es).Shows K h (m.update w.entries) where
  reliable := (c.continues_extend w es).reliable hc.reliable
  header_eq := hc.header_eq
  get?_eq k hk := by
    rw [content_extend, Pairs.get?_update_entries, Pairs.get?_update_entries, hc.get?_eq k hk]

/-- A context of which nothing is asked but what it shows. -/
theorem exists_context (K : Bytes → Prop) (h : BlockHeader) (m : Pairs) :
    ∃ c : Context, c.Shows K h m :=
  ⟨.start h (.ofPairs m), Store.reliable_ofPairs m, rfl, fun _ _ => rfl⟩

end Context.Shows

namespace Exec

variable {α β : Type}

/-- What the computation comes to depends on nothing but the header and what the store holds under
the keys in `K`, and it writes no other keys. -/
def Confined (K : Bytes → Prop) (x : Exec α) : Prop :=
  ∀ h m, ∃ e : Effect α, e.Within K ∧ ∀ c : Context, c.Shows K h m → x c = e.on c

namespace Confined

variable {K : Bytes → Prop}

/-- Looking at nothing and leaving the context as it is. -/
theorem of_result {x : Exec α} (r : BlockHeader → Pairs → Except Error α)
    (h : ∀ h m (c : Context), c.Shows K h m → x c = (r h m, c)) : x.Confined K := by
  intro hd m
  refine ⟨⟨r hd m, ∅, []⟩, Effect.within_of_empty rfl, fun c hc => ?_⟩
  rw [h hd m c hc, Effect.on, Context.extend_empty]

theorem ofExcept (r : Except Error α) : (Exec.ofExcept r).Confined K :=
  of_result (fun _ _ => r) fun _ _ _ _ => rfl

theorem pure (a : α) : (Pure.pure a : Exec α).Confined K := ofExcept (.ok a)

theorem throw (e : Error) : (MonadExcept.throw e : Exec α).Confined K := ofExcept (.error e)

theorem header : Exec.header.Confined K :=
  of_result (fun h _ => .ok h) fun _ _ c hc => by rw [Exec.header, hc.header_eq]

theorem get {k : Bytes} (hk : K k) : (Exec.get k).Confined K :=
  of_result (fun _ m => .ok (m.get? k)) fun _ _ c hc => by
    rw [get_eq hc.reliable, hc.get?_eq k hk]

theorem has {k : Bytes} (hk : K k) : (Exec.has k).Confined K :=
  of_result (fun _ m => .ok (m.contains k)) fun _ _ c hc => by
    rw [has_eq hc.reliable, SortedMap.contains, SortedMap.contains, hc.get?_eq k hk]

theorem scan {start : Bytes} (hstart : ∀ k, k.startsWith start = true → K k) :
    (Exec.scan start).Confined K :=
  of_result (fun _ m => .ok ((m.range start).map .ok)) fun _ m c hc => by
    have hrange : c.store.content.range start = m.range start := by
      refine Store.eq_of_mem_iff (Store.sorted_range _ start) (Store.sorted_range m start) ?_
      intro k v
      rw [Store.mem_range, Store.mem_range]
      exact and_congr_right fun hk => by rw [hc.get?_eq k (hstart k hk)]
    rw [scan_eq hc.reliable, hrange]

theorem write {k : Bytes} (hk : K k) (v : Option Bytes) : (Exec.write k v).Confined K := by
  refine fun h m => ⟨⟨.ok (), SortedMap.insert ∅ k v, []⟩, fun k' v' hget => ?_, fun c hc => ?_⟩
  · dsimp only at hget
    rw [SortedMap.get?_insert] at hget
    split at hget
    · next heq => exact heq ▸ hk
    · cases hget
  · rw [write_eq hc.reliable, Context.put_eq_extend]
    rfl

theorem emit (e : Event) : (Exec.emit e).Confined K := fun _ _ =>
  ⟨⟨.ok (), ∅, [e]⟩, Effect.within_of_empty rfl, fun _ _ => rfl⟩

/-- The second part of a sequence has to be confined only for what the first part can return. -/
theorem bind_of_ok {x : Exec α} {f : α → Exec β} (hx : x.Confined K)
    (hf : ∀ a, (∃ c d : Context, c.Reliable ∧ x c = (.ok a, d)) → (f a).Confined K) :
    (x >>= f).Confined K := by
  intro h m
  obtain ⟨⟨result, writes, events⟩, hwithin, hon⟩ := hx h m
  cases result with
  | error e => exact ⟨⟨.error e, writes, events⟩, hwithin, fun c hc => bind_error (hon c hc)⟩
  | ok a =>
    obtain ⟨c₀, hc₀⟩ := Context.Shows.exists_context K h m
    obtain ⟨e, hwithin', hon'⟩ :=
      hf a ⟨c₀, _, hc₀.reliable, hon c₀ hc₀⟩ h (m.update writes.entries)
    refine ⟨⟨e.result, writes.followedBy e.writes, events ++ e.events⟩, fun k v hget => ?_,
      fun c hc => ?_⟩
    · dsimp only at hget
      rw [SortedMap.get?_followedBy, Option.or_eq_some_iff] at hget
      rcases hget with hget | ⟨-, hget⟩
      · exact hwithin' k v hget
      · exact hwithin k v hget
    · rw [bind_ok (hon c hc)]
      dsimp only
      rw [hon' _ (hc.extend writes events), Effect.on, Context.extend_extend]
      rfl

theorem bind {x : Exec α} {f : α → Exec β} (hx : x.Confined K) (hf : ∀ a, (f a).Confined K) :
    (x >>= f).Confined K := hx.bind_of_ok fun a _ => hf a

/-- After a result that is known, only its value matters. -/
theorem bind_ofExcept {r : Except Error α} {f : α → Exec β}
    (hf : ∀ a, r = .ok a → (f a).Confined K) : (Exec.ofExcept r >>= f).Confined K := by
  refine (ofExcept r).bind_of_ok ?_
  rintro a ⟨c, d, -, h⟩
  exact hf a (Prod.mk.inj h).1

theorem blockTime : Exec.blockTime.Confined K := header.bind fun _ => pure _

theorem attempt {x : Exec α} (hx : x.Confined K) : x.attempt.Confined K := by
  intro h m
  obtain ⟨e, hwithin, hon⟩ := hx h m
  refine ⟨⟨.ok e.result, e.writes, e.events⟩, hwithin, fun c hc => ?_⟩
  rw [attempt_apply, hon c hc]
  rfl

/-- A branch that succeeds has the effect of the computation in it. -/
theorem branch {x : Exec α} (hx : x.Confined K) : x.branch.Confined K := by
  intro h m
  obtain ⟨⟨result, writes, events⟩, hwithin, hon⟩ := hx h m
  cases result with
  | error e =>
    refine ⟨⟨.error e, ∅, []⟩, Effect.within_of_empty rfl, fun c hc => ?_⟩
    rw [branch_eq hc.reliable, hon _ hc.child, Effect.on, Effect.on, Context.extend_empty]
  | ok a =>
    refine ⟨⟨.ok a, writes, events⟩, hwithin, fun c hc => ?_⟩
    rw [branch_eq hc.reliable, hon _ hc.child, Effect.on, Effect.on]
    dsimp only
    rw [Context.adopt_extend]

theorem ite {p : Prop} [Decidable p] {x y : Exec α} (hx : x.Confined K) (hy : y.Confined K) :
    (if p then x else y).Confined K := by
  split
  · exact hx
  · exact hy

/-- A check in front of a computation ends it or lets it go on. -/
theorem check {p : Prop} [Decidable p] {e : Error} {f : β → Exec α} {x : Exec α}
    (hx : x.Confined K) : (if p then MonadExcept.throw e >>= f else x).Confined K :=
  ite (of_result (fun _ _ => .error e) fun _ _ _ _ => rfl) hx

end Confined

end Exec

end GrantLedger
