import Mathlib.Data.List.Nodup
import Mathlib.Tactic.Tauto
import GrantLedger.Digest.Merkle
import GrantLedger.Proofs.Codec
import GrantLedger.Proofs.StoreContent

/-!
# The root commits to the state

The root of a state is the digest of a binary tree over its pairs. As long as the hash function
keeps apart the strings that are hashed, a tree can be recovered from its digest, since leaves and
nodes hash different words in front (`Merkle.Tree.eq_of_digest_eq`).

An odd level pairs its last digest with itself. In the tree this is a node with twice the same child,
and where no pair occurs twice there are no other nodes of that kind. So the pairs can be read off
the tree, with such a child counted once (`Merkle.Tree.pairs`), and the root determines the pairs,
however many of them there are (`Merkle.eq_of_root_eq`).
-/

namespace GrantLedger.Merkle

variable {hash hash' : Bytes → Digest}

/-! ## What is hashed -/

/-- What is hashed over two digests, with words in front. -/
def message (domain : Bytes) (l r : Digest) : Bytes := domain ++ l.bytes ++ r.bytes

/-- What is hashed for the leaf of a pair: its key, its value, and the two digests. -/
def leafInputs (hash : Bytes → Digest) (pair : Bytes × Bytes) : List Bytes :=
  [pair.1, pair.2, message leafDomain (hash pair.1) (hash pair.2)]

/-- What is hashed for the nodes over a level. -/
def parentInputs : List Digest → List Bytes
  | [] => []
  | [d] => [message nodeDomain d d]
  | l :: r :: rest => message nodeDomain l r :: parentInputs rest

theorem parents_eq_map (hash : Bytes → Digest) (level : List Digest) :
    parents hash level = (parentInputs level).map hash := by
  fun_induction parentInputs level with
  | case1 => rfl
  | case2 d => rfl
  | case3 l r rest ih =>
    rw [parents, ih]
    rfl

/-- What is hashed for the root over a level. -/
def topInputs (hash : Bytes → Digest) (level : List Digest) : List Bytes :=
  match level with
  | [] => []
  | [_] => []
  | l :: r :: rest =>
    parentInputs (l :: r :: rest) ++ topInputs hash (parents hash (l :: r :: rest))
termination_by level.length
decreasing_by rw [length_parents]; simp only [List.length_cons]; omega

/-- What is hashed for the root over pairs. -/
def rootInputs (hash : Bytes → Digest) (pairs : List (Bytes × Bytes)) : List Bytes :=
  pairs.flatMap (leafInputs hash) ++ topInputs hash (pairs.map (leaf hash))

theorem top_congr {level : List Digest} (h : ∀ x ∈ topInputs hash level, hash' x = hash x) :
    top hash' level = top hash level := by
  fun_induction top hash level with
  | case1 =>
    rw [top]
  | case2 d =>
    rw [top]
  | case3 l r rest ih =>
    rw [topInputs] at h
    have hlevel : parents hash' (l :: r :: rest) = parents hash (l :: r :: rest) := by
      rw [parents_eq_map, parents_eq_map]
      exact List.map_congr_left fun x hx => h x (List.mem_append_left _ hx)
    rw [top, hlevel]
    exact ih fun x hx => h x (List.mem_append_right _ hx)

/-- Nothing else is hashed: the root depends on the hashes of these strings alone. -/
theorem root_congr {pairs : List (Bytes × Bytes)}
    (h : ∀ x ∈ rootInputs hash pairs, hash' x = hash x) : root hash' pairs = root hash pairs := by
  have hleaves : pairs.map (leaf hash') = pairs.map (leaf hash) := by
    refine List.map_congr_left fun pair hpair => ?_
    have hinputs : ∀ x ∈ leafInputs hash pair, hash' x = hash x :=
      fun x hx => h x (List.mem_append_left _ (List.mem_flatMap.2 ⟨pair, hpair, hx⟩))
    have hkey := hinputs pair.1 (by simp [leafInputs])
    have hvalue := hinputs pair.2 (by simp [leafInputs])
    rw [leaf, hkey, hvalue]
    exact hinputs _ (by simp [leafInputs, message])
  rw [root, hleaves]
  exact top_congr fun x hx => h x (List.mem_append_right _ hx)

/-- No two of the strings have the same hash, and none is hashed to zero bytes only. -/
structure CollisionFree (hash : Bytes → Digest) (inputs : List Bytes) : Prop where
  injective : ∀ x ∈ inputs, ∀ y ∈ inputs, hash x = hash y → x = y
  ne_zero : ∀ x ∈ inputs, hash x ≠ .zero

theorem message_inj {domain domain' : Bytes} {l r l' r' : Digest}
    (hlength : domain.length = domain'.length)
    (h : message domain l r = message domain' l' r') : domain = domain' ∧ l = l' ∧ r = r' := by
  obtain ⟨hfront, hr⟩ := List.append_inj' h (r.length_eq.trans r'.length_eq.symm)
  obtain ⟨hdomain, hl⟩ := List.append_inj hfront hlength
  exact ⟨hdomain, Digest.ext hl, Digest.ext hr⟩

/-! ## Trees -/

/-- A tree of pairs. -/
inductive Tree where
  | leaf (pair : Bytes × Bytes)
  | node (l r : Tree)
deriving DecidableEq

namespace Tree

/-- The digest at the top of a tree. -/
def digest (hash : Bytes → Digest) : Tree → Digest
  | leaf pair => Merkle.leaf hash pair
  | node l r => Merkle.node hash (l.digest hash) (r.digest hash)

/-- What is hashed for a tree, from its top down. -/
def inputs (hash : Bytes → Digest) : Tree → List Bytes
  | leaf pair => leafInputs hash pair
  | node l r =>
    message nodeDomain (l.digest hash) (r.digest hash) :: (l.inputs hash ++ r.inputs hash)

/-- The pairs at the leaves. A node with twice the same child stands for an odd end of a level, and
the child counts once. -/
def pairs : Tree → List (Bytes × Bytes)
  | leaf pair => [pair]
  | node l r => if l = r then l.pairs else l.pairs ++ r.pairs

/-- The trees over two trees each, the last of an odd number over itself. -/
def pairUp : List Tree → List Tree
  | [] => []
  | [t] => [node t t]
  | l :: r :: rest => node l r :: pairUp rest

variable {t u : Tree} {ts : List Tree} {strings : List Bytes}

theorem inputs_leaf_subset_iff {pair : Bytes × Bytes} :
    (leaf pair).inputs hash ⊆ strings ↔
      pair.1 ∈ strings ∧ pair.2 ∈ strings ∧
        message leafDomain (hash pair.1) (hash pair.2) ∈ strings := by
  simp [inputs, leafInputs]

theorem inputs_node_subset_iff {l r : Tree} :
    (node l r).inputs hash ⊆ strings ↔
      message nodeDomain (l.digest hash) (r.digest hash) ∈ strings ∧
        l.inputs hash ⊆ strings ∧ r.inputs hash ⊆ strings := by
  rw [inputs, List.cons_subset, List.append_subset]

theorem exists_input (ht : t.inputs hash ⊆ strings) : ∃ x ∈ strings, t.digest hash = hash x := by
  cases t with
  | leaf pair => exact ⟨_, (inputs_leaf_subset_iff.1 ht).2.2, rfl⟩
  | node l r => exact ⟨_, (inputs_node_subset_iff.1 ht).1, rfl⟩

/-- Where the hash function keeps the hashed strings apart, a tree is determined by its digest. -/
theorem eq_of_digest_eq (hfree : CollisionFree hash strings) (ht : t.inputs hash ⊆ strings)
    (hu : u.inputs hash ⊆ strings) (h : t.digest hash = u.digest hash) : t = u := by
  have hlength : leafDomain.length = nodeDomain.length := by decide +kernel
  have hdomain : leafDomain ≠ nodeDomain := by decide +kernel
  induction t generalizing u with
  | leaf pair =>
    obtain ⟨hkey, hvalue, htop⟩ := inputs_leaf_subset_iff.1 ht
    cases u with
    | leaf pair' =>
      obtain ⟨hkey', hvalue', htop'⟩ := inputs_leaf_subset_iff.1 hu
      obtain ⟨-, hk, hv⟩ := message_inj rfl (hfree.injective _ htop _ htop' h)
      have hkeys := hfree.injective _ hkey _ hkey' hk
      have hvalues := hfree.injective _ hvalue _ hvalue' hv
      rw [Prod.ext hkeys hvalues]
    | node l r =>
      obtain ⟨htop', -⟩ := inputs_node_subset_iff.1 hu
      -- A leaf and a node hash different words in front.
      have heq := hfree.injective _ htop _ htop' h
      exact absurd (message_inj hlength heq).1 hdomain
  | node l r ihl ihr =>
    obtain ⟨htop, hleft, hright⟩ := inputs_node_subset_iff.1 ht
    cases u with
    | leaf pair =>
      obtain ⟨-, -, htop'⟩ := inputs_leaf_subset_iff.1 hu
      have heq := hfree.injective _ htop _ htop' h
      exact absurd (message_inj hlength.symm heq).1 hdomain.symm
    | node l' r' =>
      obtain ⟨htop', hleft', hright'⟩ := inputs_node_subset_iff.1 hu
      obtain ⟨-, hl, hr⟩ := message_inj rfl (hfree.injective _ htop _ htop' h)
      rw [ihl hleft hleft' hl, ihr hright hright' hr]

/-! ## From level to level -/

theorem parents_digests (hash : Bytes → Digest) (ts : List Tree) :
    parents hash (ts.map (digest hash)) = (pairUp ts).map (digest hash) := by
  fun_induction pairUp ts with
  | case1 => rfl
  | case2 t => rfl
  | case3 l r rest ih =>
    simp only [List.map_cons, parents, ih]
    rfl

theorem inputs_pairUp_subset (hash : Bytes → Digest) (ts : List Tree) :
    (pairUp ts).flatMap (inputs hash) ⊆
      ts.flatMap (inputs hash) ++ parentInputs (ts.map (digest hash)) := by
  fun_induction pairUp ts with
  | case1 => exact List.nil_subset _
  | case2 t => simp [inputs, parentInputs]
  | case3 l r rest ih =>
    simp only [List.flatMap_cons, List.map_cons, parentInputs, inputs]
    intro x hx
    have hrest := @ih x
    simp only [List.mem_append, List.mem_cons] at hx hrest ⊢
    tauto

theorem pairs_ne_nil (t : Tree) : t.pairs ≠ [] := by
  induction t with
  | leaf pair => exact List.cons_ne_nil _ _
  | node l r ihl ihr =>
    rw [pairs]
    split
    · exact ihl
    · exact List.append_ne_nil_of_left_ne_nil ihl _

/-- Where no pair occurs twice, two neighbours are different trees, and pairing them up keeps the
pairs. -/
theorem flatMap_pairs_pairUp (h : (ts.flatMap pairs).Nodup) :
    (pairUp ts).flatMap pairs = ts.flatMap pairs := by
  fun_induction pairUp ts with
  | case1 => rfl
  | case2 t => simp [pairs]
  | case3 l r rest ih =>
    simp only [List.flatMap_cons] at h ⊢
    rw [← List.append_assoc] at h
    -- Equal neighbours would hold a pair twice.
    have hne : l ≠ r := by
      rintro rfl
      obtain ⟨pair, hpair⟩ := List.exists_mem_of_ne_nil _ l.pairs_ne_nil
      exact (List.nodup_append.1 (List.nodup_append.1 h).1).2.2 pair hpair pair hpair rfl
    rw [pairs, if_neg hne, ih (List.nodup_append.1 h).2.1, List.append_assoc]

/-- The root over the digests of trees is the digest of one tree over the same pairs. -/
theorem exists_top_eq {level : List Digest} (hlevel : level = ts.map (digest hash)) (hne : ts ≠ [])
    (hnodup : (ts.flatMap pairs).Nodup) :
    ∃ t : Tree, top hash level = t.digest hash ∧ t.pairs = ts.flatMap pairs ∧
      t.inputs hash ⊆ ts.flatMap (inputs hash) ++ topInputs hash level := by
  fun_induction top hash level generalizing ts with
  | case1 => exact absurd (List.map_eq_nil_iff.1 hlevel.symm) hne
  | case2 d =>
    obtain ⟨t, rfl, rfl⟩ := List.map_eq_singleton_iff.1 hlevel.symm
    exact ⟨t, rfl, by simp, by simp⟩
  | case3 l r rest ih =>
    have hparents := hlevel ▸ parents_digests hash ts
    have hne' : pairUp ts ≠ [] := by
      intro hnil
      rw [hnil, parents] at hparents
      cases hparents
    have hpairs := flatMap_pairs_pairUp hnodup
    obtain ⟨t, htop, ht, hsub⟩ := ih hparents hne' (hpairs.symm ▸ hnodup)
    refine ⟨t, htop, ht.trans hpairs, fun x hx => ?_⟩
    have hinputs := @inputs_pairUp_subset hash ts x
    have hx := hsub hx
    rw [← hlevel] at hinputs
    rw [topInputs, ← List.append_assoc]
    simp only [List.mem_append] at hinputs hx ⊢
    tauto

end Tree

/-! ## The root -/

variable {l l' : List (Bytes × Bytes)}

/-- The root over pairs none of which occurs twice is the digest of a tree over them. -/
theorem exists_root_eq (hash : Bytes → Digest) (hne : l ≠ []) (hnodup : l.Nodup) :
    ∃ t : Tree, root hash l = t.digest hash ∧ t.pairs = l ∧ t.inputs hash ⊆ rootInputs hash l := by
  have hdigests : l.map (leaf hash) = (l.map Tree.leaf).map (Tree.digest hash) := by
    rw [List.map_map]
    rfl
  have hpairs : (l.map Tree.leaf).flatMap Tree.pairs = l := by
    rw [List.flatMap_map]
    exact List.flatMap_singleton' l
  have hinputs : (l.map Tree.leaf).flatMap (Tree.inputs hash) = l.flatMap (leafInputs hash) := by
    rw [List.flatMap_map]
    rfl
  have hleaves : l.map Tree.leaf ≠ [] := mt List.map_eq_nil_iff.1 hne
  obtain ⟨t, htop, ht, hsub⟩ := Tree.exists_top_eq hdigests hleaves (hpairs.symm ▸ hnodup)
  rw [hinputs] at hsub
  exact ⟨t, htop, ht.trans hpairs, hsub⟩

theorem root_nil (hash : Bytes → Digest) : root hash [] = .zero := by
  rw [root, List.map_nil, top]

theorem root_ne_zero (hfree : CollisionFree hash (rootInputs hash l)) (hne : l ≠ [])
    (hnodup : l.Nodup) : root hash l ≠ .zero := by
  obtain ⟨t, hroot, -, hsub⟩ := exists_root_eq hash hne hnodup
  obtain ⟨x, hx, hdigest⟩ := Tree.exists_input hsub
  rw [hroot, hdigest]
  exact hfree.ne_zero x hx

theorem nodup_of_sorted (h : l.Pairwise fun a b => a.1 < b.1) : l.Nodup := by
  refine List.Pairwise.imp ?_ h
  intro a b hlt heq
  rw [heq] at hlt
  exact Std.lt_irrefl hlt

theorem CollisionFree.mono {xs ys : List Bytes} (h : CollisionFree hash ys) (hsub : xs ⊆ ys) :
    CollisionFree hash xs where
  injective x hx y hy := h.injective x (hsub hx) y (hsub hy)
  ne_zero x hx := h.ne_zero x (hsub hx)

/-- Two lists of pairs in key order with the same root are equal, if the hash function keeps apart
what is hashed for the two roots. -/
theorem eq_of_root_eq (hl : l.Pairwise fun a b => a.1 < b.1)
    (hl' : l'.Pairwise fun a b => a.1 < b.1)
    (hfree : CollisionFree hash (rootInputs hash l ++ rootInputs hash l'))
    (h : root hash l = root hash l') : l = l' := by
  have hnodup := nodup_of_sorted hl
  have hnodup' := nodup_of_sorted hl'
  have hfirst := hfree.mono (List.subset_append_left _ _)
  have hsecond := hfree.mono (List.subset_append_right _ _)
  by_cases hne : l = []
  · by_cases hne' : l' = []
    · rw [hne, hne']
    · rw [hne, root_nil] at h
      exact absurd h.symm (root_ne_zero hsecond hne' hnodup')
  · by_cases hne' : l' = []
    · rw [hne', root_nil] at h
      exact absurd h (root_ne_zero hfirst hne hnodup)
    · obtain ⟨t, hroot, ht, hsub⟩ := exists_root_eq hash hne hnodup
      obtain ⟨t', hroot', ht', hsub'⟩ := exists_root_eq hash hne' hnodup'
      rw [hroot, hroot'] at h
      rw [← ht, ← ht', Tree.eq_of_digest_eq hfree (fun x hx => List.mem_append_left _ (hsub hx))
        (fun x hx => List.mem_append_right _ (hsub' hx)) h]

/-- The root commits to the whole state, with any hash function: lists of pairs in key order that
have the same root are equal, if the function keeps apart what is hashed for the two roots. So the
pairs that two histories of commits come to have the same root exactly if they are the same. -/
theorem root_commits_to_pairs (hash : Bytes → Digest) :
    (∀ l l' : List (Bytes × Bytes),
      (l.Pairwise fun a b => a.1 < b.1) → (l'.Pairwise fun a b => a.1 < b.1) →
      CollisionFree hash (rootInputs hash l ++ rootInputs hash l') →
      root hash l = root hash l' → l = l') ∧
    ∀ commits commits' : List (List (Bytes × Option Bytes)),
      let m := commits.foldl Pairs.update ∅
      let m' := commits'.foldl Pairs.update ∅
      ((∀ k, m.get? k = m'.get? k) → root hash m.entries = root hash m'.entries) ∧
      (CollisionFree hash (rootInputs hash m.entries ++ rootInputs hash m'.entries) →
        root hash m.entries = root hash m'.entries → ∀ k, m.get? k = m'.get? k) := by
  refine ⟨fun l l' => eq_of_root_eq, fun commits commits' => ⟨fun h => ?_, fun hfree h k => ?_⟩⟩
  · rw [SortedMap.ext_get? h]
  · rw [SortedMap.ext_entries (eq_of_root_eq (SortedMap.sorted _) (SortedMap.sorted _) hfree h)]

/-- Three pairs do not have the root of the same three with a fourth, and one commit comes to the
same root as two that undo a write. -/
theorem root_commits_to_pairs_odd_level :
    let hash : Bytes → Digest := fun b =>
      ⟨lowBytes 32 (ofLowBytes (b ++ [1]) % (Nat.pow 2 255 - 19)), length_lowBytes 32 _⟩
    let pairs : List (Bytes × Bytes) := [([1], [7]), ([2], []), ([2, 0], [7])]
    let once : List (List (Bytes × Option Bytes)) := [[([2], some []), ([1], some [7])]]
    let twice : List (List (Bytes × Option Bytes)) :=
      [[([1], some [7]), ([3], some [8])], [([3], none), ([2], some [])]]
    root hash pairs ≠ root hash (pairs ++ [([3], [7])]) ∧
      root hash (once.foldl Pairs.update ∅).entries =
        root hash (twice.foldl Pairs.update ∅).entries := by
  intro hash pairs once twice
  have hfree : CollisionFree hash
      (rootInputs hash pairs ++ rootInputs hash (pairs ++ [([3], [7])])) :=
    ⟨by decide +kernel, by decide +kernel⟩
  obtain ⟨hinjective, hhistories⟩ := root_commits_to_pairs hash
  refine ⟨fun h => ?_, (hhistories once twice).1 fun k => ?_⟩
  · have heq := hinjective _ _ (by decide) (by decide) hfree h
    exact absurd heq (by decide)
  · have hsame : once.foldl Pairs.update ∅ = twice.foldl Pairs.update ∅ := by decide
    rw [hsame]

end GrantLedger.Merkle
