import GrantLedger.Digest.Sha256
import GrantLedger.Store.Basic

/-!
# The root of a state

A state is summed up by one digest, the root of a binary tree over its pairs in key order. The leaf
of a pair hashes the hashes of key and value, and a node hashes its two children; the words in front
keep leaves and nodes apart. The last digest of a level with an odd number of them is paired with
itself. The hash function is a parameter throughout, and `stateRoot` takes SHA-256.
-/

namespace GrantLedger.Merkle

/-- The words in front of what a leaf hashes. -/
def leafDomain : Bytes := .ofText "Ledgerkit-App-Leaf-v1"

/-- The words in front of what a node hashes. -/
def nodeDomain : Bytes := .ofText "Ledgerkit-App-Node-v1"

/-- The leaf of a pair. -/
def leaf (hash : Bytes → Digest) (pair : Bytes × Bytes) : Digest :=
  hash (leafDomain ++ (hash pair.1).bytes ++ (hash pair.2).bytes)

/-- The node over two digests. -/
def node (hash : Bytes → Digest) (l r : Digest) : Digest := hash (nodeDomain ++ l.bytes ++ r.bytes)

/-- The nodes over a level, two digests each. -/
def parents (hash : Bytes → Digest) : List Digest → List Digest
  | [] => []
  | [d] => [node hash d d]
  | l :: r :: rest => node hash l r :: parents hash rest

theorem length_parents (hash : Bytes → Digest) (level : List Digest) :
    (parents hash level).length = (level.length + 1) / 2 := by
  fun_induction parents hash level with
  | case1 => rfl
  | case2 => simp
  | case3 l r rest ih => simp only [List.length_cons, ih]; omega

/-- The root over the digests of a level. -/
def top (hash : Bytes → Digest) (level : List Digest) : Digest :=
  match level with
  | [] => .zero
  | [d] => d
  | l :: r :: rest => top hash (parents hash (l :: r :: rest))
termination_by level.length
decreasing_by rw [length_parents]; simp only [List.length_cons]; omega

/-- The root over pairs in the given order. -/
def root (hash : Bytes → Digest) (pairs : List (Bytes × Bytes)) : Digest :=
  top hash (pairs.map (leaf hash))

end GrantLedger.Merkle

namespace GrantLedger

/-- The root of a state. -/
def stateRoot (content : Pairs) : Digest := Merkle.root sha256 content.entries

/-- The root of all pairs that a store scans; none if the scan fails somewhere. -/
def Store.root? (s : Store) : Option Digest := do
  let items ← (s.scan []).toOption
  let pairs ← items.mapM Except.toOption
  return Merkle.root sha256 pairs

end GrantLedger
