import GrantLedger.Bytes
import GrantLedger.SortedMap.Basic

/-!
# Stores and write buffers

A store binds byte keys to byte values and is scanned in key order, one range of keys at a time. It
is either a *backend*, which holds the pairs and may fail on some accesses, or a *buffered* store: a
set of pending writes laid over a parent. Reading a buffered store falls through to the parent where
nothing is pending; writing to it only adds to the pending writes and so never fails. `Store.flush`
carries pending writes into a store in key order and stops at the first that fails.
-/

namespace GrantLedger

/-- Why an access to a store failed. -/
inductive StoreError where
  /-- The database cannot be opened. -/
  | dbOpen
  /-- The database cannot be read or written. -/
  | dbIo
  /-- A transaction met another one. -/
  | txConflict
deriving DecidableEq

namespace StoreError

/-- The wording of the failure. -/
def message : StoreError → String
  | dbOpen => "db open"
  | dbIo => "db io"
  | txConflict => "tx conflict"

end StoreError

/-- The pairs that a store holds. -/
abbrev Pairs := SortedMap Bytes Bytes

/-- Pending writes: `some` puts a value, `none` deletes the key. -/
abbrev WriteSet := SortedMap Bytes (Option Bytes)

/-- One item of a scan: a pair, or the failure to read the pair in that place. -/
abbrev Scanned := Except StoreError (Bytes × Bytes)

/-- The ways in which a backend is touched. -/
inductive Access where
  /-- Look up a key. -/
  | get (key : Bytes)
  /-- Bind a key. -/
  | set (key : Bytes)
  /-- Remove a key. -/
  | delete (key : Bytes)
  /-- Start a scan of the keys that begin with some bytes. -/
  | scan (start : Bytes)
  /-- Read the pair of a key during a scan. -/
  | item (key : Bytes)
deriving DecidableEq

/-- A store that holds its pairs itself. -/
structure Backend where
  /-- The pairs. -/
  content : Pairs
  /-- The accesses that fail, and how. -/
  fault : Access → Option StoreError

/-- A byte store: a backend, or pending writes over a parent. -/
inductive Store where
  /-- A store that holds its pairs itself. -/
  | base (backend : Backend)
  /-- Pending writes laid over a parent. -/
  | buffered (writes : WriteSet) (parent : Store)

/-- A backend with a table of faults; of two for one access the first counts. -/
def Backend.withFaults (content : Pairs) (faults : List (Access × StoreError)) : Backend :=
  ⟨content, fun a => faults.lookup a⟩

/-- The entries of a map whose keys begin with `start`. -/
def SortedMap.range {ν : Type} (m : SortedMap Bytes ν) (start : Bytes) : List (Bytes × ν) :=
  m.entries.filter fun e => e.1.startsWith start

/-- The pairs after some writes, done one after the other. -/
def Pairs.update (m : Pairs) (writes : List (Bytes × Option Bytes)) : Pairs :=
  writes.foldl (fun m w => match w.2 with | some v => m.insert w.1 v | none => m.erase w.1) m

/-- The scan items that pending writes contribute by themselves. -/
def pendingPuts (writes : List (Bytes × Option Bytes)) : List Scanned :=
  writes.filterMap fun (k, v) => v.map fun v => .ok (k, v)

/-- Lay pending writes over a scan. A write takes the place of the pair with its key, or hides it;
the other writes appear where their keys belong, and a failed item stays where it was. -/
def overlay : List Scanned → List (Bytes × Option Bytes) → List Scanned
  | [], writes => pendingPuts writes
  | .error e :: items, writes => .error e :: overlay items writes
  | .ok (k, v) :: items, writes =>
    pendingPuts (writes.takeWhile fun w => w.1 < k) ++
      match writes.dropWhile fun w => w.1 < k with
      | [] => .ok (k, v) :: overlay items []
      | w :: later =>
        if w.1 = k then pendingPuts [w] ++ overlay items later
        else .ok (k, v) :: overlay items (w :: later)

/-- Run `act` unless the backend refuses the access. -/
def Backend.guarded {α : Type} (b : Backend) (access : Access) (act : α) : Except StoreError α :=
  match b.fault access with
  | some e => .error e
  | none => .ok act

namespace Store

/-- A backend that never fails. -/
def ofPairs (content : Pairs) : Store := .base ⟨content, fun _ => none⟩

/-- A buffer without pending writes over a store. -/
def branch (s : Store) : Store := .buffered ∅ s

/-- The pending writes on top; none in a backend. -/
def writes : Store → WriteSet
  | base _ => ∅
  | buffered w _ => w

/-- The backend at the bottom. -/
def backend : Store → Backend
  | base b => b
  | buffered _ parent => parent.backend

/-- The value of a key. -/
def get : Store → Bytes → Except StoreError (Option Bytes)
  | base b, k => b.guarded (.get k) (b.content.get? k)
  | buffered w parent, k =>
    match w.get? k with
    | some v => .ok v
    | none => parent.get k

/-- Whether a key is bound. -/
def has (s : Store) (k : Bytes) : Except StoreError Bool := return (← s.get k).isSome

/-- Bind a key. -/
def set : Store → Bytes → Bytes → Except StoreError Store
  | base b, k, v => b.guarded (.set k) (base { b with content := b.content.insert k v })
  | buffered w parent, k, v => .ok (buffered (w.insert k (some v)) parent)

/-- Remove a key, bound or not. -/
def delete : Store → Bytes → Except StoreError Store
  | base b, k => b.guarded (.delete k) (base { b with content := b.content.erase k })
  | buffered w parent, k => .ok (buffered (w.insert k none) parent)

/-- One pending write, done. -/
def apply (s : Store) (k : Bytes) : Option Bytes → Except StoreError Store
  | some v => s.set k v
  | none => s.delete k

/-- The pairs whose keys begin with `start`, in key order. -/
def scan : Store → Bytes → Except StoreError (List Scanned)
  | base b, start =>
    b.guarded (.scan start) ((b.content.range start).map fun e => b.guarded (.item e.1) e)
  | buffered w parent, start => return overlay (← parent.scan start) (w.range start)

/-- Do writes one after the other. The first that fails ends it, and those before it stay done. -/
def applyAll (s : Store) : List (Bytes × Option Bytes) → Except StoreError Unit × Store
  | [] => (.ok (), s)
  | (k, v) :: later =>
    match s.apply k v with
    | .ok s' => s'.applyAll later
    | .error e => (.error e, s)

/-- Carry pending writes into a store, in key order. -/
def flush (s : Store) (w : WriteSet) : Except StoreError Unit × Store := s.applyAll w.entries

end Store

end GrantLedger
