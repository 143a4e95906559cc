import GrantLedger.Error
import GrantLedger.Event

/-!
# Execution contexts

A unit of execution runs within a `Context`: the header of its block, the store it sees and the
events it has emitted. `Exec` is a computation in a context that may fail; what it did before a
failure stays done. `Exec.branch` makes a computation all-or-nothing: it runs over a buffer of its
own, and only a success carries the buffered writes and the events over.
-/

namespace GrantLedger

/-- What a unit of execution works with. -/
structure Context where
  /-- The header of the block being executed. -/
  header : BlockHeader
  /-- The store. -/
  store : Store
  /-- The events emitted so far. -/
  events : List Event

/-- A context in which nothing has been emitted yet. -/
def Context.start (header : BlockHeader) (store : Store) : Context := ⟨header, store, []⟩

namespace Context

/-- The context of a branch: the same header, a buffer over the store, and no events. -/
def child (c : Context) : Context := .start c.header c.store.branch

/-- What a branch leaves behind. If it succeeded, its writes go to the store in key order and then
its events follow those emitted before; if it failed, both are dropped. Should the store refuse one
of the writes, the writes before it stay and no event is added. -/
def merge {α : Type} (c child : Context) : Except Error α → Except Error α × Context
  | .error e => (.error e, c)
  | .ok a =>
    match c.store.flush child.store.writes with
    | (.error e, s) => (.error (.store e), { c with store := s })
    | (.ok (), s) => (.ok a, { c with store := s, events := c.events ++ child.events })

end Context

/-- A computation in a context that may fail. -/
abbrev Exec := ExceptT Error (StateM Context)

namespace Exec

variable {α β : Type}

/-- A result that is known without the context. -/
def ofExcept (r : Except Error α) : Exec α := fun c => (r, c)

/-- A result of the store. -/
def ofStore (r : Except StoreError α) : Exec α := ofExcept (r.mapError .store)

/-- Run a computation and hand its result on, failure or not. -/
def attempt (x : Exec α) : Exec (Except Error α) := fun c =>
  match x c with
  | (r, c') => (.ok r, c')

/-- The header of the block. -/
def header : Exec BlockHeader := fun c => (.ok c.header, c)

/-- The time of the block. -/
def blockTime : Exec Timestamp := return (← header).time

/-- Look up a key in the store. -/
def get (k : Bytes) : Exec (Option Bytes) := fun c => ((c.store.get k).mapError .store, c)

/-- Whether the store binds a key. -/
def has (k : Bytes) : Exec Bool := fun c => ((c.store.has k).mapError .store, c)

/-- Scan the keys that begin with `start`. -/
def scan (start : Bytes) : Exec (List Scanned) := fun c =>
  ((c.store.scan start).mapError .store, c)

/-- Do one write. -/
def write (k : Bytes) (v : Option Bytes) : Exec Unit := fun c =>
  match c.store.apply k v with
  | .ok s => (.ok (), { c with store := s })
  | .error e => (.error (.store e), c)

/-- Bind a key. -/
def set (k v : Bytes) : Exec Unit := write k (some v)

/-- Remove a key. -/
def delete (k : Bytes) : Exec Unit := write k none

/-- Emit an event. -/
def emit (e : Event) : Exec Unit := fun c => (.ok (), { c with events := c.events ++ [e] })

/-- The events emitted so far. -/
def events : Exec (List Event) := fun c => (.ok c.events, c)

/-- Take the events emitted so far away. -/
def takeEvents : Exec (List Event) := fun c => (.ok c.events, { c with events := [] })

/-- Run a computation in a branch of the context. -/
def branch (x : Exec α) : Exec α := fun c =>
  match x c.child with
  | (r, child) => c.merge child r

@[simp] theorem pure_apply (a : α) (c : Context) : (pure a : Exec α) c = (.ok a, c) := rfl

@[simp] theorem throw_apply (e : Error) (c : Context) :
    (throw e : Exec α) c = (.error e, c) := rfl

/-- A sequence goes on in the context that its first part leaves and ends with the first failure. -/
theorem bind_apply (x : Exec α) (f : α → Exec β) (c : Context) :
    (x >>= f) c =
      match x c with
      | (.ok a, c') => f a c'
      | (.error e, c') => (.error e, c') := by
  show ExceptT.bindCont f (x c).1 (x c).2 = _
  rcases x c with ⟨_ | _, _⟩ <;> rfl

end Exec

end GrantLedger
