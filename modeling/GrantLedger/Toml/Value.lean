/-!
# TOML values and tables

A document is a table of values, some of which are tables again. A table remembers how it came
about, since that decides what may be added to it later: a table written out between braces is
closed; one announced by a header can only get sub-tables; one that arose from a dotted key can grow
by dotted keys; and one that was merely passed through by a longer header can still be announced
itself.
-/

namespace GrantLedger.Toml

/-- How a table came about. -/
inductive Origin where
  /-- Written out between braces. -/
  | inline
  /-- Announced by a header, or the document itself. -/
  | declared
  /-- Passed through by a longer header. -/
  | implied
  /-- Passed through by a dotted key. -/
  | dotted
deriving DecidableEq

mutual

/-- A value. -/
inductive Value where
  /-- A string. -/
  | string (s : String)
  /-- An integer. -/
  | integer (n : Int)
  /-- A floating-point number. -/
  | float
  /-- A truth value. -/
  | boolean (b : Bool)
  /-- A date, a time of day, or both. -/
  | moment
  /-- An array written out between brackets. -/
  | array (items : List Value)
  /-- The tables announced by headers in double brackets. -/
  | tables (items : List Table)
  /-- A table. -/
  | table (t : Table)

/-- A table. -/
inductive Table where
  /-- The table with these entries. -/
  | mk (origin : Origin) (entries : List (String × Value))

end

namespace Table

/-- How the table came about. -/
def origin : Table → Origin
  | mk o _ => o

/-- The entries, in the order in which they were added. -/
def entries : Table → List (String × Value)
  | mk _ es => es

/-- The value of a key. -/
def find? (t : Table) (k : String) : Option Value := t.entries.lookup k

/-- Bind a key, in place of an older binding. -/
def put (t : Table) (k : String) (v : Value) : Table :=
  if (t.find? k).isSome then mk t.origin (t.entries.map fun e => if e.1 = k then (k, v) else e)
  else mk t.origin (t.entries ++ [(k, v)])

/-- The table at the end of a path, changed by `f`. Missing tables arise on the way, and an array of
tables stands for its last one. With `dotted` the path is that of a dotted key, which must not lead
through a table with a header of its own. -/
def update (dotted : Bool) (f : Table → Option Table) : List String → Table → Option Table
  | [], t => f t
  | k :: path, t => do
    let v ←
      match t.find? k with
      | none => Value.table <$> update dotted f path (mk (if dotted then .dotted else .implied) [])
      | some (.table child) =>
        if child.origin = .inline ∨ (dotted ∧ child.origin = .declared) then none
        else Value.table <$> update dotted f path child
      | some (.tables items) => do
        let last ← items.getLast?
        let last ← update dotted f path last
        pure (Value.tables (items.dropLast ++ [last]))
      | some _ => none
    return t.put k v

/-- Add the value of a key, dotted or not. The key must be new. A dotted one must end in a table
that arose from dotted keys, a plain one in a table that did not. -/
def addPair (t : Table) (pair : List String × Value) : Option Table := do
  let path := pair.1.dropLast
  let k ← pair.1.getLast?
  t.update true
    (fun target =>
      if (target.origin = .dotted ↔ path = []) ∨ (target.find? k).isSome then none
      else some (target.put k pair.2))
    path

/-- Add several values. -/
def addPairs (t : Table) (pairs : List (List String × Value)) : Option Table :=
  pairs.foldlM addPair t

/-- The table written out between braces with these pairs. -/
def ofInline (pairs : List (List String × Value)) : Option Table := (mk .inline []).addPairs pairs

/-- Add the table of a header with its pairs. A table may be announced once. -/
def addTable (t : Table) (header : List String) (pairs : List (List String × Value)) :
    Option Table := do
  let k ← header.getLast?
  t.update false
    (fun parent =>
      match parent.find? k with
      | none => do return parent.put k (.table (← (mk .declared []).addPairs pairs))
      | some (.table (mk .implied entries)) => do
        return parent.put k (.table (← (mk .declared entries).addPairs pairs))
      | some _ => none)
    header.dropLast

/-- Add the table of a header in double brackets with its pairs to the array of that name. -/
def addToTables (t : Table) (header : List String) (pairs : List (List String × Value)) :
    Option Table := do
  let k ← header.getLast?
  t.update false
    (fun parent => do
      let item ← (mk .declared []).addPairs pairs
      match parent.find? k with
      | none => return parent.put k (.tables [item])
      | some (.tables items) => return parent.put k (.tables (items ++ [item]))
      | some _ => none)
    header.dropLast

end Table

end GrantLedger.Toml
