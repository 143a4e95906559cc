import GrantLedger.Toml.Number
import GrantLedger.Toml.Value

/-!
# TOML documents

A document is read line by line: blank lines, pairs of a key and a value, and headers, each of which
announces the table that the pairs after it belong to. Values may nest, though not without end:
arrays and tables in brackets go at most 79 deep, and a dotted key has at most 79 parts.
-/

namespace GrantLedger.Toml

open Reader

/-- One more than the depth of nesting, and than the number of parts of a dotted key. -/
def nestingLimit : Nat := 80

/-- One part of a key. -/
def simpleKey : Reader String :=
  either (lineString doubleQuote basicChar)
    (either (lineString singleQuote literalChar) do
      let isBare (c : Char) : Bool := c.isAlphanum || c == '_' || c == '-'
      let c ← next isBare
      return String.ofList (c :: (← span isBare)))

/-- A part of a key with the blanks around it. -/
def keyPart : Reader String := do
  blanks
  let k ← simpleKey
  blanks
  return k

/-- A key, dotted or not. -/
def key : Reader (List String) := do
  let k ← keyPart
  let ks ← many do
    char '.'
    keyPart
  check (ks.length + 1 < nestingLimit)
  return k :: ks

/-- Values with commas between them. -/
def separated {α : Type} (item : Reader α) : Reader (List α) := do
  match ← maybe item with
  | none => return []
  | some v =>
    return v :: (← many do
      char ','
      item)

/-- An array of values. -/
def array (value : Reader Value) : Reader Value := do
  char '['
  let items ← separated do
    gap
    let v ← value
    gap
    return v
  if !items.isEmpty then discard (maybe (char ','))
  gap
  char ']'
  return .array items

/-- A pair of a key and a value. -/
def pair (value : Reader Value) : Reader (List String × Value) := do
  let k ← key
  char '='
  blanks
  return (k, ← value)

/-- A table between braces. -/
def inlineTable (value : Reader Value) : Reader Value := do
  char (Char.ofNat 0x7B)
  blanks
  let pairs ← separated do
    let p ← pair value
    blanks
    return p
  char (Char.ofNat 0x7D)
  return .table (← ofOption (Table.ofInline pairs))

/-- A value that holds no others. -/
def scalar : Reader Value :=
  either (do return .string (← string))
    (either (do literal "true"; return .boolean true)
      (either (do literal "false"; return .boolean false)
        (either (do moment; return .moment)
          (either (do float; return .float) (do return .integer (← integer))))))

/-- A value that nests less than `depth` deep. -/
def value : Nat → Reader Value
  | 0 => scalar
  | depth + 1 => either scalar (either (array (value depth)) (inlineTable (value depth)))

/-- What a line of a document holds. -/
inductive Line where
  /-- Nothing. -/
  | blank
  /-- A pair of a key and a value. -/
  | pair (key : List String) (value : Value)
  /-- The header of a table. -/
  | header (path : List String)
  /-- The header of one of several tables of a name. -/
  | listHeader (path : List String)

/-- A header in double brackets. -/
def listHeader : Reader Line := do
  literal "[["
  let path ← key
  literal "]]"
  lineEnd
  return .listHeader path

/-- A header. -/
def header : Reader Line := do
  char '['
  let path ← key
  char ']'
  lineEnd
  return .header path

/-- A pair on a line of its own. -/
def pairLine : Reader Line := do
  let (k, v) ← pair (value (nestingLimit - 1))
  lineEnd
  return .pair k v

/-- A line with nothing but blanks and a comment, before the end of the document. -/
def blankLine : Reader Line := do
  either (do comment; either newline atEnd) newline
  return .blank

/-- A line. -/
def line : Reader Line := do
  blanks
  either blankLine (either listHeader (either header pairLine))

/-- All lines. -/
def lines : Reader (List Line) := do
  let ls ← many line
  blanks
  atEnd
  return ls

/-- A header and the pairs that follow it. -/
structure Section where
  /-- Whether the header is in double brackets. -/
  listed : Bool
  /-- The path of the header. -/
  path : List String
  /-- The pairs. -/
  pairs : List (List String × Value)

/-- The pairs before the first header, and the sections. -/
def sections : List Line → List (List String × Value) × List Section
  | [] => ([], [])
  | .blank :: ls => sections ls
  | .pair k v :: ls =>
    match sections ls with
    | (pairs, later) => ((k, v) :: pairs, later)
  | .header path :: ls =>
    match sections ls with
    | (pairs, later) => ([], ⟨false, path, pairs⟩ :: later)
  | .listHeader path :: ls =>
    match sections ls with
    | (pairs, later) => ([], ⟨true, path, pairs⟩ :: later)

/-- Add a section to a document. -/
def Table.addSection (t : Table) (s : Section) : Option Table :=
  if s.listed then t.addToTables s.path s.pairs else t.addTable s.path s.pairs

/-- The table of a document; a byte order mark in front is skipped. -/
def parse? (text : String) : Option Table := do
  let cs := match text.toList with | c :: cs => if c.toNat = 0xFEFF then cs else c :: cs | [] => []
  let (ls, _) ← lines cs
  let (pairs, later) := sections ls
  later.foldlM Table.addSection (← (Table.mk .declared []).addPairs pairs)

end GrantLedger.Toml
