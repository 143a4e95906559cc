import GrantLedger.Authorization.Registry
import GrantLedger.Toml.Document

/-!
# Configuration

The settings of a node, read from a TOML document. Every section and every field may be left out,
and unknown names are ignored. A section is a table; an array in its place gives the fields in
order, and surplus items are ignored.
-/

namespace GrantLedger

/-- What the node is called, where it keeps its data and which chain it serves. -/
structure NodeSettings where
  /-- The name of the node. -/
  name : String
  /-- The directory of the database. -/
  dataDir : String
  /-- The chain that blocks belong to. -/
  chainId : String
deriving DecidableEq

/-- Where requests are answered. -/
structure HttpSettings where
  /-- The address to listen on. -/
  listenAddr : String
deriving DecidableEq

/-- How grants are kept. -/
structure AuthzSettings where
  /-- Whether expired grants are swept at the end of each block. -/
  pruneExpiredOnEndBlock : Bool
  /-- The size cap for stored grants. -/
  maxValueBytes : UInt64
deriving DecidableEq

/-- What is logged. -/
structure LogSettings where
  /-- The least level that is logged. -/
  level : String
  /-- Whether log lines are JSON. -/
  json : Bool
deriving DecidableEq

/-- The settings of a node. -/
structure Config where
  /-- The node itself. -/
  node : NodeSettings
  /-- The query endpoint. -/
  http : HttpSettings
  /-- The authorization module. -/
  authz : AuthzSettings
  /-- Logging. -/
  log : LogSettings
deriving DecidableEq

/-- Why settings could not be read. -/
inductive ConfigError where
  /-- There is no such file, or it is no text. -/
  | io
  /-- The text is no TOML document, or gives a setting of the wrong type. -/
  | parse
deriving DecidableEq

namespace Config

/-- The settings where nothing is said. -/
def default : Config where
  node := ⟨"ledgerkit", "./data", "ledgerkit-local"⟩
  http := ⟨"127.0.0.1:9090"⟩
  authz := ⟨false, Registry.defaultMaxValueBytes⟩
  log := ⟨"info", false⟩

/-- The values that a section gives to the fields of these names, in their order. A date in place of
a section gives none. -/
def fields (names : List String) : Toml.Value → Option (List (Option Toml.Value))
  | .table t => some (names.map t.find?)
  | .array items => some ((List.range names.length).map fun i => items[i]?)
  | .tables items => some ((List.range names.length).map fun i => items[i]?.map .table)
  | .moment => some (names.map fun _ => none)
  | _ => none

/-- The text that a field is given. -/
def text (fallback : String) : Option Toml.Value → Option String
  | none => some fallback
  | some (.string s) => some s
  | some _ => none

/-- The truth value that a field is given. -/
def flag (fallback : Bool) : Option Toml.Value → Option Bool
  | none => some fallback
  | some (.boolean b) => some b
  | some _ => none

/-- The number that a field is given. -/
def number (fallback : UInt64) : Option Toml.Value → Option UInt64
  | none => some fallback
  | some (.integer n) => if 0 ≤ n then some (UInt64.ofNat n.toNat) else none
  | some _ => none

/-- Read the section of the node. -/
def readNode (v : Toml.Value) : Option NodeSettings := do
  let [name, dataDir, chainId] ← fields ["name", "data_dir", "chain_id"] v | none
  return {
    name := ← text default.node.name name
    dataDir := ← text default.node.dataDir dataDir
    chainId := ← text default.node.chainId chainId }

/-- Read the section of the query endpoint. -/
def readHttp (v : Toml.Value) : Option HttpSettings := do
  let [listenAddr] ← fields ["listen_addr"] v | none
  return { listenAddr := ← text default.http.listenAddr listenAddr }

/-- Read the section of the authorization module. -/
def readAuthz (v : Toml.Value) : Option AuthzSettings := do
  let [prune, cap] ← fields ["prune_expired_on_end_block", "max_value_bytes"] v | none
  return {
    pruneExpiredOnEndBlock := ← flag default.authz.pruneExpiredOnEndBlock prune
    maxValueBytes := ← number default.authz.maxValueBytes cap }

/-- Read the section of logging. -/
def readLog (v : Toml.Value) : Option LogSettings := do
  let [level, json] ← fields ["level", "json"] v | none
  return {
    level := ← text default.log.level level
    json := ← flag default.log.json json }

/-- A section, or its settings where it is left out. -/
def readSection {α : Type} (document : Toml.Table) (name : String) (fallback : α)
    (read : Toml.Value → Option α) : Option α :=
  match document.find? name with
  | none => some fallback
  | some v => read v

/-- Read the settings of a document. -/
def parse (s : String) : Except ConfigError Config :=
  let settings : Option Config := do
    let document ← Toml.parse? s
    return {
      node := ← readSection document "node" default.node readNode
      http := ← readSection document "http" default.http readHttp
      authz := ← readSection document "authz" default.authz readAuthz
      log := ← readSection document "log" default.log readLog }
  match settings with
  | some c => .ok c
  | none => .error .parse

/-- Read the settings of a file with this content, if there is such a file. -/
def ofFile (content : Option Bytes) : Except ConfigError Config :=
  match content.bind Bytes.text? with
  | some s => parse s
  | none => .error .io

end Config

end GrantLedger
