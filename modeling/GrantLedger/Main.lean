import GrantLedger.Node

/-!
# The command line

Reads the settings of a node from standard input, opens its chain and looks up the paths given as
arguments, one after the other.
-/

/-- All bytes of a stream. -/
partial def readToEnd (s : IO.FS.Stream) (before : ByteArray) : IO ByteArray := do
  let chunk ← s.read 65536
  if chunk.isEmpty then return before
  readToEnd s (before ++ chunk)

/-- Look up paths in the chain of a node with the settings on standard input. -/
def main (paths : List String) : IO UInt32 := do
  let content ← readToEnd (← IO.getStdin) .empty
  match GrantLedger.Config.ofFile (some content.data.toList) with
  | .error _ =>
    IO.eprintln "the settings cannot be read"
    return 1
  | .ok config =>
    match GrantLedger.Node.openChain config ∅ >>= GrantLedger.Node.start config ⟨0⟩ with
    | .error e =>
      IO.eprintln e.message
      return 1
    | .ok chain =>
      for path in paths do
        IO.println (GrantLedger.Node.lookUp chain path)
      return 0
