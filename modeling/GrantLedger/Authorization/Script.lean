import GrantLedger.Codec

/-!
# Scripted authorizations

An authorization whose answers are written down in advance, one line for each time it is used: a
line says whether the message is accepted, whether the grant is spent, and with what words it fails
instead. After an accepted use the next line, if there is one, takes over. Scripts let an
application bring authorizations of its own that behave in any way the ledger has to cope with.

The encoding nests: the lines that follow stand in the middle of a line, between its verdict and its
flaws.
-/

namespace GrantLedger

/-- What one line of a script answers when a message is put to it. -/
structure ScriptVerdict where
  /-- The type URL of the governed message. -/
  msgTypeUrl : String
  /-- The message may be executed. -/
  accept : Bool
  /-- The grant is spent. -/
  delete : Bool
  /-- The check fails with these words instead. -/
  error : Option String
deriving DecidableEq

/-- What is wrong with one line of a script by itself. -/
structure ScriptFlaws where
  /-- A script that starts with this line cannot be encoded. -/
  failEncode : Bool
  /-- A script that starts with this line is invalid, with these words. -/
  invalid : Option String
deriving DecidableEq

/-- One line of a script. -/
structure ScriptLine where
  /-- The answer. -/
  verdict : ScriptVerdict
  /-- What is wrong with it. -/
  flaws : ScriptFlaws
deriving DecidableEq

/-- Answers written down in advance: the one in force and those that follow. -/
structure Script where
  /-- The line in force. -/
  current : ScriptLine
  /-- The lines that take over one after the other. -/
  later : List ScriptLine
deriving DecidableEq

namespace ScriptVerdict

/-- The encoding of a verdict: its fields in order. -/
def codec : Codec ScriptVerdict :=
  (Codec.text.pair (Codec.bool.pair (Codec.bool.pair Codec.text.option))).via
    (fun v => (v.msgTypeUrl, v.accept, v.delete, v.error))
    (fun (msgTypeUrl, accept, delete, error) => ⟨msgTypeUrl, accept, delete, error⟩)

end ScriptVerdict

namespace ScriptFlaws

/-- The encoding of flaws: their fields in order. -/
def codec : Codec ScriptFlaws :=
  (Codec.bool.pair Codec.text.option).via
    (fun f => (f.failEncode, f.invalid))
    (fun (failEncode, invalid) => ⟨failEncode, invalid⟩)

end ScriptFlaws

namespace Script

/-- The type URL of scripted authorizations. -/
def typeUrl : String := "/oracle.Scripted"

/-- The script that takes over after a use. -/
def next? (s : Script) : Option Script :=
  match s.later with
  | [] => none
  | line :: later => some ⟨line, later⟩

/-- Write a line with the lines that follow nested in it. -/
def writeLines (line : ScriptLine) : List ScriptLine → Bytes
  | [] => ScriptVerdict.codec.write line.verdict ++ 0 :: ScriptFlaws.codec.write line.flaws
  | line' :: later =>
    ScriptVerdict.codec.write line.verdict ++
      1 :: (writeLines line' later ++ ScriptFlaws.codec.write line.flaws)

/-- Read at most `depth` nested lines. -/
def readLines : Nat → Bytes → Option ((ScriptLine × List ScriptLine) × Bytes)
  | 0, _ => none
  | depth + 1, b => do
    let (verdict, r) ← ScriptVerdict.codec.read b
    match r with
    | 0 :: r =>
      let (flaws, r) ← ScriptFlaws.codec.read r
      return ((⟨verdict, flaws⟩, []), r)
    | 1 :: r =>
      let ((line, later), r) ← readLines depth r
      let (flaws, r) ← ScriptFlaws.codec.read r
      return ((⟨verdict, flaws⟩, line :: later), r)
    | _ => none

/-- The encoding of a script. Every line takes at least one byte, so the length of the input bounds
the nesting. -/
def codec : Codec Script where
  write s := writeLines s.current s.later
  read b := (readLines b.length b).map fun ((line, later), r) => (⟨line, later⟩, r)

end Script

end GrantLedger
