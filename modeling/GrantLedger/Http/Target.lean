import GrantLedger.Bytes

/-!
# Request targets

What a request asks for is written as a path with an optional query string, or as a full address of
a scheme, an authority and then the path and the query string. The authority is of no account here.
A fragment is cut off, an empty path stands for the root, and an address without a scheme that does
not begin with `/` has no path at all.
-/

namespace GrantLedger.Http

/-- The byte `/`. -/
def slash : UInt8 := 0x2F

/-- The byte `:`. -/
def colon : UInt8 := 0x3A

/-- The byte `?`. -/
def questionMark : UInt8 := 0x3F

/-- The byte `#`. -/
def numberSign : UInt8 := 0x23

/-- Split at the first byte that equals `sep`; nothing follows if there is none. -/
def cut (sep : UInt8) (b : Bytes) : Bytes × Option Bytes :=
  match b.dropWhile (· != sep) with
  | [] => (b, none)
  | _ :: rest => (b.takeWhile (· != sep), some rest)

/-- Without the separator all of the bytes are before it. -/
theorem cut_of_not_mem {sep : UInt8} {a : Bytes} (h : sep ∉ a) : cut sep a = (a, none) := by
  have ha : ∀ c ∈ a, (c != sep) = true := fun c hc => bne_iff_ne.mpr fun e => h (e ▸ hc)
  have hd : (a ++ []).dropWhile (· != sep) = [] := List.dropWhile_append_of_pos ha
  rw [List.append_nil] at hd
  unfold cut
  rw [hd]

/-- Bytes without the separator are what is before its first occurrence. -/
theorem cut_append {sep : UInt8} {a : Bytes} (h : sep ∉ a) (b : Bytes) :
    cut sep (a ++ sep :: b) = (a, some b) := by
  have ha : ∀ c ∈ a, (c != sep) = true := fun c hc => bne_iff_ne.mpr fun e => h (e ▸ hc)
  unfold cut
  rw [List.dropWhile_append_of_pos ha, List.takeWhile_append_of_pos ha]
  simp

/-- The path and the query string of a request, as they stand there. -/
structure Target where
  /-- The path. -/
  path : Bytes
  /-- The query string; empty if there is none. -/
  query : Bytes
deriving DecidableEq

namespace Target

/-- What follows the authority of a full address; none if there is no scheme. -/
def afterAuthority? (uri : Bytes) : Option Bytes :=
  match cut colon uri with
  | (_, some (a :: b :: rest)) =>
    if a = slash ∧ b = slash then
      some (rest.dropWhile fun c => c ∉ [slash, questionMark, numberSign])
    else none
  | _ => none

/-- Split a path from its query string. -/
def ofPath (b : Bytes) : Target :=
  match cut questionMark (cut numberSign b).1 with
  | (path, query) => ⟨if path = [] then [slash] else path, query.getD []⟩

/-- The target that an address stands for, if it has a path. -/
def ofUri? (uri : Bytes) : Option Target :=
  if uri.head? = some slash then some (ofPath uri) else (afterAuthority? uri).map ofPath

end Target

end GrantLedger.Http
