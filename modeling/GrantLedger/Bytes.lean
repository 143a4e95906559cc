/-!
# Byte strings

Keys, values, addresses and digests are plain lists of bytes, compared lexicographically. A text
stands for its UTF-8 bytes: `Bytes.ofText` writes them down and `Bytes.text?` reads them back.
Reading is strict, so it is the exact inverse of writing (`text?_eq_some_iff`): no surrogates, no
overlong forms, and no two byte strings for one text.
-/

namespace GrantLedger

/-- A byte string. -/
abbrev Bytes := List UInt8

namespace Bytes

/-- Byte strings are in lexicographic order, which is linear. -/
instance isLinearOrder : Std.IsLinearOrder Bytes := inferInstance

/-- The strict order of byte strings is the one that belongs to it. -/
instance lawfulOrderLT : Std.LawfulOrderLT Bytes := inferInstance

/-- The UTF-8 bytes of a text. -/
def ofText (s : String) : Bytes := s.toByteArray.data.toList

/-- The text whose UTF-8 bytes these are, if they are well formed. -/
def text? (b : Bytes) : Option String := String.fromUTF8? ⟨b.toArray⟩

/-- Whether `b` begins with `p`. -/
def startsWith (b p : Bytes) : Bool := p.isPrefixOf b

theorem ofText_of_text? {b : Bytes} {s : String} (h : b.text? = some s) : ofText s = b := by
  simp only [text?, String.fromUTF8?] at h
  split at h
  · simp at h; subst h; simp [ofText, String.fromUTF8]
  · simp at h

@[simp] theorem text?_ofText (s : String) : text? (ofText s) = some s := by
  show String.fromUTF8? s.toByteArray = some s
  simp only [String.fromUTF8?, dif_pos s.isValidUTF8]
  rfl

/-- A byte string reads as `s` exactly when it is what `s` is written as. -/
theorem text?_eq_some_iff {b : Bytes} {s : String} : b.text? = some s ↔ b = ofText s :=
  ⟨fun h => (ofText_of_text? h).symm, fun h => h ▸ text?_ofText s⟩

theorem ofText_injective {s t : String} (h : ofText s = ofText t) : s = t :=
  Option.some.inj (by rw [← text?_ofText s, h, text?_ofText t])

/-- The characters of a text are written one after the other. -/
theorem ofText_eq (s : String) : ofText s = s.toList.flatMap String.utf8EncodeChar := by
  rw [ofText, ← String.utf8Encode_toList, List.utf8Encode]
  simp

theorem ofText_append (s t : String) : ofText (s ++ t) = ofText s ++ ofText t := by
  rw [ofText_eq, ofText_eq, ofText_eq, String.toList_append, List.flatMap_append]

theorem startsWith_iff {b p : Bytes} : b.startsWith p = true ↔ p <+: b := by
  simp [startsWith]

end Bytes

end GrantLedger
