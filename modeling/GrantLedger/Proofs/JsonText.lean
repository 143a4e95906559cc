import Mathlib.Data.List.Basic
import GrantLedger.Text.Json

/-!
# Compact JSON stands for one value

No two values have the same compact text (`Json.compact_injective`). A value can be told from its
text also where more follows, as long as no digit comes next: the first character says of which kind
it is, a text ends at the first quote that no backslash escapes, and the parts of a list or a record
are followed by a comma or by the closing bracket.
-/

namespace GrantLedger

namespace Json

/-! ## Texts -/

/-- The code points of the characters that do not stand for themselves. -/
def escaped : List Nat := List.range 0x20 ++ [0x22, 0x5C]

theorem escapeChar_of_notMem {c : Char} (h : c.toNat ∉ escaped) : escapeChar c = [c] := by
  rw [escaped, List.mem_append, List.mem_range, not_or, List.mem_pair, not_or] at h
  obtain ⟨hcontrol, hquote, hbackslash⟩ := h
  rw [escapeChar]
  repeat rw [if_neg (by omega)]

theorem head?_escapeChar_of_mem :
    ∀ n ∈ escaped, (escapeChar (Char.ofNat n)).head? = some backslash := by
  decide +kernel

theorem escapeChar_prefix_of_mem :
    ∀ m ∈ escaped, ∀ n ∈ escaped,
      escapeChar (Char.ofNat m) <+: escapeChar (Char.ofNat n) → m = n := by
  decide +kernel

/-- A text in quotes does not end with a character of it, and a backslash begins exactly those that
do not stand for themselves. -/
theorem exists_escapeChar_eq (c : Char) :
    ∃ first rest, escapeChar c = first :: rest ∧ first ≠ '"' ∧
      (first = backslash ↔ c.toNat ∈ escaped) := by
  by_cases hc : c.toNat ∈ escaped
  · have hhead := head?_escapeChar_of_mem c.toNat hc
    rw [Char.ofNat_toNat] at hhead
    obtain ⟨rest, hrest⟩ := List.head?_eq_some_iff.1 hhead
    exact ⟨backslash, rest, hrest, by decide, iff_of_true rfl hc⟩
  · refine ⟨c, [], escapeChar_of_notMem hc, ?_, iff_of_false ?_ hc⟩
    · rintro rfl
      exact hc (by decide)
    · rintro rfl
      exact hc (by decide)

/-- No character is written as the beginning of another. -/
theorem eq_of_prefix_escapeChar {c d : Char} (h : escapeChar c <+: escapeChar d) : c = d := by
  obtain ⟨first, rest, hc, -, hfirst⟩ := exists_escapeChar_eq c
  obtain ⟨first', rest', hd, -, hfirst'⟩ := exists_escapeChar_eq d
  have hsame : first = first' := by
    rw [hc, hd] at h
    exact (List.cons_prefix_cons.1 h).1
  have hboth : c.toNat ∈ escaped ↔ d.toNat ∈ escaped := by rw [← hfirst, ← hfirst', hsame]
  by_cases hescaped : c.toNat ∈ escaped
  · refine Char.toNat_inj.1 (escapeChar_prefix_of_mem _ hescaped _ (hboth.1 hescaped) ?_)
    rwa [Char.ofNat_toNat, Char.ofNat_toNat]
  · rw [escapeChar_of_notMem hescaped] at hc
    rw [escapeChar_of_notMem (mt hboth.2 hescaped)] at hd
    rw [(List.cons.inj hc).1, hsame, (List.cons.inj hd).1]

theorem escapeChar_append_inj {c d : Char} {s t : List Char}
    (h : escapeChar c ++ s = escapeChar d ++ t) : c = d ∧ s = t := by
  have hcd : c = d := by
    have hc : escapeChar c <+: escapeChar d ++ t := ⟨s, h⟩
    rcases List.prefix_or_prefix_of_prefix hc (List.prefix_append _ t) with hprefix | hprefix
    · exact eq_of_prefix_escapeChar hprefix
    · exact (eq_of_prefix_escapeChar hprefix).symm
  subst hcd
  exact ⟨rfl, List.append_cancel_left h⟩

/-- Where a text ends is seen from its closing quote. -/
theorem flatMap_escapeChar_append_inj {cs ds s t : List Char}
    (h : cs.flatMap escapeChar ++ '"' :: s = ds.flatMap escapeChar ++ '"' :: t) :
    cs = ds ∧ s = t := by
  have hclosed {d : Char} {s rest : List Char} (h : '"' :: s = escapeChar d ++ rest) : False := by
    obtain ⟨first, later, hd, hne, -⟩ := exists_escapeChar_eq d
    rw [hd] at h
    exact hne (List.cons.inj h).1.symm
  induction cs generalizing ds with
  | nil =>
    cases ds with
    | nil => exact ⟨rfl, (List.cons.inj h).2⟩
    | cons d ds =>
      rw [List.flatMap_cons, List.append_assoc] at h
      exact (hclosed h).elim
  | cons c cs ih =>
    cases ds with
    | nil =>
      rw [List.flatMap_cons, List.append_assoc] at h
      exact (hclosed h.symm).elim
    | cons d ds =>
      rw [List.flatMap_cons, List.flatMap_cons, List.append_assoc, List.append_assoc] at h
      obtain ⟨rfl, hrest⟩ := escapeChar_append_inj h
      obtain ⟨rfl, rfl⟩ := ih hrest
      exact ⟨rfl, rfl⟩

theorem toList_quote (s : String) :
    (quote s).toList = '"' :: (s.toList.flatMap escapeChar ++ ['"']) := by
  rw [quote, String.toList_ofList]
  rfl

theorem quote_append_inj {a b : String} {s t : List Char}
    (h : (quote a).toList ++ s = (quote b).toList ++ t) : a = b ∧ s = t := by
  rw [toList_quote, toList_quote, List.cons_append, List.cons_append, List.append_assoc,
    List.append_assoc] at h
  obtain ⟨hchars, hrest⟩ := flatMap_escapeChar_append_inj (List.cons.inj h).2
  exact ⟨String.toList_inj.1 hchars, hrest⟩

/-! ## Numbers -/

/-- No digit comes first. -/
def NoDigit (s : List Char) : Prop := ∀ c ∈ s.head?, c.isDigit = false

theorem noDigit_cons {c : Char} (h : c.isDigit = false) (s : List Char) : NoDigit (c :: s) := by
  intro d hd
  obtain rfl : c = d := Option.some.inj hd
  exact h

/-- A number ends where the digits do. -/
theorem toDigits_append_inj {m n : Nat} {s t : List Char} (hs : NoDigit s) (ht : NoDigit t)
    (h : Nat.toDigits 10 m ++ s = Nat.toDigits 10 n ++ t) : m = n ∧ s = t := by
  have htake (k : Nat) {u : List Char} (hu : NoDigit u) :
      (Nat.toDigits 10 k ++ u).takeWhile Char.isDigit = Nat.toDigits 10 k := by
    have hnone : u.takeWhile Char.isDigit = [] := by
      cases u with
      | nil => rfl
      | cons c u => exact List.takeWhile_cons_of_neg (by rw [hu c rfl]; exact Bool.false_ne_true)
    rw [List.takeWhile_append_of_pos fun c hc => Nat.isDigit_of_mem_toDigits (by decide)
      (by decide) hc, hnone, List.append_nil]
  have hdigits : Nat.toDigits 10 m = Nat.toDigits 10 n := by rw [← htake m hs, h, htake n ht]
  have hmn : m = n := by
    rw [← Nat.ofDigitChars_ten_toDigits (n := m), hdigits, Nat.ofDigitChars_ten_toDigits]
  subst hmn
  exact ⟨rfl, List.append_cancel_left h⟩

/-! ## Lists and records -/

section Parts

variable {α : Type} {f : α → List Char} {close : Char}

/-- The parts, with commas between them. -/
def joined (f : α → List Char) (xs : List α) : List Char := [','].intercalate (xs.map f)

theorem joined_cons (f : α → List Char) (x : α) (xs : List α) :
    joined f (x :: xs) = f x ++ if xs = [] then [] else ',' :: joined f xs := by
  cases xs with
  | nil => rw [joined, List.map_singleton, List.intercalate_singleton, if_pos rfl, List.append_nil]
  | cons y xs =>
    rw [joined, List.map_cons, List.map_cons, List.intercalate_cons_cons, if_neg (by simp), joined,
      List.map_cons, List.append_assoc]
    rfl

/-- Parts that can be told from what follows them can be told one after the other. -/
theorem joined_append_inj (hclose : close.isDigit = false) (hcomma : close ≠ ',') {xs ys : List α}
    (hf : ∀ x ∈ xs, ∀ y s t, NoDigit s → NoDigit t → f x ++ s = f y ++ t → x = y ∧ s = t)
    (hfirst : ∀ x, ∃ c rest, f x = c :: rest ∧ c ≠ close) {s t : List Char}
    (h : joined f xs ++ close :: s = joined f ys ++ close :: t) : xs = ys ∧ s = t := by
  have hopen {x : α} {xs : List α} {s t : List Char}
      (h : close :: s = joined f (x :: xs) ++ t) : False := by
    obtain ⟨c, rest, hx, hne⟩ := hfirst x
    rw [joined_cons, hx] at h
    exact hne (List.cons.inj h).1.symm
  have hfollows (zs : List α) (u : List Char) :
      NoDigit ((if zs = [] then [] else ',' :: joined f zs) ++ close :: u) := by
    split
    · exact noDigit_cons hclose u
    · exact noDigit_cons (by decide) _
  induction xs generalizing ys with
  | nil =>
    cases ys with
    | nil => exact ⟨rfl, (List.cons.inj h).2⟩
    | cons y ys => exact (hopen h).elim
  | cons x xs ih =>
    cases ys with
    | nil => exact (hopen h.symm).elim
    | cons y ys =>
      rw [joined_cons, joined_cons, List.append_assoc, List.append_assoc] at h
      obtain ⟨rfl, hrest⟩ := hf x List.mem_cons_self y _ _ (hfollows xs s) (hfollows ys t) h
      by_cases hxs : xs = []
      · by_cases hys : ys = []
        · rw [if_pos hxs, if_pos hys] at hrest
          exact ⟨by rw [hxs, hys], (List.cons.inj hrest).2⟩
        · rw [if_pos hxs, if_neg hys] at hrest
          exact absurd (List.cons.inj hrest).1 hcomma
      · by_cases hys : ys = []
        · rw [if_neg hxs, if_pos hys] at hrest
          exact absurd (List.cons.inj hrest).1.symm hcomma
        · rw [if_neg hxs, if_neg hys] at hrest
          obtain ⟨rfl, rfl⟩ := ih (fun x' hmem => hf x' (List.mem_cons_of_mem x hmem))
            (List.cons.inj hrest).2
          exact ⟨rfl, rfl⟩

end Parts

/-- A field of a record. -/
def fieldChars (field : String × Json) : List Char :=
  (quote field.1).toList ++ ':' :: field.2.compact.toList

theorem map_compactItems (items : List Json) :
    (compactItems items).map String.toList = items.map fun v => v.compact.toList := by
  induction items with
  | nil => rw [compactItems, List.map_nil, List.map_nil]
  | cons v items ih => rw [compactItems, List.map_cons, List.map_cons, ih]

theorem map_compactFields (fields : List (String × Json)) :
    (compactFields fields).map String.toList = fields.map fieldChars := by
  induction fields with
  | nil => rw [compactFields, List.map_nil, List.map_nil]
  | cons field fields ih =>
    obtain ⟨k, v⟩ := field
    rw [compactFields, List.map_cons, List.map_cons, ih, fieldChars, String.toList_append,
      String.toList_append, List.append_assoc]
    rfl

theorem toList_compact_list (items : List Json) :
    (list items).compact.toList =
      '[' :: (joined (fun v => v.compact.toList) items ++ [']']) := by
  rw [compact, String.toList_append, String.toList_append, String.toList_intercalate,
    map_compactItems]
  rfl

theorem toList_compact_record (fields : List (String × Json)) :
    (record fields).compact.toList = '\x7b' :: (joined fieldChars fields ++ ['\x7d']) := by
  rw [compact, String.toList_append, String.toList_append, String.toList_intercalate,
    map_compactFields]
  rfl

/-! ## Values -/

/-- Which kind a value is of. -/
def kind : Json → Nat
  | null => 0
  | number _ => 1
  | text _ => 2
  | list _ => 3
  | record _ => 4

/-- Which kind of value a character begins. -/
def kindOf (c : Char) : Nat :=
  if c.isDigit then 1
  else if c = 'n' then 0
  else if c = '"' then 2
  else if c = '[' then 3
  else if c = '\x7b' then 4
  else 5

theorem exists_compact_eq (v : Json) :
    ∃ c rest, v.compact.toList = c :: rest ∧ kindOf c = v.kind := by
  cases v with
  | null => exact ⟨'n', _, by rw [compact]; rfl, by decide⟩
  | number n =>
    have hne : Nat.toDigits 10 n ≠ [] := Nat.toDigits_ne_nil
    obtain ⟨c, rest, hdigits⟩ := List.exists_cons_of_ne_nil hne
    have hdigit : c.isDigit = true :=
      Nat.isDigit_of_mem_toDigits (by decide) (by decide) (hdigits ▸ List.mem_cons_self)
    refine ⟨c, rest, ?_, by rw [kindOf, if_pos hdigit, kind]⟩
    rw [compact, Nat.toString_eq_repr, Nat.toList_repr, hdigits]
  | text s => exact ⟨'"', _, by rw [compact]; exact toList_quote s, rfl⟩
  | list items => exact ⟨'[', _, toList_compact_list items, rfl⟩
  | record fields => exact ⟨'\x7b', _, toList_compact_record fields, rfl⟩

/-- Where the text of a value ends, unless a digit follows, and which value it is. -/
theorem compact_append_inj {a b : Json} {s t : List Char} (hs : NoDigit s) (ht : NoDigit t)
    (h : a.compact.toList ++ s = b.compact.toList ++ t) : a = b ∧ s = t := by
  have hkind : a.kind = b.kind := by
    obtain ⟨c, rest, ha, hc⟩ := exists_compact_eq a
    obtain ⟨d, rest', hb, hd⟩ := exists_compact_eq b
    rw [ha, hb] at h
    rw [← hc, ← hd, (List.cons.inj h).1]
  revert h hkind
  match ha : a with
  | null =>
    intro h hkind
    cases b with
    | null => exact ⟨rfl, List.append_cancel_left h⟩
    | _ => cases hkind
  | number m =>
    intro h hkind
    cases b with
    | number n =>
      rw [compact, compact, Nat.toString_eq_repr, Nat.toString_eq_repr, Nat.toList_repr,
        Nat.toList_repr] at h
      obtain ⟨rfl, rfl⟩ := toDigits_append_inj hs ht h
      exact ⟨rfl, rfl⟩
    | _ => cases hkind
  | text x =>
    intro h hkind
    cases b with
    | text y =>
      rw [compact, compact] at h
      obtain ⟨rfl, rfl⟩ := quote_append_inj h
      exact ⟨rfl, rfl⟩
    | _ => cases hkind
  | list xs =>
    intro h hkind
    cases b with
    | list ys =>
      rw [toList_compact_list, toList_compact_list, List.cons_append, List.cons_append,
        List.append_assoc, List.append_assoc] at h
      have hitem : ∀ x ∈ xs, ∀ y s t, NoDigit s → NoDigit t →
          x.compact.toList ++ s = y.compact.toList ++ t → x = y ∧ s = t :=
        fun x hmem y s t hs ht h => compact_append_inj hs ht h
      have hfirst (x : Json) : ∃ c rest, x.compact.toList = c :: rest ∧ c ≠ ']' := by
        obtain ⟨c, rest, hx, hc⟩ := exists_compact_eq x
        refine ⟨c, rest, hx, ?_⟩
        rintro rfl
        cases x <;> cases hc
      obtain ⟨rfl, hrest⟩ :=
        joined_append_inj (by decide) (by decide) hitem hfirst (List.cons.inj h).2
      exact ⟨rfl, hrest⟩
    | _ => cases hkind
  | record xs =>
    intro h hkind
    cases b with
    | record ys =>
      rw [toList_compact_record, toList_compact_record, List.cons_append, List.cons_append,
        List.append_assoc, List.append_assoc] at h
      have hfield : ∀ x ∈ xs, ∀ y s t, NoDigit s → NoDigit t →
          fieldChars x ++ s = fieldChars y ++ t → x = y ∧ s = t := by
        rintro ⟨k, v⟩ hmem ⟨k', v'⟩ s t hs ht h
        rw [fieldChars, fieldChars, List.append_assoc, List.append_assoc] at h
        obtain ⟨hk, hrest⟩ := quote_append_inj h
        obtain ⟨hv, hst⟩ := compact_append_inj hs ht (List.cons.inj hrest).2
        exact ⟨Prod.ext hk hv, hst⟩
      have hfirst (x : String × Json) : ∃ c rest, fieldChars x = c :: rest ∧ c ≠ '\x7d' := by
        rw [fieldChars, toList_quote]
        exact ⟨'"', _, rfl, by decide⟩
      obtain ⟨rfl, hrest⟩ :=
        joined_append_inj (by decide) (by decide) hfield hfirst (List.cons.inj h).2
      exact ⟨rfl, hrest⟩
    | _ => cases hkind
termination_by a
decreasing_by
  · have hlt := List.sizeOf_lt_of_mem hmem
    rw [ha, list.sizeOf_spec]
    omega
  · have hlt := List.sizeOf_lt_of_mem hmem
    rw [Prod.mk.sizeOf_spec] at hlt
    rw [ha, record.sizeOf_spec]
    omega

/-- No two values have the same compact text. -/
theorem compact_injective {a b : Json} (h : a.compact = b.compact) : a = b :=
  (compact_append_inj (s := []) (t := []) nofun nofun (by rw [h])).1

/-! ## What may be missing -/

theorem ofText?_injective {a b : Option String} (h : ofText? a = ofText? b) : a = b := by
  cases a <;> cases b <;> cases h <;> rfl

theorem ofNat?_injective {a b : Option Nat} (h : ofNat? a = ofNat? b) : a = b := by
  cases a <;> cases b <;> cases h <;> rfl

end Json

end GrantLedger
