import Mathlib.Data.List.Basic
import Mathlib.Data.List.TakeWhile
import Mathlib.Data.Nat.Digits.Lemmas
import GrantLedger.Address
import GrantLedger.Event

/-!
# The text of an address names one account

Base58 text is a change of radix: the digits of the text stand for the same number as the bytes of
the address, and there are as many zeros in front (`Base58.StandsFor`). Both together determine the
bytes, and they determine the text as well. So a text reads back as its address, nothing but the
text of an address reads as this address, and every other text fails for what it stands for
(`Address.one_text_for_each`).
-/

namespace GrantLedger

namespace Radix

theorem ofDigits_replicate_append (base n : Nat) (ds : List Nat) :
    ofDigits base (List.replicate n 0 ++ ds) = ofDigits base ds := by
  induction n with
  | zero => rfl
  | succ n ih => simpa [List.replicate_succ, ofDigits] using ih

theorem ofDigits_transcode {source target : Nat} (two_le : 2 ≤ target) (ds : List Nat) :
    ofDigits target (transcode source target ds) = ofDigits source ds := by
  rw [transcode, ofDigits_replicate_append, ofDigits_digits two_le]

theorem ofDigits_eq (base : Nat) (ds : List Nat) :
    ofDigits base ds = Nat.ofDigits base ds.reverse := by
  rw [Nat.ofDigits_eq_foldr, List.foldr_reverse, ofDigits]
  congr
  funext n d
  rw [Nat.cast_id, Nat.mul_comm, Nat.add_comm]

theorem digitsLow_eq {base : Nat} (two_le : 2 ≤ base) {k n : Nat} (h : n < Nat.pow 2 k) :
    digitsLow base k n = Nat.digits base n := by
  induction k generalizing n with
  | zero =>
    obtain rfl : n = 0 := Nat.lt_one_iff.1 h
    rw [digitsLow, Nat.digits_zero]
  | succ k ih =>
    rw [digitsLow]
    split
    · next hn => rw [hn, Nat.digits_zero]
    · next hn =>
      have half : n / base < Nat.pow 2 k := by
        have := Nat.div_le_div_left two_le (by decide) (a := n)
        change n < Nat.pow 2 k * 2 at h
        omega
      rw [ih half, Nat.digits_def' two_le (Nat.pos_of_ne_zero hn)]

theorem digits_eq {base : Nat} (two_le : 2 ≤ base) (n : Nat) :
    digits base n = (Nat.digits base n).reverse := by
  rw [digits, digitsLow_eq two_le Nat.lt_log2_self]

theorem transcode_lt {source target : Nat} (two_le : 2 ≤ target) (ds : List Nat) :
    ∀ d ∈ transcode source target ds, d < target := by
  intro d hd
  rcases List.mem_append.1 hd with hd | hd
  · rw [List.eq_of_mem_replicate hd]
    exact Nat.lt_of_lt_of_le Nat.two_pos two_le
  · rw [digits_eq two_le, List.mem_reverse] at hd
    exact Nat.digits_lt_base two_le hd

/-- No digit in front is zero. -/
theorem takeWhile_digits {base : Nat} (two_le : 2 ≤ base) (n : Nat) :
    (digits base n).takeWhile (· == 0) = [] := by
  rw [digits_eq two_le]
  by_cases hn : n = 0
  · rw [hn, Nat.digits_zero]
    rfl
  · have hne : Nat.digits base n ≠ [] := Nat.digits_ne_nil_iff_ne_zero.2 hn
    have hlast := Nat.getLast_digit_ne_zero base hn
    rw [← List.dropLast_append_getLast hne, List.reverse_append]
    exact List.takeWhile_cons_of_neg (by simpa using hlast)

/-- Digits are found again from their number and from the zeros in front of them. -/
theorem digits_ofDigits {base : Nat} (two_le : 2 ≤ base) {ds : List Nat}
    (hd : ∀ d ∈ ds, d < base) (hfront : ds.takeWhile (· == 0) = []) :
    digits base (ofDigits base ds) = ds := by
  rw [digits_eq two_le, ofDigits_eq, Nat.digits_ofDigits base two_le ds.reverse,
    List.reverse_reverse]
  · exact fun d hmem => hd d (List.mem_reverse.1 hmem)
  · intro hne hzero
    cases ds with
    | nil => exact hne rfl
    | cons d ds =>
      rw [List.getLast_reverse, List.head_cons] at hzero
      rw [hzero] at hfront
      cases hfront

/-- A change of radix keeps the zeros in front. -/
theorem length_takeWhile_transcode {source target : Nat} (htarget : 2 ≤ target) (ds : List Nat) :
    ((transcode source target ds).takeWhile (· == 0)).length =
      (ds.takeWhile (· == 0)).length := by
  have hall : ∀ d ∈ List.replicate (ds.takeWhile (· == 0)).length 0, (d == 0) = true :=
    fun d hmem => by rw [List.eq_of_mem_replicate hmem]; rfl
  rw [transcode, List.takeWhile_append_of_pos hall, takeWhile_digits htarget, List.append_nil,
    List.length_replicate]

/-- A list of digits is the zeros in front of it and the digits of its number. -/
theorem zeros_append_digits {base : Nat} (two_le : 2 ≤ base) {ds : List Nat}
    (hd : ∀ d ∈ ds, d < base) :
    List.replicate (ds.takeWhile (· == 0)).length 0 ++ digits base (ofDigits base ds) = ds := by
  have hfront : ds.takeWhile (· == 0) = List.replicate (ds.takeWhile (· == 0)).length 0 := by
    refine List.eq_replicate_iff.2 ⟨rfl, fun d hmem => ?_⟩
    simpa using List.mem_takeWhile_imp hmem
  have hrear : digits base (ofDigits base ds) = ds.dropWhile (· == 0) := by
    conv_lhs => rw [← List.takeWhile_append_dropWhile (p := (· == 0)) (l := ds), hfront]
    rw [ofDigits_replicate_append, digits_ofDigits two_le]
    · exact fun d hmem => hd d (List.dropWhile_sublist _ |>.subset hmem)
    · exact List.takeWhile_eq_nil_iff.2 (List.dropWhile_get_zero_not _ ds)
  rw [hrear, ← hfront, List.takeWhile_append_dropWhile]

/-- Digits in another radix are known from their number and from the zeros in front of them. -/
theorem transcode_eq_iff {source target : Nat} (htarget : 2 ≤ target) {ds es : List Nat}
    (he : ∀ d ∈ es, d < target) :
    transcode source target ds = es ↔
      ofDigits source ds = ofDigits target es ∧
        (ds.takeWhile (· == 0)).length = (es.takeWhile (· == 0)).length := by
  constructor
  · rintro rfl
    exact ⟨(ofDigits_transcode htarget ds).symm, (length_takeWhile_transcode htarget ds).symm⟩
  · rintro ⟨hnumber, hfront⟩
    rw [transcode, hnumber, hfront, zeros_append_digits htarget he]

/-- A change of radix and back. -/
theorem transcode_transcode {source target : Nat} (hsource : 2 ≤ source) (htarget : 2 ≤ target)
    {ds : List Nat} (hd : ∀ d ∈ ds, d < source) :
    transcode target source (transcode source target ds) = ds :=
  (transcode_eq_iff hsource hd).2
    ⟨ofDigits_transcode htarget ds, length_takeWhile_transcode htarget ds⟩

end Radix

namespace Base58

theorem value?_digit : ∀ n < 58, value? (digit n) = some n := by decide

theorem mapM_value? {ds : List Nat} (hd : ∀ d ∈ ds, d < 58) :
    (ds.map digit).mapM value? = some ds := by
  induction ds with
  | nil => rfl
  | cons d ds ih =>
    rw [List.map_cons, List.mapM_cons, value?_digit d (hd d List.mem_cons_self),
      ih fun d' hmem => hd d' (List.mem_cons_of_mem d hmem)]
    rfl

theorem value?_eq (c : Char) :
    value? c = if c ∈ alphabet then some (alphabet.idxOf c) else none := by
  by_cases hc : c ∈ alphabet
  · obtain ⟨n, hn⟩ := Option.isSome_iff_exists.1 (List.isSome_idxOf?.2 hc)
    rw [value?, if_pos hc, List.idxOf_eq_getD_idxOf?, hn, Option.getD_some]
  · rw [value?, if_neg hc, List.idxOf?_eq_none_iff.2 hc]

theorem mapM_value?_eq_some_iff {cs : List Char} {ds : List Nat} :
    cs.mapM value? = some ds ↔ (∀ c ∈ cs, c ∈ alphabet) ∧ cs.map (alphabet.idxOf ·) = ds := by
  induction cs generalizing ds with
  | nil => simp [eq_comm]
  | cons c cs ih =>
    rw [List.mapM_cons, value?_eq, List.forall_mem_cons, List.map_cons]
    by_cases hc : c ∈ alphabet
    · rw [if_pos hc, and_iff_right hc]
      cases hrest : cs.mapM value? with
      | none =>
        have hbad : ¬ ∀ c ∈ cs, c ∈ alphabet := fun h => by simpa [hrest] using ih.2 ⟨h, rfl⟩
        simp [hbad]
      | some ds' =>
        obtain ⟨hgood, rfl⟩ := ih.1 hrest
        simp [and_iff_right hgood]
    · simp [hc]

theorem idxOf_lt {c : Char} (hc : c ∈ alphabet) : alphabet.idxOf c < 58 :=
  List.idxOf_lt_length_iff.2 hc

theorem digit_idxOf {c : Char} (hc : c ∈ alphabet) : digit (alphabet.idxOf c) = c := by
  rw [digit, List.getD_eq_getElem?_getD, List.getElem?_idxOf hc, Option.getD_some]

/-- The text stands for the bytes: all its characters are digits, it says the same number as the
bytes do in radix 256, and it has a `1`, the digit zero, in front for each zero byte in front. -/
structure StandsFor (s : String) (b : Bytes) : Prop where
  chars : ∀ c ∈ s.toList, c ∈ alphabet
  number : Radix.ofDigits 58 (s.toList.map (alphabet.idxOf ·)) =
    Radix.ofDigits 256 (b.map UInt8.toNat)
  front : (s.toList.takeWhile (· == '1')).length = (b.takeWhile (· == 0)).length

theorem length_takeWhile_map_idxOf (cs : List Char) :
    ((cs.map (alphabet.idxOf ·)).takeWhile (· == 0)).length =
      (cs.takeWhile (· == '1')).length := by
  have hone : ((fun n : Nat => n == 0) ∘ fun c => alphabet.idxOf c) = fun c => c == '1' := by
    funext c
    obtain ⟨later, hlater⟩ : ∃ later, alphabet = '1' :: later := ⟨_, rfl⟩
    rw [Function.comp_apply, hlater, List.idxOf_cons, Bool.beq_comm (a := c)]
    cases '1' == c <;> rfl
  rw [List.takeWhile_map, List.length_map, hone]

theorem length_takeWhile_map_toNat (b : Bytes) :
    ((b.map UInt8.toNat).takeWhile (· == 0)).length = (b.takeWhile (· == 0)).length := by
  have hzero : ((fun n : Nat => n == 0) ∘ UInt8.toNat) = fun x => x == 0 := by
    funext x
    rw [Function.comp_apply, Bool.eq_iff_iff, beq_iff_eq, beq_iff_eq, ← UInt8.toNat_inj]
    rfl
  rw [List.takeWhile_map, List.length_map, hzero]

theorem toNat_lt (b : Bytes) : ∀ d ∈ b.map UInt8.toNat, d < 256 := by
  intro d hd
  obtain ⟨x, -, rfl⟩ := List.mem_map.1 hd
  exact x.toNat_lt

theorem map_ofNat_eq_iff {ds : List Nat} (hd : ∀ d ∈ ds, d < 256) {b : Bytes} :
    ds.map UInt8.ofNat = b ↔ ds = b.map UInt8.toNat := by
  constructor
  · rintro rfl
    rw [List.map_map]
    refine (List.map_id ds).symm.trans (List.map_congr_left fun d hmem => ?_)
    exact (UInt8.toNat_ofNat_of_lt (hd d hmem)).symm
  · rintro rfl
    rw [List.map_map]
    exact (List.map_congr_left fun x _ => UInt8.ofNat_toNat).trans (List.map_id b)

/-- Base58 text reads as the bytes that it stands for. -/
theorem decode?_eq_some_iff {s : String} {b : Bytes} : decode? s = some b ↔ StandsFor s b := by
  have hbytes (ds : List Nat) :
      (Radix.transcode 58 256 ds).map UInt8.ofNat = b ↔
        Radix.ofDigits 58 ds = Radix.ofDigits 256 (b.map UInt8.toNat) ∧
          (ds.takeWhile (· == 0)).length = (b.takeWhile (· == 0)).length := by
    rw [map_ofNat_eq_iff (Radix.transcode_lt (by decide) ds),
      Radix.transcode_eq_iff (by decide) (toNat_lt b), length_takeWhile_map_toNat]
  rw [decode?, Option.map_eq_some_iff]
  simp only [mapM_value?_eq_some_iff, hbytes]
  constructor
  · rintro ⟨_, ⟨hchars, rfl⟩, hnumber, hfront⟩
    exact ⟨hchars, hnumber, by rw [← hfront, length_takeWhile_map_idxOf]⟩
  · rintro ⟨hchars, hnumber, hfront⟩
    exact ⟨_, ⟨hchars, rfl⟩, hnumber, by rw [length_takeWhile_map_idxOf, hfront]⟩

/-- What is written as base58 text reads back. -/
theorem decode?_encode (b : Bytes) : decode? (encode b) = some b := by
  rw [decode?, encode, String.toList_ofList, mapM_value? (Radix.transcode_lt (by decide) _),
    Option.map_some, Radix.transcode_transcode (by decide) (by decide) (toNat_lt b),
    (map_ofNat_eq_iff (toNat_lt b)).2 rfl]

/-- Bytes are written as the one text that stands for them. -/
theorem encode_eq_iff {s : String} {b : Bytes} : encode b = s ↔ StandsFor s b := by
  constructor
  · rintro rfl
    exact decode?_eq_some_iff.1 (decode?_encode b)
  · rintro ⟨hchars, hnumber, hfront⟩
    have hdigits : ∀ d ∈ s.toList.map (alphabet.idxOf ·), d < 58 := by
      intro d hd
      obtain ⟨c, hc, rfl⟩ := List.mem_map.1 hd
      exact idxOf_lt (hchars c hc)
    have htranscode : Radix.transcode 256 58 (b.map UInt8.toNat) =
        s.toList.map (alphabet.idxOf ·) := by
      rw [Radix.transcode_eq_iff (by decide) hdigits, length_takeWhile_map_toNat,
        length_takeWhile_map_idxOf]
      exact ⟨hnumber.symm, hfront.symm⟩
    have hback : (s.toList.map (alphabet.idxOf ·)).map digit = s.toList := by
      rw [List.map_map]
      exact (List.map_congr_left fun c hc => digit_idxOf (hchars c hc)).trans (List.map_id _)
    rw [encode, htranscode, hback, String.ofList_toList]

/-- A text cannot be read exactly if it has a character outside the alphabet. -/
theorem decode?_eq_none_iff {s : String} :
    decode? s = none ↔ ∃ c ∈ s.toList, c ∉ alphabet := by
  rw [decode?, Option.map_eq_none_iff, Option.eq_none_iff_forall_ne_some]
  constructor
  · intro h
    by_contra hgood
    push Not at hgood
    exact h _ (mapM_value?_eq_some_iff.2 ⟨hgood, rfl⟩)
  · rintro ⟨c, hc, hbad⟩ ds hds
    exact hbad ((mapM_value?_eq_some_iff.1 hds).1 c hc)

end Base58

theorem Address.toText_ne_empty (a : Address) : a.toText ≠ "" := by
  intro h
  have hread := Base58.decode?_encode a.bytes
  rw [toText] at h
  rw [h] at hread
  have hlength : a.bytes.length = 0 := congrArg List.length (Option.some.inj hread).symm
  rw [a.length_eq] at hlength
  cases hlength

theorem Address.parse_toText (a : Address) : parse a.toText = .ok a := by
  rw [parse, if_neg a.toText_ne_empty, toText, Base58.decode?_encode]
  dsimp only
  rw [ofBytes?_bytes]

theorem Address.toText_injective {a b : Address} (h : a.toText = b.toText) : a = b :=
  Except.ok.inj (by rw [← parse_toText a, h, parse_toText])

/-! ## One text for each account -/

namespace Address

variable {s t : String} {a : Address} {n : Nat}

theorem ofBytes?_eq_none_iff {b : Bytes} : ofBytes? b = none ↔ b.length ≠ size := by
  rw [ofBytes?, size]
  split <;> simpa

theorem parse_eq_ok_iff : parse s = .ok a ↔ a.toText = s := by
  constructor
  · intro h
    rw [parse] at h
    split at h
    · cases h
    · split at h
      · cases h
      · next b hb =>
        split at h
        · cases h
        · next a' ha =>
          cases h
          rw [toText, bytes_of_ofBytes? ha]
          exact Base58.encode_eq_iff.2 (Base58.decode?_eq_some_iff.1 hb)
  · rintro rfl
    exact parse_toText a

theorem parse_eq_empty_iff : parse s = .error .empty ↔ s = "" := by
  rw [parse]
  split
  · next hs => exact iff_of_true rfl hs
  · next hs =>
    refine iff_of_false (fun h => ?_) hs
    split at h
    · cases h
    · split at h <;> cases h

theorem parse_eq_encoding_iff :
    parse s = .error (.encoding t) ↔ t = s ∧ ∃ c ∈ s.toList, c ∉ Base58.alphabet := by
  rw [← Base58.decode?_eq_none_iff, parse]
  split
  · next hs =>
    subst hs
    exact iff_of_false nofun fun h => nomatch h.2
  · split
    · next hnone => simp [hnone, eq_comm]
    · next b hb =>
      refine iff_of_false (fun h => ?_) fun h => by simp [hb] at h
      split at h <;> cases h

theorem parse_eq_length_iff :
    parse s = .error (.length t n) ↔
      t = s ∧ s ≠ "" ∧ n ≠ size ∧ ∃ b, Base58.StandsFor s b ∧ b.length = n := by
  simp only [← Base58.decode?_eq_some_iff]
  rw [parse]
  split
  · next hs => exact iff_of_false nofun fun h => h.2.1 hs
  · next hs =>
    split
    · next hnone => simp [hnone]
    · next b hb =>
      simp only [hb, Option.some.injEq, exists_eq_left']
      split
      · next hnone =>
        have hsize := ofBytes?_eq_none_iff.1 hnone
        simp only [Except.error.injEq, AddressError.length.injEq]
        constructor
        · rintro ⟨rfl, rfl⟩
          exact ⟨rfl, hs, hsize, rfl⟩
        · rintro ⟨rfl, -, -, rfl⟩
          exact ⟨rfl, rfl⟩
      · next a ha =>
        have hsize : b.length = size := bytes_of_ofBytes? ha ▸ a.length_eq
        exact iff_of_false nofun fun h => h.2.2.1 (h.2.2.2 ▸ hsize)

/-- Every account has one text, the base58 form of its bytes, and no other text is read as an
account. What is not read is empty, has a character outside the alphabet, or stands for another
number of bytes than an address has, which is then named. -/
theorem one_text_for_each :
    (∀ s (a : Address), parse s = .ok a ↔ a.toText = s) ∧
      (∀ a : Address, Base58.StandsFor a.toText a.bytes) ∧
      (∀ s, parse s = .error .empty ↔ s = "") ∧
      (∀ s t, parse s = .error (.encoding t) ↔ t = s ∧ ∃ c ∈ s.toList, c ∉ Base58.alphabet) ∧
      ∀ s t n, parse s = .error (.length t n) ↔
        t = s ∧ s ≠ "" ∧ n ≠ size ∧ ∃ b, Base58.StandsFor s b ∧ b.length = n :=
  ⟨fun _ _ => parse_eq_ok_iff, fun _ => Base58.encode_eq_iff.1 rfl, fun _ => parse_eq_empty_iff,
    fun _ _ => parse_eq_encoding_iff, fun _ _ _ => parse_eq_length_iff⟩

end Address

/-- An event about a grant tells what happened and to which grant. -/
theorem Event.aboutGrant_injective {kind kind' url url' : String}
    {granter granter' grantee grantee' : Address}
    (h : aboutGrant kind url granter grantee = aboutGrant kind' url' granter' grantee') :
    kind = kind' ∧ url = url' ∧ granter = granter' ∧ grantee = grantee' := by
  simp only [aboutGrant, Event.mk.injEq, List.cons.injEq, Prod.mk.injEq, true_and, and_true] at h
  exact ⟨h.1, h.2.1, Address.toText_injective h.2.2.1, Address.toText_injective h.2.2.2⟩

end GrantLedger
