import GrantLedger.Codec

/-!
# Laws of the canonical encoding

A codec is lawful if reading gives back what was written, with whatever follows it left over, and if
only what is written as a value is read as that value. The codecs of compound types inherit both
laws from those of their parts. Numbers take eight bytes, so lengths count only below the number of
64-bit words; the size cap of `Codec.decode` keeps every input below that.
-/

namespace GrantLedger

@[simp] theorem length_lowBytes (k n : Nat) : (lowBytes k n).length = k := by
  induction k generalizing n with
  | zero => rfl
  | succ k ih => simp [lowBytes, ih]

theorem ofLowBytes_lowBytes {k n : Nat} (h : n < Nat.pow 256 k) :
    ofLowBytes (lowBytes k n) = n := by
  induction k generalizing n with
  | zero =>
    change n < 1 at h
    simp [lowBytes, ofLowBytes]
    omega
  | succ k ih =>
    change n < Nat.pow 256 k * 256 at h
    have hdiv : n / 256 < Nat.pow 256 k := by omega
    simp only [lowBytes, ofLowBytes, ih hdiv, UInt8.toNat_ofNat']
    omega

theorem ofLowBytes_lt (b : Bytes) : ofLowBytes b < Nat.pow 256 b.length := by
  induction b with
  | nil => decide
  | cons x b ih =>
    have hx := x.toNat_lt
    change x.toNat + 256 * ofLowBytes b < Nat.pow 256 b.length * 256
    omega

theorem lowBytes_ofLowBytes (b : Bytes) : lowBytes b.length (ofLowBytes b) = b := by
  induction b with
  | nil => rfl
  | cons x b ih =>
    have hx := x.toNat_lt
    have hlow : UInt8.ofNat (x.toNat + 256 * ofLowBytes b) = x := by
      apply UInt8.toNat_inj.1
      rw [UInt8.toNat_ofNat']
      omega
    have hhigh : (x.toNat + 256 * ofLowBytes b) / 256 = ofLowBytes b := by omega
    simp only [List.length_cons, lowBytes, ofLowBytes, hlow, hhigh, ih]

namespace Codec

variable {α β : Type}

/-- Reading undoes writing, and nothing but what is written as a value is read as that value. -/
structure Lawful (c : Codec α) : Prop where
  /-- What was written is read back, and what follows it is left over. -/
  read_write : ∀ (v : α) (rest : Bytes), (c.write v).length < UInt64.size →
    c.read (c.write v ++ rest) = some (v, rest)
  /-- What is read as a value is what the value is written as. -/
  write_read : ∀ {b : Bytes} {v : α} {rest : Bytes}, c.read b = some (v, rest) →
    c.write v ++ rest = b

theorem take_append {a rest : Bytes} {n : Nat} (h : a.length = n) :
    take n (a ++ rest) = some (a, rest) := by
  subst h
  simp [take]

theorem append_of_take {n : Nat} {b x rest : Bytes} (h : take n b = some (x, rest)) :
    x.length = n ∧ x ++ rest = b := by
  unfold take at h
  split at h
  · next hn =>
    cases h
    exact ⟨by rw [List.length_take]; omega, List.take_append_drop n b⟩
  · cases h

theorem write_u64 (n : UInt64) : u64.write n = lowBytes 8 n.toNat := rfl

theorem read_u64 (b : Bytes) :
    u64.read b = (take 8 b).map fun p => (UInt64.ofNat (ofLowBytes p.1), p.2) := rfl

theorem lawful_u64 : u64.Lawful where
  read_write n rest _ := by
    have hn : n.toNat < Nat.pow 256 8 := n.toNat_lt
    rw [read_u64, write_u64, take_append (length_lowBytes 8 _)]
    simp [ofLowBytes_lowBytes hn]
  write_read {b n rest} h := by
    rw [read_u64] at h
    obtain ⟨⟨x, r⟩, ht, he⟩ := Option.map_eq_some_iff.1 h
    obtain ⟨rfl, rfl⟩ := Prod.mk.inj he
    obtain ⟨hlen, rfl⟩ := append_of_take ht
    have hx : ofLowBytes x < Nat.pow 256 8 := hlen ▸ ofLowBytes_lt x
    rw [write_u64, UInt64.toNat_ofNat_of_lt' hx, ← hlen, lowBytes_ofLowBytes]

theorem lawful_bool : bool.Lawful where
  read_write v rest _ := by
    cases v <;> rfl
  write_read {b v rest} h := by
    simp only [Codec.bool] at h
    split at h
    · cases h
      rfl
    · cases h
      rfl
    · cases h

theorem write_bytes (v : Bytes) : bytes.write v = u64.write (UInt64.ofNat v.length) ++ v := rfl

theorem read_bytes (b : Bytes) :
    bytes.read b = (u64.read b).bind fun p => take p.1.toNat p.2 := rfl

theorem lawful_bytes : bytes.Lawful where
  read_write v rest h := by
    have hv : v.length < UInt64.size := by
      rw [write_bytes, List.length_append] at h
      omega
    have hn : (u64.write (UInt64.ofNat v.length)).length < UInt64.size := by
      rw [write_u64, length_lowBytes]
      decide
    rw [read_bytes, write_bytes, List.append_assoc, lawful_u64.read_write _ _ hn]
    exact take_append (UInt64.toNat_ofNat_of_lt' hv).symm
  write_read {b v rest} h := by
    rw [read_bytes] at h
    obtain ⟨⟨n, r⟩, hn, ht⟩ := Option.bind_eq_some_iff.1 h
    obtain ⟨hlen, rfl⟩ := append_of_take ht
    have hlen' : UInt64.ofNat v.length = n := by rw [hlen, UInt64.ofNat_toNat]
    rw [write_bytes, hlen', List.append_assoc, lawful_u64.write_read hn]

theorem write_text (s : String) : text.write s = bytes.write (.ofText s) := rfl

theorem read_text (b : Bytes) :
    text.read b = (bytes.read b).bind fun p => (Bytes.text? p.1).bind fun s => some (s, p.2) := rfl

theorem lawful_text : text.Lawful where
  read_write s rest h := by
    rw [read_text, write_text, lawful_bytes.read_write _ _ h]
    simp
  write_read {b s rest} h := by
    rw [read_text] at h
    obtain ⟨⟨x, r⟩, hx, h⟩ := Option.bind_eq_some_iff.1 h
    obtain ⟨t, ht, h⟩ := Option.bind_eq_some_iff.1 h
    obtain ⟨rfl, rfl⟩ := Prod.mk.inj (Option.some.inj h)
    rw [write_text, Bytes.ofText_of_text? ht, lawful_bytes.write_read hx]

theorem Lawful.option {c : Codec α} (hc : c.Lawful) : c.option.Lawful where
  read_write v rest h := by
    cases v with
    | none => rfl
    | some v =>
      have hlen : (c.write v).length < UInt64.size := Nat.lt_of_succ_lt h
      show (c.read (c.write v ++ rest)).map (fun p => (some p.1, p.2)) = _
      rw [hc.read_write v rest hlen]
      rfl
  write_read {b v rest} h := by
    simp only [Codec.option] at h
    split at h
    · next r =>
      obtain ⟨rfl, rfl⟩ := Prod.mk.inj (Option.some.inj h)
      rfl
    · next r =>
      obtain ⟨⟨w, r'⟩, hw, he⟩ := Option.map_eq_some_iff.1 h
      obtain ⟨rfl, rfl⟩ := Prod.mk.inj he
      exact congrArg (1 :: ·) (hc.write_read hw)
    · cases h

theorem write_pair (c : Codec α) (d : Codec β) (v : α × β) :
    (c.pair d).write v = c.write v.1 ++ d.write v.2 := rfl

theorem read_pair (c : Codec α) (d : Codec β) (b : Bytes) :
    (c.pair d).read b =
      (c.read b).bind fun p => (d.read p.2).bind fun q => some ((p.1, q.1), q.2) := rfl

theorem Lawful.pair {c : Codec α} {d : Codec β} (hc : c.Lawful) (hd : d.Lawful) :
    (c.pair d).Lawful where
  read_write v rest h := by
    rw [write_pair, List.length_append] at h
    rw [read_pair, write_pair, List.append_assoc, hc.read_write _ _ (by omega), Option.bind_some,
      hd.read_write _ _ (by omega), Option.bind_some]
  write_read {b v rest} h := by
    rw [read_pair] at h
    obtain ⟨⟨x, r⟩, hx, h⟩ := Option.bind_eq_some_iff.1 h
    obtain ⟨⟨y, r'⟩, hy, h⟩ := Option.bind_eq_some_iff.1 h
    obtain ⟨rfl, rfl⟩ := Prod.mk.inj (Option.some.inj h)
    rw [write_pair, List.append_assoc, hd.write_read hy, hc.write_read hx]

theorem write_via (c : Codec α) (toRep : β → α) (ofRep : α → β) (v : β) :
    (c.via toRep ofRep).write v = c.write (toRep v) := rfl

theorem read_via (c : Codec α) (toRep : β → α) (ofRep : α → β) (b : Bytes) :
    (c.via toRep ofRep).read b = (c.read b).map fun p => (ofRep p.1, p.2) := rfl

theorem Lawful.via {c : Codec α} (hc : c.Lawful) {toRep : β → α} {ofRep : α → β}
    (hof : ∀ v, ofRep (toRep v) = v) (hto : ∀ w, toRep (ofRep w) = w) :
    (c.via toRep ofRep).Lawful where
  read_write v rest h := by
    rw [read_via, write_via, hc.read_write _ _ h, Option.map_some, hof]
  write_read {b v rest} h := by
    rw [read_via] at h
    obtain ⟨⟨w, r⟩, hw, he⟩ := Option.map_eq_some_iff.1 h
    obtain ⟨rfl, rfl⟩ := Prod.mk.inj he
    rw [write_via, hto, hc.write_read hw]

theorem readMany_succ (c : Codec α) (n : Nat) (b : Bytes) :
    readMany c (n + 1) b =
      (c.read b).bind fun p => (readMany c n p.2).bind fun q => some (p.1 :: q.1, q.2) := rfl

theorem Lawful.readMany_flatMap {c : Codec α} (hc : c.Lawful) (vs : List α) (rest : Bytes)
    (h : (vs.flatMap c.write).length < UInt64.size) :
    readMany c vs.length (vs.flatMap c.write ++ rest) = some (vs, rest) := by
  induction vs with
  | nil => rfl
  | cons v vs ih =>
    rw [List.flatMap_cons, List.length_append] at h
    rw [List.length_cons, readMany_succ, List.flatMap_cons, List.append_assoc,
      hc.read_write _ _ (by omega), Option.bind_some, ih (by omega), Option.bind_some]

theorem Lawful.flatMap_of_readMany {c : Codec α} (hc : c.Lawful) {n : Nat} {b : Bytes}
    {vs : List α} {rest : Bytes} (h : readMany c n b = some (vs, rest)) :
    vs.length = n ∧ vs.flatMap c.write ++ rest = b := by
  induction n generalizing b vs with
  | zero =>
    obtain ⟨rfl, rfl⟩ := Prod.mk.inj (Option.some.inj h)
    exact ⟨rfl, rfl⟩
  | succ n ih =>
    rw [readMany_succ] at h
    obtain ⟨⟨v, r⟩, hv, h⟩ := Option.bind_eq_some_iff.1 h
    obtain ⟨⟨vs', r'⟩, hvs, h⟩ := Option.bind_eq_some_iff.1 h
    obtain ⟨rfl, rfl⟩ := Prod.mk.inj (Option.some.inj h)
    obtain ⟨hlen, hflat⟩ := ih hvs
    refine ⟨by simp [hlen], ?_⟩
    rw [List.flatMap_cons, List.append_assoc, hflat, hc.write_read hv]

theorem write_list (c : Codec α) (vs : List α) :
    c.list.write vs = u64.write (UInt64.ofNat vs.length) ++ vs.flatMap c.write := rfl

theorem read_list (c : Codec α) (b : Bytes) :
    c.list.read b = (u64.read b).bind fun p => readMany c p.1.toNat p.2 := rfl

/-- A list of values none of which is written as nothing has no more elements than bytes. -/
theorem length_le_flatMap {c : Codec α} (hpos : ∀ v, 0 < (c.write v).length) (vs : List α) :
    vs.length ≤ (vs.flatMap c.write).length := by
  induction vs with
  | nil => exact Nat.le_refl 0
  | cons v vs ih =>
    have hv := hpos v
    rw [List.flatMap_cons, List.length_append, List.length_cons]
    omega

theorem Lawful.list {c : Codec α} (hc : c.Lawful) (hpos : ∀ v, 0 < (c.write v).length) :
    c.list.Lawful where
  read_write vs rest h := by
    have hcount := length_le_flatMap hpos vs
    rw [write_list, List.length_append] at h
    have hn : (u64.write (UInt64.ofNat vs.length)).length < UInt64.size := by omega
    rw [read_list, write_list, List.append_assoc, lawful_u64.read_write _ _ hn, Option.bind_some,
      UInt64.toNat_ofNat_of_lt' (by omega)]
    exact hc.readMany_flatMap vs rest (by omega)
  write_read {b vs rest} h := by
    rw [read_list] at h
    obtain ⟨⟨n, r⟩, hn, h⟩ := Option.bind_eq_some_iff.1 h
    obtain ⟨hlen, hflat⟩ := hc.flatMap_of_readMany h
    have hcount : UInt64.ofNat vs.length = n := by rw [hlen, UInt64.ofNat_toNat]
    rw [write_list, hcount, List.append_assoc, hflat, lawful_u64.write_read hn]

/-- Encoding, then decoding under a cap, gives the value back unless the encoding exceeds the
cap. -/
theorem Lawful.decode_encode {c : Codec α} (hc : c.Lawful) (cap : UInt64) (v : α) :
    c.decode cap (c.encode v) =
      if cap.toNat < (c.encode v).length then .error .tooLarge else .ok v := by
  unfold decode
  split
  · rfl
  · next hle =>
    have hlen : (c.write v).length < UInt64.size :=
      Nat.lt_of_le_of_lt (Nat.not_lt.1 hle) cap.toNat_lt
    have hread : c.read (c.encode v) = some (v, []) := by
      simpa [encode] using hc.read_write v [] hlen
    rw [hread]

/-- What decodes to a value under a cap is the value's encoding and keeps to the cap. -/
theorem Lawful.encode_of_decode {c : Codec α} (hc : c.Lawful) {cap : UInt64} {b : Bytes} {v : α}
    (h : c.decode cap b = .ok v) : c.encode v = b ∧ b.length ≤ cap.toNat := by
  unfold decode at h
  split at h
  · cases h
  · next hle =>
    split at h
    · next hread =>
      cases h
      exact ⟨by simpa [encode] using hc.write_read hread, Nat.not_lt.1 hle⟩
    · cases h

theorem Lawful.decode_eq_ok_iff {c : Codec α} (hc : c.Lawful) {cap : UInt64} {b : Bytes} {v : α} :
    c.decode cap b = .ok v ↔ c.encode v = b ∧ b.length ≤ cap.toNat := by
  constructor
  · exact hc.encode_of_decode
  · rintro ⟨rfl, hlen⟩
    rw [hc.decode_encode, if_neg (Nat.not_lt.2 hlen)]

/-- Input that is not too long is refused for being no encoding. -/
theorem error_of_decode {c : Codec α} {cap : UInt64} {b : Bytes} {e : CodecError}
    (h : c.decode cap b = .error e) :
    e = if b.length ≤ cap.toNat then .deserialize else .tooLarge := by
  unfold decode at h
  split at h
  · next hlong =>
    rw [if_neg (Nat.not_le.2 hlong)]
    exact (Except.error.inj h).symm
  · next hshort =>
    rw [if_pos (Nat.not_lt.1 hshort)]
    split at h
    · cases h
    · exact (Except.error.inj h).symm

/-! ## Values that stand for values of another type -/

variable {c : Codec α} {f : α → β} {cap : UInt64} {b : Bytes}

theorem Lawful.map_decode_eq_ok_iff (hc : c.Lawful) {w : β} :
    (c.decode cap b).map f = .ok w ↔ ∃ v, f v = w ∧ c.encode v = b ∧ b.length ≤ cap.toNat := by
  constructor
  · intro h
    cases hv : c.decode cap b with
    | error e =>
      rw [hv] at h
      cases h
    | ok v =>
      rw [hv] at h
      exact ⟨v, Except.ok.inj h, hc.decode_eq_ok_iff.1 hv⟩
  · rintro ⟨v, rfl, hv⟩
    rw [hc.decode_eq_ok_iff.2 hv]
    rfl

theorem error_of_map_decode {e : CodecError} (h : (c.decode cap b).map f = .error e) :
    e = if b.length ≤ cap.toNat then .deserialize else .tooLarge := by
  cases hv : c.decode cap b with
  | ok v =>
    rw [hv] at h
    cases h
  | error e' =>
    rw [hv] at h
    obtain rfl : e' = e := Except.error.inj h
    exact error_of_decode hv

end Codec

end GrantLedger
