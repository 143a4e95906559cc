import Mathlib.Tactic.Common
import GrantLedger.Authorization.Registry
import GrantLedger.Proofs.Codec

/-!
# Packing and unpacking

An authorization is packed as the canonical encoding of what it holds (`Authorization.payload`)
under the type URL of its kind, and a registry unpacks it by the decoder of the kind that the URL
names. The decoder of each kind is exact: it accepts the payloads of that kind that keep to the cap,
each as the authorization that it was made from, and tells long input from malformed input
(`AuthorizationKind.decode_eq_ok_iff`, `AuthorizationKind.decode_eq_error_iff`). This holds of
scripts too, whose lines are nested in each other: the input has more bytes than lines, so reading
never runs out of depth (`Script.readLines_writeLines`).

So packing and unpacking undo each other through every registry
(`Registry.unpack_inverts_pack`). A script may refuse to be packed; its payload is read all the
same.
-/

namespace GrantLedger

/-! ## Scripts -/

theorem ScriptVerdict.lawful_codec : codec.Lawful :=
  (Codec.lawful_text.pair (Codec.lawful_bool.pair (Codec.lawful_bool.pair
    Codec.lawful_text.option))).via (fun _ => rfl) (fun _ => rfl)

theorem ScriptFlaws.lawful_codec : codec.Lawful :=
  (Codec.lawful_bool.pair Codec.lawful_text.option).via (fun _ => rfl) (fun _ => rfl)

namespace Script

theorem writeLines_nil (line : ScriptLine) :
    writeLines line [] =
      ScriptVerdict.codec.write line.verdict ++ 0 :: ScriptFlaws.codec.write line.flaws := by
  rw [writeLines]

theorem writeLines_cons (line line' : ScriptLine) (later : List ScriptLine) :
    writeLines line (line' :: later) =
      ScriptVerdict.codec.write line.verdict ++
        1 :: (writeLines line' later ++ ScriptFlaws.codec.write line.flaws) := by
  rw [writeLines]

theorem length_later_lt (line : ScriptLine) (later : List ScriptLine) :
    later.length < (writeLines line later).length := by
  induction later generalizing line with
  | nil =>
    rw [writeLines_nil, List.length_append, List.length_cons, List.length_nil]
    omega
  | cons line' later ih =>
    have ih := ih line'
    rw [writeLines_cons, List.length_append, List.length_cons (a := 1), List.length_append,
      List.length_cons]
    omega

/-- A line is read as the last one, or with those that follow it nested in it. -/
theorem readLines_eq_some_iff {depth : Nat} {b rest : Bytes} {line : ScriptLine}
    {later : List ScriptLine} :
    readLines (depth + 1) b = some ((line, later), rest) ↔
      (∃ r, ScriptVerdict.codec.read b = some (line.verdict, 0 :: r) ∧
        ScriptFlaws.codec.read r = some (line.flaws, rest) ∧ later = []) ∨
      ∃ r line' later' r', ScriptVerdict.codec.read b = some (line.verdict, 1 :: r) ∧
        readLines depth r = some ((line', later'), r') ∧
        ScriptFlaws.codec.read r' = some (line.flaws, rest) ∧ later = line' :: later' := by
  constructor
  · intro h
    rw [readLines] at h
    obtain ⟨⟨verdict, r⟩, hverdict, h⟩ := Option.bind_eq_some_iff.1 h
    dsimp only at h
    split at h
    · obtain ⟨⟨flaws, rest⟩, hflaws, h⟩ := Option.bind_eq_some_iff.1 h
      cases h
      exact .inl ⟨_, hverdict, hflaws, rfl⟩
    · obtain ⟨⟨⟨line', later'⟩, r'⟩, hlater, h⟩ := Option.bind_eq_some_iff.1 h
      obtain ⟨⟨flaws, rest⟩, hflaws, h⟩ := Option.bind_eq_some_iff.1 h
      cases h
      exact .inr ⟨_, line', later', r', hverdict, hlater, hflaws, rfl⟩
    · cases h
  · rintro (⟨r, hverdict, hflaws, rfl⟩ | ⟨r, line', later', r', hverdict, hlater, hflaws, rfl⟩)
    · refine Option.bind_eq_some_iff.2 ⟨_, hverdict, ?_⟩
      exact Option.bind_eq_some_iff.2 ⟨_, hflaws, rfl⟩
    · refine Option.bind_eq_some_iff.2 ⟨_, hverdict, ?_⟩
      refine Option.bind_eq_some_iff.2 ⟨_, hlater, ?_⟩
      exact Option.bind_eq_some_iff.2 ⟨_, hflaws, rfl⟩

/-- Lines are read back, with what follows them left over, if the depth allows for all of them. -/
theorem readLines_writeLines {depth : Nat} (line : ScriptLine) (later : List ScriptLine)
    (hdepth : later.length < depth) (rest : Bytes)
    (hlen : (writeLines line later).length < UInt64.size) :
    readLines depth (writeLines line later ++ rest) = some ((line, later), rest) := by
  obtain ⟨depth, rfl⟩ := Nat.exists_eq_add_one.2 (Nat.zero_lt_of_lt hdepth)
  rw [readLines_eq_some_iff]
  induction later generalizing line depth rest with
  | nil =>
    rw [writeLines_nil, List.length_append, List.length_cons] at hlen
    refine .inl ⟨ScriptFlaws.codec.write line.flaws ++ rest, ?_,
      ScriptFlaws.lawful_codec.read_write _ _ (by omega), rfl⟩
    rw [writeLines_nil, List.append_assoc, ScriptVerdict.lawful_codec.read_write _ _ (by omega)]
    rfl
  | cons line' later ih =>
    rw [writeLines_cons, List.length_append, List.length_cons, List.length_append] at hlen
    rw [List.length_cons] at hdepth
    obtain ⟨depth, rfl⟩ := Nat.exists_eq_add_one.2 (show 0 < depth by omega)
    refine .inr ⟨writeLines line' later ++ (ScriptFlaws.codec.write line.flaws ++ rest), line',
      later, ScriptFlaws.codec.write line.flaws ++ rest, ?_, ?_,
      ScriptFlaws.lawful_codec.read_write _ _ (by omega), rfl⟩
    · rw [writeLines_cons, List.append_assoc, ScriptVerdict.lawful_codec.read_write _ _ (by omega),
        List.cons_append, List.append_assoc]
    · exact readLines_eq_some_iff.2 (ih line' _ (by omega) depth (by omega))

/-- What is read as lines is what the lines are written as. -/
theorem writeLines_of_readLines {depth : Nat} {b rest : Bytes} {line : ScriptLine}
    {later : List ScriptLine} (h : readLines depth b = some ((line, later), rest)) :
    writeLines line later ++ rest = b := by
  induction depth generalizing b rest line later with
  | zero => cases h
  | succ depth ih =>
    rcases readLines_eq_some_iff.1 h with ⟨r, hverdict, hflaws, rfl⟩ |
      ⟨r, line', later, r', hverdict, hlater, hflaws, rfl⟩
    · rw [← ScriptVerdict.lawful_codec.write_read hverdict,
        ← ScriptFlaws.lawful_codec.write_read hflaws, writeLines_nil, List.append_assoc]
      rfl
    · rw [← ScriptVerdict.lawful_codec.write_read hverdict, ← ih hlater,
        ← ScriptFlaws.lawful_codec.write_read hflaws, writeLines_cons, List.append_assoc,
        List.cons_append, List.append_assoc]

theorem lawful_codec : codec.Lawful where
  read_write s rest hlen := by
    have hdepth : s.later.length < (codec.write s ++ rest).length := by
      have hlater := length_later_lt s.current s.later
      rw [List.length_append]
      exact Nat.lt_add_right _ hlater
    change (readLines _ (writeLines s.current s.later ++ rest)).map _ = _
    rw [readLines_writeLines _ _ hdepth rest hlen]
    rfl
  write_read {b s rest} h := by
    obtain ⟨⟨⟨line, later⟩, r⟩, hlines, hs⟩ := Option.map_eq_some_iff.1 h
    cases hs
    exact writeLines_of_readLines hlines

end Script

/-! ## Payloads -/

namespace Authorization

/-- The canonical encoding of what an authorization holds, whether it lets itself be encoded or
not. -/
def payload : Authorization → Bytes
  | generic url => AuthorizationKind.genericCodec.encode url
  | method name uses => AuthorizationKind.methodCodec.encode (name, uses)
  | scripted s => Script.codec.encode s

theorem payload_of_encode {a : Authorization} {b : Bytes} (h : a.encode = .ok b) :
    a.payload = b := by
  cases a with
  | generic url => exact Except.ok.inj h
  | method name uses => exact Except.ok.inj h
  | scripted s =>
    rw [encode] at h
    split at h
    · cases h
    · exact Except.ok.inj h

theorem pack_eq_ok_iff {a : Authorization} {any : AnyValue} :
    a.pack = .ok any ↔ a.kind.typeUrl = any.typeUrl ∧ a.encode = .ok any.value := by
  obtain ⟨typeUrl, value⟩ := any
  rw [pack]
  cases a.encode <;> simp

theorem same_self {a : Authorization} {b : Bytes} (h : a.encode = .ok b) : a.same a = true := by
  simp [same, h]

end Authorization

namespace AuthorizationKind

theorem lawful_genericCodec : genericCodec.Lawful := Codec.lawful_text

theorem lawful_methodCodec : methodCodec.Lawful := Codec.lawful_text.pair Codec.lawful_u64.option

theorem typeUrl_injective {k l : AuthorizationKind} : k.typeUrl = l.typeUrl → k = l := by
  cases k <;> cases l <;> decide

variable {k : AuthorizationKind} {cap : UInt64} {b : Bytes} {a : Authorization} {e : CodecError}

/-- The decoder of a kind accepts the payloads of that kind that keep to the cap. -/
theorem decode_eq_ok_iff :
    k.decode cap b = .ok a ↔ a.kind = k ∧ a.payload = b ∧ b.length ≤ cap.toNat := by
  cases k with
  | generic =>
    rw [decode, lawful_genericCodec.map_decode_eq_ok_iff]
    cases a <;> simp [Authorization.kind, Authorization.payload]
  | method =>
    rw [decode, lawful_methodCodec.map_decode_eq_ok_iff]
    cases a <;> simp [Authorization.kind, Authorization.payload]
  | scripted =>
    rw [decode, Script.lawful_codec.map_decode_eq_ok_iff]
    cases a <;> simp [Authorization.kind, Authorization.payload]

/-- Whatever else is refused, as too long or else for being no payload of the kind. -/
theorem decode_eq_error_iff :
    k.decode cap b = .error e ↔
      e = (if b.length ≤ cap.toNat then .deserialize else .tooLarge) ∧
        (cap.toNat < b.length ∨ ∀ a : Authorization, a.kind = k → a.payload ≠ b) := by
  have hcause {e : CodecError} (h : k.decode cap b = .error e) :
      e = if b.length ≤ cap.toNat then .deserialize else .tooLarge := by
    cases k <;> exact Codec.error_of_map_decode h
  constructor
  · intro h
    refine ⟨hcause h, ?_⟩
    by_contra hread
    simp only [not_or, not_forall, Nat.not_lt, not_not] at hread
    obtain ⟨hshort, a, hkind, hpayload⟩ := hread
    rw [decode_eq_ok_iff.2 ⟨hkind, hpayload, hshort⟩] at h
    cases h
  · rintro ⟨rfl, hno⟩
    cases hread : k.decode cap b with
    | error e => rw [hcause hread]
    | ok a =>
      obtain ⟨hkind, hpayload, hshort⟩ := decode_eq_ok_iff.1 hread
      rcases hno with hlong | hno
      · exact absurd hshort (Nat.not_le.2 hlong)
      · exact absurd hpayload (hno a hkind)

end AuthorizationKind

/-! ## Registries -/

namespace Registry

variable {r : Registry}

theorem kind?_eq_some_iff {url : String} {k : AuthorizationKind} :
    r.kind? url = some k ↔ k ∈ r.kinds ∧ k.typeUrl = url := by
  constructor
  · intro h
    exact ⟨List.mem_of_find?_eq_some h, by simpa using List.find?_some h⟩
  · rintro ⟨hk, rfl⟩
    cases hfind : r.kind? k.typeUrl with
    | none =>
      have hother := List.find?_eq_none.1 hfind k hk
      simp at hother
    | some l =>
      have hl : l.typeUrl = k.typeUrl := by simpa using List.find?_some hfind
      rw [AuthorizationKind.typeUrl_injective hl]

theorem kind?_eq_none_iff {url : String} : r.kind? url = none ↔ r.isRegistered url = false := by
  rw [isRegistered, Option.isSome_eq_false_iff, Option.isNone_iff_eq_none]

theorem isRegistered_iff {k : AuthorizationKind} :
    r.isRegistered k.typeUrl = true ↔ k ∈ r.kinds := by
  rw [isRegistered, Option.isSome_iff_exists]
  constructor
  · rintro ⟨l, hl⟩
    obtain ⟨hmem, hurl⟩ := kind?_eq_some_iff.1 hl
    exact AuthorizationKind.typeUrl_injective hurl ▸ hmem
  · intro hk
    exact ⟨k, kind?_eq_some_iff.2 ⟨hk, rfl⟩⟩

theorem unpack_of_kind? {any : AnyValue} {k : AuthorizationKind}
    (h : r.kind? any.typeUrl = some k) :
    r.unpack any = (k.decode r.maxValueBytes any.value).mapError (.cannotDecode any.typeUrl) := by
  rw [unpack, h]
  dsimp only
  cases k.decode r.maxValueBytes any.value <;> rfl

/-- What is unpacked is of an admitted kind, and the envelope holds its payload. -/
theorem unpack_eq_ok_iff {any : AnyValue} {a : Authorization} :
    r.unpack any = .ok a ↔
      a.kind ∈ r.kinds ∧ a.kind.typeUrl = any.typeUrl ∧ a.payload = any.value ∧
        any.value.length ≤ r.maxValueBytes.toNat := by
  constructor
  · intro h
    cases hk : r.kind? any.typeUrl with
    | none =>
      rw [unpack, hk] at h
      cases h
    | some k =>
      rw [unpack_of_kind? hk] at h
      cases hread : k.decode r.maxValueBytes any.value with
      | error e =>
        rw [hread] at h
        cases h
      | ok a' =>
        rw [hread] at h
        cases h
        obtain ⟨rfl, hpayload⟩ := AuthorizationKind.decode_eq_ok_iff.1 hread
        obtain ⟨hmem, hurl⟩ := kind?_eq_some_iff.1 hk
        exact ⟨hmem, hurl, hpayload⟩
  · rintro ⟨hmem, hurl, hpayload⟩
    rw [unpack_of_kind? (kind?_eq_some_iff.2 ⟨hmem, hurl⟩),
      AuthorizationKind.decode_eq_ok_iff.2 ⟨rfl, hpayload⟩]
    rfl

/-- An envelope is refused for its kind, for its length, or for holding no payload of its kind. -/
theorem unpack_eq_error_iff {any : AnyValue} {e : Error} :
    r.unpack any = .error e ↔
      (r.isRegistered any.typeUrl = false ∧ e = .noDecoder any.typeUrl) ∨
      (r.isRegistered any.typeUrl = true ∧
        e = .cannotDecode any.typeUrl
          (if any.value.length ≤ r.maxValueBytes.toNat then .deserialize else .tooLarge) ∧
        (r.maxValueBytes.toNat < any.value.length ∨
          ∀ a : Authorization, a.kind.typeUrl = any.typeUrl → a.payload ≠ any.value)) := by
  cases hk : r.kind? any.typeUrl with
  | none =>
    have hregistered := kind?_eq_none_iff.1 hk
    rw [unpack, hk, hregistered]
    simp [eq_comm]
  | some k =>
    obtain ⟨hmem, hurl⟩ := kind?_eq_some_iff.1 hk
    have hregistered : r.isRegistered any.typeUrl = true := hurl ▸ isRegistered_iff.2 hmem
    have hkind (a : Authorization) : a.kind = k ↔ a.kind.typeUrl = any.typeUrl := by
      rw [← hurl]
      exact ⟨congrArg _, AuthorizationKind.typeUrl_injective⟩
    have hdecode {cause : CodecError} : k.decode r.maxValueBytes any.value = .error cause ↔ _ :=
      AuthorizationKind.decode_eq_error_iff
    simp only [hkind] at hdecode
    rw [unpack_of_kind? hk, hregistered]
    simp only [Bool.true_eq_false, false_and, false_or, true_and]
    constructor
    · intro h
      cases hread : k.decode r.maxValueBytes any.value with
      | ok a =>
        rw [hread] at h
        cases h
      | error cause =>
        rw [hread] at h
        cases h
        obtain ⟨rfl, hno⟩ := hdecode.1 hread
        exact ⟨rfl, hno⟩
    · rintro ⟨rfl, hno⟩
      rw [hdecode.2 ⟨rfl, hno⟩]
      rfl

theorem unpack_of_pack {a : Authorization} (ha : a.kind ∈ r.kinds) {any : AnyValue}
    (h : a.pack = .ok any) (hlen : any.value.length ≤ r.maxValueBytes.toNat) :
    r.unpack any = .ok a := by
  obtain ⟨hurl, hencode⟩ := Authorization.pack_eq_ok_iff.1 h
  exact unpack_eq_ok_iff.2 ⟨ha, hurl, Authorization.payload_of_encode hencode, hlen⟩

/-- Whatever kinds a registry admits and whatever its cap is:
what is unpacked packs into the envelope that it came from, if it can be packed at all. Unpacking
fails exactly if the type URL is not registered, the value is longer than the cap, or the value is
no canonical encoding of the type, and it fails as a matter of packing alone. An authorization of an
admitted kind that is packed within the cap is unpacked as it was. -/
theorem unpack_inverts_pack (r : Registry) :
    (∀ any a packed, r.unpack any = .ok a → a.pack = .ok packed → packed = any) ∧
    (∀ any, (∃ e, r.unpack any = .error e ∧ e.kind = .packAny) ↔
      r.isRegistered any.typeUrl = false ∨ r.maxValueBytes.toNat < any.value.length ∨
        ∀ a : Authorization, a.kind.typeUrl = any.typeUrl → a.payload ≠ any.value) ∧
    (∀ any e, r.unpack any = .error e → e.kind = .packAny) ∧
    ∀ a any, r.isRegistered a.kind.typeUrl = true → a.pack = .ok any →
      any.value.length ≤ r.maxValueBytes.toNat → r.unpack any = .ok a ∧ a.same a = true := by
  have hkind {any : AnyValue} {e : Error} (h : r.unpack any = .error e) : e.kind = .packAny := by
    rcases unpack_eq_error_iff.1 h with ⟨-, rfl⟩ | ⟨-, rfl, -⟩ <;> rfl
  refine ⟨fun any a packed hunpack hpack => ?_, fun any => ⟨?_, fun hno => ?_⟩,
    fun any e => hkind, fun a any ha hpack hlen => ?_⟩
  · obtain ⟨-, hurl, hpayload, -⟩ := unpack_eq_ok_iff.1 hunpack
    obtain ⟨hurl', hencode⟩ := Authorization.pack_eq_ok_iff.1 hpack
    rw [Authorization.payload_of_encode hencode] at hpayload
    exact (AnyValue.mk.injEq ..).mpr ⟨hurl'.symm.trans hurl, hpayload⟩
  · rintro ⟨e, herror, -⟩
    rcases unpack_eq_error_iff.1 herror with ⟨hunknown, -⟩ | ⟨-, -, hno⟩
    · exact .inl hunknown
    · exact .inr hno
  · suffices h : ∃ e, r.unpack any = .error e from h.imp fun e he => ⟨he, hkind he⟩
    rcases Bool.eq_false_or_eq_true (r.isRegistered any.typeUrl) with hknown | hunknown
    · have hno := hno.resolve_left (by simp [hknown])
      exact ⟨_, unpack_eq_error_iff.2 (.inr ⟨hknown, rfl, hno⟩)⟩
    · exact ⟨_, unpack_eq_error_iff.2 (.inl ⟨hunknown, rfl⟩)⟩
  · exact ⟨unpack_of_pack (isRegistered_iff.1 ha) hpack hlen,
      Authorization.same_self (Authorization.pack_eq_ok_iff.1 hpack).2⟩

/-- A script of two lines, the second of which could not be encoded by itself, is packed and
unpacked under a cap that it just keeps to. -/
theorem unpack_inverts_pack_script :
    let line (url : String) (failEncode : Bool) : ScriptLine :=
      ⟨⟨url, true, false, some "spent"⟩, ⟨failEncode, none⟩⟩
    let a : Authorization := .scripted ⟨line "/a" false, [line "/b" true]⟩
    ∃ any, a.pack = .ok any ∧ any.value.length = 58 ∧
      Registry.unpack ⟨[.scripted, .generic], 58⟩ any = .ok a ∧ a.same a = true := by
  intro line a
  have hlength : a.payload.length = 58 := by decide +kernel
  have hpack : a.pack = .ok ⟨Script.typeUrl, a.payload⟩ := rfl
  refine ⟨_, hpack, hlength, ?_⟩
  obtain ⟨-, -, -, hback⟩ := unpack_inverts_pack ⟨[.scripted, .generic], 58⟩
  exact hback a _ (by decide +kernel) hpack (Nat.le_of_eq hlength)

end Registry

end GrantLedger
