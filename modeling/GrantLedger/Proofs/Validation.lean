import GrantLedger.Proofs.AuthzOnly
import GrantLedger.Proofs.Footprints

/-!
# What validation rules out

Validation looks at a message and at all messages inside it, and needs no state; execution reads the
same texts again, on a path of its own. The two agree: if the messages of a transaction are
validated, every message in it has one signer, at any depth, and execution finds nothing wrong with
the messages themselves (`Error.RuledOut`). What it may still fail for is what the messages meet in
the ledger (`Error.FoundInLedger`). Each operation of the keeper fails for such causes only, given
parties that differ and a valid authorization, and that goes through sequences and branches
(`Exec.FailsInLedger`); the induction over nested messages is over what is executed.
-/

namespace GrantLedger

/-! ## Messages at any depth -/

namespace Message

mutual

/-- The message and all messages inside it, at any depth. -/
def parts : Message → List Message
  | .exec grantee msgs => .exec grantee msgs :: partsAll msgs
  | .grant m => [.grant m]
  | .revoke m => [.revoke m]
  | .foreign url signers validity action => [.foreign url signers validity action]

/-- The messages and all messages inside them, at any depth. -/
def partsAll : List Message → List Message
  | [] => []
  | m :: ms => m.parts ++ partsAll ms

end

/-! ## What has been validated -/

theorem validateAll_eq_ok_iff {ms : List Message} :
    validateAll ms = .ok () ↔ ∀ m ∈ ms, m.validate = .ok () := by
  induction ms with
  | nil => exact iff_of_true rfl nofun
  | cons m ms ih =>
    rw [validateAll, List.forall_mem_cons, ← ih]
    cases m.validate with
    | error e => exact iff_of_false nofun fun h => nomatch h.1
    | ok u => exact (and_iff_right rfl).symm

/-- Messages are rejected for what the first of them is rejected for that is. -/
theorem first_rejected {ms : List Message} {e : Error} (h : validateAll ms = .error e) :
    ∃ before m after, ms = before ++ m :: after ∧ (∀ m' ∈ before, m'.validate = .ok ()) ∧
      m.validate = .error e := by
  induction ms with
  | nil => cases h
  | cons m ms ih =>
    rw [validateAll] at h
    cases hm : m.validate with
    | error e' =>
      rw [hm] at h
      cases h
      exact ⟨[], m, ms, rfl, nofun, hm⟩
    | ok u =>
      rw [hm] at h
      obtain ⟨before, m', after, rfl, hbefore, hm'⟩ := ih h
      exact ⟨m :: before, m', after, rfl, List.forall_mem_cons.2 ⟨hm, hbefore⟩, hm'⟩

theorem validate_exec_eq_ok_iff {text : String} {msgs : List Message} :
    (exec text msgs).validate = .ok () ↔
      (∃ grantee, Address.parse text = .ok grantee) ∧ msgs ≠ [] ∧ validateAll msgs = .ok () := by
  rw [validate, Role.parse]
  cases Address.parse text with
  | error e => exact iff_of_false nofun fun h => nomatch h.1
  | ok grantee =>
    cases msgs with
    | nil => exact iff_of_false nofun fun h => h.2.1 rfl
    | cons m ms =>
      have hne : m :: ms ≠ [] := List.cons_ne_nil m ms
      exact (and_iff_right ⟨grantee, rfl⟩).trans (and_iff_right hne) |>.symm

end Message

theorem parseParties_eq_ok_iff {granter grantee : String} {a b : Address} :
    parseParties granter grantee = .ok (a, b) ↔
      Address.parse granter = .ok a ∧ Address.parse grantee = .ok b ∧ a ≠ b := by
  rw [parseParties, Role.parse, Role.parse]
  cases Address.parse granter with
  | error e => exact iff_of_false nofun fun h => nomatch h.1
  | ok a' =>
    cases Address.parse grantee with
    | error e => exact iff_of_false nofun fun h => nomatch h.2.1
    | ok b' =>
      change (if a' = b' then Except.error Error.selfGrant else .ok (a', b')) = _ ↔ _
      by_cases hab : a' = b'
      · rw [if_pos hab]
        refine iff_of_false nofun ?_
        rintro ⟨ha, hb, hne⟩
        cases ha
        cases hb
        exact hne hab
      · rw [if_neg hab]
        constructor
        · intro h
          cases h
          exact ⟨rfl, rfl, hab⟩
        · rintro ⟨ha, hb, -⟩
          cases ha
          cases hb
          rfl

theorem MsgGrant.validate_eq_ok_iff {m : MsgGrant} :
    m.validate = .ok () ↔ (∃ a b, m.parties = .ok (a, b)) ∧ m.authorization.validate = .ok () := by
  rw [validate]
  cases m.parties with
  | error e => exact iff_of_false nofun fun ⟨⟨_, _, h⟩, _⟩ => nomatch h
  | ok p => exact (and_iff_right ⟨p.1, p.2, rfl⟩).symm

theorem MsgRevoke.parties_of_validate {m : MsgRevoke} (h : m.validate = .ok ()) :
    ∃ a b, m.parties = .ok (a, b) := by
  rw [validate] at h
  cases hp : m.parties with
  | error e =>
    rw [hp] at h
    cases h
  | ok p => exact ⟨p.1, p.2, rfl⟩

theorem signersOf_of_parse {s : String} {a : Address} (h : Address.parse s = .ok a) :
    signersOf s = [a] := by
  rw [signersOf, h]
  rfl

namespace Message

/-- A validated message of the authorization module has one signer. -/
theorem exists_signers {m : Message} (hm : m.AuthzOnly) (hvalid : m.validate = .ok ()) :
    ∃ s, m.signers = [s] := by
  cases m with
  | grant m =>
    obtain ⟨⟨a, b, hp⟩, -⟩ := MsgGrant.validate_eq_ok_iff.1 hvalid
    exact ⟨a, signersOf_of_parse (parseParties_eq_ok_iff.1 hp).1⟩
  | revoke m =>
    obtain ⟨a, b, hp⟩ := MsgRevoke.parties_of_validate hvalid
    exact ⟨a, signersOf_of_parse (parseParties_eq_ok_iff.1 hp).1⟩
  | exec text msgs =>
    obtain ⟨⟨a, ha⟩, -⟩ := validate_exec_eq_ok_iff.1 hvalid
    exact ⟨a, signersOf_of_parse ha⟩
  | foreign url signers validity action => exact hm.elim

mutual

/-- So have all messages inside it. -/
theorem exists_signers_of_mem_parts {m p : Message} (hm : m.AuthzOnly)
    (hvalid : m.validate = .ok ()) (hp : p ∈ m.parts) : ∃ s, p.signers = [s] := by
  match m with
  | .grant g =>
    obtain rfl := List.mem_singleton.1 hp
    exact exists_signers hm hvalid
  | .revoke g =>
    obtain rfl := List.mem_singleton.1 hp
    exact exists_signers hm hvalid
  | .exec text msgs =>
    rw [parts] at hp
    rcases List.mem_cons.1 hp with rfl | hp
    · exact exists_signers hm hvalid
    · exact exists_signers_of_mem_partsAll hm (validate_exec_eq_ok_iff.1 hvalid).2.2 hp

theorem exists_signers_of_mem_partsAll {ms : List Message} {p : Message} (hms : AuthzOnlyAll ms)
    (hvalid : validateAll ms = .ok ()) (hp : p ∈ partsAll ms) : ∃ s, p.signers = [s] := by
  match ms with
  | m :: ms =>
    obtain ⟨hm, hlater⟩ := List.forall_mem_cons.1 (validateAll_eq_ok_iff.1 hvalid)
    rw [partsAll] at hp
    rcases List.mem_append.1 hp with hp | hp
    · exact exists_signers_of_mem_parts hms.1 hm hp
    · exact exists_signers_of_mem_partsAll hms.2 (validateAll_eq_ok_iff.2 hlater) hp

end

end Message

/-! ## Two sorts of failures -/

namespace Error

/-- The failure tells of what messages meet: the block, the kinds of authorization that the ledger
admits, its grants or its store. -/
def FoundInLedger : Error → Prop
  | expirationPassed .. | grantNotFound _ | noGrant .. | rejected .. | kindNotRegistered _
  | noDecoder _ | cannotDecode .. | cannotEncode .. | codec _ | store _
  -- An authorization of an application's own kind fails in its own words.
  | custom .invalidRequest _ => True
  | _ => False

/-- The failure tells of the messages themselves: a text that is no address, a message without a
handler or before the wrong one, a delegated message without exactly one signer, or an account that
grants to itself. -/
def RuledOut (e : Error) : Prop :=
  e.kind = .invalidAddress ∨ e.kind = .invalidType ∨ e.kind = .unknownRequest ∨
    (∃ url n, e = .signerCount url n) ∨ e = .selfGrant

theorem FoundInLedger.not_ruledOut {e : Error} (h : e.FoundInLedger) : ¬ e.RuledOut := by
  rintro (hkind | hkind | hkind | ⟨url, n, rfl⟩ | rfl)
  case inr.inr.inr.inl => exact h
  case inr.inr.inr.inr => exact h
  all_goals
    cases e with
    | custom k text =>
      obtain rfl : k = _ := hkind
      exact h
    | _ => first | exact h | cases hkind

end Error

/-! ## Failures of grants and authorizations -/

theorem Authorization.foundInLedger_of_accept {a : Authorization} {url : String} {e : Error}
    (h : a.accept url = .error e) : e.FoundInLedger := by
  have hbuiltin (ha : a.Builtin) : False := by
    obtain ⟨-, _, hanswer, -⟩ | ⟨-, _, hanswer, -⟩ := ha.accept_eq url <;>
      cases hanswer.symm.trans h
  cases a with
  | generic url' => exact (hbuiltin (builtin_generic url')).elim
  | method name uses => exact (hbuiltin (builtin_method name uses)).elim
  | scripted s =>
    rw [accept] at h
    split at h
    · cases h
      exact trivial
    · cases h

theorem Grant.foundInLedger_of_toRecord {g : Grant} {e : Error} (h : g.toRecord = .error e) :
    e.FoundInLedger := by
  rw [toRecord, Authorization.pack] at h
  cases henc : g.authorization.encode with
  | ok payload =>
    rw [henc] at h
    cases h
  | error cause =>
    rw [henc] at h
    cases h
    exact trivial

theorem Registry.foundInLedger_of_unpack {r : Registry} {any : AnyValue} {e : Error}
    (h : r.unpack any = .error e) : e.FoundInLedger := by
  rw [unpack] at h
  split at h
  · cases h
    exact trivial
  · split at h
    · cases h
    · cases h
      exact trivial

theorem Grant.foundInLedger_of_decode {r : Registry} {granter grantee : Address} {b : Bytes}
    {e : Error} (h : decode r granter grantee b = .error e) : e.FoundInLedger := by
  rw [decode_eq, GrantRecord.decode] at h
  cases hrecord : GrantRecord.codec.decode r.maxValueBytes b with
  | error cause =>
    rw [hrecord] at h
    cases h
    exact trivial
  | ok record =>
    rw [hrecord] at h
    change (r.unpack record.authorization).bind _ = _ at h
    cases hunpack : r.unpack record.authorization with
    | error e' =>
      rw [hunpack] at h
      cases h
      exact Registry.foundInLedger_of_unpack hunpack
    | ok a =>
      rw [hunpack] at h
      cases h

/-! ## Computations that fail for what they meet in the ledger -/

namespace Exec

variable {α β : Type}

/-- The computation fails only for what it meets in the ledger, wherever it runs. -/
def FailsInLedger (x : Exec α) : Prop := ∀ c e, (x c).1 = .error e → e.FoundInLedger

namespace FailsInLedger

theorem pure (a : α) : (Pure.pure a : Exec α).FailsInLedger := nofun

theorem throw {e : Error} (h : e.FoundInLedger) :
    (MonadExcept.throw e : Exec α).FailsInLedger := by
  intro c e' he
  cases he
  exact h

theorem ofExcept {r : Except Error α} (h : ∀ e, r = .error e → e.FoundInLedger) :
    (Exec.ofExcept r).FailsInLedger := fun _ => h

theorem ofStore {r : Context → Except StoreError α} {next : Context → Context} :
    FailsInLedger fun c => ((r c).mapError Error.store, next c) := by
  intro c e he
  change (r c).mapError Error.store = _ at he
  cases hr : r c with
  | ok a =>
    rw [hr] at he
    cases he
  | error cause =>
    rw [hr] at he
    cases he
    exact trivial

theorem get (k : Bytes) : (Exec.get k).FailsInLedger := ofStore

theorem has (k : Bytes) : (Exec.has k).FailsInLedger := ofStore

theorem blockTime : Exec.blockTime.FailsInLedger := nofun

theorem emit (e : Event) : (Exec.emit e).FailsInLedger := nofun

theorem write (k : Bytes) (v : Option Bytes) : (Exec.write k v).FailsInLedger := by
  intro c e he
  rw [Exec.write] at he
  split at he
  · cases he
  · cases he
    exact trivial

theorem bind {x : Exec α} {f : α → Exec β} (hx : x.FailsInLedger)
    (hf : ∀ a, (f a).FailsInLedger) : (x >>= f).FailsInLedger := by
  intro c e he
  obtain hfirst | ⟨a, d, -, hthen⟩ := bind_eq_error_iff.1 (eq_of_fst he)
  · exact hx c e (congrArg Prod.fst hfirst)
  · exact hf a d e (congrArg Prod.fst hthen)

theorem ite {p : Prop} [Decidable p] {x y : Exec α} (hx : p → x.FailsInLedger)
    (hy : ¬ p → y.FailsInLedger) : (if p then x else y).FailsInLedger := by
  split
  · next h => exact hx h
  · next h => exact hy h

/-- A check in front of a computation ends it or lets it go on. -/
theorem check {p : Prop} [Decidable p] {e : Error} {f : β → Exec α} {x : Exec α}
    (he : p → e.FoundInLedger) (hx : x.FailsInLedger) :
    (if p then MonadExcept.throw e >>= f else x).FailsInLedger :=
  ite (fun hp => throw (he hp)) fun _ => hx

/-- A branch fails with what runs in it, or because the store refuses its writes. -/
theorem branch {x : Exec α} (hx : x.FailsInLedger) : x.branch.FailsInLedger := by
  intro c e he
  rw [Exec.branch] at he
  rcases hchild : x c.child with ⟨e' | a, child⟩
  · rw [hchild] at he
    cases he
    exact hx c.child e (by rw [hchild])
  · rw [hchild] at he
    dsimp only [Context.merge] at he
    split at he
    · cases he
      exact trivial
    · cases he

end FailsInLedger

end Exec

/-! ## The keeper -/

open Exec (FailsInLedger)

namespace GrantTable

theorem failsInLedger_save (g : Grant) : (save g).FailsInLedger :=
  .bind (.ofExcept fun _ => Grant.foundInLedger_of_toRecord) fun _ => .write _ _

theorem failsInLedger_getOrPrune (r : Registry) (k : GrantKey) (now : Timestamp) :
    (getOrPrune r k now).FailsInLedger := by
  have hget : (get? r k).FailsInLedger := by
    refine .bind (.get _) fun b => ?_
    cases b with
    | none => exact .pure _
    | some b => exact .bind (.ofExcept fun _ => Grant.foundInLedger_of_decode) fun _ => .pure _
  refine .bind hget fun g => ?_
  cases g with
  | none => exact .pure _
  | some g => exact .ite (fun _ => .bind (.write _ _) fun _ => .pure _) fun _ => .pure _

theorem failsInLedger_delete (k : GrantKey) : (delete k).FailsInLedger := by
  refine .bind (.has _) fun _ => .ite (fun _ => .write _ _) fun _ => .ofExcept ?_
  intro e he
  cases he
  exact trivial

end GrantTable

namespace Keeper

/-- To give a valid authorization to another account fails only for what is met in the ledger. -/
theorem failsInLedger_grant (r : Registry) {granter grantee : Address} (hne : granter ≠ grantee)
    {authorization : Authorization} (hvalid : authorization.validate = .ok ())
    (expiration : Option Timestamp) :
    (grant r granter grantee authorization expiration).FailsInLedger := by
  have hsave (g : Grant) (e : Event) : (GrantTable.save g >>= fun _ => Exec.emit e).FailsInLedger :=
    .bind (GrantTable.failsInLedger_save g) fun _ => .emit e
  refine .check (fun h => absurd h hne) ?_
  rw [Exec.ofExcept_ok_bind hvalid]
  refine .check (fun _ => trivial) (.bind .blockTime fun now => ?_)
  cases expiration with
  | none => exact hsave _ _
  | some e => exact .check (fun _ => trivial) (hsave _ _)

theorem failsInLedger_revoke (granter grantee : Address) (url : String) :
    (revoke granter grantee url).FailsInLedger :=
  .bind (GrantTable.failsInLedger_delete _) fun _ => .emit _

theorem failsInLedger_settle (k : GrantKey) (g : Grant) (answer : Acceptance) :
    (settle k g answer).FailsInLedger := by
  refine .ite (fun _ => GrantTable.failsInLedger_delete k) fun _ => ?_
  cases answer.updated with
  | none => exact .pure _
  | some updated => exact GrantTable.failsInLedger_save _

theorem failsInLedger_authorize (r : Registry) (grantee granter : Address) (url : String) :
    (authorize r grantee granter url).FailsInLedger := by
  refine .bind (.bind .blockTime fun now => GrantTable.failsInLedger_getOrPrune r _ now) fun g => ?_
  cases g with
  | none => exact .throw trivial
  | some g =>
    refine .bind (.ofExcept fun _ => Authorization.foundInLedger_of_accept) fun answer => ?_
    exact .check (fun _ => trivial)
      (.bind (failsInLedger_settle _ g answer) fun _ => .emit _)

end Keeper

/-! ## Execution -/

namespace Assembly

variable {a : Assembly}

theorem failsInLedger_permit {m : Message} (hm : m.AuthzOnly) (hvalid : m.validate = .ok ())
    (grantee : Address) : (a.permit grantee m).FailsInLedger := by
  obtain ⟨s, hs⟩ := Message.exists_signers hm hvalid
  rw [permit, Exec.ofExcept_ok_bind (Message.soleSigner_eq_ok_iff.2 hs)]
  exact .ite (fun _ => Keeper.failsInLedger_authorize _ _ _ _) fun _ => .pure _

mutual

/-- A validated message of the authorization module fails only for what it meets in the ledger. -/
theorem failsInLedger_dispatch (ha : a.router = Router.authzRoutes) {m : Message}
    (hm : m.AuthzOnly) (hvalid : m.validate = .ok ()) : (a.dispatch m).FailsInLedger := by
  have hroute (url : String) (h : Router.authzRoutes.get? url = some .authz) :
      a.router.get? url = some .authz := ha ▸ h
  -- What a handler reads first has been read by validation, so it cannot fail there.
  match m with
  | .grant g =>
    obtain ⟨⟨granter, grantee, hparties⟩, hauthorization⟩ := MsgGrant.validate_eq_ok_iff.1 hvalid
    have hne : granter ≠ grantee := (parseParties_eq_ok_iff.1 hparties).2.2
    rw [dispatch, Message.typeUrl, hroute MsgGrant.typeUrl (by decide)]
    change (a.handleGrant g).FailsInLedger
    rw [handleGrant, Exec.ofExcept_ok_bind hparties]
    exact .bind (Keeper.failsInLedger_grant _ hne hauthorization _) fun _ => .pure _
  | .revoke g =>
    obtain ⟨granter, grantee, hparties⟩ := MsgRevoke.parties_of_validate hvalid
    rw [dispatch, Message.typeUrl, hroute MsgRevoke.typeUrl (by decide)]
    change (handleRevoke g).FailsInLedger
    rw [handleRevoke, Exec.ofExcept_ok_bind hparties]
    exact .bind (Keeper.failsInLedger_revoke _ _ _) fun _ => .pure _
  | .exec text msgs =>
    obtain ⟨⟨grantee, hgrantee⟩, -, hmsgs⟩ := Message.validate_exec_eq_ok_iff.1 hvalid
    have hparse : (Address.parse text).mapError Error.badAddress = .ok grantee := by
      rw [hgrantee]
      rfl
    rw [dispatch, Message.typeUrl, hroute Message.execTypeUrl (by decide)]
    dsimp only
    rw [Exec.ofExcept_ok_bind hparse]
    exact .bind (.branch (failsInLedger_dispatchFor ha grantee hm hmsgs)) fun _ => .pure _

theorem failsInLedger_dispatchFor (ha : a.router = Router.authzRoutes) (grantee : Address)
    {ms : List Message} (hms : Message.AuthzOnlyAll ms) (hvalid : Message.validateAll ms = .ok ()) :
    (a.dispatchFor grantee ms).FailsInLedger := by
  match ms with
  | [] =>
    rw [dispatchFor]
    exact .pure _
  | m :: ms =>
    obtain ⟨hm, hlater⟩ := List.forall_mem_cons.1 (Message.validateAll_eq_ok_iff.1 hvalid)
    have hrest :=
      failsInLedger_dispatchFor ha grantee hms.2 (Message.validateAll_eq_ok_iff.2 hlater)
    rw [dispatchFor]
    exact .bind (failsInLedger_permit hms.1 hm grantee) fun _ =>
      .bind (failsInLedger_dispatch ha hms.1 hm) fun _ => .bind hrest fun _ => .pure _

end

theorem failsInLedger_dispatchAll (ha : a.router = Router.authzRoutes) {ms : List Message}
    (hms : Message.AuthzOnlyAll ms) (hvalid : Message.validateAll ms = .ok ()) :
    (a.dispatchAll ms).FailsInLedger := by
  induction ms with
  | nil =>
    rw [dispatchAll]
    exact .pure _
  | cons m ms ih =>
    obtain ⟨hm, hlater⟩ := List.forall_mem_cons.1 (Message.validateAll_eq_ok_iff.1 hvalid)
    have hrest := ih hms.2 (Message.validateAll_eq_ok_iff.2 hlater)
    rw [dispatchAll]
    exact .bind (failsInLedger_dispatch ha hms.1 hm) fun _ => .bind hrest fun _ => .pure _

end Assembly

/-! ## Transactions -/

namespace Chain

variable {c : Chain}

theorem validateTx_of_ne_nil {tx : List Message} (hne : tx ≠ []) :
    validateTx tx = Message.validateAll tx := by
  cases tx with
  | nil => exact absurd rfl hne
  | cons m ms => rfl

theorem failure_deliverTx_eq_some_iff {tx : List Message} {e : Error} :
    (c.deliverTx tx).1.failure = some e ↔ (c.runTx tx).1 = .error e := by
  rw [deliverTx]
  rcases c.runTx tx with ⟨e' | ⟨data, events⟩, c'⟩
  · constructor <;> intro h <;> cases h <;> rfl
  · constructor <;> intro h <;> cases h

/-- In a block of a ledger with the routes of the authorization module alone, a transaction whose
messages are validated fails only for what it meets in the ledger. -/
theorem foundInLedger_of_failure (ha : c.assembly.router = Router.authzRoutes)
    (hblock : c.header.isSome) {tx : List Message} (hne : tx ≠ []) (htx : Message.AuthzOnlyAll tx)
    (hvalid : ∀ m ∈ tx, m.validate = .ok ()) {e : Error}
    (h : (c.deliverTx tx).1.failure = some e) : e.FoundInLedger := by
  obtain ⟨header, hheader⟩ := Option.isSome_iff_exists.1 hblock
  have hall := Message.validateAll_eq_ok_iff.2 hvalid
  have hfails := Assembly.failsInLedger_dispatchAll ha htx hall
  have herror := failure_deliverTx_eq_some_iff.1 h
  rw [runTx_of_header hheader ((validateTx_of_ne_nil hne).trans hall)] at herror
  split at herror
  · cases herror
  · next e' child hx =>
    cases herror
    exact hfails _ e (congrArg Prod.fst hx)

/-- A transaction that does not pass validation is answered with the failure of its first message
that does not, and leaves the state as it was. -/
theorem deliverTx_of_not_valid {tx : List Message} (h : ∃ m ∈ tx, m.validate ≠ .ok ()) :
    ∃ before m after e, tx = before ++ m :: after ∧ (∀ m' ∈ before, m'.validate = .ok ()) ∧
      m.validate = .error e ∧ (c.deliverTx tx).1 = .ofResult (.error e) ∧
      c.SameState (c.deliverTx tx).2 := by
  obtain ⟨m, hm, hinvalid⟩ := h
  cases hall : Message.validateAll tx with
  | ok u => exact absurd (Message.validateAll_eq_ok_iff.1 hall m hm) hinvalid
  | error e =>
    obtain ⟨before, m', after, rfl, hbefore, hm'⟩ := Message.first_rejected hall
    have hne : before ++ m' :: after ≠ [] := List.append_ne_nil_of_right_ne_nil _ nofun
    refine ⟨before, m', after, e, rfl, hbefore, hm', ?_⟩
    rw [deliverTx, runTx_of_invalid ((validateTx_of_ne_nil hne).trans hall)]
    exact ⟨rfl, _, rfl⟩

/-- Validation is sound at any depth: in a block of a ledger with the routes of the authorization
module alone, and for messages of that module, whatever their texts, validated messages have one
signer each, and so have all messages inside them, and nothing that validation rules out makes
their execution fail. Otherwise the first message that is rejected decides the answer, and the
transaction leaves no trace. -/
theorem validation_sound (ha : Router.complete (Router.registerAuthz ∅) = .ok c.assembly.router)
    (hblock : c.header.isSome) {tx : List Message} (hne : tx ≠ [])
    (htx : Message.AuthzOnlyAll tx) :
    ((∀ m ∈ tx, m.validate = .ok ()) →
      (∀ p ∈ Message.partsAll tx, ∃ s, p.signers = [s]) ∧
      ∀ e, (c.deliverTx tx).1.failure = some e → ¬ e.RuledOut) ∧
    ((∃ m ∈ tx, m.validate ≠ .ok ()) →
      ∃ before m after e, tx = before ++ m :: after ∧ (∀ m' ∈ before, m'.validate = .ok ()) ∧
        m.validate = .error e ∧ (c.deliverTx tx).1 = .ofResult (.error e) ∧
        c.SameState (c.deliverTx tx).2) := by
  have hroutes : c.assembly.router = Router.authzRoutes :=
    Except.ok.inj (ha.symm.trans Router.complete_registerAuthz)
  refine ⟨fun hvalid => ⟨fun p hp => ?_, fun e he => ?_⟩, deliverTx_of_not_valid⟩
  · exact Message.exists_signers_of_mem_partsAll htx (Message.validateAll_eq_ok_iff.2 hvalid) hp
  · exact (foundInLedger_of_failure hroutes hblock hne htx hvalid he).not_ruledOut

/-- A revocation two batches deep is validated, but nothing lets the batches revoke. -/
theorem validation_sound_without_grant :
    let granter : Address := ⟨.replicate 20 1, rfl⟩
    let grantee : Address := ⟨.replicate 20 2, rfl⟩
    let c : Chain := ⟨⟨.builtin, Router.authzRoutes⟩, true, ∅, ∅, some ⟨"c", 1, ⟨5⟩⟩, .zero⟩
    let tx : List Message := [.exec grantee.toText [.exec grantee.toText
      [.revoke ⟨granter.toText, grantee.toText, "/a"⟩]]]
    let failure : Error := .noGrant MsgRevoke.typeUrl granter grantee
    (∀ p ∈ Message.partsAll tx, ∃ s, p.signers = [s]) ∧
      (c.deliverTx tx).1.failure = some failure ∧ ¬ failure.RuledOut := by
  intro granter grantee c tx failure
  have hvalid : ∀ m ∈ tx, m.validate = .ok () := List.forall_mem_singleton.2 (by decide +kernel)
  have hfailure : (c.deliverTx tx).1.failure = some failure := by decide +kernel
  have hauthz : Message.AuthzOnlyAll tx := ⟨⟨⟨trivial, trivial⟩, trivial⟩, trivial⟩
  have hroutes : Router.complete (Router.registerAuthz ∅) = .ok c.assembly.router :=
    Router.complete_registerAuthz
  have hblock : c.header.isSome := rfl
  have hne : tx ≠ [] := List.cons_ne_nil _ _
  clear_value c tx failure
  obtain ⟨hsigners, hruled⟩ := (validation_sound hroutes hblock hne hauthz).1 hvalid
  exact ⟨hsigners, hfailure, hruled failure hfailure⟩

end Chain

end GrantLedger
