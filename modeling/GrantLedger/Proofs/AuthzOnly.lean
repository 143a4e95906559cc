import GrantLedger.Proofs.Canonical

/-!
# A ledger with the routes of the authorization module alone

Where nothing but the authorization module has routes, no handler of a foreign message ever runs. So
what holds of all messages whose handlers keep to some conduct holds of all messages: to mute a
message, by putting in its place one whose handlers do nothing, changes neither how it executes
(`Assembly.dispatch_mute`) nor what lasts of it (`Assembly.journal_mute`), and muted messages keep
to every conduct. The same goes for whole runs of a chain (`Chain.run_mute`, `Chain.journal_mute`).
-/

namespace GrantLedger

/-- All routes lead to the authorization module. -/
def Router.AuthzOnly (router : Router) : Prop := ∀ url h, router.get? url = some h → h = .authz

namespace Router.AuthzOnly

theorem empty : AuthzOnly ∅ := nofun

theorem insert {router : Router} (h : router.AuthzOnly) (url : String) :
    AuthzOnly (SortedMap.insert router url .authz) := by
  intro url' handler hget
  rw [SortedMap.get?_insert] at hget
  split at hget
  · exact (Option.some.inj hget).symm
  · exact h url' handler hget

end Router.AuthzOnly

namespace Message

mutual

/-- The message, with handlers that do nothing. -/
def mute : Message → Message
  | .grant m => .grant m
  | .revoke m => .revoke m
  | .exec grantee msgs => .exec grantee (muteAll msgs)
  | .foreign url signers validity _ => .foreign url signers validity (.done (.ok []))

/-- The messages, with handlers that do nothing. -/
def muteAll : List Message → List Message
  | [] => []
  | m :: ms => m.mute :: muteAll ms

end

theorem typeUrl_mute (m : Message) : m.mute.typeUrl = m.typeUrl := by
  cases m <;> rfl

theorem soleSigner_mute (m : Message) : m.mute.soleSigner = m.soleSigner := by
  cases m <;> rfl

theorem permitEntries_mute (m : Message) (grantee : Address) (now : Timestamp) :
    m.mute.permitEntries grantee now = m.permitEntries grantee now := by
  rw [permitEntries, permitEntries, soleSigner_mute, typeUrl_mute]

theorem isEmpty_muteAll (ms : List Message) : (muteAll ms).isEmpty = ms.isEmpty := by
  cases ms <;> rfl

mutual

theorem validate_mute (m : Message) : m.mute.validate = m.validate := by
  match m with
  | .grant _ => rfl
  | .revoke _ => rfl
  | .exec grantee msgs =>
    rw [mute, validate, validate, isEmpty_muteAll, validateAll_muteAll msgs]
  | .foreign .. => rfl

theorem validateAll_muteAll (ms : List Message) : validateAll (muteAll ms) = validateAll ms := by
  match ms with
  | [] => rfl
  | m :: ms =>
    rw [muteAll, validateAll, validateAll, validate_mute m, validateAll_muteAll ms]

end

mutual

theorem allows_mute (p : Conduct) (m : Message) : p.Allows m.mute := by
  match m with
  | .grant _ => trivial
  | .revoke _ => trivial
  | .exec _ msgs => exact allowsAll_muteAll p msgs
  | .foreign .. => trivial

theorem allowsAll_muteAll (p : Conduct) (ms : List Message) : p.AllowsAll (muteAll ms) := by
  match ms with
  | [] => trivial
  | m :: ms => exact ⟨allows_mute p m, allowsAll_muteAll p ms⟩

end

end Message

namespace Assembly

variable {a : Assembly}

theorem permit_mute (a : Assembly) (grantee : Address) (m : Message) :
    a.permit grantee m.mute = a.permit grantee m := by
  rw [permit, permit, Message.soleSigner_mute, Message.typeUrl_mute]

mutual

/-- Handlers of foreign messages never run. -/
theorem dispatch_mute (ha : a.router.AuthzOnly) (m : Message) :
    a.dispatch m.mute = a.dispatch m := by
  match m with
  | .grant _ => rfl
  | .revoke _ => rfl
  | .exec grantee msgs =>
    rw [Message.mute, dispatch, dispatch, Message.typeUrl, Message.typeUrl]
    simp only [dispatchFor_muteAll ha _ msgs]
  | .foreign url signers validity action =>
    rw [Message.mute, dispatch, dispatch, Message.typeUrl, Message.typeUrl]
    split
    · rfl
    · rfl
    · next hroute => cases ha url _ hroute

theorem dispatchFor_muteAll (ha : a.router.AuthzOnly) (grantee : Address) (ms : List Message) :
    a.dispatchFor grantee (Message.muteAll ms) = a.dispatchFor grantee ms := by
  match ms with
  | [] => rfl
  | m :: ms =>
    rw [Message.muteAll, dispatchFor, dispatchFor, permit_mute, dispatch_mute ha m,
      dispatchFor_muteAll ha grantee ms]

end

mutual

/-- Handlers of foreign messages leave nothing behind. -/
theorem journal_mute (ha : a.router.AuthzOnly) (m : Message) (c : Context) :
    a.journal m.mute c = a.journal m c := by
  match m with
  | .grant _ => rfl
  | .revoke _ => rfl
  | .exec grantee msgs =>
    have hdispatch := dispatch_mute ha (.exec grantee msgs)
    rw [Message.mute] at hdispatch ⊢
    rw [journal, journal, hdispatch]
    cases Address.parse grantee with
    | error e => rfl
    | ok grantee =>
      dsimp only
      rw [journalFor_muteAll ha grantee msgs]
  | .foreign url signers validity action =>
    rw [Message.mute, journal, journal]
    split
    · next hroute => cases ha url _ hroute
    · rfl

theorem journalFor_muteAll (ha : a.router.AuthzOnly) (grantee : Address) (ms : List Message)
    (c : Context) :
    a.journalFor grantee (Message.muteAll ms) c = a.journalFor grantee ms c := by
  match ms with
  | [] => rfl
  | m :: ms =>
    rw [Message.muteAll, journalFor, journalFor, permit_mute, Message.permitEntries_mute,
      dispatch_mute ha m, journal_mute ha m, journalFor_muteAll ha grantee ms]

end

theorem dispatchAll_muteAll (ha : a.router.AuthzOnly) (ms : List Message) :
    a.dispatchAll (Message.muteAll ms) = a.dispatchAll ms := by
  induction ms with
  | nil => rfl
  | cons m ms ih => rw [Message.muteAll, dispatchAll, dispatchAll, dispatch_mute ha, ih]

theorem journalAll_muteAll (ha : a.router.AuthzOnly) (ms : List Message) (c : Context) :
    a.journalAll (Message.muteAll ms) c = a.journalAll ms c := by
  induction ms generalizing c with
  | nil => rfl
  | cons m ms ih =>
    rw [Message.muteAll, journalAll, journalAll, dispatch_mute ha, journal_mute ha, ih]

end Assembly

namespace Chain

variable {c : Chain}

/-- The call, with handlers that do nothing. -/
def Call.mute : Call → Call
  | deliver tx => deliver (Message.muteAll tx)
  | call => call

theorem Call.obeys_mute (p : Conduct) (call : Call) : call.mute.Obeys p := by
  cases call with
  | deliver tx => exact Conduct.allowsAll_iff.1 (Message.allowsAll_muteAll p tx)
  | _ => trivial

theorem runTx_muteAll (ha : c.assembly.router.AuthzOnly) (tx : List Message) :
    c.runTx (Message.muteAll tx) = c.runTx tx := by
  have hvalid : validateTx (Message.muteAll tx) = validateTx tx := by
    rw [validateTx, validateTx, Message.isEmpty_muteAll, Message.validateAll_muteAll]
  rw [runTx, runTx, hvalid, Assembly.dispatchAll_muteAll ha]

theorem perform_mute (ha : c.assembly.router.AuthzOnly) (call : Call) :
    c.perform call.mute = c.perform call := by
  cases call with
  | deliver tx =>
    rw [Call.mute, perform, perform, deliverTx, deliverTx, runTx_muteAll ha]
  | _ => rfl

theorem journalOf_mute (ha : c.assembly.router.AuthzOnly) (call : Call) :
    c.journalOf call.mute = c.journalOf call := by
  cases call with
  | deliver tx =>
    rw [Call.mute, journalOf, journalOf, runTx_muteAll ha]
    cases c.header with
    | none => rfl
    | some h =>
      dsimp only
      rw [Assembly.journalAll_muteAll ha]
  | _ => rfl

/-- A run goes the same way with handlers that do nothing. -/
theorem run_mute (ha : c.assembly.router.AuthzOnly) (calls : List Call) :
    c.run (calls.map Call.mute) = c.run calls := by
  induction calls generalizing c with
  | nil => rfl
  | cons call calls ih =>
    have ih := ih (c := (c.perform call).2) (assembly_perform c call ▸ ha)
    rw [List.map_cons, run, run, perform_mute ha]
    dsimp only
    rw [ih]

theorem journal_mute (ha : c.assembly.router.AuthzOnly) (calls : List Call) :
    c.journal (calls.map Call.mute) = c.journal calls := by
  induction calls generalizing c with
  | nil => rfl
  | cons call calls ih =>
    have ih := ih (c := (c.perform call).2) (assembly_perform c call ▸ ha)
    rw [List.map_cons, journal, journal, perform_mute ha, journalOf_mute ha, ih]

theorem obeys_of_mem_mute (p : Conduct) (calls : List Call) :
    ∀ call ∈ calls.map Call.mute, call.Obeys p := by
  intro call hcall
  obtain ⟨call', -, rfl⟩ := List.mem_map.1 hcall
  exact call'.obeys_mute p

/-- In every run the records replay the journal, whatever handlers the foreign messages carry. -/
theorem replays_run_of_authzOnly (hr : c.assembly.registry.Builtin)
    (ha : c.assembly.router.AuthzOnly) (calls : List Call) {b : Bytes}
    (hb : b.startsWith GrantKey.allRange = true) :
    Replays c.assembly.registry b (c.journal calls) (c.record b) ((c.run calls).2.record b) := by
  have hreplays := replays_run hr Conduct.outsideGrants_outsideGrants (obeys_of_mem_mute _ calls) hb
  rwa [run_mute ha, journal_mute ha] at hreplays

/-- Every run leaves the chain consistent, whatever handlers the foreign messages carry. -/
theorem Consistent.run_of_authzOnly (hr : c.assembly.registry.Builtin)
    (ha : c.assembly.router.AuthzOnly) (h : c.Consistent) (calls : List Call) :
    (c.run calls).2.Consistent := by
  have hrun := h.run hr Conduct.outsideGrants_outsideGrants (obeys_of_mem_mute _ calls)
  rwa [run_mute ha] at hrun

end Chain

/-- The routes of the authorization module. -/
def Router.authzRoutes : Router :=
  (((∅ : Router).insert MsgGrant.typeUrl .authz).insert MsgRevoke.typeUrl .authz).insert
    Message.execTypeUrl .authz

theorem Router.authzOnly_authzRoutes : authzRoutes.AuthzOnly :=
  ((AuthzOnly.empty.insert _).insert _).insert _

theorem Router.complete_registerAuthz : complete (registerAuthz ∅) = .ok authzRoutes := by
  decide +kernel

/-- The standard ledger has the built-in kinds of authorization under its size cap, and the routes
of the authorization module alone. -/
theorem Assembly.standard_eq (cap : UInt64) :
    standard cap = .ok ⟨⟨Registry.builtin.kinds, cap⟩, Router.authzRoutes⟩ := by
  rw [standard, Router.complete_registerAuthz]
  rfl

end GrantLedger
