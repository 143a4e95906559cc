import GrantLedger.Proofs.Effects
import GrantLedger.Proofs.WriteBack

/-!
# Which records an execution touches

Each operation on a grant looks at its record and writes no other one. So the grants that a message
touches can be read off the message: those that it gives or revokes, and those that a batch in it
needs, at any depth (`Message.touched`). Where no foreign message is inside and the authorizations
are built in, an execution is confined to the records of these grants
(`Assembly.confined_dispatch`). A foreign handler may reach for any key and for the events of its
context, and an authorization that updates itself to one for other messages may write another
record.
-/

namespace GrantLedger

/-- The grant that the message gives, if its parties can be read. -/
def MsgGrant.touched (m : MsgGrant) : List GrantKey :=
  match m.parties with
  | .ok (granter, grantee) => [⟨grantee, granter, m.authorization.msgTypeUrl⟩]
  | .error _ => []

/-- The grant that the message revokes, if its parties can be read. -/
def MsgRevoke.touched (m : MsgRevoke) : List GrantKey :=
  match m.parties with
  | .ok (granter, grantee) => [⟨grantee, granter, m.msgTypeUrl⟩]
  | .error _ => []

namespace Message

/-- The grant that `grantee` needs for the message, if somebody else signed it. -/
def needs (m : Message) (grantee : Address) : List GrantKey :=
  match m.soleSigner with
  | .ok signer => if signer ≠ grantee then [⟨grantee, signer, m.typeUrl⟩] else []
  | .error _ => []

/-- The grants that the account of a text needs for messages. -/
def needsAll (grantee : String) (msgs : List Message) : List GrantKey :=
  match Address.parse grantee with
  | .ok grantee => msgs.flatMap (·.needs grantee)
  | .error _ => []

mutual

/-- The grants that executing a message touches: those given, revoked or needed in it. -/
def touched : Message → List GrantKey
  | .grant m => m.touched
  | .revoke m => m.touched
  | .exec grantee msgs => needsAll grantee msgs ++ touchedAll msgs
  | .foreign .. => []

/-- The grants that executing messages touches. -/
def touchedAll : List Message → List GrantKey
  | [] => []
  | m :: ms => m.touched ++ touchedAll ms

end

mutual

/-- All messages in it are those of the authorization module. -/
def AuthzOnly : Message → Prop
  | .grant _ => True
  | .revoke _ => True
  | .exec _ msgs => AuthzOnlyAll msgs
  | .foreign .. => False

/-- All messages in them are those of the authorization module. -/
def AuthzOnlyAll : List Message → Prop
  | [] => True
  | m :: ms => m.AuthzOnly ∧ AuthzOnlyAll ms

end

end Message

/-! ## Operations on grants -/

section

variable {K : Bytes → Prop} {k : GrantKey} (hk : K k.toBytes)

namespace GrantTable

theorem confined_save {g : Grant} (hg : K g.key.toBytes) : (save g).Confined K :=
  .bind (.ofExcept _) fun _ => .write hg _

include hk

theorem confined_get? (r : Registry) : (get? r k).Confined K := by
  refine .bind (.get hk) fun b => ?_
  cases b with
  | none => exact .pure _
  | some b => exact .bind (.ofExcept _) fun _ => .pure _

theorem confined_getOrPrune (r : Registry) (now : Timestamp) : (getOrPrune r k now).Confined K := by
  refine .bind (confined_get? hk r) fun g => ?_
  cases g with
  | none => exact .pure _
  | some g => exact .ite (.bind (.write hk _) fun _ => .pure _) (.pure _)

theorem confined_delete : (delete k).Confined K :=
  .bind (.has hk) fun _ => .ite (.write hk _) (.ofExcept _)

end GrantTable

namespace Keeper

theorem confined_grant (r : Registry) {granter grantee : Address} {authorization : Authorization}
    {expiration : Option Timestamp}
    (hk : K (GrantKey.toBytes ⟨grantee, granter, authorization.msgTypeUrl⟩)) :
    (grant r granter grantee authorization expiration).Confined K := by
  refine .check (.bind (.ofExcept _) fun _ => .check (.bind .blockTime fun now => ?_))
  have hsave (e : Event) :
      (GrantTable.save ⟨granter, grantee, authorization, expiration⟩ >>= fun _ =>
        Exec.emit e).Confined K :=
    .bind (GrantTable.confined_save hk) fun _ => .emit e
  cases expiration with
  | none => exact hsave _
  | some e => exact .check (hsave _)

theorem confined_revoke {granter grantee : Address} {url : String}
    (hk : K (GrantKey.toBytes ⟨grantee, granter, url⟩)) : (revoke granter grantee url).Confined K :=
  .bind (GrantTable.confined_delete hk) fun _ => .emit _

include hk

theorem confined_lookup (r : Registry) : (lookup r k).Confined K :=
  .bind .blockTime fun _ => GrantTable.confined_getOrPrune hk r _

/-- What an answer writes back is under the key that was looked up, or under that of the updated
authorization. -/
theorem confined_settle {g : Grant} {answer : Acceptance}
    (hnext : answer.delete = false → ∀ updated, answer.updated = some updated →
      K (Grant.key { g with authorization := updated }).toBytes) :
    (settle k g answer).Confined K := by
  rw [settle]
  split
  · exact GrantTable.confined_delete hk
  · next hdelete =>
    cases hupdated : answer.updated with
    | none => exact .pure _
    | some updated =>
      exact GrantTable.confined_save (hnext (Bool.eq_false_iff.2 hdelete) updated hupdated)

theorem confined_authorize {r : Registry} (hr : r.Builtin ∨ ∀ b, K b) :
    (authorize r k.grantee k.granter k.msgTypeUrl).Confined K := by
  refine .bind_of_ok (confined_lookup hk r) ?_
  rintro found ⟨c, d, hc, hlookup⟩
  cases found with
  | none => exact .throw _
  | some g =>
    refine .bind_ofExcept fun answer hanswer => ?_
    refine .check (.bind (confined_settle hk fun hkept updated hupdated => ?_) fun _ => .emit _)
    rcases hr with hr | hall
    · -- The authorization was read from a record, and one of a built-in kind keeps to its messages.
      obtain ⟨hrec, -⟩ := (lookup_eq_some_iff hc).1 hlookup
      obtain ⟨b, -, hdec⟩ := GrantTable.recordAt_eq_some_iff.1 hrec
      obtain ⟨hgranter, hgrantee, hbuiltin, -⟩ := Grant.stored_of_decode hr hdec
      have hurl : updated.msgTypeUrl = k.msgTypeUrl := by
        rcases hbuiltin.sameType hanswer with hdelete | hsame
        · rw [hkept] at hdelete
          cases hdelete
        · exact hsame updated hupdated
      have hkey : Grant.key { g with authorization := updated } = k := by
        rw [Grant.key, Grant.msgTypeUrl, hgranter, hgrantee, hurl]
      exact hkey ▸ hk
    · exact hall _

end Keeper

end

/-! ## Messages -/

namespace Assembly

variable {a : Assembly} {K : Bytes → Prop}

theorem confined_handleGrant {m : MsgGrant} (h : ∀ k ∈ m.touched, K k.toBytes) :
    (a.handleGrant m).Confined K := by
  refine .bind_ofExcept fun ⟨granter, grantee⟩ hparties => ?_
  rw [MsgGrant.touched, hparties] at h
  exact .bind (Keeper.confined_grant _ (h _ (List.mem_singleton.2 rfl))) fun _ => .pure _

theorem confined_handleRevoke {m : MsgRevoke} (h : ∀ k ∈ m.touched, K k.toBytes) :
    (handleRevoke m).Confined K := by
  refine .bind_ofExcept fun ⟨granter, grantee⟩ hparties => ?_
  rw [MsgRevoke.touched, hparties] at h
  exact .bind (Keeper.confined_revoke (h _ (List.mem_singleton.2 rfl))) fun _ => .pure _

theorem confined_dispatch_grant {m : MsgGrant} (h : ∀ k ∈ m.touched, K k.toBytes) :
    (a.dispatch (.grant m)).Confined K := by
  rw [dispatch]
  split
  · exact .throw _
  · exact confined_handleGrant h
  · exact .throw _

theorem confined_dispatch_revoke {m : MsgRevoke} (h : ∀ k ∈ m.touched, K k.toBytes) :
    (a.dispatch (.revoke m)).Confined K := by
  rw [dispatch]
  split
  · exact .throw _
  · exact confined_handleRevoke h
  · exact .throw _

/-- A batch message does no more than the branch that executes its messages. -/
theorem confined_dispatch_exec {text : String} {msgs : List Message}
    (h : ∀ grantee, Address.parse text = .ok grantee →
      (Exec.branch (a.dispatchFor grantee msgs)).Confined K) :
    (a.dispatch (.exec text msgs)).Confined K := by
  rw [dispatch]
  split
  · exact .throw _
  · refine .bind_ofExcept fun grantee hgrantee => .bind (h grantee ?_) fun _ => .pure _
    cases hparse : Address.parse text with
    | error e =>
      rw [hparse] at hgrantee
      cases hgrantee
    | ok parsed =>
      rw [hparse] at hgrantee
      cases hgrantee
      rfl
  · exact .throw _

theorem confined_permit {grantee : Address} {m : Message}
    (h : ∀ k ∈ m.needs grantee, K k.toBytes) (hr : a.registry.Builtin ∨ ∀ b, K b) :
    (a.permit grantee m).Confined K := by
  refine .bind_ofExcept fun granter hsigner => ?_
  rw [Message.needs, hsigner] at h
  dsimp only at h
  split
  · next hne =>
    rw [if_pos hne] at h
    exact Keeper.confined_authorize (h _ (List.mem_singleton.2 rfl)) hr
  · exact .pure _

mutual

/-- Executing a message of the authorization module touches the records of its grants only. -/
theorem confined_dispatch (hr : a.registry.Builtin) (m : Message) (hm : m.AuthzOnly)
    (h : ∀ k ∈ m.touched, K k.toBytes) : (a.dispatch m).Confined K := by
  match m with
  | .grant g => exact confined_dispatch_grant h
  | .revoke g => exact confined_dispatch_revoke h
  | .exec text msgs =>
    refine confined_dispatch_exec fun grantee hparse => ?_
    rw [Message.touched, Message.needsAll, hparse] at h
    exact (confined_dispatchFor hr grantee msgs hm (fun k hk => h k (List.mem_append_left _ hk))
      (fun k hk => h k (List.mem_append_right _ hk))).branch
  | .foreign url signers validity action => exact hm.elim

theorem confined_dispatchFor (hr : a.registry.Builtin) (grantee : Address) (ms : List Message)
    (hms : Message.AuthzOnlyAll ms) (hneeds : ∀ k ∈ ms.flatMap (·.needs grantee), K k.toBytes)
    (h : ∀ k ∈ Message.touchedAll ms, K k.toBytes) : (a.dispatchFor grantee ms).Confined K := by
  match ms with
  | [] =>
    rw [dispatchFor]
    exact .pure _
  | m :: ms =>
    rw [List.flatMap_cons] at hneeds
    rw [Message.touchedAll] at h
    rw [dispatchFor]
    have hpermit : (a.permit grantee m).Confined K :=
      confined_permit (fun k hk => hneeds k (List.mem_append_left _ hk)) (.inl hr)
    have hdispatch := confined_dispatch hr m hms.1 fun k hk => h k (List.mem_append_left _ hk)
    have hlater := confined_dispatchFor hr grantee ms hms.2
      (fun k hk => hneeds k (List.mem_append_right _ hk))
      (fun k hk => h k (List.mem_append_right _ hk))
    exact .bind hpermit fun _ => .bind hdispatch fun _ => .bind hlater fun _ => .pure _

end

theorem confined_dispatchAll (hr : a.registry.Builtin) {ms : List Message}
    (hms : Message.AuthzOnlyAll ms) (h : ∀ k ∈ Message.touchedAll ms, K k.toBytes) :
    (a.dispatchAll ms).Confined K := by
  induction ms with
  | nil =>
    rw [dispatchAll]
    exact .pure _
  | cons m ms ih =>
    rw [Message.touchedAll] at h
    rw [dispatchAll]
    have hdispatch := confined_dispatch hr m hms.1 fun k hk => h k (List.mem_append_left _ hk)
    have hlater := ih hms.2 fun k hk => h k (List.mem_append_right _ hk)
    exact .bind hdispatch fun _ => .bind hlater fun _ => .pure _

end Assembly

end GrantLedger
