import GrantLedger.Proofs.Runs
import GrantLedger.Proofs.WriteBack

/-!
# The uses of grants

Wherever messages are executed for an account, grants are used. `Assembly.uses` follows an execution
and lists them all, also those in branches that fail later, and a use that has been taken back is a
use all the same. None is a use of an expired grant (`Assembly.unexpired_of_mem_uses`): there is no
way to a delegated message but through the check in front of it, and everything that runs in a block
sees the time of that block. What the journal says to have been used has been used
(`Assembly.exists_use_of_mem_journal`).
-/

namespace GrantLedger

open GrantTable (recordAt)

/-- A grant has let a message pass, and was found under a key. -/
structure Use where
  key : GrantKey
  grant : Grant
deriving DecidableEq

namespace Assembly

/-- The use that lets `grantee` execute a message, if the check is passed and another account has
signed the message. -/
def permitUses (a : Assembly) (grantee : Address) (m : Message) (c : Context) : List Use :=
  match m.soleSigner with
  | .error _ => []
  | .ok granter =>
    if granter ≠ grantee then
      let k : GrantKey := ⟨grantee, granter, m.typeUrl⟩
      match recordAt a.registry c.store.content k with
      | .ok (some g) => [⟨k, g⟩]
      | _ => []
    else []

mutual

/-- The uses of grants while a message is executed in a context. -/
def uses (a : Assembly) (m : Message) (c : Context) : List Use :=
  match m with
  | .grant _ => []
  | .revoke _ => []
  | .exec text msgs =>
    if a.router.get? Message.execTypeUrl = some .authz then
      match Address.parse text with
      | .ok grantee => a.usesFor grantee msgs c.child
      | .error _ => []
    else []
  | .foreign url _ _ action =>
    if a.router.get? url = some .foreign then a.usesRun action c else []

/-- The uses of grants while messages are executed for `grantee`, up to the first that fails. -/
def usesFor (a : Assembly) (grantee : Address) (msgs : List Message) (c : Context) : List Use :=
  match msgs with
  | [] => []
  | m :: ms =>
    match a.permit grantee m c with
    | (.error _, _) => []
    | (.ok (), permitted) =>
      a.permitUses grantee m c ++ a.uses m permitted ++
        match a.dispatch m permitted with
        | (.error _, _) => []
        | (.ok _, after) => a.usesFor grantee ms after

/-- The uses of grants while an action is taken. -/
def usesRun (a : Assembly) (action : Action) (c : Context) : List Use :=
  match action with
  | .done _ => []
  | .get key next => a.usesRun (next (Exec.get key c).1) c
  | .write key value next =>
    a.usesRun (next (Exec.write key value c).1) (Exec.write key value c).2
  | .scan start next => a.usesRun (next (Exec.scan start c).1) c
  | .header next => a.usesRun (next c.header) c
  | .emit event next => a.usesRun next (c.emit event)
  | .events next => a.usesRun (next c.events) c
  | .takeEvents next => a.usesRun (next c.events) c.dropEvents
  | .branch body next =>
    let (result, after) := Exec.branch (a.run body) c
    a.usesRun body c.child ++ a.usesRun (next result) after
  | .dispatch msg next =>
    let (result, after) := a.dispatch msg c
    a.uses msg c ++ a.usesRun (next result) after

end

/-- The uses of grants while messages are dispatched in order, up to the first that fails. -/
def usesAll (a : Assembly) : List Message → Context → List Use
  | [], _ => []
  | m :: ms, c =>
    a.uses m c ++
      match a.dispatch m c with
      | (.error _, _) => []
      | (.ok _, after) => a.usesAll ms after

variable {a : Assembly} {c : Context} {u : Use} {k : GrantKey} {now : Timestamp}

/-- A check that is passed makes no use of a grant and needs no entry, or it uses the unexpired grant
of one key. -/
theorem permit_cases {grantee : Address} {m : Message} {c' : Context} (hc : c.Reliable)
    (h : a.permit grantee m c = (.ok (), c')) :
    (a.permitUses grantee m c = [] ∧ ∀ now, m.permitEntries grantee now = []) ∨
      ∃ k g, g.isExpired c.header.time = false ∧ a.permitUses grantee m c = [⟨k, g⟩] ∧
        ∀ now, m.permitEntries grantee now = [.use k now] := by
  rw [permit] at h
  obtain ⟨granter, hsole, h⟩ := Exec.ofExcept_bind_eq_ok_iff.1 h
  unfold permitUses Message.permitEntries
  rw [hsole]
  dsimp only at h ⊢
  by_cases hne : granter ≠ grantee
  · rw [if_pos hne] at h
    obtain ⟨g, answer, d, hrec, hexp, -⟩ :=
      Keeper.exists_answer_of_authorize (k := ⟨grantee, granter, m.typeUrl⟩) hc h
    refine .inr ⟨⟨grantee, granter, m.typeUrl⟩, g, hexp, ?_, fun now => if_pos hne⟩
    rw [if_pos hne, hrec]
  · exact .inl ⟨if_neg hne, fun now => if_neg hne⟩

/-! ## No use of an expired grant -/

theorem unexpired_of_mem_permitUses {grantee : Address} {m : Message} {c' : Context}
    (hc : c.Reliable) (hpermit : a.permit grantee m c = (.ok (), c'))
    (h : u ∈ a.permitUses grantee m c) : u.grant.isExpired c.header.time = false := by
  rcases permit_cases hc hpermit with ⟨hnone, -⟩ | ⟨k, g, hexp, hone, -⟩
  · rw [hnone] at h
    cases h
  · rw [hone] at h
    obtain rfl := List.mem_singleton.1 h
    exact hexp

mutual

/-- No grant that is used while a message is executed has expired, however deep it is used. -/
theorem unexpired_of_mem_uses (a : Assembly) (m : Message) {c : Context} (hc : c.Reliable) {u : Use}
    (h : u ∈ a.uses m c) : u.grant.isExpired c.header.time = false := by
  match m with
  | .grant g =>
    rw [uses] at h
    cases h
  | .revoke g =>
    rw [uses] at h
    cases h
  | .exec text msgs =>
    rw [uses] at h
    split at h
    · split at h
      · have hchild : c.child.Reliable := hc
        exact unexpired_of_mem_usesFor a _ msgs hchild h
      · cases h
    · cases h
  | .foreign url signers validity action =>
    rw [uses] at h
    split at h
    · exact unexpired_of_mem_usesRun a action hc h
    · cases h

theorem unexpired_of_mem_usesFor (a : Assembly) (grantee : Address) (ms : List Message)
    {c : Context} (hc : c.Reliable) {u : Use} (h : u ∈ a.usesFor grantee ms c) :
    u.grant.isExpired c.header.time = false := by
  match ms with
  | [] =>
    rw [usesFor] at h
    cases h
  | m :: ms =>
    rw [usesFor] at h
    split at h
    · cases h
    · next permitted hpermit =>
      have hsame := (steady_permit a grantee m).continues hpermit
      have hpermitted := hsame.reliable hc
      rcases List.mem_append.1 h with h | h
      · rcases List.mem_append.1 h with h | h
        · exact unexpired_of_mem_permitUses hc hpermit h
        · rw [← hsame.header_eq]
          exact unexpired_of_mem_uses a m hpermitted h
      · split at h
        · cases h
        · next result after hdispatch =>
          have hsame' := (steady_dispatch a m).continues hdispatch
          rw [← hsame.header_eq, ← hsame'.header_eq]
          exact unexpired_of_mem_usesFor a grantee ms (hsame'.reliable hpermitted) h

theorem unexpired_of_mem_usesRun (a : Assembly) (act : Action) {c : Context} (hc : c.Reliable)
    {u : Use} (h : u ∈ a.usesRun act c) : u.grant.isExpired c.header.time = false := by
  match act with
  | .done result =>
    rw [usesRun] at h
    cases h
  | .get key next =>
    rw [usesRun] at h
    exact unexpired_of_mem_usesRun a (next _) hc h
  | .write key value next =>
    rw [usesRun] at h
    have hsame := Exec.Steady.write key value c
    rw [← hsame.header_eq]
    exact unexpired_of_mem_usesRun a (next _) (hsame.reliable hc) h
  | .scan start next =>
    rw [usesRun] at h
    exact unexpired_of_mem_usesRun a (next _) hc h
  | .header next =>
    rw [usesRun] at h
    exact unexpired_of_mem_usesRun a (next _) hc h
  | .emit event next =>
    rw [usesRun] at h
    exact unexpired_of_mem_usesRun a next (c := c.emit event) hc h
  | .events next =>
    rw [usesRun] at h
    exact unexpired_of_mem_usesRun a (next _) hc h
  | .takeEvents next =>
    rw [usesRun] at h
    exact unexpired_of_mem_usesRun a (next _) (c := c.dropEvents) hc h
  | .branch body next =>
    rw [usesRun] at h
    rcases List.mem_append.1 h with h | h
    · have hchild : c.child.Reliable := hc
      exact unexpired_of_mem_usesRun a body hchild h
    · have hsame := Exec.Steady.branch (a.run body) c
      rw [← hsame.header_eq]
      exact unexpired_of_mem_usesRun a (next _) (hsame.reliable hc) h
  | .dispatch msg next =>
    rw [usesRun] at h
    rcases List.mem_append.1 h with h | h
    · exact unexpired_of_mem_uses a msg hc h
    · have hsame := steady_dispatch a msg c
      rw [← hsame.header_eq]
      exact unexpired_of_mem_usesRun a (next _) (hsame.reliable hc) h

end

theorem unexpired_of_mem_usesAll (a : Assembly) (ms : List Message) {c : Context} (hc : c.Reliable)
    {u : Use} (h : u ∈ a.usesAll ms c) : u.grant.isExpired c.header.time = false := by
  induction ms generalizing c with
  | nil => cases h
  | cons m ms ih =>
    rw [usesAll] at h
    rcases List.mem_append.1 h with h | h
    · exact unexpired_of_mem_uses a m hc h
    · split at h
      · cases h
      · next result after hdispatch =>
        have hsame := (steady_dispatch a m).continues hdispatch
        rw [← hsame.header_eq]
        exact ih (hsame.reliable hc) h

/-! ## What the journal lists has been used -/

/-- The use that a check records is that of the grant which it has found. -/
theorem exists_use_of_mem_permitEntries {grantee : Address} {m : Message} {c' : Context}
    (hc : c.Reliable) (hpermit : a.permit grantee m c = (.ok (), c'))
    (h : .use k now ∈ m.permitEntries grantee c.header.time) :
    now = c.header.time ∧ ∃ g, ⟨k, g⟩ ∈ a.permitUses grantee m c := by
  rcases permit_cases hc hpermit with ⟨-, hnone⟩ | ⟨k', g, -, hone, hentry⟩
  · rw [hnone] at h
    cases h
  · rw [hentry] at h
    cases List.mem_singleton.1 h
    exact ⟨rfl, g, by rw [hone]; exact List.mem_singleton.2 rfl⟩

mutual

/-- A use that lasts is one of the uses, and happened at the time of the block. -/
theorem exists_use_of_mem_journal (a : Assembly) (m : Message) {c : Context} (hc : c.Reliable)
    {k : GrantKey} {now : Timestamp} (h : .use k now ∈ a.journal m c) :
    now = c.header.time ∧ ∃ g, ⟨k, g⟩ ∈ a.uses m c := by
  match m with
  | .grant msg =>
    rw [journal] at h
    have hmem := Entry.mem_of_mem_lasting h
    rw [MsgGrant.entries] at hmem
    split at hmem
    · cases List.mem_singleton.1 hmem
    · cases hmem
  | .revoke msg =>
    rw [journal] at h
    have hmem := Entry.mem_of_mem_lasting h
    rw [MsgRevoke.entries] at hmem
    split at hmem
    · cases List.mem_singleton.1 hmem
    · cases hmem
  | .exec text msgs =>
    rw [journal] at h
    rw [uses]
    rcases hdispatch : a.dispatch (.exec text msgs) c with ⟨e | result, c'⟩
    · rw [hdispatch] at h
      cases h
    · obtain ⟨hrouted, grantee, hparse, results, child, hfor, -⟩ :=
        (dispatch_exec_eq_ok_iff hc).1 hdispatch
      have hmem := Entry.mem_of_mem_lasting h
      rw [hparse] at hmem
      rw [if_pos hrouted, hparse]
      have hchild : c.child.Reliable := hc
      exact exists_use_of_mem_journalFor a grantee msgs hchild hfor hmem
  | .foreign url signers validity action =>
    rw [journal] at h
    rw [uses]
    split at h
    · next hrouted =>
      rw [if_pos hrouted]
      exact exists_use_of_mem_journalRun a action hc h
    · cases h

theorem exists_use_of_mem_journalFor (a : Assembly) (grantee : Address) (ms : List Message)
    {c c' : Context} (hc : c.Reliable) {results : List Bytes}
    (hfor : a.dispatchFor grantee ms c = (.ok results, c')) {k : GrantKey} {now : Timestamp}
    (h : .use k now ∈ a.journalFor grantee ms c) :
    now = c.header.time ∧ ∃ g, ⟨k, g⟩ ∈ a.usesFor grantee ms c := by
  match ms with
  | [] =>
    rw [journalFor] at h
    cases h
  | m :: ms =>
    rw [dispatchFor] at hfor
    obtain ⟨⟨⟩, permitted, hpermit, hfor⟩ := Exec.bind_eq_ok_iff.1 hfor
    obtain ⟨result, after, hdispatch, hfor⟩ := Exec.bind_eq_ok_iff.1 hfor
    obtain ⟨later, c₃, hlater, -⟩ := Exec.bind_eq_ok_iff.1 hfor
    have hsame := (steady_permit a grantee m).continues hpermit
    have hsame' := (steady_dispatch a m).continues hdispatch
    have hpermitted := hsame.reliable hc
    rw [journalFor, hpermit] at h
    rw [usesFor, hpermit]
    dsimp only at h ⊢
    rw [hdispatch] at h ⊢
    dsimp only at h ⊢
    rcases List.mem_append.1 h with h | h
    · rcases List.mem_append.1 h with h | h
      · obtain ⟨hnow, g, hmem⟩ := exists_use_of_mem_permitEntries hc hpermit h
        exact ⟨hnow, g, List.mem_append_left _ (List.mem_append_left _ hmem)⟩
      · obtain ⟨hnow, g, hmem⟩ := exists_use_of_mem_journal a m hpermitted h
        rw [hsame.header_eq] at hnow
        exact ⟨hnow, g, List.mem_append_left _ (List.mem_append_right _ hmem)⟩
    · obtain ⟨hnow, g, hmem⟩ :=
        exists_use_of_mem_journalFor a grantee ms (hsame'.reliable hpermitted) hlater h
      rw [hsame'.header_eq, hsame.header_eq] at hnow
      exact ⟨hnow, g, List.mem_append_right _ hmem⟩

theorem exists_use_of_mem_journalRun (a : Assembly) (act : Action) {c : Context} (hc : c.Reliable)
    {k : GrantKey} {now : Timestamp} (h : .use k now ∈ a.journalRun act c) :
    now = c.header.time ∧ ∃ g, ⟨k, g⟩ ∈ a.usesRun act c := by
  match act with
  | .done result =>
    rw [journalRun] at h
    cases h
  | .get key next =>
    rw [journalRun] at h
    rw [usesRun]
    exact exists_use_of_mem_journalRun a (next _) hc h
  | .write key value next =>
    rw [journalRun] at h
    rw [usesRun]
    have hsame := Exec.Steady.write key value c
    rw [← hsame.header_eq]
    exact exists_use_of_mem_journalRun a (next _) (hsame.reliable hc) h
  | .scan start next =>
    rw [journalRun] at h
    rw [usesRun]
    exact exists_use_of_mem_journalRun a (next _) hc h
  | .header next =>
    rw [journalRun] at h
    rw [usesRun]
    exact exists_use_of_mem_journalRun a (next _) hc h
  | .emit event next =>
    rw [journalRun] at h
    rw [usesRun]
    exact exists_use_of_mem_journalRun a next (c := c.emit event) hc h
  | .events next =>
    rw [journalRun] at h
    rw [usesRun]
    exact exists_use_of_mem_journalRun a (next _) hc h
  | .takeEvents next =>
    rw [journalRun] at h
    rw [usesRun]
    exact exists_use_of_mem_journalRun a (next _) (c := c.dropEvents) hc h
  | .branch body next =>
    rw [journalRun] at h
    rw [usesRun]
    have hsame := Exec.Steady.branch (a.run body) c
    rcases List.mem_append.1 h with h | h
    · have hchild : c.child.Reliable := hc
      obtain ⟨hnow, g, hmem⟩ :=
        exists_use_of_mem_journalRun a body hchild (Entry.mem_of_mem_lasting h)
      exact ⟨hnow, g, List.mem_append_left _ hmem⟩
    · obtain ⟨hnow, g, hmem⟩ := exists_use_of_mem_journalRun a (next _) (hsame.reliable hc) h
      rw [hsame.header_eq] at hnow
      exact ⟨hnow, g, List.mem_append_right _ hmem⟩
  | .dispatch msg next =>
    rw [journalRun] at h
    rw [usesRun]
    have hsame := steady_dispatch a msg c
    rcases List.mem_append.1 h with h | h
    · obtain ⟨hnow, g, hmem⟩ := exists_use_of_mem_journal a msg hc h
      exact ⟨hnow, g, List.mem_append_left _ hmem⟩
    · obtain ⟨hnow, g, hmem⟩ := exists_use_of_mem_journalRun a (next _) (hsame.reliable hc) h
      rw [hsame.header_eq] at hnow
      exact ⟨hnow, g, List.mem_append_right _ hmem⟩

end

theorem exists_use_of_mem_journalAll (a : Assembly) {ms : List Message} {c c' : Context}
    (hc : c.Reliable) {results : List Bytes} (hall : a.dispatchAll ms c = (.ok results, c'))
    (h : .use k now ∈ a.journalAll ms c) :
    now = c.header.time ∧ ∃ g, ⟨k, g⟩ ∈ a.usesAll ms c := by
  induction ms generalizing c results with
  | nil => cases h
  | cons m ms ih =>
    rw [dispatchAll] at hall
    obtain ⟨result, after, hdispatch, hall⟩ := Exec.bind_eq_ok_iff.1 hall
    obtain ⟨later, c₂, hlater, hall⟩ := Exec.bind_eq_ok_iff.1 hall
    cases hall
    have hsame := (steady_dispatch a m).continues hdispatch
    rw [journalAll, hdispatch] at h
    rw [usesAll, hdispatch]
    rcases List.mem_append.1 h with h | h
    · obtain ⟨hnow, g, hmem⟩ := exists_use_of_mem_journal a m hc h
      exact ⟨hnow, g, List.mem_append_left _ hmem⟩
    · obtain ⟨hnow, g, hmem⟩ := ih (hsame.reliable hc) hlater h
      rw [hsame.header_eq] at hnow
      exact ⟨hnow, g, List.mem_append_right _ hmem⟩

end Assembly

/-! ## Uses in a block -/

namespace Chain

/-- The uses of grants while a transaction is delivered, whatever it comes to. -/
def uses (c : Chain) (tx : List Message) : List Use :=
  match c.header, validateTx tx with
  | some h, .ok () => c.assembly.usesAll tx (Context.start h c.view).child
  | _, _ => []

variable {c : Chain} {tx : List Message}

/-- No grant that is used in a block has expired at the time of the block. -/
theorem unexpired_of_mem_uses {u : Use} (h : u ∈ c.uses tx) :
    ∃ header, c.header = some header ∧ u.grant.isExpired header.time = false := by
  rw [uses] at h
  split at h
  · next header hheader _ =>
    have hchild : (Context.start header c.view).child.Reliable := c.reliable_view
    exact ⟨header, hheader, Assembly.unexpired_of_mem_usesAll c.assembly tx hchild h⟩
  · cases h

/-- A use that lasts happened at the time of the block, and the grant that was used had not
expired. -/
theorem exists_use_of_mem_journalOf {k : GrantKey} {now : Timestamp}
    (h : .use k now ∈ c.journalOf (.deliver tx)) :
    ∃ header g, c.header = some header ∧ now = header.time ∧ ⟨k, g⟩ ∈ c.uses tx := by
  rw [journalOf] at h
  cases hheader : c.header with
  | none =>
    rw [hheader] at h
    cases h
  | some header =>
    rw [hheader] at h
    rcases hrun : c.runTx tx with ⟨e | ⟨data, events⟩, c'⟩
    · rw [hrun] at h
      cases h
    · have hvalid : validateTx tx = .ok () := by
        cases hv : validateTx tx with
        | ok _ => rfl
        | error e =>
          rw [runTx_of_invalid hv] at hrun
          cases hrun
      obtain ⟨header', child, hheader', hall, -⟩ := runTx_of_ok hrun
      cases hheader.symm.trans hheader'
      have hchild : (Context.start header c.view).child.Reliable := c.reliable_view
      obtain ⟨hnow, g, hmem⟩ := Assembly.exists_use_of_mem_journalAll c.assembly hchild hall
        (Entry.mem_of_mem_lasting h)
      refine ⟨header, g, rfl, hnow, ?_⟩
      rw [uses, hheader, hvalid]
      exact hmem

end Chain

end GrantLedger
