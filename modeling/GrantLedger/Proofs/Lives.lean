import GrantLedger.Proofs.AuthzOnly

/-!
# Chains over restarts

In its life a chain takes calls, and now and then the process ends: then the block in progress is
lost, and the chain is opened anew over what it has committed, perhaps with another configuration
and other routes. Nothing but committed pairs goes from one opening to the next, so a chain stays
consistent over its whole life, as long as every ledger that is opened admits the built-in kinds of
authorization alone and handlers keep out of the grants (`Chain.Consistent.live`).

At every moment, therefore, every pair in the namespace of grants is known to the byte
(`Chain.grants_are_records`): key and value are those of one valid grant.
-/

namespace GrantLedger

theorem Assembly.of_standard {cap : UInt64} {a : Assembly} (h : standard cap = .ok a) :
    a.registry.Builtin ∧ a.router.AuthzOnly := by
  obtain rfl := Except.ok.inj ((standard_eq cap).symm.trans h)
  exact ⟨rfl, Router.authzOnly_authzRoutes⟩

namespace Chain

/-- What happens to a chain in its life. -/
inductive Move where
  | call (call : Call)
  /-- The chain is dropped, and opened anew over what it has committed. -/
  | reopen (a : Assembly) (sweeps : Bool)

/-- The chain after one move. -/
def move (c : Chain) : Move → Chain
  | .call made => (c.perform made).2
  | .reopen a sweeps => opened a sweeps c.committed

/-- The chain after moves, one after the other. -/
def live (c : Chain) (moves : List Move) : Chain := moves.foldl move c

/-- Handlers keep to `p`, and a ledger that is opened admits the built-in kinds alone. -/
def Move.Obeys (p : Conduct) : Move → Prop
  | .call made => made.Obeys p
  | .reopen a _ => a.registry.Builtin

/-- A ledger that is opened is a standard one, without further routes. -/
def Move.Standard : Move → Prop
  | .call _ => True
  | .reopen a _ => ∃ cap, Assembly.standard cap = .ok a

variable {c : Chain} {p : Conduct}

/-- What every move keeps, a life keeps. -/
theorem live_keeps {P : Chain → Prop} {moves : List Move}
    (hstep : ∀ m ∈ moves, ∀ c, P c → P (c.move m)) (h : P c) : P (c.live moves) := by
  induction moves generalizing c with
  | nil => exact h
  | cons m moves ih =>
    have hfirst := hstep m List.mem_cons_self c h
    exact ih (fun m' hm' => hstep m' (List.mem_cons_of_mem m hm')) hfirst

theorem Consistent.reopen (h : c.Consistent) (a : Assembly) (sweeps : Bool) :
    (Chain.opened a sweeps c.committed).Consistent where
  view := h.committed
  committed := h.committed
  pending_eq _ := rfl

/-- A chain is consistent over its life, if handlers keep out of the grants. -/
theorem Consistent.live (hp : p.OutsideGrants) {moves : List Move}
    (hmoves : ∀ m ∈ moves, m.Obeys p) (h : c.Consistent) (hr : c.assembly.registry.Builtin) :
    (c.live moves).Consistent ∧ (c.live moves).assembly.registry.Builtin := by
  refine live_keeps (P := fun c => c.Consistent ∧ c.assembly.registry.Builtin) ?_ ⟨h, hr⟩
  rintro m hm c ⟨h, hr⟩
  have hobeys := hmoves m hm
  cases m with
  | call made =>
    refine ⟨h.perform hr hp hobeys, ?_⟩
    rw [move, assembly_perform]
    exact hr
  | reopen a sweeps => exact ⟨h.reopen a sweeps, hobeys⟩

/-- A chain without further routes is consistent over its life, whatever its messages carry. -/
theorem Consistent.live_of_standard {moves : List Move} (hmoves : ∀ m ∈ moves, m.Standard)
    (h : c.Consistent) (hc : ∃ cap, Assembly.standard cap = .ok c.assembly) :
    (c.live moves).Consistent ∧ ∃ cap, Assembly.standard cap = .ok (c.live moves).assembly := by
  refine live_keeps
    (P := fun c => c.Consistent ∧ ∃ cap, Assembly.standard cap = .ok c.assembly) ?_ ⟨h, hc⟩
  rintro m hm c ⟨h, cap, hc⟩
  have hstandard := hmoves m hm
  cases m with
  | call made =>
    obtain ⟨hr, honly⟩ := Assembly.of_standard hc
    refine ⟨h.run_of_authzOnly hr honly [made], cap, ?_⟩
    rw [move, assembly_perform]
    exact hc
  | reopen a sweeps => exact ⟨h.reopen a sweeps, hstandard⟩

end Chain

/-! ## What a record consists of -/

namespace GrantTable

/-- The key `b` names two different accounts and a message type, and `v` is the one encoding of an
expiration and of an authorization that is valid, of an admitted kind, and for that very type. -/
def IsRecord (r : Registry) (b v : Bytes) : Prop :=
  ∃ (k : GrantKey) (a : Authorization) (payload : Bytes) (expiration : Option Timestamp),
    b = k.toBytes ∧ k.grantee ≠ k.granter ∧ k.msgTypeUrl ≠ "" ∧
    v = GrantRecord.codec.encode ⟨⟨a.kind.typeUrl, payload⟩, expiration⟩ ∧
    r.isRegistered a.kind.typeUrl = true ∧ a.encode = .ok payload ∧
    a.msgTypeUrl = k.msgTypeUrl ∧ a.validate = .ok () ∧ ∀ name, a ≠ .method name (some 0)

theorem AllCanonical.isRecord {r : Registry} (hr : r.Builtin) {m : Pairs} (h : AllCanonical m)
    {b v : Bytes} (hget : m.get? b = some v) (hb : b.startsWith GrantKey.allRange = true) :
    IsRecord r b v := by
  obtain ⟨g, hsound, hkey, hstored⟩ := h b hb v hget
  obtain ⟨payload, hpayload⟩ := hsound.builtin.exists_encode
  obtain ⟨any, hpack, hvalue⟩ := Grant.stored_eq_some_iff.1 hstored
  rw [Authorization.pack, hpayload] at hpack
  cases hpack
  refine ⟨g.key, g.authorization, payload, g.expiration, hkey.symm, hsound.granter_ne.symm,
    Authorization.msgTypeUrl_ne_empty hsound.builtin hsound.valid, hvalue.symm, ?_, hpayload, rfl,
    hsound.valid, fun name hspent => ?_⟩
  · exact (hr.isRegistered_iff _).2 hsound.builtin
  · -- A method without uses left is never valid, whatever its name.
    have hvalid := hsound.valid
    rw [hspent, Authorization.validate] at hvalid
    split at hvalid <;> cases hvalid

end GrantTable

namespace Chain

/-- At every moment in the life of a chain that admits the built-in kinds alone and whose handlers
keep out of the grants, every pair in the namespace of grants is a record, in the committed pairs
and in the block in progress alike. -/
theorem grants_are_records {a : Assembly} (ha : a.registry.Builtin) (sweeps : Bool)
    {moves : List Move} (hmoves : ∀ m ∈ moves, m.Obeys .outsideGrants) :
    let c := (opened a sweeps ∅).live moves
    ∀ b v, b.startsWith GrantKey.allRange = true →
      (c.committed.get? b = some v → GrantTable.IsRecord c.assembly.registry b v) ∧
      (c.view.content.get? b = some v → GrantTable.IsRecord c.assembly.registry b v) := by
  intro c b v hb
  obtain ⟨hc, hr⟩ := Consistent.live Conduct.outsideGrants_outsideGrants hmoves
    (.opened a sweeps) ha
  exact ⟨fun hget => hc.committed.isRecord hr hget hb, fun hget => hc.view.isRecord hr hget hb⟩

/-- A ledger is reopened with a sweep and takes one of the two uses that a genesis granted. -/
theorem grants_are_records_once_used :
    let granter : Address := ⟨.replicate 20 1, rfl⟩
    let grantee : Address := ⟨.replicate 20 2, rfl⟩
    let router := ((∅ : Router).insert "/a" .foreign).insert Message.execTypeUrl .authz
    let payload := AuthorizationKind.methodCodec.encode ("/a", some 2)
    let write : Action := .write [7] (some [8]) fun _ => .done (.ok [])
    let moves : List Move :=
      [.call (.init ⟨"c", 1, ⟨5⟩⟩
          [⟨granter, grantee, ⟨AuthorizationKind.method.typeUrl, payload⟩, none⟩]),
        .call .commit, .reopen ⟨.builtin, router⟩ true, .call (.begin ⟨"c", 2, ⟨6⟩⟩),
        .call (.deliver [.exec grantee.toText [.foreign "/a" [granter] (.ok ()) write]])]
    let c := (opened ⟨.builtin, ∅⟩ false ∅).live moves
    ∃ v, (⟨granter, grantee, .method "/a" (some 1), none⟩ : Grant).stored = some v ∧
      GrantTable.IsRecord c.assembly.registry (GrantKey.toBytes ⟨grantee, granter, "/a"⟩) v := by
  intro granter grantee router payload write moves c
  let g : Grant := ⟨granter, grantee, .method "/a" (some 1), none⟩
  have hmoves : ∀ m ∈ moves, m.Obeys .outsideGrants := by
    have hoff : Bytes.startsWith [7] GrantKey.allRange = false := by decide
    simp [moves, write, Move.Obeys, Call.Obeys, Conduct.Allows, Conduct.AllowsAll,
      Conduct.AllowsAction, Conduct.outsideGrants, hoff, Registry.Builtin]
  obtain ⟨v, hv⟩ := Grant.exists_stored (g := g) (Authorization.builtin_method "/a" (some 1))
  have hget : c.view.content.get? (GrantKey.toBytes ⟨grantee, granter, "/a"⟩) = g.stored := by
    decide +kernel
  have hrecords := grants_are_records (a := ⟨.builtin, ∅⟩) rfl false hmoves
    (GrantKey.toBytes ⟨grantee, granter, "/a"⟩) v (GrantKey.startsWith_toBytes _)
  exact ⟨v, hv, hrecords.2 (hget.trans hv)⟩

end Chain

end GrantLedger
