import GrantLedger.Proofs.AuthzOnly
import GrantLedger.Proofs.Lifecycle
import GrantLedger.Proofs.Listing

/-!
# Inquiries between calls

A query removes the expired grants that it comes across, and it works on the very pairs that the
chain has committed. What keeps it from changing them is the branch it runs in: its writes are
pending in there and nothing carries them out, whatever it comes to (`Chain.ask_eq`). So inquiries
can be put between the calls to a chain, any number of them at any points: the calls answer as they
do without, and lead to the same chain (`Chain.play_eq`). And since an inquiry sees nothing but the
committed pairs, what it finds changes with a commit only.
-/

namespace GrantLedger

/-! ## Queries stay within their context -/

open Exec (Steady)

theorem GrantTable.steady_list (r : Registry) (start : Bytes) : (list r start).Steady :=
  .bind (.scan start) fun _ => .pure _

theorem Genesis.steady_exported (r : Registry) : (exported r).Steady :=
  .bind .blockTime fun _ => .bind (GrantTable.steady_list r _) fun _ => .ofExcept _

namespace Query

theorem steady_removeAll (gs : List Grant) : (removeAll gs).Steady := by
  induction gs with
  | nil => exact .pure ()
  | cons g gs ih => exact .bind (GrantTable.steady_delete g.key) fun _ => ih

theorem steady_page (items : List (Listed Grant)) (req : Option PageRequest) :
    (page items req).Steady :=
  .bind .blockTime fun _ => .bind (.ofExcept _) fun _ =>
    .bind (steady_removeAll _) fun _ => .pure _

theorem steady_authorization (r : Registry) (granter grantee method : String) :
    (authorization r granter grantee method).Steady := by
  refine .check (.bind (.ofExcept _) fun granter => .bind (.ofExcept _) fun grantee => ?_)
  refine .bind (Keeper.steady_lookup r _) fun found => ?_
  cases found with
  | none => exact .throw _
  | some g => exact .pure g

/-- Serving a request stays within the context, although it removes grants. -/
theorem Request.steady_serve (r : Registry) (q : Request) : (q.serve r).Steady := by
  have hlist (start : Bytes) (req : Option PageRequest) :
      (GrantTable.list r start >>= fun items => page items req).Steady :=
    .bind (GrantTable.steady_list r start) fun items => steady_page items req
  cases q with
  | authorization granter grantee method =>
    exact .bind (steady_authorization r granter grantee method) fun _ => .pure _
  | authorizations granter grantee req =>
    refine .bind ?_ fun _ => .pure _
    exact .bind (.ofExcept _) fun _ => .bind (.ofExcept _) fun _ => hlist _ req
  | granteeGrants grantee req =>
    exact .bind (.bind (.ofExcept _) fun _ => hlist _ req) fun _ => .pure _
  | genesis => exact .bind (Genesis.steady_exported r) fun _ => .pure _

end Query

namespace Chain

/-! ## Inquiries -/

/-- Run a query in a branch of the committed pairs, which it shares with the chain: what is carried
out on the pairs themselves stays. -/
def ask {α : Type} (c : Chain) (x : Exec α) : Except Error α × Chain :=
  match c.queryHeader with
  | .error e => (.error e, c)
  | .ok h =>
    match x (.start h (Store.branch (.ofPairs c.committed))) with
    | (result, after) => (result, { c with committed := after.store.backend.content })

/-- A query that stays within its context leaves the committed pairs as they are. -/
theorem ask_eq {α : Type} {x : Exec α} (hx : x.Steady) (c : Chain) :
    c.ask x = (c.query x, c) := by
  rw [ask, query]
  cases c.queryHeader with
  | error e => rfl
  | ok h =>
    -- Whatever became of the buffer, it lies over the same pairs.
    let start : Context := .start h (Store.branch (.ofPairs c.committed))
    have hstore := (hx start).sameBelow.eq_buffered
    have hkept : (x start).2.store.backend.content = c.committed := by
      rw [hstore]
      rfl
    show ((x start).1, { c with committed := (x start).2.store.backend.content }) = _
    rw [hkept]
    rfl

/-- What can be found out about a chain between its calls. -/
inductive Inquiry where
  /-- The header that queries run under. -/
  | lastHeader
  | request (q : Query.Request)

/-- What an inquiry that succeeds finds. -/
inductive Finding where
  | header (h : BlockHeader)
  | answer (a : Query.Answer)
deriving DecidableEq

/-- Make an inquiry, in a context of its own over what has been committed. -/
def inquire (c : Chain) : Inquiry → Except Error Finding × Chain
  | .lastHeader => (c.queryHeader.map .header, c)
  | .request q =>
    match c.ask (q.serve c.assembly.registry) with
    | (result, c) => (result.map .answer, c)

/-- What an inquiry finds in pairs that have been committed. -/
def Inquiry.findIn (i : Inquiry) (r : Registry) (committed : Pairs) : Except Error Finding :=
  ((opened ⟨r, ∅⟩ false committed).inquire i).1

/-- An inquiry finds what is in the committed pairs, and changes nothing. -/
theorem inquire_eq (c : Chain) (i : Inquiry) :
    c.inquire i = (i.findIn c.assembly.registry c.committed, c) := by
  cases i with
  | lastHeader => rfl
  | request q =>
    have hserve := q.steady_serve c.assembly.registry
    rw [Inquiry.findIn, inquire, inquire, ask_eq hserve]
    change _ = (((opened ⟨c.assembly.registry, ∅⟩ false c.committed).ask
      (q.serve c.assembly.registry)).1.map Finding.answer, c)
    rw [ask_eq hserve]
    rfl

/-! ## Calls and inquiries by turns -/

/-- What is done with a chain from without: a call that it runs, or an inquiry. -/
inductive Turn where
  | call (made : Call)
  | inquiry (made : Inquiry)

namespace Turn

/-- The call of a turn, if it is one. -/
def call? : Turn → Option Call
  | call made => some made
  | inquiry _ => none

/-- The calls among the turns. -/
def calls (turns : List Turn) : List Call := turns.filterMap call?

end Turn

/-- A block has been committed. -/
def Answer.commits : Answer → Bool
  | committed (.ok _) => true
  | _ => false

/-- What a turn is answered with. -/
inductive Reply where
  | called (answer : Answer)
  | found (finding : Except Error Finding)

namespace Reply

/-- A call was answered, and a block has been committed. -/
def commits : Reply → Bool
  | called answer => answer.commits
  | found _ => false

/-- The answer to a call, if a call was made. -/
def answer? : Reply → Option Answer
  | called answer => some answer
  | found _ => none

/-- The answers to calls among the replies. -/
def answers (replies : List Reply) : List Answer := replies.filterMap answer?

end Reply

/-- Take one turn. -/
def turn (c : Chain) : Turn → Reply × Chain
  | .call made =>
    match c.perform made with
    | (answer, c) => (.called answer, c)
  | .inquiry made =>
    match c.inquire made with
    | (finding, c) => (.found finding, c)

/-- Take turns one after the other. -/
def play (c : Chain) : List Turn → List Reply × Chain
  | [] => ([], c)
  | t :: turns =>
    match c.turn t with
    | (reply, c) =>
      match c.play turns with
      | (replies, c) => (reply :: replies, c)

variable {c : Chain}

theorem turn_inquiry (c : Chain) (i : Inquiry) :
    c.turn (.inquiry i) = (.found (i.findIn c.assembly.registry c.committed), c) := by
  rw [turn, inquire_eq]

/-- Without the inquiries the calls answer the same and lead to the same chain. -/
theorem play_eq (c : Chain) (turns : List Turn) :
    Reply.answers (c.play turns).1 = (c.run (Turn.calls turns)).1 ∧
      (c.play turns).2 = (c.run (Turn.calls turns)).2 := by
  induction turns generalizing c with
  | nil => exact ⟨rfl, rfl⟩
  | cons t turns ih =>
    cases t with
    | call made =>
      obtain ⟨hanswers, hchain⟩ := ih (c.perform made).2
      exact ⟨congrArg ((c.perform made).1 :: ·) hanswers, hchain⟩
    | inquiry made =>
      rw [play, turn_inquiry]
      exact ih c

theorem play_append (c : Chain) (turns later : List Turn) :
    c.play (turns ++ later) =
      ((c.play turns).1 ++ ((c.play turns).2.play later).1,
        ((c.play turns).2.play later).2) := by
  induction turns generalizing c with
  | nil => rfl
  | cons t turns ih =>
    have ih := ih (c.turn t).2
    rw [List.cons_append, play, play]
    dsimp only
    rw [ih]
    rfl

theorem length_play (c : Chain) (turns : List Turn) : (c.play turns).1.length = turns.length := by
  induction turns generalizing c with
  | nil => rfl
  | cons t turns ih => exact congrArg (· + 1) (ih (c.turn t).2)

/-- Only a commit that succeeds changes the committed pairs. -/
theorem committed_perform {call : Call} (hcall : (c.perform call).1.commits = false) :
    (c.perform call).2.committed = c.committed := by
  cases call with
  | init h g =>
    cases hresult : (c.initChain h g).1 with
    | error e => rw [perform, initChain_of_error hresult]
    | ok u =>
      obtain ⟨-, -, -, -, child, -, hview⟩ := initChain_of_ok hresult
      exact committed_of_view hview
  | begin h => rcases c.beginBlock_cases h with ⟨e, heq⟩ | ⟨heq, -⟩ <;> rw [perform, heq]
  | deliver tx =>
    obtain ⟨m, hafter⟩ := sameState_deliverTx c tx
    rw [perform, hafter]
  | endBlock =>
    obtain ⟨w, m, hafter⟩ := sameState_endBlock c
    rw [perform, hafter]
  | commit =>
    cases hheader : c.header with
    | none => rw [perform, commit_of_header_none hheader]
    | some h =>
      rw [perform, (commit_of_header hheader).1] at hcall
      cases hcall

/-- Until the next commit the committed pairs stay as they are, whatever is called and inquired. -/
theorem committed_play {turns : List Turn}
    (hturns : ∀ reply ∈ (c.play turns).1, reply.commits = false) :
    (c.play turns).2.committed = c.committed ∧ (c.play turns).2.assembly = c.assembly := by
  induction turns generalizing c with
  | nil => exact ⟨rfl, rfl⟩
  | cons t turns ih =>
    have hfirst := hturns (c.turn t).1 List.mem_cons_self
    have hlater := ih (c := (c.turn t).2) fun reply hmem =>
      hturns reply (List.mem_cons_of_mem _ hmem)
    cases t with
    | call made =>
      exact ⟨hlater.1.trans (committed_perform hfirst),
        hlater.2.trans (assembly_perform c made)⟩
    | inquiry made =>
      rw [turn_inquiry] at hlater
      rw [play, turn_inquiry]
      exact hlater

theorem assembly_play (c : Chain) (turns : List Turn) :
    (c.play turns).2.assembly = c.assembly := by
  rw [(play_eq c turns).2]
  exact assembly_run c _

/-- Inquiries are put between the calls to a chain, any number of them at any points. The calls
answer as they do without them and lead to the same chain. An inquiry finds what is in the pairs
that were committed last, so that between two commits it always finds the same, whatever has been
delivered since and whatever other inquiries have removed on their way. -/
theorem inquiries_are_erasable (c : Chain) (turns : List Turn) :
    Reply.answers (c.play turns).1 = (c.run (Turn.calls turns)).1 ∧
    (c.play turns).2 = (c.run (Turn.calls turns)).2 ∧
    ∀ before since i after, turns = before ++ since ++ .inquiry i :: after →
      (∀ reply ∈ ((c.play before).2.play since).1, reply.commits = false) →
      (c.play turns).1[(before ++ since).length]? =
        some (.found (i.findIn c.assembly.registry (c.play before).2.committed)) := by
  obtain ⟨hanswers, hchain⟩ := play_eq c turns
  refine ⟨hanswers, hchain, fun before since i after hturns hsince => ?_⟩
  have hcommitted := (committed_play hsince).1
  have hstate : (c.play (before ++ since)).2 = ((c.play before).2.play since).2 := by
    rw [play_append]
  have hlength := length_play c (before ++ since)
  rw [hturns, play_append, ← hlength, List.getElem?_append_right (Nat.le_refl _), Nat.sub_self,
    play, turn_inquiry, assembly_play, hstate, hcommitted]
  rfl

/-- A grant that expires at 9 is committed at 20. An inquiry removes it, the one beside it is revoked
in the block at 30, and the inquiry finds what it found before. The expired record stays. -/
theorem inquiries_are_erasable_expired :
    let granter : Address := ⟨.replicate 20 1, rfl⟩
    let former : Address := ⟨.replicate 20 2, rfl⟩
    let grantee : Address := ⟨.replicate 20 3, rfl⟩
    let payload := AuthorizationKind.methodCodec.encode ("/a", some 2)
    let lasting : GenesisEntry :=
      ⟨granter, grantee, ⟨AuthorizationKind.method.typeUrl, payload⟩, none⟩
    let expiring : GenesisEntry :=
      ⟨former, grantee, ⟨AuthorizationKind.method.typeUrl, payload⟩, some ⟨9⟩⟩
    let before : List Turn :=
      [.call (.init ⟨"c", 1, ⟨5⟩⟩ [lasting, expiring]), .call .commit,
        .call (.begin ⟨"c", 2, ⟨20⟩⟩), .call .commit]
    let held : Inquiry := .request (.granteeGrants grantee.toText none)
    let since : List Turn :=
      [.inquiry held, .call (.begin ⟨"c", 3, ⟨30⟩⟩),
        .call (.deliver [.revoke ⟨granter.toText, grantee.toText, "/a"⟩])]
    let start := opened ⟨⟨Registry.builtin.kinds, 65536⟩, Router.authzRoutes⟩ false ∅
    let replies := (start.play (before ++ since ++ [.inquiry held])).1
    let found : Reply :=
      .found (.ok (.answer (.page ⟨[⟨granter, grantee, .method "/a" (some 2), none⟩], none, none⟩)))
    let after := (start.play (before ++ since)).2
    replies[4]? = some found ∧ replies[7]? = some found ∧
      after.record (GrantKey.toBytes ⟨grantee, granter, "/a"⟩) = none ∧
      after.committed.contains (GrantKey.toBytes ⟨grantee, former, "/a"⟩) = true := by
  intro granter former grantee payload lasting expiring before held since start replies found after
  have hsince : ∀ reply ∈ ((start.play before).2.play since).1, reply.commits = false := by
    decide +kernel
  have hfound : held.findIn start.assembly.registry (start.play before).2.committed =
      .ok (.answer (.page ⟨[⟨granter, grantee, .method "/a" (some 2), none⟩], none, none⟩)) := by
    decide +kernel
  have hinquiries := (inquiries_are_erasable start (before ++ since ++ [.inquiry held])).2.2
  have hearly := hinquiries before [] held (since.tail ++ [.inquiry held]) rfl nofun
  have hlate := hinquiries before since held [] rfl hsince
  rw [hfound] at hearly hlate
  exact ⟨hearly, hlate, by decide +kernel, by decide +kernel⟩

end Chain

end GrantLedger
