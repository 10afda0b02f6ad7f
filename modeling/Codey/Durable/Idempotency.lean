import Codey.Durable.Asks
import Codey.Durable.ProviderContext

/-!
# Idempotent admission

Each call for a request, among the steps of others: whatever the others commit in between, the
request is admitted once, and a call returns what was admitted, unless it finds the submission at
its commit in another form than it asks for.
-/

namespace Codey

namespace Ask

/-- The submission of the call starts queued: it is an input, or a write that is queued and, where
it looks for it, sees the entry that it names as head. -/
def StartsQueued (io : Responses) (moves : List (World × World)) : Ask → Prop
  | .input _ => True
  | .write w => w.placement = .queued ∧ ∀ target, w.head = some target → target ≠ "self" →
      (∀ move, moves[2]? = some move → move.1.store.hasConversation w.conversationId = true) ∧
      ∀ move, moves[4]? = some move → ∃ path,
        move.1.store.context io w.conversationId = .ok path ∧ target ∈ path.map (·.entryId)

/-- The number of the step at which the session looks for the request. -/
def check (moves : List (World × World)) : Ask → Nat
  | .input a =>
    if (moves[before (.input a)]?).any fun move => move.1.store.hasConversation a.conversationId
    then before (.input a) + 2 else before (.input a) + 1
  | .write _ => 1

/-- What a call may find at its own steps. Either the request is not admitted at the last of them;
or the owner of the new task is there, and the request is admitted where the session looks for it,
or starts queued and at the last step still is what the call asks for. -/
def Undisturbed (io : Responses) (ask : Ask) (moves : List (World × World)) : Prop :=
  (∀ last, moves.getLast? = some last → ask.request.admitted last.1.store = []) ∨
  (∀ owner, ask.owner = some owner → ∀ move, moves[1]? = some move →
    (move.1.store.tasks.get? owner).isSome = true) ∧
  ((∀ move, moves[ask.check moves]? = some move → ask.request.admitted move.1.store ≠ []) ∨
    ask.StartsQueued io moves ∧ ∀ last, moves.getLast? = some last →
      ∀ row ∈ last.1.store.submissions.rows, ask.request.names row.admitted = true →
        ask.untouched last.1.store row = true)

/-- A call has lost a race: after it began to read the conversation, the row of the conversation
was not always what it is at the last step of the call. -/
def Raced (ask : Ask) (moves : List (World × World)) : Prop :=
  ∃ move ∈ moves.drop ask.before, ∃ last, moves.getLast? = some last ∧
    move.1.store.conversations.get? ask.request.conversationId ≠
      last.1.store.conversations.get? ask.request.conversationId

/-- The call, made alone in the state before its last step, raises. -/
def FailsAlone (c : Session) (host : Host) (io : Responses) (ask : Ask)
    (moves : List (World × World)) : Prop :=
  ∃ last e, moves.getLast? = some last ∧ ((ask.prog c host io).run last.1).1 = .error e

/-- A move of a call is one that other sessions allow, and writes only what admits an absent
request. -/
def Moves (c : Session) (ask : Ask) (move : World × World) : Prop :=
  (∀ o ≠ c.ownerId, ask.request.Step o move.1 move.2) ∧
  (move.2.store = move.1.store ∨ (ask.request.admitted move.1.store = [] ∧
    ∃ m result, ask.Admits m.toMutationData ∧ move.1.store.commit m = .ok (result, move.2.store)))

end Ask

namespace Session

variable {c : Session} {host : Host} {io : Responses} {w w' : World}
  {moves : List (World × World)} {r : Except Error CommitResult}

/-- A call has raised at a step at which the request was absent, and would raise there alone if it
saw the same row of the conversation. -/
def Refused (c : Session) (host : Host) (io : Responses) (ask : Ask) (q : Request) (w : World)
    (moves : List (World × World)) : Prop :=
  ∃ pre last, moves = pre ++ [last] ∧ Prog.Silent (q.Others c.ownerId) w pre last.1 ∧
    q.admitted last.1.store = [] ∧
    ((∀ move ∈ moves.drop ask.before, move.1.store.conversations.get? q.conversationId =
        last.1.store.conversations.get? q.conversationId) →
      ∃ e, ((ask.prog c host io).run last.1).1 = .error e)

variable {q : Request}

lemma run_lookUp {v : World} (hv : q.admitted v.store = []) :
    (view (·.submissionResultForRequest q.conversationId q.requestId q.fingerprint)).run v =
      (.ok none, v) := by
  have hnone := SqliteStore.submissionResultForRequest_eq (q := q) (Or.inl hv)
  rw [hv] at hnone
  rw [view, Prog.run_readE, hnone]
  rfl

/-- The look-up of a request that is admitted at most once. -/
lemma among_lookUp {r : Except Error (Option CommitResult)}
    (hunique : q.Unique w.store) (h : Prog.Among (q.Others c.ownerId)
      (view (·.submissionResultForRequest q.conversationId q.requestId q.fingerprint))
      w moves r w') : ∃ t, moves = [(t, t)] ∧ Prog.Silent (q.Others c.ownerId) w moves w' ∧
    ((q.admitted t.store = [] ∧ r = .ok none) ∨
      ∃ x, q.admitted t.store = [x] ∧ r = .ok (some x.result)) := by
  obtain ⟨t, rfl, hr, hsilent⟩ := among_view h
  have ht := (hsilent.mem others_trans (List.mem_singleton_self (t, t))).2.1
  have hlate : q.Unique t.store := Request.Others.unique ht hunique
  refine ⟨t, rfl, hsilent, ?_⟩
  rw [hr, SqliteStore.submissionResultForRequest_eq hlate]
  rcases hlate with hnone | ⟨x, hx, -⟩
  · exact Or.inl ⟨hnone, by rw [hnone]; rfl⟩
  · exact Or.inr ⟨x, hx, by rw [hx]; rfl⟩

variable {ask : Ask} {e : Error}

/-- A commit that the store has refused: alone, it is refused while the request is absent, and the
request is absent unless the store would have recognised it. -/
lemma among_commit_error (hq : q = ask.request) {m : DurableMutation} (hbuilt : ask.Built m)
    (hopen : w.sealed.contains c.ownerId = false) (hunique : q.Unique w.store)
    (h : Prog.Among (q.Others c.ownerId) (c.commit m) w moves (.error e) w') :
    ∃ reads t t', moves = reads ++ [(t, t')] ∧ Prog.Silent (q.Others c.ownerId) w reads t ∧
      (q.admitted t.store = [] → ∃ e', ((c.commit m).run t).1 = .error e') ∧
      ((∀ d, m.submission = some d → ask.Drafts d) → (∀ row ∈ t.store.submissions.rows,
          q.names row.admitted = true → ask.untouched t.store row = true) →
        q.admitted t.store = []) := by
  obtain ⟨⟨d, hd, hconv, hrequest, hprint, hkept, -⟩, happroval, hrevision⟩ := hbuilt
  obtain ⟨m', reads, t, hfenced, rfl, hsilent, hr, -⟩ := among_commit happroval hopen h
  refine ⟨reads, t, _, rfl, hsilent, fun habsent => ?_, fun hdrafts huntouched => ?_⟩
  · have ht : t.sealed.contains c.ownerId = false :=
      Request.Others.open (hsilent.rel others_trans) hopen
    have hnone : t.store.findSubmission (some d) = .ok none := by
      subst hq
      exact SqliteStore.findSubmission_of_absent hconv hrequest habsent
    cases hcommit : t.store.commit m' with
    | error e' => exact commit_alone happroval ht hd hrevision hkept hnone hfenced hcommit
    | ok x =>
      rw [hcommit] at hr
      cases hr
  · have ht : q.Unique t.store := Request.Others.unique (hsilent.rel others_trans) hunique
    rcases ht with habsent | ⟨x, hx, hne, hxprint⟩
    · exact habsent
    · -- the store finds the request, and the commit returns it
      exfalso
      have hd' : m'.submission = some d := by
        rcases hfenced with rfl | ⟨-, -, -, rfl⟩
        · exact hd
        · exact hd
      subst hq
      have hfound := Ask.findSubmission_untouched (hdrafts d hd) hconv hrequest hprint
        (Or.inr ⟨x, hx, hne, hxprint⟩) hx huntouched
      have hcommit : t.store.commit m' = .ok (x.result, t.store) := by
        rw [SqliteStore.commit, hd', hfound]
        rfl
      rw [hcommit] at hr
      cases hr

/-- A call of `admit_input` among others: its owner is missing; or its reads end with the look-up
of the request, which answers it or leaves the commit to be made from what was seen. Alone it
takes the same course, while it sees the same row of the conversation. -/
lemma among_admitInput {a : Admission} (hq : q = (Ask.input a).request)
    (hvalid : (Ask.input a).Valid host) (hopen : w.sealed.contains c.ownerId = false)
    (hunique : q.Unique w.store)
    (h : Prog.Among (q.Others c.ownerId) (c.admitInput a) w moves r w') :
    (Prog.Silent (q.Others c.ownerId) w moves w' ∧ ∃ id move, a.ownerTaskId = some id ∧
      moves[1]? = some move ∧ moves.getLast? = some move ∧
      (move.1.store.tasks.get? id).isSome = false ∧ ∃ e, r = .error e ∧
      ((c.admitInput a).run move.1).1 = .error e) ∨
    ∃ first tc w₁ seen rest, moves = first ++ rest ∧ Prog.Silent (q.Others c.ownerId) w first w₁ ∧
      first.getLast? = some (tc, tc) ∧ moves[(Ask.input a).check moves]? = some (tc, tc) ∧
      ((∃ x, q.admitted tc.store = [x] ∧ r = .ok x.result ∧ rest = [] ∧
          q.Others c.ownerId w₁ w') ∨
        q.admitted tc.store = [] ∧
        Prog.Among (q.Others c.ownerId) ((Prog.ofExcept (c.inputMutation a seen)).bind c.commit)
          w₁ rest r w' ∧
        ∀ v : World, v.sealed.contains c.ownerId = false → q.admitted v.store = [] →
          (∀ move ∈ first.drop (Ask.input a).before,
            move.1.store.conversations.get? q.conversationId =
              v.store.conversations.get? q.conversationId) →
          (c.admitInput a).run v =
              ((Prog.ofExcept (c.inputMutation a seen)).bind c.commit).run v ∨
            ∃ e, ((c.admitInput a).run v).1 = .error e) := by
  obtain ⟨hchecked, hworkflow, -⟩ := hvalid
  have hflows : checkAll a.workflow.toList validateWorkflow = .ok () := by
    simpa using hworkflow
  obtain ⟨hconv, hrequest, hprint⟩ : a.conversationId = q.conversationId ∧
      a.requestId = q.requestId ∧ a.fingerprint = q.fingerprint := by
    rw [hq]
    exact ⟨rfl, rfl, rfl⟩
  rw [admitInput_eq, hchecked, hflows, hconv, hrequest, hprint] at h ⊢
  simp only [Prog.ofExcept_ok, Prog.ret_bind] at h ⊢
  rcases Prog.among_bind (fun _ => .refl) h with ⟨e, rfl, hread⟩ | ⟨_, w₁, m₁, n₁, rfl, hread, h₁⟩
  · obtain ⟨_, _, hr, _⟩ := among_ensureUsable hopen hread
    cases hr
  clear h
  obtain ⟨t₀, rfl, -, hfirst⟩ := among_ensureUsable hopen hread
  rcases Prog.among_bind (fun _ => .refl) h₁ with ⟨e, rfl, howner⟩ |
    ⟨_, w₂, m₂, n₂, rfl, howner, h₂⟩
  · -- the owner is missing
    obtain ⟨hsecond, ⟨-, -, hr⟩ | ⟨id, t, hid, rfl, hr⟩⟩ := among_ensureOwner howner
    · cases hr
    · refine Or.inl ⟨hfirst.append others_trans hsecond, id, (t, t), hid, rfl, rfl, ?_, e, rfl, ?_⟩
      · by_contra hfound
        rw [Bool.not_eq_false] at hfound
        rw [hfound] at hr
        cases hr
      · have ht : t.sealed.contains c.ownerId = false := Request.Others.open
          ((hfirst.rel others_trans).trans
            (hsecond.mem others_trans (List.mem_singleton_self (t, t))).2.1) hopen
        have hrun : (ensureOwner a.ownerTaskId).run t = (.error e, t) := by
          simp only [hid, ensureOwner, look, view, ensure, Prog.bind_eq, Prog.run_bind,
            Prog.run_readE, Prog.run_ofExcept]
          rw [← hr]
        rw [Prog.run_bind_ok (run_ensureUsable ht), Prog.run_bind_error hrun]
  clear h₁
  refine Or.inr ?_
  obtain ⟨hsecond, hshape⟩ := among_ensureOwner howner
  rcases Prog.among_bind (fun _ => .refl) h₂ with ⟨e, rfl, hread'⟩ |
    ⟨seen, w₃, m₃, n₃, rfl, hread', h₃⟩
  · obtain ⟨_, _, hr, _⟩ := among_readHead hread'
    cases hr
  clear h₂
  obtain ⟨hthird, seen', hseen, hagain, hhead⟩ := among_readHead hread'
  obtain rfl := Except.ok.inj hseen
  have hreads : Prog.Silent (q.Others c.ownerId) w ([(t₀, t₀)] ++ (m₂ ++ m₃)) w₃ :=
    hfirst.append others_trans (hsecond.append others_trans hthird)
  have hlate : q.Unique w₃.store := Request.Others.unique (hreads.rel others_trans) hunique
  rcases Prog.among_bind (fun _ => .refl) h₃ with ⟨e, rfl, hread''⟩ |
    ⟨found, w₄, m₄, n₄, rfl, hread'', h₄⟩
  · obtain ⟨_, _, _, ⟨_, hr⟩ | ⟨_, _, hr⟩⟩ := among_lookUp hlate hread'' <;> cases hr
  clear h₃
  obtain ⟨tc, rfl, hfourth, hfound⟩ := among_lookUp hlate hread''
  refine ⟨[(t₀, t₀)] ++ (m₂ ++ m₃) ++ [(tc, tc)], tc, w₄, seen, n₄,
    by simp only [List.append_assoc], hreads.append others_trans hfourth, List.getLast?_concat,
    ?_, ?_⟩
  · -- the look-up follows one or two reads of the conversation
    rcases hshape with ⟨hnone, rfl, -⟩ | ⟨id, t, hid, rfl, -⟩
    · rcases hhead with ⟨th, rfl, hmissing⟩ | ⟨th, th', rfl, hthere, -⟩
      · simp [Ask.check, Ask.before, hconv, hnone, hmissing]
      · simp [Ask.check, Ask.before, hconv, hnone, hthere]
    · rcases hhead with ⟨th, rfl, hmissing⟩ | ⟨th, th', rfl, hthere, -⟩
      · simp [Ask.check, Ask.before, hconv, hid, hmissing]
      · simp [Ask.check, Ask.before, hconv, hid, hthere]
  · rcases hfound with ⟨habsent, hnone⟩ | ⟨x, hx, hsome⟩
    · obtain rfl := Except.ok.inj hnone
      refine Or.inr ⟨habsent, h₄, fun v hv habsentv hrows => ?_⟩
      have hhere : (readHead q.conversationId).run v = (.ok seen, v) := by
        refine hagain v fun move hmove => hrows move ?_
        rcases hshape with ⟨hnone, rfl, -⟩ | ⟨id, t, hid, rfl, -⟩
        · simp [Ask.before, hnone, hmove]
        · simp [Ask.before, hid, hmove]
      rw [Prog.run_bind_ok (run_ensureUsable hv)]
      rcases run_ensureOwner a.ownerTaskId v with hok | ⟨e, herror⟩
      · refine Or.inl ?_
        rw [Prog.run_bind_ok hok, Prog.run_bind_ok hhere]
        exact Prog.run_bind_ok (run_lookUp habsentv)
      · exact Or.inr ⟨e, by rw [Prog.run_bind_error herror]⟩
    · obtain rfl := Except.ok.inj hsome
      obtain ⟨rfl, rfl, hR⟩ := Prog.among_ret h₄
      exact Or.inl ⟨x, hx, rfl, rfl, hR⟩

lemma refused_admitInput {a : Admission} (hq : q = (Ask.input a).request)
    (hvalid : (Ask.input a).Valid host) (hopen : w.sealed.contains c.ownerId = false)
    (hunique : q.Unique w.store)
    (h : Prog.Among (q.Others c.ownerId) (c.admitInput a) w moves (.error e) w')
    (hcond : (Ask.input a).Undisturbed io moves) : Refused c host io (.input a) q w moves := by
  rcases among_admitInput hq hvalid hopen hunique h with
    ⟨hsilent, id, move, hid, hsecond, hlast, hmissing, e', -, hrun⟩ |
    ⟨first, tc, w₁, seen, rest, rfl, hsilent, hlast, hcheck, ⟨x, -, hr, -⟩ | ⟨habsent, htail, hagain⟩⟩
  · -- the owner is missing
    obtain ⟨pre, rfl⟩ := List.getLast?_eq_some_iff.mp hlast
    refine ⟨pre, move, rfl, hsilent.init, ?_, fun _ => ⟨e', hrun⟩⟩
    rcases hcond with habsent | ⟨howner, -⟩
    · rw [hq]
      exact habsent move hlast
    · rw [howner id hid move hsecond] at hmissing
      cases hmissing
  · cases hr
  obtain ⟨pre, rfl⟩ := List.getLast?_eq_some_iff.mp hlast
  have hw₁ : w₁.sealed.contains c.ownerId = false :=
    Request.Others.open (hsilent.rel others_trans) hopen
  have hlate : q.Unique w₁.store := Request.Others.unique (hsilent.rel others_trans) hunique
  cases hbuild : c.inputMutation a seen with
  | error e' =>
    rw [hbuild] at htail
    obtain ⟨rfl, -, -⟩ := Prog.among_ofExcept (x := .error e') htail
    refine ⟨pre, (tc, tc), by simp, hsilent.init, habsent, fun hrows => ?_⟩
    have htc : tc.sealed.contains c.ownerId = false :=
      Request.Others.open (hsilent.init.rel others_trans) hopen
    rcases hagain tc htc habsent (by simpa using hrows) with hrun | herror
    · refine ⟨e', ?_⟩
      change ((c.admitInput a).run tc).1 = _
      rw [hrun, hbuild]
      rfl
    · exact herror
  | ok m =>
    rw [hbuild] at htail hagain
    obtain ⟨hbuilt, hdrafts⟩ := Ask.of_inputMutation hbuild
    obtain ⟨reads, t, t', rfl, hreads, halone, huntouched⟩ :=
      among_commit_error hq hbuilt hw₁ hlate htail
    have hpre := hsilent.append others_trans hreads
    have hend : (pre ++ [(tc, tc)] ++ (reads ++ [(t, t')])).getLast? = some (t, t') := by
      rw [← List.append_assoc, List.getLast?_concat]
    have hnone : q.admitted t.store = [] := by
      rcases hcond with hcond | ⟨-, hcond | ⟨-, hcond⟩⟩
      · rw [hq]
        exact hcond (t, t') hend
      · rw [hq] at habsent
        exact absurd habsent (hcond (tc, tc) hcheck)
      · exact huntouched hdrafts (by rw [hq]; exact hcond (t, t') hend)
    refine ⟨pre ++ [(tc, tc)] ++ reads, (t, t'), by simp, hpre, hnone, fun hrows => ?_⟩
    have ht : t.sealed.contains c.ownerId = false :=
      Request.Others.open (hpre.rel others_trans) hopen
    have hrows' : ∀ move ∈ (pre ++ [(tc, tc)]).drop (Ask.input a).before,
        move.1.store.conversations.get? q.conversationId =
          t.store.conversations.get? q.conversationId := by
      intro move hmove
      apply hrows move
      rw [List.drop_append]
      exact List.mem_append_left _ hmove
    rcases hagain t ht hnone hrows' with hrun | herror
    · obtain ⟨e', he'⟩ := halone hnone
      refine ⟨e', ?_⟩
      change ((c.admitInput a).run t).1 = _
      rw [hrun]
      exact he'
    · exact herror

/-- What is left of `admit_write` once it has seen its conversation. -/
def writeTail (c : Session) (io : Responses) (pw : PassiveWrite)
    (seen : Option String × Nat × Option CreateConversation) : Op CommitResult :=
  (Prog.ofExcept (checkFence pw seen)).bind fun _ => (isStale io pw seen.2.2).bind fun stale =>
    (Prog.ofExcept (writeMutation pw seen stale)).bind c.commit

variable {pw : PassiveWrite}

/-- A call of `admit_write` among others: the look-up of the request answers it, or the
conversation is read before anything is made of it. -/
lemma among_admitWrite (hq : q = (Ask.write pw).request) (hvalid : (Ask.write pw).Valid host)
    (hopen : w.sealed.contains c.ownerId = false) (hunique : q.Unique w.store)
    (h : Prog.Among (q.Others c.ownerId) (c.admitWrite host io pw) w moves r w') :
    ∃ t₀ tc, (moves = [(t₀, t₀), (tc, tc)] ∧ Prog.Silent (q.Others c.ownerId) w moves w' ∧
      ∃ x, q.admitted tc.store = [x] ∧ r = .ok x.result) ∨
    ∃ reads w₁ seen rest, moves = (t₀, t₀) :: (tc, tc) :: (reads ++ rest) ∧
      Prog.Silent (q.Others c.ownerId) w ((t₀, t₀) :: (tc, tc) :: reads) w₁ ∧
      q.admitted tc.store = [] ∧
      ((∃ th, reads = [(th, th)] ∧ th.store.hasConversation q.conversationId = false) ∨
        ∃ th th', reads = [(th, th), (th', th')] ∧
          th.store.hasConversation q.conversationId = true ∧ seen.2.2 = none) ∧
      Prog.Among (q.Others c.ownerId) (c.writeTail io pw seen) w₁ rest r w' ∧
      ∀ v : World, v.sealed.contains c.ownerId = false → q.admitted v.store = [] →
        (∀ move ∈ reads, move.1.store.conversations.get? q.conversationId =
          v.store.conversations.get? q.conversationId) →
        (c.admitWrite host io pw).run v = (c.writeTail io pw seen).run v := by
  obtain ⟨hfields, hfence, -⟩ := hvalid
  obtain ⟨hconv, hrequest, hprint⟩ : pw.conversationId = q.conversationId ∧
      pw.requestId = q.requestId ∧ pw.fingerprint = q.fingerprint := by
    rw [hq]
    exact ⟨rfl, rfl, rfl⟩
  rw [admitWrite_eq, hfields, hfence, hconv, hrequest, hprint] at h ⊢
  simp only [Prog.ofExcept_ok, Prog.ret_bind] at h ⊢
  rcases Prog.among_bind (fun _ => .refl) h with ⟨e, rfl, hread⟩ | ⟨_, w₁, m₁, n₁, rfl, hread, h₁⟩
  · obtain ⟨_, _, hr, _⟩ := among_ensureUsable hopen hread
    cases hr
  clear h
  obtain ⟨t₀, rfl, -, hfirst⟩ := among_ensureUsable hopen hread
  have hlate : q.Unique w₁.store := Request.Others.unique (hfirst.rel others_trans) hunique
  rcases Prog.among_bind (fun _ => .refl) h₁ with ⟨e, rfl, hlook⟩ |
    ⟨found, w₂, m₂, n₂, rfl, hlook, h₂⟩
  · obtain ⟨_, _, _, ⟨_, hr⟩ | ⟨_, _, hr⟩⟩ := among_lookUp hlate hlook <;> cases hr
  clear h₁
  obtain ⟨tc, rfl, hsecond, ⟨habsent, hnone⟩ | ⟨x, hx, hsome⟩⟩ := among_lookUp hlate hlook
  · obtain rfl := Except.ok.inj hnone
    refine ⟨t₀, tc, Or.inr ?_⟩
    rcases Prog.among_bind (fun _ => .refl) h₂ with ⟨e, rfl, hread'⟩ |
      ⟨seen, w₃, m₃, n₃, rfl, hread', h₃⟩
    · obtain ⟨_, _, hr, _⟩ := among_readHead hread'
      cases hr
    obtain ⟨hthird, seen', hseen, hagain, hhead⟩ := among_readHead hread'
    obtain rfl := Except.ok.inj hseen
    refine ⟨m₃, w₃, seen, n₃, rfl,
      hfirst.append others_trans (hsecond.append others_trans hthird), habsent, hhead, h₃,
      fun v hv habsentv hrows => ?_⟩
    rw [Prog.run_bind_ok (run_ensureUsable hv), Prog.run_bind_ok (run_lookUp habsentv)]
    exact Prog.run_bind_ok (hagain v hrows)
  · obtain rfl := Except.ok.inj hsome
    obtain ⟨rfl, rfl, hR⟩ := Prog.among_ret h₂
    refine ⟨t₀, tc, Or.inl ⟨rfl, ?_, x, hx, rfl⟩⟩
    exact hfirst.append others_trans (hsecond.to_rel others_trans hR)

/-- A queued write sees the entry that it names as head, where it looks for it. -/
def SeesHead (io : Responses) (pw : PassiveWrite) (creation : Option CreateConversation)
    (rest : List (World × World)) : Prop :=
  pw.placement = .queued ∧ ∀ target, pw.head = some target → target ≠ "self" →
    creation = none ∧ ∀ move, rest[0]? = some move → ∃ path,
      move.1.store.context io pw.conversationId = .ok path ∧ target ∈ path.map (·.entryId)

lemma checkFence_of_queued (hfence : pw.validateFence = .ok ()) (hqueued : pw.placement = .queued)
    (seen : Option String × Nat × Option CreateConversation) :
    pw.expectedRevision = none ∧ checkFence pw seen = .ok () := by
  simp only [PassiveWrite.validateFence, except_seq_eq_ok, require_eq_ok, Bool.or_eq_true,
    Option.isNone_iff_eq_none, decide_eq_true_eq, hqueued, reduceCtorEq, or_false] at hfence
  obtain ⟨-, hrevision, -, hhead⟩ := hfence
  have hhead : pw.expectedHead = none := by simpa [hrevision] using hhead
  refine ⟨hrevision, ?_⟩
  simp [checkFence, hrevision, hhead, except_seq_eq_ok]

/-- A queued write with ids can be built. -/
lemma writeMutation_of_queued (hvalid : (Ask.write pw).Valid host)
    (hqueued : pw.placement = .queued) (seen : Option String × Nat × Option CreateConversation) :
    ∃ m, writeMutation pw seen false = .ok m := by
  obtain ⟨-, hfence, hconv, hrequest, hid, -⟩ := hvalid
  obtain ⟨head, revision, creation⟩ := seen
  obtain ⟨d, hd⟩ : ∃ d, SubmissionDraft.make (pw.draft false none) = .ok d := by
    refine ⟨⟨pw.draft false none, ?_⟩, SubmissionDraft.make_eq_ok.mpr rfl⟩
    simp [PassiveWrite.draft, SubmissionDraftData.postInit, except_seq_eq_ok, hconv, hrequest, hid,
      hqueued]
  have hdata := SubmissionDraft.make_eq_ok.mp hd
  obtain ⟨m, hm⟩ : ∃ m, DurableMutation.make {
      conversationId := pw.conversationId, expectedRevision := revision
      entries := (none : Option EntryDraft).toList, submission := some d
      createConversation := creation } = .ok m := by
    refine ⟨⟨_, ?_⟩, DurableMutation.make_eq_ok.mpr rfl⟩
    simp [MutationData.postInit, except_seq_eq_ok, hconv, MutationData.validateEdit,
      MutationData.validateConversation, MutationData.validateSubmission,
      MutationData.validateTasks, MutationData.validateEffects, MutationData.validateUpdates,
      MutationData.validateApproval, hdata, PassiveWrite.draft, MutationData.allTasks,
      MutationData.allEffects, MutationData.allUpdates, MutationData.effectsOfOneTask, pure,
      Except.pure]
  refine ⟨m, ?_⟩
  have hentry : pw.entry false head = .ok none := by simp [PassiveWrite.entry, hqueued]
  simp only [writeMutation, (checkFence_of_queued hfence hqueued (head, revision, creation)).1]
  refine except_bind_eq_ok.mpr ⟨(), by simp, ?_⟩
  refine except_bind_eq_ok.mpr ⟨none, hentry, ?_⟩
  exact except_bind_eq_ok.mpr ⟨d, hd, hm⟩

/-- What is left of `admit_write` has raised: at a read or before it, which a queued write that sees
its head does not; or at its commit. -/
lemma writeTail_error (hq : q = (Ask.write pw).request) (hvalid : (Ask.write pw).Valid host)
    (hopen : w.sealed.contains c.ownerId = false) (hunique : q.Unique w.store)
    {seen : Option String × Nat × Option CreateConversation} {rest : List (World × World)}
    (h : Prog.Among (q.Others c.ownerId) (c.writeTail io pw seen) w rest (.error e) w') :
    (Prog.Silent (q.Others c.ownerId) w rest w' ∧ ¬ SeesHead io pw seen.2.2 rest ∧
      ∀ v : World, (∀ move ∈ rest, q.Others c.ownerId move.1 v ∧
        v.store.conversations.get? q.conversationId =
          move.1.store.conversations.get? q.conversationId) →
        (∀ last, rest.getLast? = some last → last.1 = v) →
        ∃ e', ((c.writeTail io pw seen).run v).1 = .error e') ∨
    ∃ reads t t', rest = reads ++ [(t, t')] ∧ Prog.Silent (q.Others c.ownerId) w reads t ∧
      (q.admitted t.store = [] → (∀ move ∈ reads, t.store.conversations.get? q.conversationId =
          move.1.store.conversations.get? q.conversationId) →
        ∃ e', ((c.writeTail io pw seen).run t).1 = .error e') ∧
      (SeesHead io pw seen.2.2 rest → (∀ row ∈ t.store.submissions.rows,
          q.names row.admitted = true → (Ask.write pw).untouched t.store row = true) →
        q.admitted t.store = []) := by
  have hconv : pw.conversationId = q.conversationId := by
    rw [hq]
    rfl
  unfold writeTail at h ⊢
  rcases Prog.among_bind (fun _ => .refl) h with ⟨e', he', hcheck⟩ | ⟨_, w₁, m₁, n₁, rfl, hcheck, h₁⟩
  · -- the fence of the write
    obtain ⟨rfl, hfence, hR⟩ := Prog.among_ofExcept hcheck
    refine Or.inl ⟨.nil hR, fun hsees => ?_, fun v _ _ => ⟨e', ?_⟩⟩
    · rw [(checkFence_of_queued hvalid.2.1 hsees.1 seen).2] at hfence
      cases hfence
    · rw [← hfence]
      rfl
  clear h
  obtain ⟨rfl, hfence, hR⟩ := Prog.among_ofExcept hcheck
  rw [← hfence]
  simp only [Prog.ofExcept_ok, Prog.ret_bind, List.nil_append]
  rcases Prog.among_bind (fun _ => .refl) h₁ with ⟨e', he', hstale⟩ |
    ⟨stale, w₂, m₂, n₂, rfl, hstale, h₂⟩
  · -- the context cannot be read
    obtain ⟨hsilent, -, ⟨-, stale, hr, -⟩ | ⟨t, target, rfl, hhead, hself, hcreation, hrun, hr⟩⟩ :=
      among_isStale hconv hstale
    · cases hr
    · refine Or.inl ⟨hsilent.of_rel others_trans hR, fun hsees => ?_, fun v _ hlast => ⟨e', ?_⟩⟩
      · obtain ⟨path, hpath, -⟩ := (hsees.2 target hhead hself).2 (t, t) rfl
        rw [hpath] at hr
        cases hr
      · obtain rfl := hlast (t, t) rfl
        rw [Prog.run_bind_error hrun]
  obtain ⟨hsilent, hagain, hshape⟩ := among_isStale hconv hstale
  have hfresh : ∀ rest, SeesHead io pw seen.2.2 (m₂ ++ rest) → stale = false := by
    intro rest hsees
    rcases hshape with ⟨-, stale', hr, hstale'⟩ | ⟨t, target, rfl, hhead, hself, -, -, hr⟩
    · rw [Except.ok.inj hr]
      exact hstale' fun target hhead hself => (hsees.2 target hhead hself).1
    · obtain ⟨path, hpath, hmem⟩ := (hsees.2 target hhead hself).2 (t, t) rfl
      rw [hpath] at hr
      rw [Except.ok.inj hr]
      simpa using hmem
  rcases Prog.among_bind (fun _ => .refl) h₂ with ⟨e', he', hbuild⟩ | ⟨m, w₃, m₃, n₃, rfl, hbuild, h₃⟩
  · -- the write cannot be built
    obtain ⟨rfl, hbuild, hR'⟩ := Prog.among_ofExcept hbuild
    rw [List.append_nil]
    refine Or.inl ⟨(hsilent.of_rel others_trans hR).to_rel others_trans hR', fun hsees => ?_,
      fun v hv _ => ?_⟩
    · obtain ⟨m, hm⟩ := writeMutation_of_queued hvalid hsees.1 seen
      rw [hfresh [] (by rwa [List.append_nil]), hm] at hbuild
      cases hbuild
    · rcases hagain stale rfl v hv with hrun | ⟨e'', herror⟩
      · exact ⟨e', by rw [Prog.run_bind_ok hrun, ← hbuild]; rfl⟩
      · exact ⟨e'', by rw [Prog.run_bind_error herror]⟩
  · obtain ⟨rfl, hbuild, hR'⟩ := Prog.among_ofExcept hbuild
    obtain ⟨hbuilt, hdrafts⟩ := Ask.of_writeMutation hbuild.symm
    have hw₃ := (hsilent.of_rel others_trans hR).to_rel others_trans hR'
    obtain ⟨reads, t, t', rfl, hreads, halone, huntouched⟩ := among_commit_error hq hbuilt
      (Request.Others.open (hw₃.rel others_trans) hopen)
      (Request.Others.unique (hw₃.rel others_trans) hunique) h₃
    refine Or.inr ⟨m₂ ++ reads, t, t', by simp, hw₃.append others_trans hreads,
      fun habsent hrows => ?_, fun hsees hrow => ?_⟩
    · have hv : ∀ move ∈ m₂, q.Others c.ownerId move.1 t ∧
          t.store.conversations.get? q.conversationId =
            move.1.store.conversations.get? q.conversationId := fun move hmove =>
        ⟨(hw₃.mem others_trans hmove).2.2.trans (hreads.rel others_trans),
          hrows move (List.mem_append_left _ hmove)⟩
      rcases hagain stale rfl t hv with hrun | ⟨e'', herror⟩
      · obtain ⟨e'', he''⟩ := halone habsent
        refine ⟨e'', ?_⟩
        rw [Prog.run_bind_ok hrun, ← hbuild]
        exact he''
      · exact ⟨e'', by rw [Prog.run_bind_error herror]⟩
    · exact huntouched (hdrafts hsees.1 (hfresh _ hsees)) hrow

lemma refused_admitWrite (hq : q = (Ask.write pw).request) (hvalid : (Ask.write pw).Valid host)
    (hopen : w.sealed.contains c.ownerId = false) (hunique : q.Unique w.store)
    (h : Prog.Among (q.Others c.ownerId) (c.admitWrite host io pw) w moves (.error e) w')
    (hcond : (Ask.write pw).Undisturbed io moves) : Refused c host io (.write pw) q w moves := by
  have hconv : pw.conversationId = q.conversationId := by
    rw [hq]
    rfl
  obtain ⟨t₀, tc, ⟨-, -, x, -, hr⟩ | ⟨reads, w₁, seen, rest, rfl, hsilent, habsent, hshape, htail,
    hagain⟩⟩ := among_admitWrite hq hvalid hopen hunique h
  · cases hr
  have hw₁ : w₁.sealed.contains c.ownerId = false :=
    Request.Others.open (hsilent.rel others_trans) hopen
  have hlate : q.Unique w₁.store := Request.Others.unique (hsilent.rel others_trans) hunique
  -- a write that starts queued sees its head in what is left of the call
  have hsees : (Ask.write pw).StartsQueued io ((t₀, t₀) :: (tc, tc) :: (reads ++ rest)) →
      SeesHead io pw seen.2.2 rest := by
    rintro ⟨hqueued, hhead⟩
    refine ⟨hqueued, fun target htarget hself => ?_⟩
    obtain ⟨hthere, hpath⟩ := hhead target htarget hself
    rcases hshape with ⟨th, rfl, hmissing⟩ | ⟨th, th', rfl, -, hseen⟩
    · have := hthere (th, th) rfl
      rw [hconv, hmissing] at this
      cases this
    · exact ⟨hseen, hpath⟩
  have hne : reads ≠ [] := by
    rcases hshape with ⟨th, rfl, -⟩ | ⟨th, th', rfl, -⟩ <;> simp
  have hstart : ((t₀, t₀) :: (tc, tc) :: (reads ++ rest)).drop (Ask.write pw).before =
      reads ++ rest := rfl
  rcases writeTail_error hq hvalid hw₁ hlate htail with
    ⟨hquiet, hblind, hrun⟩ | ⟨more, t, t', rfl, hmore, hrun, hrecognised⟩
  · -- every step was a read
    have hall := hsilent.append others_trans hquiet
    obtain ⟨pre, last, hlast⟩ : ∃ pre last, reads ++ rest = pre ++ [last] := by
      rcases List.eq_nil_or_concat (reads ++ rest) with hnil | ⟨pre, last, heq⟩
      · exact absurd (List.append_eq_nil_iff.mp hnil).1 hne
      · exact ⟨pre, last, by rw [heq, List.concat_eq_append]⟩
    have hmoves : (t₀, t₀) :: (tc, tc) :: (reads ++ rest) =
        ((t₀, t₀) :: (tc, tc) :: pre) ++ [last] := by rw [hlast]; rfl
    have hall' : Prog.Silent (q.Others c.ownerId) w (((t₀, t₀) :: (tc, tc) :: pre) ++ [last]) w' :=
      hmoves ▸ hall
    have hnone : q.admitted last.1.store = [] := by
      rcases hcond with hcond | ⟨-, hcond | ⟨hstarts, -⟩⟩
      · rw [hq]
        exact hcond last (by rw [hmoves, List.getLast?_concat])
      · rw [hq] at habsent
        exact absurd habsent (hcond (tc, tc) rfl)
      · exact absurd (hsees hstarts) hblind
    refine ⟨_, last, hmoves, hall'.init, hnone, fun hrows => ?_⟩
    rw [hstart] at hrows
    have hv : last.1.sealed.contains c.ownerId = false :=
      Request.Others.open (hall'.init.rel others_trans) hopen
    have hlater : ∀ move ∈ rest, q.Others c.ownerId move.1 last.1 := by
      intro move hmove
      have hmem : move ∈ pre ++ [last] := hlast ▸ List.mem_append_right _ hmove
      rcases List.mem_append.mp hmem with hmem | hmem
      · exact (hall'.init.mem others_trans (by simp [hmem])).2.2
      · rw [List.mem_singleton.mp hmem]
    obtain ⟨e', he'⟩ := hrun last.1
      (fun move hmove => ⟨hlater move hmove, (hrows move (by simp [hmove])).symm⟩)
      fun l hl => by
        have hsome := congrArg List.getLast? hlast
        rw [List.getLast?_concat, List.getLast?_append, hl, Option.some_or] at hsome
        rw [Option.some.inj hsome]
    refine ⟨e', ?_⟩
    change ((c.admitWrite host io pw).run last.1).1 = _
    rw [hagain last.1 hv hnone fun move hmove => hrows move (by simp [hmove])]
    exact he'
  · have hpre := hsilent.append others_trans hmore
    have hend : ((t₀, t₀) :: (tc, tc) :: (reads ++ (more ++ [(t, t')]))).getLast? =
        some (t, t') := by
      have hmoves : (t₀, t₀) :: (tc, tc) :: (reads ++ (more ++ [(t, t')])) =
          ((t₀, t₀) :: (tc, tc) :: (reads ++ more)) ++ [(t, t')] := by simp
      rw [hmoves, List.getLast?_concat]
    have hnone : q.admitted t.store = [] := by
      rcases hcond with hcond | ⟨-, hcond | ⟨hstarts, hcond⟩⟩
      · rw [hq]
        exact hcond (t, t') hend
      · rw [hq] at habsent
        exact absurd habsent (hcond (tc, tc) rfl)
      · exact hrecognised (hsees hstarts) (by rw [hq]; exact hcond (t, t') hend)
    refine ⟨(t₀, t₀) :: (tc, tc) :: reads ++ more, (t, t'), by simp, hpre, hnone, fun hrows => ?_⟩
    rw [hstart] at hrows
    have ht : t.sealed.contains c.ownerId = false :=
      Request.Others.open (hpre.rel others_trans) hopen
    obtain ⟨e', he'⟩ := hrun hnone fun move hmove => (hrows move (by simp [hmove])).symm
    refine ⟨e', ?_⟩
    change ((c.admitWrite host io pw).run t).1 = _
    rw [hagain t ht hnone fun move hmove => hrows move (by simp [hmove])]
    exact he'

/-! ### The course of a call -/

lemma admits_of_fenced {m m' : DurableMutation} (hbuilt : ask.Built m)
    (hfenced : m' = m ∨ ∃ t token, m.task = some t ∧ m' = withToken m token) :
    ask.Admits m'.toMutationData := by
  rcases hfenced with rfl | ⟨t, token, -, rfl⟩
  · exact hbuilt.admits
  · exact hbuilt.admits

/-- A call has only read, and returns what it found; or it has found nothing, and its last step is
its commit. -/
def Course (c : Session) (ask : Ask) (q : Request) (w : World) (moves : List (World × World))
    (r : Except Error CommitResult) (w' : World) : Prop :=
  (Prog.Silent (q.Others c.ownerId) w moves w' ∧
    ∀ result, r = .ok result → ∃ x, q.admitted w'.store = [x] ∧ result = x.result) ∨
  q.admitted w.store = [] ∧ ∃ m reads t, ask.Admits m.toMutationData ∧
    moves = reads ++ [(t, c.afterCommit m t)] ∧ Prog.Silent (q.Others c.ownerId) w reads t ∧
    r = (t.store.commit m).map Prod.fst ∧ q.Others c.ownerId (c.afterCommit m t) w'

/-- What is built is committed, when the request was absent where it was looked up. -/
lemma course_of_built {build : Except Error DurableMutation} {w₁ : World}
    {first rest : List (World × World)} (hfirst : Prog.Silent (q.Others c.ownerId) w first w₁)
    (habsent : q.admitted w.store = []) (hbuilt : ∀ m, build = .ok m → ask.Built m)
    (hopen : w.sealed.contains c.ownerId = false)
    (h : Prog.Among (q.Others c.ownerId) ((Prog.ofExcept build).bind c.commit) w₁ rest r w') :
    Course c ask q w (first ++ rest) r w' := by
  have hw₁ : w₁.sealed.contains c.ownerId = false :=
    Request.Others.open (hfirst.rel others_trans) hopen
  cases build with
  | error e =>
    obtain ⟨rfl, rfl, hR⟩ := Prog.among_ofExcept (x := .error e) h
    exact Or.inl ⟨hfirst.append others_trans (.nil hR), by simp⟩
  | ok m =>
    obtain ⟨m', reads, t, hfenced, rfl, hsilent, hr, hend⟩ :=
      among_commit (hbuilt m rfl).approval hw₁ h
    exact Or.inr ⟨habsent, m', first ++ reads, t, admits_of_fenced (hbuilt m rfl) hfenced,
      by rw [List.append_assoc], hfirst.append others_trans hsilent, hr, hend⟩

lemma course_admitInput {a : Admission} (hq : q = (Ask.input a).request)
    (hvalid : (Ask.input a).Valid host) (hopen : w.sealed.contains c.ownerId = false)
    (hunique : q.Unique w.store)
    (h : Prog.Among (q.Others c.ownerId) (c.admitInput a) w moves r w') :
    Course c (.input a) q w moves r w' := by
  rcases among_admitInput hq hvalid hopen hunique h with
    ⟨hsilent, -, -, -, -, -, -, e, rfl, -⟩ |
    ⟨first, tc, w₁, seen, rest, rfl, hsilent, hlast, -, ⟨x, hx, rfl, rfl, hR⟩ | ⟨habsent, htail, -⟩⟩
  · exact Or.inl ⟨hsilent, by simp⟩
  · have hmem := List.mem_of_getLast? hlast
    refine Or.inl ⟨by rw [List.append_nil]; exact hsilent.to_rel others_trans hR, ?_⟩
    intro result hresult
    refine ⟨x, ?_, (Except.ok.inj hresult).symm⟩
    exact Request.Others.kept ((hsilent.mem others_trans hmem).2.2.trans hR) hx
  · have hmem := List.mem_of_getLast? hlast
    have hstart := Request.Others.absent (hsilent.mem others_trans hmem).2.1 hunique habsent
    exact course_of_built hsilent hstart (fun m hm => (Ask.of_inputMutation hm).1) hopen htail

lemma course_admitWrite (hq : q = (Ask.write pw).request) (hvalid : (Ask.write pw).Valid host)
    (hopen : w.sealed.contains c.ownerId = false) (hunique : q.Unique w.store)
    (h : Prog.Among (q.Others c.ownerId) (c.admitWrite host io pw) w moves r w') :
    Course c (.write pw) q w moves r w' := by
  have hconv : pw.conversationId = q.conversationId := by
    rw [hq]
    rfl
  obtain ⟨t₀, tc, ⟨rfl, hsilent, x, hx, rfl⟩ |
    ⟨reads, w₁, seen, rest, rfl, hsilent, habsent, -, htail,
    -⟩⟩ := among_admitWrite hq hvalid hopen hunique h
  · refine Or.inl ⟨hsilent, fun result hresult => ⟨x, ?_, (Except.ok.inj hresult).symm⟩⟩
    have hlooked : (tc, tc) ∈ [(t₀, t₀), (tc, tc)] := by simp
    exact Request.Others.kept (hsilent.mem others_trans hlooked).2.2 hx
  have hlooked : (tc, tc) ∈ (t₀, t₀) :: (tc, tc) :: reads := by simp
  have hstart := Request.Others.absent (hsilent.mem others_trans hlooked).2.1 hunique habsent
  unfold writeTail at htail
  rcases Prog.among_bind (fun _ => .refl) htail with
    ⟨e, rfl, hfence⟩ | ⟨_, w₂, m₁, n₁, rfl, hfence, h₁⟩
  · obtain ⟨rfl, -, hR⟩ := Prog.among_ofExcept hfence
    exact Or.inl ⟨by simpa using hsilent.to_rel others_trans hR, by simp⟩
  obtain ⟨rfl, -, hR⟩ := Prog.among_ofExcept hfence
  have hfirst := hsilent.to_rel others_trans hR
  rcases Prog.among_bind (fun _ => .refl) h₁ with
    ⟨e, rfl, hstale⟩ | ⟨stale, w₃, m₂, n₂, rfl, hstale, h₂⟩
  · exact Or.inl ⟨by simpa using hfirst.append others_trans (among_isStale hconv hstale).1, by simp⟩
  have hreads := hfirst.append others_trans (among_isStale hconv hstale).1
  have hcourse := course_of_built hreads hstart
    (fun m hm => (Ask.of_writeMutation hm).1) hopen h₂
  simpa using hcourse

lemma course_prog (hq : q = ask.request) (hvalid : ask.Valid host)
    (hopen : w.sealed.contains c.ownerId = false) (hunique : q.Unique w.store)
    (h : Prog.Among (q.Others c.ownerId) (ask.prog c host io) w moves r w') :
    Course c ask q w moves r w' := by
  cases ask with
  | input a => exact course_admitInput hq hvalid hopen hunique h
  | write pw => exact course_admitWrite hq hvalid hopen hunique h

lemma refused_prog (hq : q = ask.request) (hvalid : ask.Valid host)
    (hopen : w.sealed.contains c.ownerId = false) (hunique : q.Unique w.store)
    (h : Prog.Among (q.Others c.ownerId) (ask.prog c host io) w moves (.error e) w')
    (hcond : ask.Undisturbed io moves) : Refused c host io ask q w moves := by
  cases ask with
  | input a => exact refused_admitInput hq hvalid hopen hunique h hcond
  | write pw => exact refused_admitWrite hq hvalid hopen hunique h hcond

/-- What a commit leaves to other sessions: the store as it was, or with the mutation. -/
lemma afterCommit_cases (c : Session) (m : DurableMutation) (t : World) :
    (∀ o ≠ c.ownerId, (c.afterCommit m t).sealed.contains o = t.sealed.contains o) ∧
    ((c.afterCommit m t).store = t.store ∨
      ∃ result, t.store.commit m = .ok (result, (c.afterCommit m t).store)) := by
  unfold afterCommit
  cases hcommit : t.store.commit m with
  | ok x => exact ⟨fun _ _ => rfl, Or.inr ⟨x.1, rfl⟩⟩
  | error e =>
    by_cases he : e.rejection = true
    · simp only [he, if_true]
      exact ⟨fun _ _ => trivial, Or.inl trivial⟩
    · simp only [he]
      refine ⟨fun o ho => ?_, Or.inl rfl⟩
      simp [ho]

lemma other_of_admits {m : MutationData} (h : ask.Admits m) : ask.request.Other m := by
  obtain ⟨d, hd, -, -, hprint, hkept, -⟩ := h
  refine ⟨fun hdel => ?_, fun d' hd' _ _ => ?_⟩
  · rw [hkept] at hdel
    cases hdel
  · rw [hd] at hd'
    obtain rfl := Option.some.inj hd'
    exact hprint

lemma Course.own_moves (hunique : ask.request.Unique w.store)
    (h : Course c ask ask.request w moves r w') : ∀ move ∈ moves, Ask.Moves c ask move := by
  have hquiet : ∀ move : World × World, move.2 = move.1 → Ask.Moves c ask move := by
    intro move hsame
    rw [Ask.Moves, hsame]
    exact ⟨fun _ _ => ⟨rfl, Or.inl rfl⟩, Or.inl rfl⟩
  intro move hmove
  rcases h with ⟨hsilent, -⟩ | ⟨-, m, reads, t, hadmits, rfl, hreads, -, -⟩
  · exact hquiet move (hsilent.mem others_trans hmove).1
  · rcases List.mem_append.mp hmove with hmove | hmove
    · exact hquiet move (hreads.mem others_trans hmove).1
    · obtain rfl := List.mem_singleton.mp hmove
      obtain ⟨hsealed, hstore⟩ := afterCommit_cases c m t
      rcases hstore with hsame | ⟨result, hcommit⟩
      · exact ⟨fun o ho => ⟨hsealed o ho, Or.inl hsame⟩, Or.inl hsame⟩
      · refine ⟨fun o ho => ⟨hsealed o ho, Or.inr ⟨m, result, other_of_admits hadmits, hcommit⟩⟩, ?_⟩
        have ht : ask.request.Unique t.store :=
          Request.Others.unique (hreads.rel others_trans) hunique
        rcases ht with habsent | ⟨x, hx, -⟩
        · exact Or.inr ⟨habsent, m, result, hadmits, hcommit⟩
        · obtain ⟨d, hd, hconv, hrequest, -⟩ := hadmits
          exact Or.inl (SqliteStore.replayed_of_commit hd hconv hrequest hx hcommit).1

/-- After a call the request is admitted at most once, and as the call says. -/
lemma Course.result (hunique : ask.request.Unique w.store)
    (h : Course c ask ask.request w moves r w') : ask.request.Unique w'.store ∧
      ∀ result, r = .ok result → ∃ x, ask.request.admitted w'.store = [x] ∧ result = x.result := by
  rcases h with ⟨hsilent, hr⟩ | ⟨-, m, reads, t, hadmits, -, hreads, hr, hend⟩
  · exact ⟨Request.Others.unique (hsilent.rel others_trans) hunique, hr⟩
  · have ht : ask.request.Unique t.store :=
      Request.Others.unique (hreads.rel others_trans) hunique
    rw [hr]
    cases hcommit : t.store.commit m with
    | error e =>
      have hsame : (c.afterCommit m t).store = t.store := by
        rcases (afterCommit_cases c m t).2 with hsame | ⟨result, hok⟩
        · exact hsame
        · rw [hcommit] at hok
          cases hok
      refine ⟨Request.Others.unique hend (hsame ▸ ht), fun result hresult => ?_⟩
      cases hresult
    | ok x =>
      have hafter : (c.afterCommit m t).store = x.2 := by
        rw [afterCommit, hcommit]
      have hlate : ask.request.Unique (c.afterCommit m t).store := by
        rw [hafter]
        exact Request.Other.unique (other_of_admits hadmits) hcommit ht
      refine ⟨Request.Others.unique hend hlate, fun result hresult => ?_⟩
      obtain ⟨d, hd, hconv, hrequest, -, hkept, -⟩ := hadmits
      obtain ⟨y, hy, hresult'⟩ := SqliteStore.result_of_commit hd hconv hrequest ht hcommit hkept
      rw [← hafter] at hy
      exact ⟨y, Request.Others.kept hend hy, (Except.ok.inj hresult).symm.trans hresult'⟩

/-- For another session, a call made alone is a number of steps. -/
lemma others_of_run {o : String} (ho : o ≠ c.ownerId) (hvalid : ask.Valid host)
    (hopen : w.sealed.contains c.ownerId = false) (hunique : ask.request.Unique w.store) :
    ask.request.Others o w ((ask.prog c host io).run w).2 := by
  have halone := Prog.among_run (R := ask.request.Others c.ownerId) (fun _ => .refl)
    (ask.prog c host io) w
  have hmoves := (course_prog rfl hvalid hopen hunique halone).own_moves hunique
  have hchain : ∀ v v' : World, v = v' → ask.request.Others o v v' := by
    rintro v _ rfl
    exact .refl
  refine (Prog.among_run (R := Eq) (fun _ => rfl) (ask.prog c host io) w).chain
    (fun _ _ _ h h' => h.trans h') hchain fun move hmove => ?_
  exact .single ((hmoves move hmove).1 o ho)

end Session

/-- **Idempotent admission.** -/
theorem idempotent_admission {c : Session} {host : Host} {io : Responses} {ask : Ask}
    {w w' : World} {moves : List (World × World)} {r : Except Error CommitResult}
    (hvalid : ask.Valid host) (hrun : CommitRun (fun _ => True) {} w.store)
    (hsame : ∀ x ∈ ask.request.admitted w.store, x.fingerprint = ask.request.fingerprint)
    (hopen : w.sealed.contains c.ownerId = false)
    (h : Prog.Among (ask.request.Others c.ownerId) (ask.prog c host io) w moves r w')
    (hcond : ask.Undisturbed io moves) :
    (∀ w'', ask.request.Others c.ownerId w' w'' → (ask.request.admitted w''.store).length ≤ 1 ∧
      ∀ result, r = .ok result →
        ∃ x, ask.request.admitted w''.store = [x] ∧ result = x.result) ∧
    (∀ move ∈ moves, ask.Moves c move) ∧
    (∀ x, ask.request.admitted w.store = [x] →
      r = .ok x.result ∧ ∀ move ∈ moves, move.2 = move.1) ∧
    ∀ e, r = .error e → (∀ move ∈ moves, ask.request.admitted move.1.store = []) ∧
      (ask.Raced moves ∨ ask.FailsAlone c host io moves) := by
  have hunique : ask.request.Unique w.store := Request.unique_of_run hrun hsame
  have hcourse := Session.course_prog rfl hvalid hopen hunique h
  have hresult := hcourse.result hunique
  have herror : ∀ e, r = .error e → (∀ move ∈ moves, ask.request.admitted move.1.store = []) ∧
      (ask.Raced moves ∨ ask.FailsAlone c host io moves) := by
    rintro e rfl
    obtain ⟨pre, last, rfl, hsilent, habsent, halone⟩ :=
      Session.refused_prog rfl hvalid hopen hunique h hcond
    have hlast : (pre ++ [last]).getLast? = some last := List.getLast?_concat
    refine ⟨fun move hmove => ?_, ?_⟩
    · rcases List.mem_append.mp hmove with hmove | hmove
      · obtain ⟨-, hbefore, hafter⟩ := hsilent.mem Session.others_trans hmove
        exact Request.Others.absent hafter (Request.Others.unique hbefore hunique) habsent
      · rw [List.mem_singleton.mp hmove]
        exact habsent
    · by_cases hrow : ∀ move ∈ (pre ++ [last]).drop ask.before,
          move.1.store.conversations.get? ask.request.conversationId =
            last.1.store.conversations.get? ask.request.conversationId
      · obtain ⟨e', he'⟩ := halone hrow
        exact Or.inr ⟨last, e', hlast, he'⟩
      · push Not at hrow
        obtain ⟨move, hmove, hne⟩ := hrow
        exact Or.inl ⟨move, hmove, last, hlast, hne⟩
  refine ⟨fun w'' hlater => ⟨?_, fun result hr => ?_⟩, hcourse.own_moves hunique, fun x hx => ?_,
    herror⟩
  · rcases Request.Others.unique hlater hresult.1 with hnone | ⟨x, hx, -⟩
    · simp [hnone]
    · simp [hx]
  · obtain ⟨x, hx, heq⟩ := hresult.2 result hr
    exact ⟨x, hlater.kept hx, heq⟩
  · rcases hcourse with ⟨hsilent, hr⟩ | ⟨habsent, -⟩
    · refine ⟨?_, fun move hmove => (hsilent.mem Session.others_trans hmove).1⟩
      have hkept : ask.request.admitted w'.store = [x] :=
        Request.Others.kept (hsilent.rel Session.others_trans) hx
      cases hresult : r with
      | ok result =>
        obtain ⟨y, hy, rfl⟩ := hr result hresult
        rw [hkept] at hy
        obtain rfl := List.singleton_inj.mp hy
        rfl
      | error e =>
        exfalso
        obtain ⟨pre, last, rfl, hpre, hnone, -⟩ :=
          Session.refused_prog rfl hvalid hopen hunique (hresult ▸ h) hcond
        rw [Request.Others.kept (hpre.rel Session.others_trans) hx] at hnone
        cases hnone
    · rw [hx] at habsent
      cases habsent

/-- A write into a conversation that does not exist yet. -/
def sampleWrite (placement : SubmissionPlacement) (name : String) : PassiveWrite where
  conversationId := "chat"
  requestId := "request"
  kind := "note"
  placement := placement
  entryId := "entry-" ++ name
  submissionId := "submission-" ++ name
  fingerprint := "digest"

def otherSession : Session := { ownerId := "owner-2", processId := 2 }

def sampleAsk (placement : SubmissionPlacement) : Ask := .write (sampleWrite placement "2")

def sampleCall (placement : SubmissionPlacement) : Op CommitResult :=
  (sampleAsk placement).prog otherSession silentHost noResponses

def sampleBetween (placement : SubmissionPlacement) : World :=
  (((Ask.write (sampleWrite placement "1")).prog firstSession silentHost noResponses).run
    { store := {} }).2

/-- What is left of the call of the other session after it has looked for the request. -/
def sampleRest (placement : SubmissionPlacement) : Op CommitResult :=
  (Prog.advance 2 (sampleCall placement) { store := {} }).1

def sampleMoves (placement : SubmissionPlacement) : List (World × World) :=
  ((sampleCall placement).trace { store := {} }).take 2 ++
    (sampleRest placement).trace (sampleBetween placement)

lemma sampleWrite_valid (placement : SubmissionPlacement) {name : String}
    (hname : name = "1" ∨ name = "2") : (Ask.write (sampleWrite placement name)).Valid silentHost := by
  rcases hname with rfl | rfl <;> cases placement <;>
    exact ⟨rfl, rfl, by decide, by decide, by decide, by decide⟩

lemma sample_still (placement : SubmissionPlacement) :
    (Prog.advance 2 (sampleCall placement) { store := {} }).2 = { store := {} } := by
  change (Prog.advance 2 (otherSession.admitWrite silentHost noResponses
    (sampleWrite placement "2")) _).2 = _
  rw [Session.admitWrite_eq, (sampleWrite_valid placement (Or.inr rfl)).1,
    (sampleWrite_valid placement (Or.inr rfl)).2.1]
  simp only [Prog.ofExcept_ok, Prog.ret_bind]
  rw [Session.ensureUsable, Prog.advance_readE_bind (b := ()), Session.view,
    Prog.advance_readE_bind (b := none), Prog.advance_zero]
  · rfl
  · rfl

lemma sample_request (placement : SubmissionPlacement) (name : String) :
    (Ask.write (sampleWrite placement name)).request = ⟨"chat", "request", "digest"⟩ :=
  rfl

lemma sample_others (placement : SubmissionPlacement) :
    (sampleAsk placement).request.Others "owner-2" { store := {} } (sampleBetween placement) := by
  rw [sampleAsk, sample_request, ← sample_request placement "1"]
  have hempty : (Ask.write (sampleWrite placement "1")).request.Unique ({} : SqliteStore) :=
    Or.inl rfl
  exact Session.others_of_run (c := firstSession) (by decide)
    (sampleWrite_valid placement (Or.inl rfl)) rfl hempty

lemma sample_among (placement : SubmissionPlacement) :
    Prog.Among ((sampleAsk placement).request.Others "owner-2") (sampleCall placement)
      { store := {} } (sampleMoves placement)
      ((sampleRest placement).run (sampleBetween placement)).1
      ((sampleRest placement).run (sampleBetween placement)).2 := by
  refine Prog.among_interrupted (fun _ => .refl) (fun _ _ _ h h' => h.trans h') 2 ?_
  rw [sample_still]
  exact sample_others placement

theorem idempotent_admission_sample : ∃ x,
    (sampleAsk .queued).request.admitted
      ((sampleRest .queued).run (sampleBetween .queued)).2.store = [x] ∧
    ((sampleRest .queued).run (sampleBetween .queued)).1 = .ok x.result := by
  have hcond : (sampleAsk .queued).Undisturbed noResponses (sampleMoves .queued) := by
    refine Or.inr ⟨by simp [sampleAsk, Ask.owner], Or.inr ⟨⟨rfl, by simp [sampleWrite]⟩, ?_⟩⟩
    decide +kernel
  have hresult := (idempotent_admission (c := otherSession) (w := { store := {} })
    (sampleWrite_valid .queued (Or.inr rfl)) .refl (by simp [Request.admitted]) rfl
    (sample_among .queued) hcond).1 _ .refl
  have hok : ((sampleRest .queued).run (sampleBetween .queued)).1.isOk = true := by decide +kernel
  cases hr : ((sampleRest .queued).run (sampleBetween .queued)).1 with
  | error e =>
    rw [hr] at hok
    cases hok
  | ok result =>
    obtain ⟨x, hx, rfl⟩ := hresult.2 result hr
    exact ⟨x, hx, rfl⟩

/-- A write that is placed at once, and is made again before it is committed, is refused although
the conversation has not changed since it was read. -/
theorem idempotent_admission_unconditional :
    ¬ ∀ (c : Session) (ask : Ask) (w w' : World) (moves : List (World × World)) (e : Error),
      ask.Valid silentHost → CommitRun (fun _ => True) {} w.store →
      (∀ x ∈ ask.request.admitted w.store, x.fingerprint = ask.request.fingerprint) →
      w.sealed.contains c.ownerId = false →
      Prog.Among (ask.request.Others c.ownerId) (ask.prog c silentHost noResponses) w moves
        (.error e) w' → ask.Raced moves ∨ ask.FailsAlone c silentHost noResponses moves := by
  intro h
  have herror : ((sampleRest .placed).run (sampleBetween .placed)).1 = .error
      (.idempotencyConflict "request_id was already admitted with different input") := by
    decide +kernel
  have hcall := sample_among .placed
  rw [herror] at hcall
  rcases h otherSession (sampleAsk .placed) _ _ _ _ (sampleWrite_valid .placed (Or.inr rfl))
    .refl (by simp [Request.admitted]) rfl
    hcall with ⟨move, hmove, last, hlast, hne⟩ | ⟨last, e, hlast, he⟩
  · -- the conversation stays as it is
    have hrows : ∀ move ∈ (sampleMoves .placed).drop 2, ∀ last,
        (sampleMoves .placed).getLast? = some last →
        move.1.store.conversations.get? "chat" = last.1.store.conversations.get? "chat" := by
      decide +kernel
    exact hne (hrows move hmove last hlast)
  · have hok : ∀ last, (sampleMoves .placed).getLast? = some last →
        ((sampleCall .placed).run last.1).1.isOk = true := by decide +kernel
    have := hok last hlast
    rw [show ((sampleCall .placed).run last.1).1 = .error e from he] at this
    cases this

end Codey
