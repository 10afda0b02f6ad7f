import Codey.Codemode.TaskSteps
import Mathlib.Logic.Relation

/-!
# Recovery repeats an execution

An execution of a program is attempted any number of times. An attempt may end between any two
commits, and other commits may change the task in between. Every attempt is given the results of the
state operations that were committed, in their order, and a call with a recorded intent goes to the
kernel only when its receipt tells how it ended.
-/

namespace Codey

namespace Codemode

open LoggedStore

/-! ### Programs and attempts -/

inductive Operation where
  | state (op : StateOp)
  | child (call : ChildCall) (effectId : String)
  deriving DecidableEq

/-- The outcome of an operation: a value, or an exception, which the program may catch. -/
inductive Answer where
  | value (v : Json)
  | raised (message : String)
  deriving DecidableEq

/-- A deterministic program: the clock and the seed of its context and the answers so far determine
its next operation. -/
abbrev Program := Json × Json → List Answer → Option Operation

structure Attempt where
  replay : Replay
  trace : List (Operation × Answer) := []
  /-- The call that the kernel carries out. -/
  running : Option (ChildCall × String) := none

namespace Attempt

variable (a : Attempt)

def answers : List Answer := a.trace.map Prod.snd

def context : Json × Json := (a.replay.epochMs, a.replay.seed)

def returned : Operation × Answer → Option (StateOp × Json)
  | (.state op, .value v) => some (op, v)
  | _ => none

def completed : List (StateOp × Json) := a.trace.filterMap returned

def returns (op : StateOp) (v : Json) : Attempt :=
  { a with
    replay := { a.replay with stateIndex := a.replay.stateIndex + 1 }
    trace := a.trace ++ [(.state op, .value v)] }

/-- The attempt after an operation has raised an exception within `admission`. -/
def raises (op : Operation) (message : String) : Attempt :=
  { a with
    replay := a.replay.invalidate message
    trace := a.trace ++ [(op, .raised message)] }

/-- The attempt after it has noted a call, which an invalid one does not. -/
def sees (effectId : String) : Attempt :=
  if a.replay.failure = "" then
    { a with replay := { a.replay with childrenSeen := effectId :: a.replay.childrenSeen } }
  else a

def calls (call : ChildCall) (effectId : String) : Attempt :=
  { a.sees effectId with running := some (call, effectId) }

/-- The attempt after the kernel has answered; it may find that a receipt cannot be verified. -/
def answered (call : ChildCall) (effectId : String) (answer : Answer) (invalid : Option String) :
    Attempt where
  replay := (invalid.map a.replay.invalidate).getD a.replay
  trace := a.trace ++ [(.child call effectId, answer)]
  running := none

end Attempt

/-- A state operation that was committed, with the checkpoints before and after the commit. -/
structure Committed where
  op : StateOp
  result : Json
  before : TaskCheckpoint
  after : TaskCheckpoint

/-- The attempts at one execution. -/
structure System where
  log : LoggedStore
  current : Option Attempt := none
  ended : List Attempt := []
  committed : List Committed := []
  /-- The calls that went to the kernel, with the effects that were recorded for them. -/
  dispatched : List (ChildCall × String × Option EffectRecord) := []

def System.attempts (s : System) : List Attempt := s.current.toList ++ s.ended

def commitOf (id : Identity) (op : StateOp) (v : Json) (wrote : Bool) (l l' : LoggedStore) :
    List Committed :=
  match wrote, l.store.tasks.get? id.taskId, l'.store.tasks.get? id.taskId with
  | true, some before, some after => [⟨op, v, before, after⟩]
  | _, _, _ => []

variable (host : Host) (id : Identity) (program : Program)

def Attempt.issues (a : Attempt) (op : Operation) : Prop :=
  a.running = none ∧ program a.context a.answers = some op

/-- One step of the system. -/
inductive Step : System → System → Prop where
  | started {s : System} {epochMs seed : Int} {wrote : Bool} {l' : LoggedStore} {r : Replay}
      (idle : s.current = none)
      (entered : transformTaskState id.taskId (initializeRecord id epochMs seed) s.log =
        .ok ((), wrote, l'))
      (read : context id l' = .ok r) :
      Step s { s with log := l', current := some { replay := r } }
  /-- The process ends after the record was entered. -/
  | startCut {s : System} {epochMs seed : Int} {wrote : Bool} {l' : LoggedStore}
      (idle : s.current = none)
      (entered : transformTaskState id.taskId (initializeRecord id epochMs seed) s.log =
        .ok ((), wrote, l')) :
      Step s { s with log := l' }
  | state {s : System} {a : Attempt} {op : StateOp} {v : Json} {wrote : Bool} {l' : LoggedStore}
      (current : s.current = some a) (issued : a.issues program (.state op))
      (performed : perform id host a.replay op s.log = .ok (v, wrote, l')) :
      Step s { s with
        log := l', current := some (a.returns op v)
        committed := s.committed ++ commitOf id op v wrote s.log l' }
  /-- The process ends after the commit. -/
  | stateCut {s : System} {a : Attempt} {op : StateOp} {v : Json} {wrote : Bool} {l' : LoggedStore}
      (current : s.current = some a) (issued : a.issues program (.state op))
      (performed : perform id host a.replay op s.log = .ok (v, wrote, l')) :
      Step s { s with
        log := l', current := none, ended := a :: s.ended
        committed := s.committed ++ commitOf id op v wrote s.log l' }
  /-- A listener of the session raises after the commit. -/
  | stateLost {s : System} {a : Attempt} {op : StateOp} {v : Json} {wrote : Bool} {l' : LoggedStore}
      {message : String} (current : s.current = some a) (issued : a.issues program (.state op))
      (performed : perform id host a.replay op s.log = .ok (v, wrote, l')) :
      Step s { s with
        log := l', current := some (a.raises (.state op) message)
        committed := s.committed ++ commitOf id op v wrote s.log l' }
  | stateRaised {s : System} {a : Attempt} {op : StateOp} {e : Failure}
      (current : s.current = some a) (issued : a.issues program (.state op))
      (performed : perform id host a.replay op s.log = .error e) :
      Step s { s with current := some (a.raises (.state op) (e.text host)) }
  /-- The session refuses the operation. -/
  | stateRefused {s : System} {a : Attempt} {op : StateOp} {message : String}
      (current : s.current = some a) (issued : a.issues program (.state op)) :
      Step s { s with current := some (a.raises (.state op) message) }
  | childCalled {s : System} {a : Attempt} {call : ChildCall} {effectId : String}
      (current : s.current = some a) (issued : a.issues program (.child call effectId))
      (admitted : child id a.replay call effectId s.log = .ok ()) :
      Step s { s with
        current := some (a.calls call effectId)
        dispatched := s.dispatched ++ [(call, effectId, s.log.store.effects.get? effectId)] }
  | childRaised {s : System} {a : Attempt} {call : ChildCall} {effectId : String} {e : Failure}
      (current : s.current = some a) (issued : a.issues program (.child call effectId))
      (admitted : child id a.replay call effectId s.log = .error e) :
      Step s { s with
        current := some ((a.sees effectId).raises (.child call effectId) (e.text host)) }
  | childAnswered {s : System} {a : Attempt} {call : ChildCall} {effectId : String}
      {answer : Answer} {invalid : Option String}
      (current : s.current = some a) (running : a.running = some (call, effectId)) :
      Step s { s with current := some (a.answered call effectId answer invalid) }
  /-- The attempt ends, or its process does. -/
  | stopped {s : System} {a : Attempt} (current : s.current = some a) :
      Step s { s with current := none, ended := a :: s.ended }
  /-- Any other commit: it does not delete the task, and it leaves the entry of this execution as it
  is. -/
  | other {s : System} {m : DurableMutation} {r : CommitResult} {l' : LoggedStore}
      (committed : s.log.commit m = .ok (r, l')) (keeps : Keeps id.taskId s.log m)
      (entry : entryOf id l' = entryOf id s.log) :
      Step s { s with log := l' }

/-- Before the first attempt: the store has come about without a deletion of the task, and no entry
for the execution is there. -/
structure Initial (s : System) : Prop where
  run : ∃ tr, Run tr s.log ∧ ∀ step ∈ tr, step.2.deleteConversation = true →
    ∀ row, step.1.tasks.get? id.taskId = some row → row.conversationId ≠ step.2.conversationId
  entry : entryOf id s.log = none
  fresh : s = { log := s.log }

/-! ### What a run keeps -/

def Issued (op : StateOp) : Prop := ∃ context answers, program context answers = some (.state op)

structure Committed.Sound (c : Committed) : Prop where
  revision : c.after.revision = c.before.revision + 1
  values : ∃ values, valuesAt c.before = .ok values ∧ c.result = c.op.result values ∧
    valuesAt c.after = .ok (c.op.apply values)

def System.results (s : System) : List (StateOp × Json) := s.committed.map fun c => (c.op, c.result)

def System.steps (host : Host) (s : System) : List Json :=
  s.committed.map fun c => stepOf host c.op c.after.revision

/-- An attempt follows the program, and it has been given the committed results in their order. -/
structure Attempt.Follows (program : Program) (results : List (StateOp × Json)) (a : Attempt) :
    Prop where
  index : a.replay.stateIndex ≤ results.length
  completed : a.completed = results.take a.replay.stateIndex
  issued : ∀ k entry, a.trace[k]? = some entry →
    program a.context ((a.trace.take k).map Prod.snd) = some entry.1
  running : ∀ call effectId, a.running = some (call, effectId) →
    program a.context a.answers = some (.child call effectId)

/-- The attempt has issued an operation after the given number of results. -/
def Attempt.Reaches (program : Program) (k : Nat) (op : StateOp) (a : Attempt) : Prop :=
  ∃ n ≤ a.trace.length, program a.context ((a.trace.take n).map Prod.snd) = some (.state op) ∧
    ((a.trace.take n).filterMap Attempt.returned).length = k

/-- The entry of the execution holds the committed steps and the context of every attempt. -/
structure Entered (s : System) (record : Fields) : Prop where
  entry : entryOf id s.log = some (.obj record)
  fits : recordFits id record = true
  steps : Fields.get? record "state" = some (.arr (s.steps host))
  context : ∀ a ∈ s.attempts, a.context =
    ((Fields.get? record "epoch_ms").getD .null, (Fields.get? record "seed").getD .null)

structure Inv (s : System) : Prop where
  charted : ∃ tr, Run tr s.log ∧ Charted id.taskId tr s.log ∧
    ∀ c ∈ s.committed, ∃ t ∈ transitions id.taskId tr, t.task = c.after
  entered : (entryOf id s.log = none ∧ s.committed = [] ∧ s.attempts = []) ∨
    ∃ record, Entered host id s record
  sound : ∀ c ∈ s.committed, c.Sound
  ordered : s.committed.Pairwise fun c d => c.after.revision < d.after.revision
  issued : ∀ c ∈ s.committed, Issued program c.op
  origin : ∀ k c, s.committed[k]? = some c → ∃ a ∈ s.attempts, a.Reaches program k c.op
  follows : ∀ a ∈ s.attempts, a.Follows program s.results
  dispatched : ∀ d ∈ s.dispatched, ∀ e, d.2.2 = some e → namesCall id d.1 e ∧ hasReceipt e

variable {host id program}

lemma Initial.inv {s : System} (h : Initial id s) : Inv host id program s := by
  obtain ⟨tr, hrun, hkeeps⟩ := h.run
  have hfresh := h.fresh
  have hcommitted : s.committed = [] := by rw [hfresh]
  have hattempts : s.attempts = [] := by rw [hfresh]; rfl
  have hdispatched : s.dispatched = [] := by rw [hfresh]
  exact {
    charted := ⟨tr, hrun, hrun.charted hkeeps, by simp [hcommitted]⟩
    entered := Or.inl ⟨h.entry, hcommitted, hattempts⟩
    sound := by simp [hcommitted]
    ordered := by simp [hcommitted]
    issued := by simp [hcommitted]
    origin := by simp [hcommitted]
    follows := by simp [hattempts]
    dispatched := by simp [hdispatched] }

/-! ### Attempts -/

variable {results : List (StateOp × Json)} {a : Attempt}

namespace Attempt

lemma Follows.mono (h : a.Follows program results) (more : List (StateOp × Json)) :
    a.Follows program (results ++ more) where
  index := h.index.trans (by simp)
  completed := by rw [h.completed, List.take_append_of_le_length h.index]
  issued := h.issued
  running := h.running

lemma Reaches.mono {k : Nat} {op : StateOp} {b : Attempt} (h : a.Reaches program k op)
    (hcontext : b.context = a.context) (htrace : a.trace <+: b.trace) : b.Reaches program k op := by
  obtain ⟨n, hn, hissued, hk⟩ := h
  obtain ⟨more, htrace⟩ := htrace
  have htake : b.trace.take n = a.trace.take n := by
    rw [← htrace, List.take_append_of_le_length hn]
  refine ⟨n, ?_, by rw [hcontext, htake, hissued], by rw [htake, hk]⟩
  rw [← htrace, List.length_append]
  omega

lemma Follows.reaches (h : a.Follows program results) {op : StateOp}
    (hissued : a.issues program (.state op)) : a.Reaches program a.replay.stateIndex op := by
  refine ⟨a.trace.length, le_rfl, by rw [List.take_length]; exact hissued.2, ?_⟩
  have hcompleted : a.trace.filterMap returned = results.take a.replay.stateIndex := h.completed
  rw [List.take_length, hcompleted, List.length_take, Nat.min_eq_left h.index]

/-- The operations of an extended trace are issued when the last one is. -/
lemma issued_append (h : a.Follows program results) {entry : Operation × Answer}
    (hentry : program a.context a.answers = some entry.1) (k : Nat) (found : Operation × Answer)
    (hfound : (a.trace ++ [entry])[k]? = some found) :
    program a.context (((a.trace ++ [entry]).take k).map Prod.snd) = some found.1 := by
  rcases lt_trichotomy k a.trace.length with hlt | rfl | hgt
  · rw [List.getElem?_append_left hlt] at hfound
    rw [List.take_append_of_le_length hlt.le]
    exact h.issued k found hfound
  · rw [List.getElem?_concat_length, Option.some.injEq] at hfound
    rw [← hfound, List.take_left]
    exact hentry
  · rw [List.getElem?_eq_none (by simpa [Nat.succ_le_iff] using hgt)] at hfound
    cases hfound

lemma Follows.returns (h : a.Follows program results) {op : StateOp} {v : Json}
    (hissued : a.issues program (.state op))
    (hresult : results[a.replay.stateIndex]? = some (op, v)) :
    (a.returns op v).Follows program results where
  index := (List.getElem?_eq_some_iff.mp hresult).1
  completed := by
    simp [Attempt.completed, Attempt.returns, returned, List.take_add_one, hresult, ← h.completed]
  issued := issued_append h hissued.2
  running := by
    intro call effectId hrunning
    rw [Attempt.returns, hissued.1] at hrunning
    cases hrunning

lemma replay_invalidate (r : Replay) (message : String) :
    (r.invalidate message).stateIndex = r.stateIndex ∧
      (r.invalidate message).epochMs = r.epochMs ∧ (r.invalidate message).seed = r.seed := by
  unfold Replay.invalidate
  split_ifs <;> exact ⟨rfl, rfl, rfl⟩

lemma context_raises (op : Operation) (message : String) : (a.raises op message).context =
    a.context := by
  obtain ⟨-, hepoch, hseed⟩ := replay_invalidate a.replay message
  simp [context, Attempt.raises, hepoch, hseed]

lemma sees_frame (effectId : String) : (a.sees effectId).replay.stateIndex = a.replay.stateIndex ∧
    (a.sees effectId).context = a.context ∧ (a.sees effectId).trace = a.trace ∧
    (a.sees effectId).running = a.running := by
  unfold sees
  split_ifs <;> exact ⟨rfl, rfl, rfl, rfl⟩

lemma Follows.raises (h : a.Follows program results) {op : Operation}
    (hissued : a.issues program op) (message : String) :
    (a.raises op message).Follows program results where
  index := by
    rw [Attempt.raises, (replay_invalidate _ _).1]
    exact h.index
  completed := by
    have hnone : returned (op, .raised message) = none := by cases op <;> rfl
    simp [Attempt.completed, Attempt.raises, (replay_invalidate _ _).1, hnone, ← h.completed]
  issued := by
    rw [context_raises]
    exact issued_append h hissued.2
  running := by
    intro call effectId hrunning
    rw [Attempt.raises, hissued.1] at hrunning
    cases hrunning

lemma Follows.sees (h : a.Follows program results) (effectId : String) :
    (a.sees effectId).Follows program results := by
  obtain ⟨hindex, hcontext, htrace, hrunning⟩ := sees_frame (a := a) effectId
  exact {
    index := hindex ▸ h.index
    completed := by rw [Attempt.completed, htrace, hindex]; exact h.completed
    issued := by rw [hcontext, htrace]; exact h.issued
    running := by rw [hcontext, hrunning, answers, htrace]; exact h.running }

lemma issues_sees {op : Operation} (effectId : String) (h : a.issues program op) :
    (a.sees effectId).issues program op := by
  obtain ⟨-, hcontext, htrace, hrunning⟩ := sees_frame (a := a) effectId
  exact ⟨by rw [hrunning, h.1], by rw [hcontext, answers, htrace]; exact h.2⟩

lemma Follows.calls (h : a.Follows program results) {call : ChildCall} {effectId : String}
    (hissued : a.issues program (.child call effectId)) :
    (a.calls call effectId).Follows program results where
  index := (h.sees effectId).index
  completed := (h.sees effectId).completed
  issued := (h.sees effectId).issued
  running := by
    intro call' effectId' hrunning
    obtain ⟨rfl, rfl⟩ := Prod.mk.inj (Option.some.inj hrunning)
    exact (issues_sees effectId hissued).2

lemma Follows.answered (h : a.Follows program results) {call : ChildCall} {effectId : String}
    {answer : Answer} {invalid : Option String} (hrunning : a.running = some (call, effectId)) :
    (a.answered call effectId answer invalid).Follows program results ∧
      (a.answered call effectId answer invalid).context = a.context := by
  have hframe : ((invalid.map a.replay.invalidate).getD a.replay).stateIndex = a.replay.stateIndex ∧
      ((invalid.map a.replay.invalidate).getD a.replay).epochMs = a.replay.epochMs ∧
      ((invalid.map a.replay.invalidate).getD a.replay).seed = a.replay.seed := by
    cases invalid with
    | none => exact ⟨rfl, rfl, rfl⟩
    | some message => exact replay_invalidate a.replay message
  obtain ⟨hindex, hepoch, hseed⟩ := hframe
  have hcontext : (a.answered call effectId answer invalid).context = a.context := by
    simp [context, Attempt.answered, hepoch, hseed]
  refine ⟨⟨?_, ?_, ?_, ?_⟩, hcontext⟩
  · exact hindex ▸ h.index
  · simp [Attempt.completed, Attempt.answered, hindex, returned, ← h.completed]
  · rw [hcontext]
    exact issued_append h (h.running call effectId hrunning)
  · intro call' effectId' hnone
    cases hnone

end Attempt

/-! ### Steps -/

variable {s : System} {l' : LoggedStore}

lemma Inv.within (h : Inv host id program s) {c : Committed} (hc : c ∈ s.committed) :
    ∃ row, s.log.store.tasks.get? id.taskId = some row ∧ c.after.revision ≤ row.revision := by
  obtain ⟨tr, -, hcharted, htimeline⟩ := h.charted
  obtain ⟨t, ht, htask⟩ := htimeline c hc
  exact htask ▸ hcharted.within t ht

variable {m : DurableMutation} {r : CommitResult}

/-- A commit that keeps the task leaves its timeline charted. -/
lemma Inv.charted_commit (h : Inv host id program s)
    (hcommit : s.log.commit m = .ok (r, l')) (hkeeps : Keeps id.taskId s.log m) :
    ∃ tr, Run tr l' ∧ Charted id.taskId tr l' ∧
      (∀ c ∈ s.committed, ∃ t ∈ transitions id.taskId tr, t.task = c.after) ∧
      ∀ next, l'.store.tasks.get? id.taskId = some next →
        s.log.store.tasks.get? id.taskId ≠ some next →
          ∃ t ∈ transitions id.taskId tr, t.task = next := by
  obtain ⟨tr, hrun, hcharted, htimeline⟩ := h.charted
  refine ⟨_, hrun.snoc hcommit, hcharted.commit hcommit hkeeps, fun c hc => ?_,
    fun next hnext hne => ?_⟩
  · obtain ⟨t, ht, htask⟩ := htimeline c hc
    refine ⟨t, ?_, htask⟩
    rcases timeline_cases tr hcommit hkeeps with ⟨hsame, -⟩ | ⟨u, hnew, -, -⟩
    · rwa [hsame]
    · rw [hnew]
      exact List.mem_append_left _ ht
  · rcases timeline_cases tr hcommit hkeeps with ⟨-, hrow⟩ | ⟨u, hnew, hrow, -⟩
    · exact absurd (hrow ▸ hnext) hne
    · refine ⟨u, hnew ▸ List.mem_append_right _ List.mem_cons_self, ?_⟩
      exact Option.some.inj (hrow.symm.trans hnext)

lemma Inv.commit (h : Inv host id program s) (hcommit : s.log.commit m = .ok (r, l'))
    (hkeeps : Keeps id.taskId s.log m) (hentry : entryOf id l' = entryOf id s.log) :
    Inv host id program { s with log := l' } := by
  obtain ⟨tr, hrun, hcharted, htimeline, -⟩ := h.charted_commit hcommit hkeeps
  refine ⟨⟨tr, hrun, hcharted, htimeline⟩, ?_, h.sound, h.ordered, h.issued, h.origin, h.follows,
    h.dispatched⟩
  rcases h.entered with ⟨hnone, hempty⟩ | ⟨record, hrecord⟩
  · exact Or.inl ⟨hentry.trans hnone, hempty⟩
  · exact Or.inr ⟨record, hentry.trans hrecord.entry, hrecord.fits, hrecord.steps, hrecord.context⟩

/-- The attempts change, and each goes on from one before. -/
lemma Inv.change (h : Inv host id program s) {current : Option Attempt} {ended : List Attempt}
    {dispatched : List (ChildCall × String × Option EffectRecord)}
    (hattempts : ∀ a ∈ current.toList ++ ended, a.Follows program s.results ∧
      ∃ b ∈ s.attempts, a.context = b.context)
    (hkept : ∀ a ∈ s.attempts, ∃ b ∈ current.toList ++ ended,
      b.context = a.context ∧ a.trace <+: b.trace)
    (hdispatched : ∀ d ∈ dispatched, ∀ e, d.2.2 = some e → namesCall id d.1 e ∧ hasReceipt e) :
    Inv host id program { s with current, ended, dispatched } := by
  refine ⟨h.charted, ?_, h.sound, h.ordered, h.issued, fun k c hc => ?_,
    fun a ha => (hattempts a ha).1, hdispatched⟩
  swap
  · obtain ⟨a, ha, hreaches⟩ := h.origin k c hc
    obtain ⟨b, hb, hcontext, htrace⟩ := hkept a ha
    exact ⟨b, hb, hreaches.mono hcontext htrace⟩
  rcases h.entered with ⟨hnone, hcommitted, hempty⟩ | ⟨record, hrecord⟩
  · refine Or.inl ⟨hnone, hcommitted, List.eq_nil_iff_forall_not_mem.mpr fun a ha => ?_⟩
    obtain ⟨b, hb, -⟩ := (hattempts a ha).2
    rw [hempty] at hb
    cases hb
  · refine Or.inr ⟨record, hrecord.entry, hrecord.fits, hrecord.steps, fun a ha => ?_⟩
    obtain ⟨b, hb, hcontext⟩ := (hattempts a ha).2
    rw [hcontext, hrecord.context b hb]

lemma System.mem_attempts_current {a : Attempt} (h : s.current = some a) : a ∈ s.attempts := by
  simp [System.attempts, h]

/-- The current attempt goes on. -/
lemma Inv.goOn (h : Inv host id program s) {a b : Attempt} (hcurrent : s.current = some a)
    (hb : b.Follows program s.results) (hcontext : b.context = a.context)
    (htrace : a.trace <+: b.trace) : Inv host id program { s with current := some b } := by
  refine h.change (fun c hc => ?_) (fun c hc => ?_) h.dispatched
  · rcases List.mem_cons.mp hc with rfl | hc
    · exact ⟨hb, a, System.mem_attempts_current hcurrent, hcontext⟩
    · have hc : c ∈ s.attempts := List.mem_append_right _ hc
      exact ⟨h.follows c hc, c, hc, rfl⟩
  · have hc : c = a ∨ c ∈ s.ended := by simpa [System.attempts, hcurrent] using hc
    rcases hc with rfl | hc
    · exact ⟨b, List.mem_cons_self, hcontext, htrace⟩
    · exact ⟨c, List.mem_cons_of_mem _ hc, rfl, List.prefix_rfl⟩

lemma Inv.stop (h : Inv host id program s) {a : Attempt} (hcurrent : s.current = some a) :
    Inv host id program { s with current := none, ended := a :: s.ended } := by
  have hsame : (none : Option Attempt).toList ++ a :: s.ended = s.attempts := by
    simp [System.attempts, hcurrent]
  refine h.change (fun c hc => ?_) (fun c hc => ?_) h.dispatched
  · rw [hsame] at hc
    exact ⟨h.follows c hc, c, hc, rfl⟩
  · exact ⟨c, hsame ▸ hc, rfl, List.prefix_rfl⟩

variable {row : TaskCheckpoint}

lemma entryOf_eq {l : LoggedStore} (h : l.store.tasks.get? id.taskId = some row) :
    entryOf id l = entryIn id row := by
  simp [entryOf, h]

/-- The record that an execution reads is its entry, and its steps are those that were committed. -/
lemma Inv.recorded (h : Inv host id program s) {record : Fields} {steps : List Json}
    (hrow : s.log.store.tasks.get? id.taskId = some row)
    (hrecord : recordOf id row = .ok (record, steps)) :
    Entered host id s record ∧ steps = s.steps host := by
  obtain ⟨hentry, hsteps, -⟩ := recordOf_eq_ok.mp hrecord
  rcases h.entered with ⟨hnone, -⟩ | ⟨found, hfound⟩
  · rw [entryOf_eq hrow, hentry] at hnone
    cases hnone
  · obtain rfl := Json.obj.inj (Option.some.inj ((entryOf_eq hrow ▸ hfound.entry).symm.trans hentry))
    exact ⟨hfound, by simpa using hsteps.symm.trans hfound.steps⟩

/-- The entry of a new execution. -/
lemma Inv.start (h : Inv host id program s) {epochMs seed : Int} {wrote : Bool}
    (hentered : transformTaskState id.taskId (initializeRecord id epochMs seed) s.log =
      .ok ((), wrote, l')) : Inv host id program { s with log := l' } := by
  obtain ⟨row, hrow, ⟨-, rfl, -⟩ | ⟨-, patch, m, r, hpatch, hm, hcommit⟩⟩ :=
    transformTaskState_eq_ok hentered
  · exact h
  · obtain ⟨hkeeps, next, hnext, -, hstate⟩ := commit_stateMutation hrow hm hcommit
    obtain ⟨tr, hrun, hcharted, htimeline, -⟩ := h.charted_commit hcommit hkeeps
    obtain ⟨records, hrecords, hpatch⟩ := except_bind_eq_ok.mp hpatch
    split at hpatch
    · obtain ⟨_, -, hpatch⟩ := except_bind_eq_ok.mp hpatch
      simp at hpatch
    · rename_i hnone
      simp only [Except.ok.injEq, Prod.mk.injEq, Option.some.injEq, and_true] at hpatch
      have hnone : entryOf id s.log = none := by
        rw [entryOf_eq hrow, entryIn, hrecords]
        simpa [Except.toOption] using hnone
      have hentry : entryOf id l' = some (.obj (newRecord id epochMs seed)) := by
        rw [entryOf_eq hnext]
        simp [entryIn, recordsOf, hstate, ← hpatch, Except.toOption]
      refine ⟨⟨tr, hrun, hcharted, htimeline⟩, Or.inr ⟨_, hentry, ?_, ?_, ?_⟩, h.sound, h.ordered,
        h.issued, h.origin, h.follows, h.dispatched⟩
      · simp [recordFits, newRecord, isInt, isBool]
      · rcases h.entered with ⟨-, hcommitted, -⟩ | ⟨record, hrecord⟩
        · simp [newRecord, System.steps, hcommitted]
        · rw [hrecord.entry] at hnone
          cases hnone
      · rcases h.entered with ⟨-, -, hempty⟩ | ⟨record, hrecord⟩
        · intro a ha
          have ha : a ∈ s.attempts := ha
          rw [hempty] at ha
          cases ha
        · rw [hrecord.entry] at hnone
          cases hnone

def DigestsDiffer (host : Host) (program : Program) : Prop :=
  ∀ op op' : StateOp, Issued program op → Issued program op' →
    host.digest op.request = host.digest op'.request → op.request = op'.request

/-- An operation that repeats a step is the committed one, and it has the result of it. -/
lemma Inv.replayed (h : Inv host id program s) (hdigest : DigestsDiffer host program) {op : StateOp}
    {index : Nat} {v : Json} (hissued : Issued program op)
    (hrow : s.log.store.tasks.get? id.taskId = some row)
    (hstep : stateStep id host op index (taskHistory id.taskId none s.log.commits) row =
      .ok (none, v)) : s.results[index]? = some (op, v) := by
  obtain ⟨record, steps, step, hrecord, hindex, hreplay⟩ := stateStep_replayed hstep
  obtain ⟨-, rfl⟩ := h.recorded hrow hrecord
  obtain ⟨c, hc, rfl⟩ := Option.map_eq_some_iff.mp (List.getElem?_map .. ▸ hindex)
  obtain ⟨tr, hrun, hcharted, htimeline⟩ := h.charted
  rw [hrun.taskTimeline] at hreplay
  have hmem : c ∈ s.committed := List.mem_of_getElem? hc
  obtain ⟨hsame, hresult⟩ := replayStep_eq_ok hreplay
  obtain rfl := StateOp.request_injective (hdigest op c.op hissued (h.issued c hmem) hsame)
  have hv : v = c.result := by
    obtain ⟨before, -, hbefore, hafter⟩ := (h.sound c hmem).values
    rcases hresult with hany | ⟨past, hpast, hrevision, values, hvalues, hv⟩
    · rw [hbefore, hany before]
    · obtain ⟨t, ht, htask⟩ := htimeline c hmem
      obtain rfl := hcharted.unique hpast ht (by rw [htask, hrevision])
      rw [htask, hafter] at hvalues
      obtain rfl := Except.ok.inj hvalues
      rw [hbefore, hv]
      cases c.op <;> rfl
  rw [System.results, List.getElem?_map, hc, hv]
  rfl

/-- An operation that commits something is sound, and it is the next one of the record. -/
lemma Inv.performed (h : Inv host id program s) {a : Attempt} {op : StateOp}
    {v : Json} {patch : Fields}
    (ha : a ∈ s.attempts) (hissued : a.issues program (.state op))
    (hrow : s.log.store.tasks.get? id.taskId = some row)
    (hstep : stateStep id host op a.replay.stateIndex (taskHistory id.taskId none s.log.commits) row =
      .ok (some patch, v))
    (hm : stateMutation s.log row patch = .ok m) (hcommit : s.log.commit m = .ok (r, l')) :
    ∃ next, l'.store.tasks.get? id.taskId = some next ∧
      a.replay.stateIndex = s.committed.length ∧
      Inv host id program { s with
        log := l', committed := s.committed ++ [⟨op, v, row, next⟩] } := by
  obtain ⟨hkeeps, next, hnext, hrevision, hstate⟩ := commit_stateMutation hrow hm hcommit
  obtain ⟨record, steps, values, hrecord, hindex, hvalues, hv, hafter, hentry⟩ :=
    stateStep_new hstep hstate
  obtain ⟨hentered, rfl⟩ := h.recorded hrow hrecord
  obtain ⟨tr, hrun, hcharted, htimeline, hadded⟩ := h.charted_commit hcommit hkeeps
  have hne : s.log.store.tasks.get? id.taskId ≠ some next := by
    rw [hrow]
    rintro ⟨⟩
    omega
  have hindex : a.replay.stateIndex = s.committed.length := by
    simpa [System.steps] using hindex
  refine ⟨next, hnext, hindex, ?_⟩
  exact {
    charted := by
      refine ⟨tr, hrun, hcharted, fun c hc => ?_⟩
      rcases List.mem_append.mp hc with hc | hc
      · exact htimeline c hc
      · rw [List.mem_singleton.mp hc]
        exact hadded next hnext hne
    entered := by
      refine Or.inr ⟨_, by rw [entryOf_eq hnext, hentry], ?_, ?_, fun a ha => ?_⟩
      · rw [recordFits_set]
        exact hentered.fits
      · simp [System.steps, hrevision]
      · rw [hentered.context a ha, get?_set_of_ne _ (by decide), get?_set_of_ne _ (by decide)]
    sound := by
      intro c hc
      rcases List.mem_append.mp hc with hc | hc
      · exact h.sound c hc
      · rw [List.mem_singleton.mp hc]
        exact ⟨hrevision, values, hvalues, hv, hafter⟩
    ordered := by
      refine List.pairwise_append.mpr ⟨h.ordered, List.pairwise_singleton _ _, fun c hc d hd => ?_⟩
      rw [List.mem_singleton.mp hd]
      obtain ⟨found, hfound, hle⟩ := h.within hc
      obtain rfl := Option.some.inj (hrow.symm.trans hfound)
      simp only [hrevision]
      omega
    issued := by
      intro c hc
      rcases List.mem_append.mp hc with hc | hc
      · exact h.issued c hc
      · rw [List.mem_singleton.mp hc]
        exact ⟨_, _, hissued.2⟩
    origin := by
      intro k c hc
      rcases Nat.lt_or_ge k s.committed.length with hlt | hge
      · rw [List.getElem?_append_left hlt] at hc
        exact h.origin k c hc
      · rw [List.getElem?_append_right hge] at hc
        obtain ⟨hzero, rfl⟩ : k - s.committed.length = 0 ∧ _ = c := by
          simpa [List.getElem?_singleton] using hc
        have hk : k = a.replay.stateIndex := by omega
        exact ⟨a, ha, hk ▸ (h.follows a ha).reaches hissued⟩
    follows := by
      intro a ha
      have hmono := (h.follows a ha).mono [(op, v)]
      simpa [System.results] using hmono
    dispatched := h.dispatched }

/-- A state operation that returns: its result is the committed one at its place. -/
lemma Inv.state (h : Inv host id program s) (hdigest : DigestsDiffer host program) {a : Attempt}
    {op : StateOp} {v : Json} {wrote : Bool} (hcurrent : s.current = some a)
    (hissued : a.issues program (.state op))
    (hperform : perform id host a.replay op s.log = .ok (v, wrote, l')) {s' : System}
    (hs' : s' = { s with log := l', committed := s.committed ++ commitOf id op v wrote s.log l' }) :
    Inv host id program s' ∧ s'.results[a.replay.stateIndex]? = some (op, v) := by
  obtain ⟨-, hperform⟩ := except_seq_eq_ok.mp hperform
  obtain ⟨-, hperform⟩ := except_seq_eq_ok.mp hperform
  obtain ⟨row, hrow, ⟨rfl, rfl, hstep⟩ | ⟨rfl, patch, m, r, hstep, hm, hcommit⟩⟩ :=
    transformTaskState_eq_ok hperform
  · have hsame : s' = s := by
      rw [hs']
      simp [commitOf]
    rw [hsame]
    exact ⟨h, h.replayed hdigest ⟨_, _, hissued.2⟩ hrow hstep⟩
  · obtain ⟨next, hnext, hindex, hinv⟩ :=
      h.performed (System.mem_attempts_current hcurrent) hissued hrow hstep hm hcommit
    have hown : commitOf id op v true s.log l' = [⟨op, v, row, next⟩] := by
      simp [commitOf, hrow, hnext]
    rw [hs', hown]
    refine ⟨hinv, ?_⟩
    simp [System.results, hindex]

lemma receipt_of_child {r : Replay} {call : ChildCall} {effectId : String} {l : LoggedStore}
    {e : EffectRecord} (h : child id r call effectId l = .ok ())
    (he : l.store.effects.get? effectId = some e) : namesCall id call e ∧ hasReceipt e := by
  obtain ⟨-, h⟩ := except_seq_eq_ok.mp h
  rw [he] at h
  obtain ⟨hnames, hreceipt⟩ := except_seq_eq_ok.mp h
  exact ⟨by simpa using hnames, by simpa using hreceipt⟩

/-- A new attempt. -/
lemma Inv.begin (h : Inv host id program s) {epochMs seed : Int} {wrote : Bool} {r : Replay}
    (hidle : s.current = none)
    (hentered : transformTaskState id.taskId (initializeRecord id epochMs seed) s.log =
      .ok ((), wrote, l')) (hread : context id l' = .ok r) :
    Inv host id program { s with log := l', current := some { replay := r } } := by
  have hinv := h.start hentered
  obtain ⟨row, hrow, hread⟩ := except_bind_eq_ok.mp hread
  obtain ⟨⟨record, steps⟩, hrecord, rfl⟩ := except_last_eq_ok.mp hread
  obtain ⟨hentry, -⟩ := hinv.recorded (task_eq_ok.mp (passing_eq_ok.mp hrow)) hrecord
  have hattempts : s.attempts = s.ended := by simp [System.attempts, hidle]
  refine ⟨hinv.charted, Or.inr ⟨record, hentry.entry, hentry.fits, hentry.steps, fun a ha => ?_⟩,
    hinv.sound, hinv.ordered, hinv.issued, fun k c hc => ?_, fun a ha => ?_, hinv.dispatched⟩
  · rcases List.mem_cons.mp ha with rfl | ha
    · rfl
    · exact hentry.context a (List.mem_append_right _ ha)
  · obtain ⟨a, ha, hreaches⟩ := h.origin k c hc
    exact ⟨a, List.mem_cons_of_mem _ (hattempts ▸ ha), hreaches⟩
  · rcases List.mem_cons.mp ha with rfl | ha
    · refine ⟨Nat.zero_le _, rfl, fun k entry hentry => ?_, fun call effectId hrunning => ?_⟩
      · simp at hentry
      · cases hrunning
    · exact h.follows a (hattempts ▸ ha)

lemma Inv.step (hdigest : DigestsDiffer host program) {s s' : System}
    (h : Inv host id program s) (hstep : Step host id program s s') : Inv host id program s' := by
  cases hstep with
  | started idle entered read => exact h.begin idle entered read
  | startCut idle entered => exact h.start entered
  | @state a op v wrote l' current issued performed =>
    obtain ⟨hinv, hresult⟩ := h.state hdigest current issued performed rfl
    have hfollows := (hinv.follows a (System.mem_attempts_current current)).returns issued hresult
    exact hinv.goOn current hfollows rfl (List.prefix_append _ _)
  | @stateCut a op v wrote l' current issued performed =>
    obtain ⟨hinv, -⟩ := h.state hdigest current issued performed rfl
    exact hinv.stop current
  | @stateLost a op v wrote l' message current issued performed =>
    obtain ⟨hinv, -⟩ := h.state hdigest current issued performed rfl
    have hfollows := (hinv.follows a (System.mem_attempts_current current)).raises issued message
    exact hinv.goOn current hfollows (Attempt.context_raises _ _) (List.prefix_append _ _)
  | @stateRaised a op e current issued performed =>
    have hfollows := (h.follows a (System.mem_attempts_current current)).raises issued (e.text host)
    exact h.goOn current hfollows (Attempt.context_raises _ _) (List.prefix_append _ _)
  | @stateRefused a op message current issued =>
    have hfollows := (h.follows a (System.mem_attempts_current current)).raises issued message
    exact h.goOn current hfollows (Attempt.context_raises _ _) (List.prefix_append _ _)
  | @childCalled a call effectId current issued admitted =>
    have hfollows := (h.follows a (System.mem_attempts_current current)).calls issued
    obtain ⟨-, hcontext, htrace, -⟩ := Attempt.sees_frame (a := a) effectId
    have hinv := h.goOn current hfollows hcontext (htrace ▸ List.prefix_rfl)
    refine hinv.change (fun b hb => ⟨hinv.follows b hb, b, hb, rfl⟩)
      (fun b hb => ⟨b, hb, rfl, List.prefix_rfl⟩) fun d hd e he => ?_
    rcases List.mem_append.mp hd with hd | hd
    · exact h.dispatched d hd e he
    · obtain rfl := List.mem_singleton.mp hd
      exact receipt_of_child admitted he
  | @childRaised a call effectId e current issued admitted =>
    have hfollows := ((h.follows a (System.mem_attempts_current current)).sees effectId).raises
      (Attempt.issues_sees effectId issued) (e.text host)
    obtain ⟨-, hcontext, htrace, -⟩ := Attempt.sees_frame (a := a) effectId
    exact h.goOn current hfollows ((Attempt.context_raises _ _).trans hcontext)
      (htrace ▸ List.prefix_append _ _)
  | @childAnswered a call effectId answer invalid current running =>
    obtain ⟨hfollows, hcontext⟩ :=
      (h.follows a (System.mem_attempts_current current)).answered running
    exact h.goOn current hfollows hcontext (List.prefix_append _ _)
  | stopped current => exact h.stop current
  | other committed keeps entry => exact h.commit committed keeps entry

end Codemode

end Codey
