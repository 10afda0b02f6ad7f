import Codey.Durable.Reducer
import Codey.Durable.SqliteCommit
import Codey.Lib.Prog

/-!
# Durable sessions

A session is one process's handle on the shared store. Each of its operations is a program: every
store method it calls is one transaction, hence one atomic step, and sessions of other processes
may commit between two of them. The world is the store and the sessions that a storage failure has
sealed.
-/

namespace Codey

/-- What one caller of a session brings along: the session's owner id, its process, the attempt
that its worker is bound to, which processes it can see alive, its recursion limit, and the digest
of a workflow position. -/
structure Session where
  ownerId : String
  processId : Nat
  binding : Option (String × String) := none
  alive : Nat → Bool := fun _ => true
  depth : Nat := 1000
  digest : Json → String := fun _ => "digest"

/-- The store and the sessions that may no longer write to it. -/
structure World where
  store : SqliteStore
  sealed : List String := []

/-- A session operation. -/
abbrev Op (α : Type) := Prog World Error α

namespace Session

def view {α : Type} (f : SqliteStore → Except Error α) : Op α := Prog.readE fun w => f w.store

/-- One read transaction that does not raise. -/
def look {α : Type} (f : SqliteStore → α) : Op α := view fun s => .ok (f s)

/-- Go on when the condition holds, raise otherwise. -/
def ensure (cond : Bool) (e : Error) : Op Unit := Prog.ofExcept (require cond e)

variable (c : Session)

def ensureUsable : Op Unit :=
  Prog.readE fun w => require (!w.sealed.contains c.ownerId)
    (.sessionSealed "durable session is sealed after a storage failure; reopen it")

lemma run_view {α : Type} (f : SqliteStore → Except Error α) (w : World) :
    (view f).run w = (f w.store, w) := Prog.run_readE _ w

lemma run_look {α : Type} (f : SqliteStore → α) (w : World) :
    (look f).run w = (.ok (f w.store), w) := run_view _ w

lemma run_ensureUsable {c : Session} {w : World} (h : w.sealed.contains c.ownerId = false) :
    c.ensureUsable.run w = (.ok (), w) := by
  rw [ensureUsable, Prog.run_readE, h]
  rfl

/-- The world after a commit was tried: a rejected mutation leaves it as it was, any other failure
seals the session. -/
def afterCommit (m : DurableMutation) (w : World) : World :=
  match w.store.commit m with
  | .ok (_, s) => { w with store := s }
  | .error e => if e.rejection then w else { w with sealed := c.ownerId :: w.sealed }

/-- One write transaction. -/
def storeCommit (m : DurableMutation) : Op CommitResult :=
  .step (c.afterCommit m) fun w => match w.store.commit m with
    | .ok (r, _) => .ret r
    | .error e => .throw e

/-- A transaction that succeeds is a commit of the store. -/
lemma run_storeCommit_eq_ok {c : Session} {m : DurableMutation} {w w' : World} {r : CommitResult}
    (h : (c.storeCommit m).run w = (.ok r, w')) :
    w.store.commit m = .ok (r, w'.store) ∧ w'.sealed = w.sealed := by
  rw [storeCommit, Prog.run_step] at h
  unfold afterCommit at h
  cases hcommit : w.store.commit m with
  | error e => simp [hcommit] at h
  | ok x =>
    simp only [hcommit, Prog.run_ret, Prod.mk.injEq, Except.ok.injEq] at h
    obtain ⟨rfl, rfl⟩ := h
    exact ⟨rfl, rfl⟩

/-- `_materialize_approval`. -/
def materialize (m : DurableMutation) : Op DurableMutation :=
  match m.approval with
  | none => pure m
  | some approval => do
    let current ← view (·.task approval.taskId)
    Prog.ofExcept (materializeApproval m approval current)

/-- The attempt token that the session expects of a stored checkpoint. -/
def expectedToken (current : TaskCheckpoint) : String :=
  if current.phase.terminal && current.state.attemptToken = "" then ""
  else match c.binding with
    | some (taskId, token) =>
      if taskId = current.taskId then token
      else if current.state.attemptOwner = c.ownerId then current.state.attemptToken else ""
    | none => if current.state.attemptOwner = c.ownerId then current.state.attemptToken else ""

def withToken (m : DurableMutation) (token : String) : DurableMutation :=
  ⟨{ m.toMutationData with expectedAttemptToken := some token }, m.valid⟩

/-- Fill in the attempt fence of a mutation that carries none. -/
def fence (m : DurableMutation) : Op DurableMutation :=
  match m.task, m.expectedAttemptToken with
  | some t, none => do
    let current ← look (·.tasks.get? t.taskId)
    match current with
    | none => pure m
    | some current => pure (withToken m (c.expectedToken current))
  | _, _ => pure m

def commit (m : DurableMutation) : Op CommitResult := do
  c.ensureUsable
  let m ← materialize m
  let m ← c.fence m
  c.storeCommit m

def commitData (m : MutationData) : Op CommitResult := do
  let m ← Prog.ofExcept (DurableMutation.make m)
  c.commit m

/-- Commit the next checkpoint of a task alone, under the given attempt fence. -/
def commitTask (next : CheckpointData) (expectedAttemptToken : Option String) :
    Op CommitResult := do
  let next ← Prog.ofExcept (TaskCheckpoint.make next)
  let (_, revision) ← view (·.head next.conversationId)
  c.commitData {
    conversationId := next.conversationId, expectedRevision := revision, task := some next
    expectedAttemptToken }

end Session

/-- Clear volatile scheduler ownership while preserving logical state. -/
def releaseAttemptState (state : Fields) : Fields :=
  state.merge [("attempt_token", .str ""), ("attempt_owner", .str ""),
    ("attempt_process_id", .int 0)]

end Codey
