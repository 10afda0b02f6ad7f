import Codey.Codemode.ReplayRuns

/-!
# CodeMode recovers exactly

What holds of all attempts at one execution in every run. The order of the calls among the state
operations is not recorded, and a call is known by its ids: a program that makes another call under
the same ids, or the same calls at another time, is not refused here.
-/

namespace Codey

namespace Codemode

open LoggedStore

/-! ### Courses -/

/-- Two lists that agree wherever they have agreed so far are comparable. -/
lemma prefix_or_prefix {α : Type} {as bs : List α}
    (h : ∀ k a b, as[k]? = some a → bs[k]? = some b → as.take k = bs.take k → a = b) :
    as <+: bs ∨ bs <+: as := by
  induction as generalizing bs with
  | nil => exact Or.inl List.nil_prefix
  | cons a as ih =>
    cases bs with
    | nil => exact Or.inr List.nil_prefix
    | cons b bs =>
      obtain rfl := h 0 a b rfl rfl rfl
      have hrest := ih fun k x y hx hy htake =>
        h (k + 1) x y hx hy (by rw [List.take_succ_cons, List.take_succ_cons, htake])
      exact hrest.imp (List.prefix_cons_inj a).mpr (List.prefix_cons_inj a).mpr

lemma getElem?_filterMap {α β : Type} {f : α → Option β} {as : List α} {k : Nat} {a : α} {b : β}
    (ha : as[k]? = some a) (hb : f a = some b) :
    (as.filterMap f)[((as.take k).filterMap f).length]? = some b := by
  obtain ⟨hlt, rfl⟩ := List.getElem?_eq_some_iff.mp ha
  have hsplit : as.filterMap f = (as.take k).filterMap f ++ (as.drop k).filterMap f := by
    rw [← List.filterMap_append, List.take_append_drop]
  rw [hsplit, List.getElem?_append_right le_rfl, Nat.sub_self, List.drop_eq_getElem_cons hlt,
    List.filterMap_cons_some hb]
  rfl

/-- No operation of the attempt has raised an exception. -/
def Attempt.Quiet (a : Attempt) : Prop := ∀ entry ∈ a.trace, ∃ v, entry.2 = .value v

def Attempt.Agrees (a b : Attempt) : Prop := ∀ call effectId v w,
  (.child call effectId, .value v) ∈ a.trace → (.child call effectId, .value w) ∈ b.trace → v = w

variable {host : Host} {id : Identity} {program : Program} {s : System}

/-- Attempts of one context whose calls are answered alike take the same course. -/
lemma course_of_follows {results : List (StateOp × Json)} {a b : Attempt}
    (ha : a.Follows program results) (hb : b.Follows program results)
    (hcontext : a.context = b.context) (hqa : a.Quiet) (hqb : b.Quiet) (hagrees : a.Agrees b) :
    a.trace <+: b.trace ∨ b.trace <+: a.trace := by
  refine prefix_or_prefix ?_
  rintro k ⟨x, ansx⟩ ⟨y, ansy⟩ hx hy htake
  have hmemx := List.mem_of_getElem? hx
  have hmemy := List.mem_of_getElem? hy
  obtain ⟨v, rfl⟩ := hqa _ hmemx
  obtain ⟨w, rfl⟩ := hqb _ hmemy
  have hsame : x = y := by
    have hissued := ha.issued k _ hx
    rw [htake, hcontext, hb.issued k _ hy] at hissued
    exact (Option.some.inj hissued).symm
  subst hsame
  cases x with
  | child call effectId => rw [hagrees call effectId v w hmemx hmemy]
  | state op =>
    -- both answers stand at the same place among the committed results
    have hcompleted : ∀ {c : Attempt} {u : Json}, c.Follows program results →
        c.trace[k]? = some (.state op, .value u) →
        results[((c.trace.take k).filterMap Attempt.returned).length]? = some (op, u) := by
      intro c u hc hu
      have hplace := getElem?_filterMap (f := Attempt.returned) hu rfl
      rw [← Attempt.completed, hc.completed, List.getElem?_take] at hplace
      split at hplace
      · exact hplace
      · cases hplace
    have hv := hcompleted ha hx
    rw [htake, hcompleted hb hy] at hv
    simp only [Option.some.injEq, Prod.mk.injEq, true_and] at hv
    rw [hv]

/-! ### Refusals -/

lemma Inv.exists_record (h : Inv host id program s) {a : Attempt} (ha : a ∈ s.attempts) :
    ∃ row record, s.log.store.tasks.get? id.taskId = some row ∧
      recordOf id row = .ok (record, s.steps host) ∧ Entered host id s record := by
  rcases h.entered with ⟨-, -, hempty⟩ | ⟨record, hrecord⟩
  · rw [hempty] at ha
    cases ha
  · obtain ⟨row, hrow, hentry⟩ := Option.bind_eq_some_iff.mp hrecord.entry
    exact ⟨row, record, hrow, recordOf_eq_ok.mpr ⟨hentry, hrecord.steps, hrecord.fits⟩, hrecord⟩

/-- A state operation other than the recorded one is refused. -/
lemma Inv.refuses (h : Inv host id program s) (hdigest : DigestsDiffer host program) {a : Attempt}
    (ha : a ∈ s.attempts) (hvalid : a.replay.failure = "") {c : Committed} {op : StateOp}
    (hc : s.committed[a.replay.stateIndex]? = some c) (hissued : Issued program op)
    (hne : op ≠ c.op) (hkey : checkKey op.key = .ok ()) :
    perform id host a.replay op s.log =
      .error (.replay "CodeMode state operation changed during recovery") := by
  obtain ⟨row, record, hrow, hrecord, -⟩ := h.exists_record ha
  have hdiffer : host.digest c.op.request ≠ host.digest op.request := fun heq =>
    hne (StateOp.request_injective (hdigest op c.op hissued
      (h.issued c (List.mem_of_getElem? hc)) heq.symm))
  have hstep : (s.steps host)[a.replay.stateIndex]? = some (stepOf host c.op c.after.revision) := by
    simp [System.steps, hc]
  have hrequest : stepMember (stepOf host c.op c.after.revision) "request" =
      .ok (.str (host.digest c.op.request)) := rfl
  simp only [perform, hvalid, hkey, transformTaskState, passing_eq_ok.mpr (task_eq_ok.mpr hrow),
    stateStep, hrecord, hstep, replayStep, hrequest, bind, Except.bind, require, hdiffer,
    decide_true, decide_false, Bool.false_eq_true, if_true, if_false, Json.str.injEq]

lemma Inv.accepts_iff (h : Inv host id program s) {a : Attempt} (ha : a ∈ s.attempts) :
    assertValid id a.replay s.log = .ok () ↔ a.replay.failure = "" ∧
      a.replay.stateIndex = s.committed.length ∧
      ∀ x, x ∈ a.replay.childrenSeen ↔ x ∈ childrenOf id s.log := by
  obtain ⟨row, record, hrow, hrecord, -⟩ := h.exists_record ha
  have hlength : (s.steps host).length = s.committed.length := by simp [System.steps]
  have hcurrent := passing_eq_ok.mpr (task_eq_ok.mpr hrow)
  unfold assertValid
  constructor
  · intro h
    obtain ⟨hvalid, h⟩ := except_seq_eq_ok.mp h
    obtain ⟨found, hfound, h⟩ := except_bind_eq_ok.mp h
    obtain rfl := Except.ok.inj (hcurrent.symm.trans hfound)
    obtain ⟨found, hfound, h⟩ := except_bind_eq_ok.mp h
    obtain rfl := Except.ok.inj (hrecord.symm.trans hfound)
    simp only [require_eq_ok, Bool.and_eq_true, List.all_eq_true, decide_eq_true_eq, hlength]
      at hvalid h
    exact ⟨hvalid, h.2, fun x => ⟨h.1.1 x, h.1.2 x⟩⟩
  · rintro ⟨hvalid, hindex, hseen⟩
    refine except_seq_eq_ok.mpr ⟨by simpa using hvalid, ?_⟩
    refine except_bind_eq_ok.mpr ⟨row, hcurrent, except_bind_eq_ok.mpr ⟨_, hrecord, ?_⟩⟩
    simp only [require_eq_ok, Bool.and_eq_true, List.all_eq_true, decide_eq_true_eq, hlength]
    exact ⟨⟨fun x hx => (hseen x).mp hx, fun x hx => (hseen x).mpr hx⟩, hindex⟩

/-- A call whose recorded intent is one of another call, or has no receipt, is refused. -/
lemma child_refuses {r : Replay} {call : ChildCall} {effectId : String} {l : LoggedStore}
    {e : EffectRecord} (hvalid : r.failure = "") (he : l.store.effects.get? effectId = some e)
    (hnot : ¬ (namesCall id call e = true ∧ hasReceipt e = true)) :
    ∃ message, child id r call effectId l = .error (.replay message) := by
  simp only [child, hvalid, he, bind, Except.bind, require, decide_true, if_true]
  by_cases hnames : namesCall id call e = true
  · have hreceipt : hasReceipt e = false := by simpa [hnames] using hnot
    simp [hnames, hreceipt]
  · simp [hnames]

/-! ### Every run -/

/-- What holds in every state of a run. -/
structure Recovers (host : Host) (id : Identity) (program : Program) (s : System) : Prop where
  /-- Every attempt has been given the results of the first committed operations, in their order. -/
  replayed : ∀ a ∈ s.attempts, a.completed = s.results.take a.replay.stateIndex ∧
    a.replay.stateIndex ≤ s.committed.length
  /-- Every committed operation has read and changed the values once. -/
  sound : ∀ c ∈ s.committed, c.Sound
  ordered : s.committed.Pairwise fun c d => c.after.revision < d.after.revision
  /-- An operation was committed when an attempt had got as far. -/
  origin : ∀ k c, s.committed[k]? = some c → ∃ a ∈ s.attempts, a.Reaches program k c.op
  /-- The revision of a commit stands for its checkpoint in the timeline. -/
  timeline : ∃ history, taskHistory id.taskId none s.log.commits = .ok history ∧
    ∀ c ∈ s.committed, ∃ t ∈ history, t.task = c.after ∧
      ∀ u ∈ history, u.task.revision = c.after.revision → u = t
  /-- A call that went to the kernel had no recorded intent, or its receipt. -/
  dispatched : ∀ d ∈ s.dispatched, ∀ e, d.2.2 = some e → namesCall id d.1 e ∧ hasReceipt e
  /-- A state operation other than the committed one is refused. -/
  refuses : ∀ a ∈ s.attempts, ∀ c op, a.replay.failure = "" →
    s.committed[a.replay.stateIndex]? = some c → Issued program op → op ≠ c.op →
    checkKey op.key = .ok () → ∃ message, perform id host a.replay op s.log = .error (.replay message)
  /-- A call with a recorded intent of another call, or without a receipt, is refused. -/
  refusesCalls : ∀ a ∈ s.attempts, ∀ call effectId e, a.replay.failure = "" →
    s.log.store.effects.get? effectId = some e →
    ¬ (namesCall id call e = true ∧ hasReceipt e = true) →
    ∃ message, child id a.replay call effectId s.log = .error (.replay message)
  accepts : ∀ a ∈ s.attempts, assertValid id a.replay s.log = .ok () ↔ a.replay.failure = "" ∧
    a.replay.stateIndex = s.committed.length ∧
    ∀ x, x ∈ a.replay.childrenSeen ↔ x ∈ childrenOf id s.log
  /-- Attempts whose calls are answered alike take the same course. -/
  course : ∀ a ∈ s.attempts, ∀ b ∈ s.attempts, a.Quiet → b.Quiet → a.Agrees b →
    a.trace <+: b.trace ∨ b.trace <+: a.trace

lemma Inv.recovers (h : Inv host id program s) (hdigest : DigestsDiffer host program) :
    Recovers host id program s where
  replayed := by
    intro a ha
    have hfollows := h.follows a ha
    exact ⟨hfollows.completed, by simpa [System.results] using hfollows.index⟩
  sound := h.sound
  ordered := h.ordered
  origin := h.origin
  timeline := by
    obtain ⟨tr, hrun, hcharted, htimeline⟩ := h.charted
    refine ⟨_, hrun.taskTimeline, fun c hc => ?_⟩
    obtain ⟨t, ht, htask⟩ := htimeline c hc
    exact ⟨t, ht, htask, fun u hu hrevision => hcharted.unique hu ht (by rw [hrevision, htask])⟩
  dispatched := h.dispatched
  refuses := fun a ha c op hvalid hc hissued hne hkey =>
    ⟨_, h.refuses hdigest ha hvalid hc hissued hne hkey⟩
  refusesCalls := fun a _ call effectId e hvalid he hnot => child_refuses hvalid he hnot
  accepts := fun a ha => h.accepts_iff ha
  course := by
    intro a ha b hb
    rcases h.entered with ⟨-, -, hempty⟩ | ⟨record, hrecord⟩
    · rw [hempty] at ha
      cases ha
    · exact course_of_follows (h.follows a ha) (h.follows b hb)
        ((hrecord.context a ha).trans (hrecord.context b hb).symm)

theorem recovers_exactly {s₀ s : System} (hinitial : Initial id s₀)
    (hdigest : DigestsDiffer host program)
    (hrun : Relation.ReflTransGen (Step host id program) s₀ s) : Recovers host id program s := by
  have hinv : Inv host id program s := by
    induction hrun with
    | refl => exact hinitial.inv
    | tail _ hstep ih => exact ih.step hdigest hstep
  exact hinv.recovers hdigest

/-! ### A short program -/

def demoHost : Host where
  digest request := if request = (StateOp.load "key").request then "load" else "store"
  encodedSize _ := 1
  errorText _ := "error"

def demoIdentity : Identity where
  taskId := "task"
  executionId := "execution"
  fingerprint := "fingerprint"
  parentEffectId := "parent"

def demoProgram : Program := fun _ answers =>
  match answers with
  | [] => some (.state (.store "key" (.int 1)))
  | [_] => some (.state (.load "key"))
  | _ => none

lemma demoProgram_issued {op : StateOp} (h : Issued demoProgram op) :
    op = .store "key" (.int 1) ∨ op = .load "key" := by
  obtain ⟨context, answers, h⟩ := h
  unfold demoProgram at h
  split at h <;> simp_all

lemma demo_digestsDiffer : DigestsDiffer demoHost demoProgram := by
  intro op op' hop hop' hdigest
  rcases demoProgram_issued hop with rfl | rfl <;> rcases demoProgram_issued hop' with rfl | rfl
  · rfl
  · revert hdigest
    decide
  · revert hdigest
    decide
  · rfl

def leaves {α : Type} : Except Failure (α × Bool × LoggedStore) → LoggedStore
  | .ok (_, _, l) => l
  | .error _ => {}

lemma eq_ok_of_leaves {α : Type} {x : Except Failure (α × Bool × LoggedStore)} {a : α} {wrote : Bool}
    (h : x.toOption.map (fun found => (found.1, found.2.1)) = some (a, wrote)) :
    x = .ok (a, wrote, leaves x) := by
  cases x with
  | error e => cases h
  | ok found =>
    obtain ⟨rfl, rfl⟩ := Prod.mk.inj (Option.some.inj h)
    rfl

lemma transformTaskState_unwritten {α : Type} {a : α} {taskId : String}
    {transform : TaskCheckpoint → Except Failure (Option Fields × α)} {l : LoggedStore}
    (h : (transformTaskState taskId transform l).toOption.map (fun found => (found.1, found.2.1)) =
      some (a, false)) : transformTaskState taskId transform l = .ok (a, false, l) := by
  have hleaves := eq_ok_of_leaves h
  obtain ⟨row, -, ⟨-, hsame, -⟩ | ⟨hwrote, -⟩⟩ := transformTaskState_eq_ok hleaves
  · rwa [hsame] at hleaves
  · cases hwrote

lemma perform_unwritten {r : Replay} {op : StateOp} {v : Json} {l : LoggedStore}
    (h : (perform id host r op l).toOption.map (fun found => (found.1, found.2.1)) =
      some (v, false)) : perform id host r op l = .ok (v, false, l) := by
  have hleaves := eq_ok_of_leaves h
  have htransform := (except_seq_eq_ok.mp (except_seq_eq_ok.mp hleaves).2).2
  obtain ⟨row, -, ⟨-, hsame, -⟩ | ⟨hwrote, -⟩⟩ := transformTaskState_eq_ok htransform
  · rwa [hsame] at hleaves
  · cases hwrote

def demoAdmitted : LoggedStore := ((commitAll [sampleAdmission] {}).toOption).getD {}

/-- The entry of the execution. -/
def demoEntered : LoggedStore :=
  leaves (transformTaskState "task" (initializeRecord demoIdentity 0 0) demoAdmitted)

def demoReplay : Replay where
  epochMs := .int 0
  seed := .int 0

/-- The first attempt ends after its commit. -/
def demoStored : LoggedStore :=
  leaves (perform demoIdentity demoHost demoReplay (.store "key" (.int 1)) demoEntered)

/-- The second attempt goes on. -/
def demoLoaded : LoggedStore :=
  leaves (perform demoIdentity demoHost { demoReplay with stateIndex := 1 } (.load "key") demoStored)

theorem recovers_exactly_demo : ∃ s : System, s.ended.length = 1 ∧
    s.committed.map (·.op) = [.store "key" (.int 1), .load "key"] ∧
    Recovers demoHost demoIdentity demoProgram s := by
  have hadmitted : commitAll [sampleAdmission] {} = .ok demoAdmitted := by
    have hok : (commitAll [sampleAdmission] {}).isOk = true := by decide +kernel
    unfold demoAdmitted
    cases h : commitAll [sampleAdmission] {} with
    | error e =>
      rw [h] at hok
      cases hok
    | ok l => rfl
  obtain ⟨tr, hrun, htr⟩ := Run.nil.commitAll hadmitted
  have hinitial : Initial demoIdentity { log := demoAdmitted } := by
    refine ⟨⟨tr, hrun, fun step hstep hdel => ?_⟩, by decide +kernel, rfl⟩
    have hmem : step.2 ∈ [sampleAdmission] := by
      have := List.mem_map_of_mem (f := Prod.snd) hstep
      rwa [htr] at this
    rw [List.mem_singleton.mp hmem] at hdel
    cases hdel
  have hentered : transformTaskState "task" (initializeRecord demoIdentity 0 0) demoAdmitted =
      .ok ((), true, demoEntered) := eq_ok_of_leaves (by decide +kernel)
  have hread : context demoIdentity demoEntered = .ok demoReplay := by decide +kernel
  have hstored : perform demoIdentity demoHost demoReplay (.store "key" (.int 1)) demoEntered =
      .ok (.null, true, demoStored) := eq_ok_of_leaves (by decide +kernel)
  have hagain : transformTaskState "task" (initializeRecord demoIdentity 1 1) demoStored =
      .ok ((), false, demoStored) := transformTaskState_unwritten (by decide +kernel)
  have hreread : context demoIdentity demoStored = .ok demoReplay := by decide +kernel
  have hreplayed : perform demoIdentity demoHost demoReplay (.store "key" (.int 1)) demoStored =
      .ok (.null, false, demoStored) := perform_unwritten (by decide +kernel)
  have hloaded : perform demoIdentity demoHost { demoReplay with stateIndex := 1 } (.load "key")
      demoStored = .ok (.int 1, true, demoLoaded) := eq_ok_of_leaves (by decide +kernel)
  -- the first attempt stores and its process ends, the second repeats that and goes on
  refine ⟨_, ?_, ?_, recovers_exactly hinitial demo_digestsDiffer (Relation.ReflTransGen.refl
    |>.tail (.started rfl hentered hread)
    |>.tail (.stateCut rfl ⟨rfl, rfl⟩ hstored)
    |>.tail (.started rfl hagain hreread)
    |>.tail (.state rfl ⟨rfl, rfl⟩ hreplayed)
    |>.tail (.state rfl ⟨rfl, rfl⟩ hloaded))⟩
  · rfl
  · decide +kernel

/-! ### What is not recorded -/

/-- The recorded call of a tool. -/
def demoCall : EffectRecord where
  effectId := "effect"
  taskId := "task"
  category := "tool"
  replayClass := "safe"
  argsDigest := "digest"
  status := "ok"
  intent := [("call_id", .str "call"), ("name", .str "read_file"), ("parent_effect_id", .str "parent")]
  settlement := some []

/-- An execution has loaded a value, and then it has called a tool. -/
def demoCalled : Except Failure LoggedStore := do
  let (_, _, l) ← perform demoIdentity demoHost demoReplay (.load "key") demoEntered
  let row ← passing (l.store.task "task")
  let (_, revision) ← passing (l.store.head row.conversationId)
  let pending ← passing (EffectRecord.make { demoCall.toEffectData with
    status := "pending", settlement := none })
  let next ← passing (TaskCheckpoint.make (withPending row ["effect"]))
  let intent ← passing (DurableMutation.make {
    conversationId := row.conversationId, expectedRevision := revision, task := some next
    effects := [pending], expectedAttemptToken := some "" })
  let (_, l) ← passing (l.commit intent)
  let next ← passing (TaskCheckpoint.make (withPending next []))
  let settlement ← passing (DurableMutation.make {
    conversationId := row.conversationId, expectedRevision := revision, task := some next
    effect := some demoCall, expectedEffectStatus := some "pending"
    expectedAttemptToken := some "" })
  let (_, l) ← passing (l.commit settlement)
  .ok l

/-- A call of another tool under the same ids. -/
def demoOther : ChildCall := ⟨"edit", [("path", .str "notes.md")], "call"⟩

/-- The recorded execution loads first. Another one that calls another tool first and then loads is
not refused, and it is accepted. -/
theorem order_not_recorded : ∃ l, demoCalled = .ok l ∧
    (l.store.effects.get? "effect" = some demoCall ∧
      Fields.get? demoCall.intent "name" ≠ some (.str demoOther.name)) ∧
    child demoIdentity demoReplay demoOther "effect" l = .ok () ∧
    perform demoIdentity demoHost { demoReplay with childrenSeen := ["effect"] } (.load "key") l =
      .ok (.null, false, l) ∧
    assertValid demoIdentity { demoReplay with childrenSeen := ["effect"], stateIndex := 1 } l =
      .ok () := by
  have hcalls : (demoCalled.toOption.map fun l => (l.store.effects.get? "effect",
      child demoIdentity demoReplay demoOther "effect" l)) = some (some demoCall, .ok ()) := by
    decide +kernel
  have hends : (demoCalled.toOption.map fun l =>
      ((perform demoIdentity demoHost { demoReplay with childrenSeen := ["effect"] } (.load "key")
        l).toOption.map fun found => (found.1, found.2.1),
      assertValid demoIdentity { demoReplay with childrenSeen := ["effect"], stateIndex := 1 } l)) =
      some (some (.null, false), .ok ()) := by decide +kernel
  cases hcalled : demoCalled with
  | error e =>
    rw [hcalled] at hcalls
    cases hcalls
  | ok l =>
    rw [hcalled] at hcalls hends
    simp only [Except.toOption, Option.map_some, Option.some.injEq, Prod.mk.injEq] at hcalls hends
    exact ⟨l, rfl, ⟨hcalls.1, by decide⟩, hcalls.2, perform_unwritten hends.1, hends.2⟩

end Codemode

end Codey
