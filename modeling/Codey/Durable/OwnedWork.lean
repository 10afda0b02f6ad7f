import Codey.Durable.Calls
import Codey.Lib.Acyclic

/-!
# Owners end last

A task is completed or cancelled after the tasks below it in the ownership tree: the operations look
at the tree before they close a task, apart from two that close a cancelled task at once, and a task
is admitted under an owner whether or not the owner is still open.
-/

namespace Codey

open Relation

variable {s s' : SqliteStore} {m : DurableMutation} {t : TaskCheckpoint} {a b id : String}

/-! ### Ownership -/

/-- `b` is a task that `a` owns. -/
def Owns (s : SqliteStore) (a b : String) : Prop :=
  ∃ t, s.tasks.get? b = some t ∧ t.state.ownerTaskId = some a

def Ended (s : SqliteStore) (id : String) : Prop :=
  ∀ t, s.tasks.get? id = some t → t.status.terminal = true

/-- Everything below a task in the ownership tree has ended. -/
def WorkEnded (s : SqliteStore) (id : String) : Prop := ∀ b, TransGen (Owns s) id b → Ended s b

/-- The task has ended other than by failing. -/
def TaskStatus.Closed (status : TaskStatus) : Prop := status = .completed ∨ status = .cancelled

def OwnersLast (s : SqliteStore) : Prop :=
  ∀ id t, s.tasks.get? id = some t → t.status.Closed → WorkEnded s id

def OpenAbove (s : SqliteStore) (id : String) : Prop :=
  ∀ a t, ReflTransGen (Owns s) a id → s.tasks.get? a = some t → ¬ t.status.Closed

/-- What is invariant: owners end last, every task says whether it has an owner, owners are known
and listed, and no task is below itself. -/
structure OwnedWork (s : SqliteStore) : Prop where
  last : OwnersLast s
  named : ∀ b t, s.tasks.get? b = some t → (t.state.get? "owner_task_id").isSome = true
  known : ∀ a b, Owns s a b → (s.tasks.get? a).isSome = true
  listed : ∀ a b, Owns s a b → (a, b) ∈ s.owners
  acyclic : Acyclic (Owns s)

/-- A look at the tree of one store that finds no live task below `id` is right. -/
lemma Drained.workEnded (hs : OwnedWork s) (h : Drained (Seen Eq) s id) : WorkEnded s id := by
  obtain ⟨V, hid, hchildren, hended⟩ := h
  have hseen : ∀ {x : SqliteStore}, Seen Eq x s → x = s := by
    rintro x ⟨w, w', rfl, hx, hs⟩
    exact hx.symm.trans hs
  have hclosed : ∀ x y, V x → Owns s x y → V y := by
    rintro x y hx ⟨t, ht, howner⟩
    obtain ⟨s₀, hs₀, hall⟩ := hchildren x hx
    obtain rfl := hseen hs₀
    obtain rfl : t.taskId = y := Table.key_of_get? (t := s₀.tasks) ht
    exact hall t (List.mem_filter.mpr ⟨Table.mem_rows_iff.mpr ht,
      by simpa using hs.listed x _ ⟨t, ht, howner⟩⟩)
  intro b hb t ht
  have hV : V b := by
    clear ht
    induction hb with
    | single h => exact hclosed _ _ hid h
    | tail _ h ih => exact hclosed _ _ ih h
  rcases hended b hV with rfl | ⟨s₀, row, hs₀, hrow, hterminal⟩
  · exact absurd hb (hs.acyclic b)
  · obtain rfl := hseen hs₀
    obtain rfl := Option.some.inj (hrow.symm.trans ht)
    exact hterminal

/-! ### Revised rows -/

lemma Json.str?_of_pyEq {x y : Json} (h : x.pyEq y = true) : y.str? = x.str? := by
  cases x <;> cases y <;> simp_all [Json.pyEq, Json.str?, Json.number?]

/-- The owner of an admitted task is never replaced. -/
lemma Checked.owner {row : TaskCheckpoint} {expected : Option String} (h : Checked row t expected)
    (hnamed : (row.state.get? "owner_task_id").isSome = true) :
    t.state.ownerTaskId = row.state.ownerTaskId ∧
      (t.state.get? "owner_task_id").isSome = true := by
  obtain ⟨before, hbefore⟩ := Option.isSome_iff_exists.mp hnamed
  have hkey := List.all_eq_true.mp h.frozen "owner_task_id" (by decide)
  rw [hbefore] at hkey
  obtain ⟨after, hafter, heq⟩ := (Option.any_eq_true _ _).mp hkey
  refine ⟨?_, by simp [hafter]⟩
  simp [Fields.ownerTaskId, Fields.name?, hbefore, hafter, Json.str?_of_pyEq heq]

/-- A written row is the next revision of a stored one, and is closed only when the work below it
has ended. -/
def RevisesOpen (s : SqliteStore) (t : TaskCheckpoint) : Prop :=
  ∃ row expected, s.tasks.get? t.taskId = some row ∧ Checked row t expected ∧
    (t.status.Closed → row.status = t.status ∨ WorkEnded s t.taskId)

lemma SqliteStore.Accepted.owns_iff (h : Accepted s m s') (hs : OwnedWork s)
    (hrows : ∀ t ∈ m.allTasks, RevisesOpen s t) : Owns s' a b ↔ Owns s a b := by
  unfold Owns
  rcases h.get?_tasks b with ⟨t, ht, rfl, hget⟩ | ⟨-, hget⟩
  · obtain ⟨row, _, hrow, hchecked, -⟩ := hrows t ht
    have howner := (hchecked.owner (hs.named _ _ hrow)).1
    simp [hget, hrow, howner]
  · rw [hget]

lemma mem_foldl_putOwner {ts : List TaskCheckpoint} {owners : List (String × String)}
    (hmem : (a, b) ∈ owners)
    (hts : ∀ t ∈ ts, t.taskId = b → t.state.ownerTaskId = some a) :
    (a, b) ∈ ts.foldl SqliteStore.putOwner owners := by
  induction ts generalizing owners with
  | nil => exact hmem
  | cons t ts ih =>
    refine ih ?_ fun t' ht' => hts t' (List.mem_cons_of_mem _ ht')
    by_cases hid : t.taskId = b
    · simp [SqliteStore.putOwner, hts t List.mem_cons_self hid, hid]
    · simp [SqliteStore.putOwner, hmem, Ne.symm hid]

lemma Ended.evolves (h : SqliteStore.Accepted s m s')
    (hrows : ∀ t ∈ m.allTasks, RevisesOpen s t) (hb : Ended s b) : Ended s' b := by
  intro t ht
  rcases h.get?_tasks b with ⟨t', hmem, rfl, hget⟩ | ⟨-, hget⟩
  · obtain rfl := Option.some.inj (hget.symm.trans ht)
    obtain ⟨row, _, hrow, hchecked, -⟩ := hrows t' hmem
    by_contra hlive
    have := hchecked.live (by simpa using hlive)
    rw [hb row hrow] at this
    cases this
  · exact hb t (by rw [← hget, ht])

/-- A commit of revisions keeps the work below a task ended. -/
lemma SqliteStore.Accepted.ownedWork_revised (h : Accepted s m s') (hs : OwnedWork s)
    (hrows : ∀ t ∈ m.allTasks, RevisesOpen s t) :
    OwnedWork s' ∧ ∀ id, WorkEnded s id → WorkEnded s' id := by
  have howns : Owns s' = Owns s := by
    funext a b
    exact propext (h.owns_iff hs hrows)
  have hwork : ∀ id, WorkEnded s id → WorkEnded s' id := by
    intro id hid b hb
    rw [howns] at hb
    exact (hid b hb).evolves h hrows
  refine ⟨⟨fun id t ht hclosed => ?_, fun b t ht => ?_, fun a b hab => ?_, fun a b hab => ?_,
    howns ▸ hs.acyclic⟩, hwork⟩
  · rcases h.get?_tasks id with ⟨t', hmem, rfl, hget⟩ | ⟨-, hget⟩
    · obtain rfl := Option.some.inj (hget.symm.trans ht)
      obtain ⟨row, _, hrow, -, hopen⟩ := hrows t' hmem
      rcases hopen hclosed with hsame | hended
      · exact hwork _ (hs.last _ row hrow (hsame ▸ hclosed))
      · exact hwork _ hended
    · exact hwork _ (hs.last id t (by rw [← hget, ht]) hclosed)
  · rcases h.get?_tasks b with ⟨t', hmem, rfl, hget⟩ | ⟨-, hget⟩
    · obtain rfl := Option.some.inj (hget.symm.trans ht)
      obtain ⟨row, _, hrow, hchecked, -⟩ := hrows t' hmem
      exact (hchecked.owner (hs.named _ _ hrow)).2
    · exact hs.named b t (by rw [← hget, ht])
  · rw [howns] at hab
    obtain ⟨row, hrow⟩ := Option.isSome_iff_exists.mp (hs.known a b hab)
    obtain ⟨row', hrow', -⟩ := h.evolves _ _ hrow
    simp [hrow']
  · rw [howns] at hab
    rw [h.owners_eq]
    refine mem_foldl_putOwner (hs.listed a b hab) fun t ht hid => ?_
    obtain ⟨row, _, hrow, hchecked, -⟩ := hrows t ht
    obtain ⟨row', hrow', howner⟩ := hab
    subst hid
    obtain rfl := Option.some.inj (hrow.symm.trans hrow')
    exact (hchecked.owner (hs.named _ _ hrow)).1.trans howner

/-- A new task under an open owner, if it has one. -/
structure AdmitsOpen (s : SqliteStore) (t : TaskCheckpoint) : Prop where
  fresh : s.tasks.get? t.taskId = none
  status : ¬ t.status.Closed
  named : (t.state.get? "owner_task_id").isSome = true
  known : ∀ o, t.state.ownerTaskId = some o → (s.tasks.get? o).isSome = true
  above : ∀ o, t.state.ownerTaskId = some o → OpenAbove s o

lemma SqliteStore.Accepted.ownedWork_admitted (h : Accepted s m s') (hs : OwnedWork s)
    (htask : m.allTasks = [t]) (ht : AdmitsOpen s t) : OwnedWork s' := by
  have hget : ∀ id, id ≠ t.taskId → s'.tasks.get? id = s.tasks.get? id := by
    intro id hid
    rcases h.get?_tasks id with ⟨t', hmem, heq, -⟩ | ⟨-, hget⟩
    · rw [htask, List.mem_singleton] at hmem
      exact absurd (hmem ▸ heq).symm hid
    · exact hget
  have hnew : s'.tasks.get? t.taskId = some t := by
    rcases h.get?_tasks t.taskId with ⟨t', hmem, -, hget⟩ | ⟨hne, -⟩
    · rw [htask, List.mem_singleton] at hmem
      rwa [hmem] at hget
    · exact absurd rfl (hne t (by simp [htask]))
  have hother : ∀ x y, y ≠ t.taskId → Owns s' x y → Owns s x y := by
    rintro x y hy ⟨row, hrow, howner⟩
    exact ⟨row, (hget y hy).symm.trans hrow, howner⟩
  have hunder : ∀ x, Owns s' x t.taskId → t.state.ownerTaskId = some x := by
    rintro x ⟨row, hrow, howner⟩
    rwa [Option.some.inj (hnew.symm.trans hrow)]
  have hknown : ∀ x y, Owns s' x y → (s.tasks.get? x).isSome = true := by
    intro x y hxy
    by_cases hy : y = t.taskId
    · exact ht.known x (hunder x (hy ▸ hxy))
    · exact hs.known x y (hother x y hy hxy)
  have hout : ∀ x, ¬ Owns s' t.taskId x := fun x hx => by simpa [ht.fresh] using hknown _ _ hx
  refine ⟨fun id row hrow hclosed b hb row' hrow' => ?_, fun b row hrow => ?_, fun a b hab => ?_,
    fun a b hab => ?_, fun id hid => ?_⟩
  · have hid : id ≠ t.taskId := by
      rintro rfl
      exact ht.status (Option.some.inj (hnew.symm.trans hrow) ▸ hclosed)
    rw [hget id hid] at hrow
    rcases transGen_added hout hother hb with ⟨hold, hne⟩ | ⟨rfl, z, hz, hpath⟩
    · exact hs.last id row hrow hclosed b hold row' ((hget b hne).symm.trans hrow')
    · exact absurd hclosed (ht.above z (hunder z hz) id row hpath hrow)
  · by_cases hb : b = t.taskId
    · rw [hb] at hrow
      rw [← Option.some.inj (hnew.symm.trans hrow)]
      exact ht.named
    · exact hs.named b row ((hget b hb).symm.trans hrow)
  · obtain ⟨row, hrow⟩ := Option.isSome_iff_exists.mp (hknown a b hab)
    obtain ⟨row', hrow', -⟩ := h.evolves _ _ hrow
    simp [hrow']
  · rw [h.owners_eq, htask]
    by_cases hb : b = t.taskId
    · simp [SqliteStore.putOwner, hunder a (hb ▸ hab), hb]
    · refine mem_foldl_putOwner (hs.listed a b (hother a b hb hab)) fun t' ht' hid => ?_
      rw [List.mem_singleton.mp ht'] at hid
      exact absurd hid.symm hb
  · rcases transGen_added hout hother hid with ⟨hold, -⟩ | ⟨rfl, -⟩
    · exact hs.acyclic id hold
    · obtain ⟨x, hx, -⟩ := TransGen.head'_iff.mp hid
      exact hout x hx

/-! ### The commits of a call -/

/-- The terms of a call that is made in the store `s₀` and places no inputs. -/
def ownTerms (s₀ : SqliteStore) (admits : Admission → Prop) : Terms where
  claims := True
  since := Evolves
  caller _ := True
  updates _ := True
  step _ a := a.phase = .completed ∨ ¬ (a.taskStatus.getD (taskStatusForPhase a.phase)).Closed
  parks _ _ _ := True
  admits := admits
  drained now id := OwnedWork now → WorkEnded now id
  early base := WorkEnded s₀ base.taskId
  places := False

section Commits

variable {s₀ now : SqliteStore} {admits : Admission → Prop}

/-- A change closes a task after a look at the work below it, or without one. -/
lemma Change.closed {base : TaskCheckpoint} {phase : Phase} {state : Fields} {status : TaskStatus}
    {intents settled : List EffectRecord}
    (h : Change (ownTerms s₀ admits) now base phase state status intents settled)
    (hclosed : status.Closed) :
    base.status = status ∨ (OwnedWork now → WorkEnded now base.taskId) ∨
      WorkEnded s₀ base.taskId := by
  have hopen : ∀ {x : TaskStatus}, x.Closed → x ≠ .running ∧ x ≠ .pending ∧ x ≠ .waiting ∧
      x ≠ .completing ∧ x ≠ .failed := by
    rintro x (rfl | rfl) <;> decide
  obtain ⟨hrunning, hpending, hwaiting, hcompleting, hfailed⟩ := hopen hclosed
  cases h with
  | claim => exact absurd rfl hrunning
  | release => exact absurd rfl hpending
  | park w =>
    split at hpending
    · exact absurd rfl hpending
    · simp_all
  | hold patch reason _ _ hstatus =>
    rcases hstatus with rfl | rfl
    · unfold Session.heldStatus at hrunning hwaiting hcompleting
      split at hrunning <;> simp_all
    · split at hrunning <;> simp_all
  | cancel state _ hended => exact Or.inr hended
  | fail => exact absurd rfl hfailed
  | advance c a hstep _ hcompleted =>
    exact Or.inr (Or.inl (hcompleted (hstep.resolve_right fun h => h hclosed)))
  | update => exact Or.inl rfl
  | intents => exact Or.inl rfl
  | settle => exact Or.inl rfl
  | approval settled next resume id _ =>
    split at hpending
    · exact absurd rfl hpending
    · rename_i hresume
      simp [hresume]
  | answer question answer entryId revision _ =>
    split at hpending
    · exact absurd rfl hpending
    · rename_i hparked
      simp [hparked]
  | runtime => exact Or.inl rfl

lemma Site.noUpdates {m : MutationData} (h : Site (ownTerms s₀ admits) now m) :
    m.taskUpdates = [] := by
  cases h with
  | revise _ _ _ _ _ updates =>
    exact List.eq_nil_iff_forall_not_mem.mpr fun t ht => (updates t ht).1
  | enter _ _ _ _ updates => exact updates

/-- The commit of a call made in `s₀` keeps owners last, and the work ended that had ended then. -/
lemma Site.ownedWork {r : CommitResult} (hsite : Site (ownTerms s₀ admits) s m.toMutationData)
    (hcommit : s.commit m = .ok (r, s')) (hs : OwnedWork s)
    (hwork : ∀ id, WorkEnded s₀ id → WorkEnded s id)
    (hadmits : ∀ a o, admits a → a.ownerTaskId = some o → OpenAbove s o) :
    OwnedWork s' ∧ ((∀ a, ¬ admits a) → ∀ id, WorkEnded s₀ id → WorkEnded s' id) := by
  rcases hsite.wrote (fun _ _ h => h) hcommit with rfl | ⟨haccepted, hwrote⟩
  · exact ⟨hs, fun _ => hwork⟩
  have hall : m.allTasks = m.task.toList := by simp [MutationData.allTasks, hsite.noUpdates]
  by_cases hnew : ∃ t ∈ m.allTasks, s.tasks.get? t.taskId = none
  · obtain ⟨t, ht, hfresh⟩ := hnew
    have htask : m.task = some t := by simpa [hall] using ht
    cases hwrote t ht with
    | revised row => simp [hfresh] at row
    | placed row => simp [hfresh] at row
    | @admitted c a entry _ hentered next_eq initial owner =>
      have hkey : t.state.get? "owner_task_id" = some (Session.optionalStr a.ownerTaskId) := by
        rw [next_eq]
        cases entry <;> cases hworkflow : a.workflow <;>
          simp [Session.admittedState, Session.workflowState, hworkflow]
      have howner : ∀ o, t.state.ownerTaskId = some o → a.ownerTaskId = some o := by
        intro o ho
        cases hid : a.ownerTaskId <;>
          simp_all [Fields.ownerTaskId, Fields.name?, Session.optionalStr, Json.str?]
      refine ⟨haccepted.ownedWork_admitted hs (by simp [hall, htask]) ⟨hfresh, ?_,
        by simp [hkey], fun o ho => ?_, fun o ho => hadmits a o hentered (howner o ho)⟩,
        fun hnone => absurd hentered (hnone a)⟩
      · rw [next_eq]
        rcases initial with h | h <;> simp [h, taskStatusForPhase, TaskStatus.Closed]
      · simp only [SqliteStore.validateTaskOwner, ho, except_seq_eq_ok, require_eq_ok] at owner
        exact owner.2.1
  · have hrows : ∀ t ∈ m.allTasks, RevisesOpen s t := by
      intro t ht
      cases hwrote t ht with
      | @revised base phase state status _ _ _ _ row change _ next_eq checked =>
        refine ⟨base, _, row, checked, fun hclosed => ?_⟩
        have hid : t.taskId = base.taskId := by rw [next_eq]
        have hstatus : t.status = status := by rw [next_eq]
        rw [hstatus] at hclosed ⊢
        rw [hid]
        rcases change.closed hclosed with hsame | hended | hended
        · exact Or.inl hsame
        · exact Or.inr (hended hs)
        · exact Or.inr (hwork _ hended)
      | placed _ _ _ unfenced => exact absurd (by simpa [hall] using ht) unfenced
      | admitted row => exact absurd ⟨t, ht, row⟩ hnew
    obtain ⟨hs', hkept⟩ := haccepted.ownedWork_revised hs hrows
    exact ⟨hs', fun _ id hid => hkept id (hwork id hid)⟩

end Commits

/-! ### Calls that run alone -/

/-- What a call that runs alone commits is known of the store that it was made in. -/
lemma ownedWork_of_guards {α : Type} {p : Op α} {Q : α → (World → Prop) → Prop}
    {S : SqliteStore → MutationData → Prop} {w : World} {admits : Admission → Prop}
    (h : Prog.Guards Eq (Commits S) (w = ·) p Q)
    (hS : ∀ now m, S now m → Site (ownTerms w.store admits) now m ∧ ((∀ a, ¬ admits a) ∨
      now = w.store ∧ ∀ a o, admits a → a.ownerTaskId = some o → OpenAbove w.store o))
    (hw : OwnedWork w.store) :
    OwnedWork (p.run w).2.store ∧ Evolves w.store (p.run w).2.store := by
  have hkept := h.preserves (I := fun w' => Evolves w.store w'.store ∧ OwnedWork w'.store ∧
      ((∀ a, ¬ admits a) → ∀ id, WorkEnded w.store id → WorkEnded w'.store id))
    (fun _ => rfl) (fun w₁ w₂ hw₁ hstep => ?_) rfl ⟨.refl _, hw, fun _ _ h => h⟩
  · exact ⟨hkept.2.1, hkept.1⟩
  obtain ⟨hevolves, hw₁, hended⟩ := hw₁
  rcases hstep with heq | ⟨m, r, hcommit, hm⟩
  · rw [heq]
    exact ⟨hevolves, hw₁, hended⟩
  obtain ⟨hsite, hadmits⟩ := hS _ _ hm
  have hnext := evolves_of_commit hcommit hsite.kept
  refine ⟨hevolves.trans hnext, ?_⟩
  rcases hadmits with hnone | ⟨hnow, hopen⟩
  · exact hsite.ownedWork hcommit hw₁ (hended hnone) fun a _ ha => absurd ha (hnone a)
  · rw [hnow] at hsite hcommit hw₁
    exact hsite.ownedWork hcommit hw₁ (fun _ h => h) hopen

namespace Session

variable {c : Session}

/-- An admission that was not made before commits at most once, in the store it was made in. -/
lemma guards_admission {a : Admission} {w : World} :
    Prog.Guards Eq (Commits fun s m => s = w.store ∧
        s.submissionResultForRequest a.conversationId a.requestId a.fingerprint = .ok none ∧
        Site (ownTerms w.store (· = a)) s m)
      (w = ·) (c.admitInput a) fun _ _ => True := by
  have F : Frame Eq (ownTerms w.store (· = a)) :=
    Terms.aloneFrame Evolves.refl fun _ _ _ => Evolves.trans
  refine Prog.guards_bind (guards_ensureUsable fun w₁ hw₁ => ?_)
  subst hw₁
  refine Prog.guards_bind (Prog.guards_ofExcept fun _ hvalid => ?_)
  have howner : Prog.Guards Eq (Commits fun s m => s = w.store ∧
        s.submissionResultForRequest a.conversationId a.requestId a.fingerprint = .ok none ∧
        Site (ownTerms w.store (· = a)) s m)
      (w = ·) (ensureOwner a.ownerTaskId) fun _ K => ∀ w', K w' → w = w' := by
    cases a.ownerTaskId with
    | none => exact fun _ h => h
    | some o => exact Prog.guards_bind (guards_look fun w' hw' => guards_ensure fun _ w'' h =>
        hw'.trans h)
  refine Prog.guards_bind (howner.imp fun _ K hK => ?_)
  refine Prog.guards_bind (Prog.guards_ofExcept fun _ _ => ?_)
  have hhead : Prog.Guards Eq (Commits fun s m => s = w.store ∧
        s.submissionResultForRequest a.conversationId a.requestId a.fingerprint = .ok none ∧
        Site (ownTerms w.store (· = a)) s m)
      K (readHead a.conversationId) fun _ K' => ∀ w', K' w' → w = w' := by
    refine Prog.guards_bind (guards_look fun w' hw' => ?_)
    split
    · exact Prog.guards_bind (guards_view fun w'' _ hw'' _ w₃ h =>
        (hK w' hw').trans (hw''.trans h))
    · exact fun w'' h => (hK w' hw').trans h
  refine Prog.guards_bind (hhead.imp ?_)
  rintro ⟨head, revision, creation⟩ K' hK'
  refine Prog.guards_bind (guards_view fun w₁ existing hw₁ hexisting => ?_)
  obtain rfl := hK' w₁ hw₁
  cases existing with
  | some result => exact trivial
  | none =>
    refine Prog.guards_bind (guards_ensure fun _ => ?_)
    refine Prog.guards_bind (Prog.guards_ofExcept fun entry _ => ?_)
    refine Prog.guards_bind (Prog.guards_ofExcept fun submission _ => ?_)
    refine Prog.guards_bind (Prog.guards_ofExcept fun task htask => ?_)
    have htask := TaskCheckpoint.make_eq_ok.mp htask
    refine guards_commitData F (fun s m token h => ⟨h.1, h.2.1, Site.unfenced _ s m token h.2.2⟩)
      (F.stable w) rfl fun w' hw' => ?_
    subst hw'
    refine ⟨rfl, hexisting, ?_⟩
    refine @Site.enter (ownTerms w.store (· = a)) w.store _ c a entry task rfl rfl htask ?_ rfl
      rfl rfl
    simp only [validateAdmission, except_seq_eq_ok, require_eq_ok, Bool.or_eq_true,
      decide_eq_true_eq] at hvalid
    exact hvalid.2.1

/-- One turn of the loop of `recover_scheduler_state`. -/
def recoverTurn (c : Session) (force : Bool) (task : TaskCheckpoint) : Op Unit :=
  if task.status ≠ .running || (!force && c.attemptAlive task) then pure ()
  else (do let _ ← c.recoverTask task).handle skipConflict

/-- Recovery closes the task without a look at the work below it. -/
def Abandons (c : Session) (force : Bool) (task : TaskCheckpoint) : Prop :=
  task.status = .running ∧ (force = true ∨ c.attemptAlive task = false) ∧
    task.state.get? "abandon_on_restart" ≠ some (.bool true) ∧
    task.state.cancelRequested = true ∧ kernelCleanupRequired task.toCheckpointData = false

end Session

/-- The operations of the scheduler and of workers: they place no queued inputs, and their task
steps are those of a completion or of a join. -/
def Call.Scheduled : Call → Prop
  | .advanceTask .. | .mutateCheckpoint .. => False
  | _ => True

/-- A call that closes a task at once is made when the work below it has ended, and a new task is
admitted under an open owner. -/
def Call.DrainsFirst (w : World) : Call → Prop
  | .admitInput _ a =>
    w.store.submissionResultForRequest a.conversationId a.requestId a.fingerprint = .ok none →
      ∀ o, a.ownerTaskId = some o → OpenAbove w.store o
  | .waitTask _ taskId _ => ∀ t, w.store.tasks.get? taskId = some t →
    t.status = .running ∨ t.status = .pending → t.state.cancelRequested = true →
      kernelCleanupRequired t.toCheckpointData = false → WorkEnded w.store t.taskId
  | .recoverSchedulerState c force => Pool.Each (c.recoverTurn force)
      (fun task w => c.Abandons force task → WorkEnded w.store task.taskId)
      w.store.pendingTasks w
  | _ => True

lemma ownTerms_frame (s₀ : SqliteStore) (admits : Admission → Prop) :
    Frame Eq (ownTerms s₀ admits) :=
  Terms.aloneFrame Evolves.refl fun _ _ _ => Evolves.trans

lemma ownTerms_looks (s₀ : SqliteStore) (admits : Admission → Prop) :
    (ownTerms s₀ admits).Looks Eq := fun _ _ h hs => h.workEnded hs

lemma ownTerms_keeps (s₀ : SqliteStore) (admits : Admission → Prop) :
    (ownTerms s₀ admits).Keeps := fun _ _ _ _ hcommit hsite => evolves_of_commit hcommit hsite.kept

/-- A scheduled call other than an admission or a recovery keeps to the terms. -/
lemma Call.meets_ownTerms {call : Call} {w : World} (hcall : call.Scheduled)
    (h : call.DrainsFirst w) (hentered : ∀ c a, call ≠ .admitInput c a)
    (hrecover : ∀ c force, call ≠ .recoverSchedulerState c force) :
    call.Meets Eq (ownTerms w.store fun _ => False) w := by
  have hcompletion : ∀ answer state base a, Session.CompletionStep answer state a →
      (ownTerms w.store fun _ => False).step base a := by
    intro answer state base a ha
    by_cases hphase : a.phase = .completed
    · exact Or.inl hphase
    refine Or.inr ?_
    rcases ha.status with hstatus | hstatus <;> rcases ha.phase with h | h | h <;>
      simp_all [TaskStatus.Closed, taskStatusForPhase]
  have hjoins : Session.Joins (ownTerms w.store fun _ => False) :=
    ⟨fun _ => trivial, fun _ => trivial, fun base a ha => Or.inr (by
      simp [ha.status, TaskStatus.Closed])⟩
  cases call with
  | admitInput c a => exact absurd rfl (hentered c a)
  | recoverSchedulerState c force => exact absurd rfl (hrecover c force)
  | waitTask c taskId wait =>
    refine ⟨fun _ _ _ _ _ _ => trivial, ?_⟩
    rintro w' base rfl hget hlive hcancel hcleanup
    exact h base hget hlive hcancel hcleanup
  | requestCancel => exact ⟨trivial, trivial⟩
  | advanceTask => exact absurd hcall id
  | mutateCheckpoint => exact absurd hcall id
  | startTask => exact fun answer => hcompletion answer _
  | finishTask => exact hcompletion _ _
  | completeTask => exact hcompletion _ _
  | reconcileWaitingTasks => exact hjoins
  | reconcileFinalization =>
    exact ⟨hjoins, fun _ => True, trivial, fun _ _ _ _ => trivial, fun _ _ _ _ => trivial,
      fun _ _ answer state base a _ _ _ => hcompletion answer state base a⟩
  | _ => exact trivial

lemma Session.ownedWork_recoverTurn {c : Session} {force : Bool} {task : TaskCheckpoint}
    {s₀ : SqliteStore} {w : World} (hrow : s₀.tasks.get? task.taskId = some task)
    (h : c.Abandons force task → WorkEnded w.store task.taskId)
    (hw : OwnedWork w.store ∧ Evolves s₀ w.store) :
    OwnedWork ((c.recoverTurn force task).run w).2.store ∧
      Evolves s₀ ((c.recoverTurn force task).run w).2.store := by
  have F := ownTerms_frame w.store fun _ => False
  have hguards : Prog.Guards Eq (Commits (Site (ownTerms w.store fun _ => False))) (w = ·)
      (c.recoverTurn force task) fun _ _ => True := by
    unfold recoverTurn
    split <;> rename_i hskip
    · exact trivial
    simp only [ne_eq, Bool.not_eq_true, Bool.or_eq_false_iff, decide_eq_false_iff_not, not_not]
      at hskip
    refine guards_handleSkip (Prog.guards_bind (Prog.Guards.imp (guards_recoverTask F (F.stable w)
      ?_ hskip.1 trivial fun habandoned hcancel hcleanup => h ⟨hskip.1, ?_, habandoned, hcancel,
        hcleanup⟩) fun _ _ _ => trivial))
    · rintro w' rfl
      exact ⟨s₀, hw.2, hrow⟩
    · cases force with
      | true => exact Or.inl rfl
      | false => exact Or.inr (by simpa using hskip.2)
  obtain ⟨hown, hevolves⟩ := ownedWork_of_guards hguards (fun now m hm =>
    ⟨hm, Or.inl fun _ h => h⟩) hw.1
  exact ⟨hown, hw.2.trans hevolves⟩

/-- Every call that is made under the conditions keeps owners last. -/
lemma Call.ownedWork {call : Call} {w : World} (hcall : call.Scheduled) (h : call.DrainsFirst w)
    (hw : OwnedWork w.store) : OwnedWork (call.prog.run w).2.store := by
  by_cases hentered : ∃ c a, call = .admitInput c a
  · obtain ⟨c, a, rfl⟩ := hentered
    have hguards := Prog.guards_bind (f := fun _ => (.ret () : Op Unit)) (Q := fun _ _ => True)
      ((Session.guards_admission (c := c) (a := a) (w := w)).imp fun _ _ _ => trivial)
    refine (ownedWork_of_guards hguards (fun now m hm => ⟨hm.2.2, Or.inr ⟨hm.1, ?_⟩⟩) hw).1
    rintro a' o rfl ho
    exact h (hm.1 ▸ hm.2.1) o ho
  by_cases hrecover : ∃ c force, call = .recoverSchedulerState c force
  · obtain ⟨c, force, rfl⟩ := hrecover
    have hloop := Pool.forEach_invariant (I := fun w' => OwnedWork w'.store ∧
        Evolves w.store w'.store) (fun task htask w' hok hw' => Session.ownedWork_recoverTurn
      (Table.mem_rows_iff.mp (List.mem_filter.mp htask).1) hok hw') h ⟨hw, .refl _⟩
    change OwnedWork (((c.ensureUsable).bind fun _ => (Session.look (·.pendingTasks)).bind fun
      tasks => Prog.forEach tasks (c.recoverTurn force)).run w).2.store
    rw [Prog.run_bind, Session.ensureUsable, Prog.run_readE]
    split <;> rename_i heq
    · obtain ⟨-, rfl⟩ := Prod.mk.inj heq
      rw [Prog.run_bind, Session.run_look]
      exact hloop.1
    · obtain ⟨-, rfl⟩ := Prod.mk.inj heq
      exact hw
  · exact (ownedWork_of_guards (Call.guards (ownTerms_frame _ _) (ownTerms_looks _ _)
      (ownTerms_keeps _ _) (Call.meets_ownTerms hcall h (fun c a heq => hentered ⟨c, a, heq⟩)
        fun c force heq => hrecover ⟨c, force, heq⟩))
      (fun now m hm => ⟨hm, Or.inl fun _ h => h⟩) hw).1

/-- After any calls of sessions, made one after the other under the conditions of `DrainsFirst`, no
completed or cancelled task has a live task below it. -/
theorem owners_last {w₀ : World} (hempty : w₀.store = {}) {calls : List Call}
    (hscheduled : ∀ call ∈ calls, call.Scheduled)
    (hcalls : Pool.Each Call.prog (fun call w => call.DrainsFirst w) calls w₀) :
    OwnersLast (Pool.execute Call.prog calls w₀).store := by
  have hinit : OwnedWork w₀.store := by
    have hnone : ∀ a b, ¬ Owns ({} : SqliteStore) a b := by
      rintro a b ⟨t, ht, -⟩
      simp at ht
    rw [hempty]
    refine ⟨fun id t ht => by simp at ht, fun b t ht => by simp at ht,
      fun a b hab => absurd hab (hnone a b), fun a b hab => absurd hab (hnone a b), fun x hx => ?_⟩
    obtain ⟨y, hy, -⟩ := TransGen.head'_iff.mp hx
    exact hnone x y hy
  have hboth : Pool.Each Call.prog (fun call w => call.Scheduled ∧ call.DrainsFirst w) calls w₀ := by
    clear hinit hempty
    induction calls generalizing w₀ with
    | nil => trivial
    | cons call calls ih =>
      exact ⟨⟨hscheduled call List.mem_cons_self, hcalls.1⟩,
        ih (fun c hc => hscheduled c (List.mem_cons_of_mem _ hc)) hcalls.2⟩
  exact (Pool.execute_invariant (I := fun w => OwnedWork w.store)
    (fun call w h hw => Call.ownedWork h.1 h.2 hw) hboth hinit).last

def sampleOwner : List Call :=
  [.admitInput firstSession (plainInput "a" none),
    .admitInput firstSession (plainInput "b" (some "a")), .cancelTask firstSession "a" "stop"]

theorem owners_last_sample :
    ["a", "b"].map (fun id => ((Pool.execute Call.prog sampleOwner { store := {} }).store.tasks.get?
      id).map (·.status)) = [some .cancelled, some .cancelled] ∧
    OwnersLast (Pool.execute Call.prog sampleOwner { store := {} }).store := by
  refine ⟨by decide +kernel, owners_last rfl (by simp [sampleOwner, Call.Scheduled])
    ⟨fun _ o ho => (by cases ho), fun _ o ho a t _ ht => ?_, trivial, trivial⟩⟩
  have hopen : ((Call.prog (.admitInput firstSession (plainInput "a" none))).run
      { store := {} }).2.store.tasks.rows.all (!·.status.terminal) = true := by decide +kernel
  have := List.all_eq_true.mp hopen t (Table.mem_of_get? ht)
  rintro (hclosed | hclosed) <;> simp [hclosed, TaskStatus.terminal] at this

/-- A stop request has reached a task and the one it owns; then the worker of the first one
parks. -/
def sampleStoppedOwner : List Call :=
  [.admitInput firstSession (plainInput "a" none), .claimTask firstSession "a" "token-a",
    .admitInput firstSession (plainInput "b" (some "a")), .claimTask firstSession "b" "token-b",
    .requestCancel firstSession "a" "stop" [] none, .waitTask firstSession "a" {}]

/-- Without the conditions, a task is cancelled while the task that it owns is running. -/
theorem owners_last_unconditional :
    ¬ OwnersLast (Pool.execute Call.prog sampleStoppedOwner { store := {} }).store := by
  have hrows : ["a", "b"].map (fun id =>
      ((Pool.execute Call.prog sampleStoppedOwner { store := {} }).store.tasks.get? id).map
        fun t => (t.status, t.state.ownerTaskId)) =
      [some (.cancelled, none), some (.running, some "a")] := by decide +kernel
  generalize (Pool.execute Call.prog sampleStoppedOwner { store := {} }).store = s at hrows
  simp only [List.map_cons, List.map_nil, List.cons.injEq, and_true, Option.map_eq_some_iff,
    Prod.mk.injEq] at hrows
  obtain ⟨⟨t, ht, hstatus, -⟩, t', ht', hstatus', howner⟩ := hrows
  intro h
  have := h "a" t ht (Or.inr hstatus) "b" (.single ⟨t', ht', howner⟩) t' ht'
  simp [hstatus', TaskStatus.terminal] at this

end Codey
