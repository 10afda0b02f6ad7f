import Codey.Ghost.Controls

/-!
# Privacy switches stay off

A switch that was turned off at a scope stays off there until it is turned on at that scope or the
scope is deleted. One writer, `set_learning_enabled`, writes back scopes that it read in an earlier
transaction, and a switch that was turned off in between is lost.
-/

namespace Codey

namespace Ghost

variable {host : Host} {row : Option Json} {settings scopes : Fields} {scope : Scope}
  {control : Control}

/-! ### One switch -/

/-- What is stored for a control at a scope. -/
def switchAt (scopes : Fields) (scope : Scope) (ref : String) (control : Control) : Option Json :=
  match scopes.get? scope.name with
  | some (.obj bucket) =>
    match scope with
    | .user => Fields.get? bucket control.name
    | _ =>
      match Fields.get? bucket ref with
      | some (.obj entry) => Fields.get? entry control.name
      | _ => none
  | _ => none

def Off (row : Option Json) (scope : Scope) (ref : String) (control : Control) : Prop :=
  switchAt (storedScopes row) scope ref control = some (.bool false)

instance {scope : Scope} {ref : String} : Decidable (Off row scope ref control) :=
  inferInstanceAs (Decidable (_ = _))

/-- An access includes the scope of the user, and those of its project and of its session. -/
def Includes (scope : Scope) (ref projectRef sessionRef : String) : Prop :=
  match scope with
  | .user => True
  | .project => ref = projectRef
  | .session => ref = sessionRef

instance (ref projectRef sessionRef : String) :
    Decidable (Includes scope ref projectRef sessionRef) :=
  match scope with
  | .user => isTrue trivial
  | .project => inferInstanceAs (Decidable (ref = projectRef))
  | .session => inferInstanceAs (Decidable (ref = sessionRef))

variable {values values' : Control → Bool}

lemma applyBucket_le {bucket : Json} (h : applyBucket values bucket = .ok values')
    (hoff : values control = false) : values' control = false := by
  unfold applyBucket at h
  split at h
  · obtain rfl := Except.ok.inj h
    exact hoff
  · obtain ⟨fields, -, hrest⟩ := except_bind_eq_ok.mp h
    obtain ⟨-, -, rfl⟩ := except_last_eq_ok.mp hrest
    simp [hoff]

lemma applyBucket_off {fields : Fields} (h : applyBucket values (.obj fields) = .ok values')
    (hoff : fields.get? control.name = some (.bool false)) : values' control = false := by
  obtain ⟨fields', hfields, hrest⟩ := except_bind_eq_ok.mp h
  obtain ⟨-, -, hpure⟩ := except_bind_eq_ok.mp hrest
  obtain rfl : fields = fields' := by simpa using hfields
  obtain rfl := Except.ok.inj hpure
  simp [hoff]

lemma applyReference_le {ref : String} (h : applyReference scopes scope ref values = .ok values')
    (hoff : values control = false) : values' control = false := by
  unfold applyReference at h
  split at h
  · obtain rfl := Except.ok.inj h
    exact hoff
  · obtain ⟨entries, -, hrest⟩ := except_bind_eq_ok.mp h
    exact applyBucket_le hrest hoff

lemma applyReference_off {ref : String} (hscope : scope ≠ .user) (href : ref ≠ "")
    (h : applyReference scopes scope ref values = .ok values')
    (hoff : switchAt scopes scope ref control = some (.bool false)) : values' control = false := by
  rw [applyReference, if_neg href] at h
  obtain ⟨entries, hentries, hrest⟩ := except_bind_eq_ok.mp h
  rw [scopeControls, members_eq_ok] at hentries
  unfold switchAt at hoff
  split at hoff
  · rename_i bucket hbucket
    obtain rfl : bucket = entries := by simpa [hbucket] using hentries
    split at hoff
    · exact absurd rfl hscope
    · split at hoff
      · rename_i entry hentry
        rw [hentry] at hrest
        exact applyBucket_off hrest hoff
      · simp at hoff
  · simp at hoff

/-- A control that is off at a scope is not enabled for an access that includes the scope. -/
lemma not_enabledAt_of_off {ref projectRef sessionRef : String} (hoff : Off row scope ref control)
    (href : scope ≠ .user → ref ≠ "") (hincl : Includes scope ref projectRef sessionRef) :
    enabledAt row control projectRef sessionRef ≠ .ok true := by
  intro h
  obtain ⟨settings, hread, h⟩ := except_bind_eq_ok.mp h
  obtain ⟨values, heff, hvalue⟩ := except_bind_eq_ok.mp h
  obtain ⟨-, -, heff⟩ := except_bind_eq_ok.mp heff
  obtain ⟨scopes, hscopes, heff⟩ := except_bind_eq_ok.mp heff
  obtain ⟨ofUser, huser, heff⟩ := except_bind_eq_ok.mp heff
  obtain ⟨ofProject, hproject, hsession⟩ := except_bind_eq_ok.mp heff
  rw [Off, storedScopes_of_read hread hscopes] at hoff
  have hfalse : values control = false := by
    cases scope with
    | user =>
      have hbucket : ofUser control = false := by
        unfold switchAt at hoff
        split at hoff
        · rename_i bucket hget
          rw [hget] at huser
          exact applyBucket_off huser hoff
        · simp at hoff
      exact applyReference_le hsession (applyReference_le hproject hbucket)
    | project =>
      obtain rfl : ref = projectRef := hincl
      exact applyReference_le hsession
        (applyReference_off (by decide) (href (by decide)) hproject hoff)
    | session =>
      obtain rfl : ref = sessionRef := hincl
      exact applyReference_off (by decide) (href (by decide)) hsession hoff
  rw [Except.ok.inj hvalue] at hfalse
  simp at hfalse

/-! ### The switches of a written document -/

/-- Whether a switch is the one that a call for a scope is about. -/
def sameScope (scope : Scope) (ref : String) (scope' : Scope) (ref' : String) : Bool :=
  scope = scope' && (scope = .user || ref = ref')

lemma storedScopes_obj (hget : settings.get? "control_scopes" = some (.obj scopes)) :
    storedScopes (some (.obj settings)) = scopes := by
  simp [storedScopes, hget]

lemma get?_scopes_of_ok {bucket : Fields} (h : scopeControls scopes scope = .ok bucket) :
    scopes.get? scope.name = some (.obj bucket) ∨ scopes.get? scope.name = none ∧ bucket = [] := by
  rw [scopeControls, members_eq_ok] at h
  cases hget : scopes.get? scope.name with
  | none => exact Or.inr ⟨rfl, by simpa [hget, eq_comm] using h⟩
  | some value => exact Or.inl (by simpa [hget] using h)

lemma switchAt_set (scopes bucket : Fields) (scope scope' : Scope) (ref : String)
    (control : Control) :
    switchAt (scopes.set scope.name (.obj bucket)) scope' ref control =
      if scope = scope' then switchAt [(scope'.name, .obj bucket)] scope' ref control
      else switchAt scopes scope' ref control := by
  split_ifs with h <;> simp [switchAt, h]

lemma switchAt_of_scopeControls {bucket : Fields} (h : scopeControls scopes scope = .ok bucket)
    (ref : String) (control : Control) :
    switchAt scopes scope ref control = switchAt [(scope.name, .obj bucket)] scope ref control := by
  rcases get?_scopes_of_ok h with hget | ⟨hget, rfl⟩
  · simp [switchAt, hget]
  · cases scope <;> simp [switchAt, hget]

variable {enabled : Bool}

/-- The switches of a bucket in which one has been set. -/
lemma switchAt_setBucket {bucket bucket' : Fields} {ref : String}
    (h : setBucket bucket control enabled scope ref = .ok bucket') (ref' : String)
    (control' : Control) :
    switchAt [(scope.name, .obj bucket')] scope ref' control' =
      if (scope = .user || ref = ref') && control = control' then some (.bool enabled)
      else switchAt [(scope.name, .obj bucket)] scope ref' control' := by
  cases scope with
  | user =>
    obtain rfl := Except.ok.inj h
    simp [switchAt]
  | project | session =>
    obtain ⟨entry, hentry, rfl⟩ := except_last_eq_ok.mp h
    rw [members_eq_ok] at hentry
    by_cases href : ref = ref'
    · subst href
      cases hget : bucket.get? ref with
      | none =>
        obtain rfl : entry = [] := by simpa [hget, eq_comm] using hentry
        by_cases hc : control = control' <;> simp [switchAt, hget, hc]
      | some value =>
        obtain rfl : value = .obj entry := by simpa [hget] using hentry
        by_cases hc : control = control' <;> simp [switchAt, hget, hc]
    · simp [switchAt, href]

lemma Control.name_ne_scopes (control : Control) : control.name ≠ "control_scopes" := by
  cases control <;> decide

@[simp] lemma get?_setUserMembers_scopes (enabled : Bool) :
    (setUserMembers settings control enabled).get? "control_scopes" =
      settings.get? "control_scopes" := by
  unfold setUserMembers
  split_ifs <;> simp [control.name_ne_scopes]

variable {control' : Control} {doc : Json}

/-- `set_control` sets one switch at one scope. -/
lemma switchAt_setControl {ref now ref' : String} {scope' : Scope}
    (h : setControl row control enabled scope ref now = .ok doc) :
    switchAt (storedScopes (some doc)) scope' ref' control' =
      if sameScope scope ref scope' ref' && control = control' then some (.bool enabled)
      else switchAt (storedScopes row) scope' ref' control' := by
  obtain ⟨current, hread, h⟩ := except_bind_eq_ok.mp h
  obtain ⟨scopes, hscopes, h⟩ := except_bind_eq_ok.mp h
  obtain ⟨bucket, hbucket, h⟩ := except_bind_eq_ok.mp h
  obtain ⟨bucket', hset, rfl⟩ := except_last_eq_ok.mp h
  have hmember : (if scope = .user then
      setUserMembers (current.set "control_scopes" (.obj (scopes.set scope.name (.obj bucket'))))
        control enabled
      else current.set "control_scopes" (.obj (scopes.set scope.name (.obj bucket')))).get?
        "control_scopes" = some (.obj (scopes.set scope.name (.obj bucket'))) := by
    split_ifs <;> simp
  rw [storedScopes_of_read hread hscopes, storedScopes_obj (by simpa using hmember), switchAt_set]
  by_cases hscope : scope = scope'
  · subst hscope
    rw [if_pos rfl, switchAt_setBucket hset, switchAt_of_scopeControls hbucket]
    simp [sameScope]
  · simp [sameScope, hscope]

lemma switchAt_dropBucket (bucket : Fields) (scope : Scope) (ref ref' : String)
    (control : Control) :
    switchAt [(scope.name, .obj (dropBucket bucket scope ref))] scope ref' control =
      if scope = .user || ref = ref' then none
      else switchAt [(scope.name, .obj bucket)] scope ref' control := by
  cases scope with
  | user => simp [switchAt, dropBucket]
  | project | session => by_cases href : ref = ref' <;> simp [switchAt, dropBucket, href]

/-- A deletion takes away every switch of its scope and no other. -/
lemma switchAt_deleteControlScope {ref now ref' : String} {scope' : Scope}
    (h : deleteControlScope row scope ref now = .ok (some doc)) :
    switchAt (storedScopes (some doc)) scope' ref' control =
      if sameScope scope ref scope' ref' then none
      else switchAt (storedScopes row) scope' ref' control := by
  obtain ⟨settings, hread, h⟩ := except_bind_eq_ok.mp h
  obtain ⟨scopes, hscopes, h⟩ := except_bind_eq_ok.mp h
  obtain ⟨bucket, hbucket, h⟩ := except_bind_eq_ok.mp h
  by_cases hchanged : hasControls settings bucket scope ref = true
  · rw [if_pos hchanged] at h
    obtain rfl := Option.some.inj (Except.ok.inj h)
    have hmember : (((if scope = .user then resetUserMembers settings else settings).set
        "control_scopes" (.obj (scopes.set scope.name (.obj (dropBucket bucket scope ref))))).set
        "updated_at" (.str now)).get? "control_scopes" =
          some (.obj (scopes.set scope.name (.obj (dropBucket bucket scope ref)))) := by simp
    rw [storedScopes_of_read hread hscopes, storedScopes_obj hmember, switchAt_set]
    by_cases hscope : scope = scope'
    · subst hscope
      rw [if_pos rfl, switchAt_dropBucket, switchAt_of_scopeControls hbucket]
      simp [sameScope]
    · simp [sameScope, hscope]
  · rw [if_neg hchanged] at h
    exact absurd (Except.ok.inj h) (by simp)

/-- `set_learning_enabled` sets every control of the user; the other scopes are those it read. -/
lemma switchAt_learningSettings (scopes : Fields) (enabled : Bool) (now : String) (scope : Scope)
    (ref : String) (control : Control) :
    switchAt (storedScopes (some (learningSettings scopes enabled now))) scope ref control =
      if scope = .user then some (.bool enabled) else switchAt scopes scope ref control := by
  rw [learningSettings, storedScopes_obj rfl, switchAt_set]
  cases scope with
  | user => cases control <;> simp [switchAt, Control.name]
  | project | session => simp

/-- The scopes read by `set_learning_enabled` are those of projects and sessions. -/
lemma switchAt_readScopes (hscope : scope ≠ .user) (ref : String) :
    switchAt (readScopes row) scope ref control = switchAt (storedScopes row) scope ref control := by
  cases scope with
  | user => exact absurd rfl hscope
  | project | session => simp [readScopes, switchAt]

/-! ### Other scopes -/

variable {written bucket bucket' : Fields} {ref projectRef sessionRef : String}

lemma scopeControls_set (scopes bucket : Fields) (scope scope' : Scope) :
    scopeControls (scopes.set scope.name (.obj bucket)) scope' =
      if scope = scope' then .ok bucket else scopeControls scopes scope' := by
  split_ifs with h <;> simp [scopeControls, members, h]

lemma applyReference_set {accessRef : String} (hbucket : scopeControls scopes scope = .ok bucket)
    (hsame : ∀ r, r ≠ ref → bucket'.get? r = bucket.get? r) (scope' : Scope)
    (hother : scope = scope' → accessRef ≠ ref) (values : Control → Bool) :
    applyReference (scopes.set scope.name (.obj bucket')) scope' accessRef values =
      applyReference scopes scope' accessRef values := by
  unfold applyReference
  rw [scopeControls_set]
  by_cases hscope : scope = scope'
  · subst hscope
    rw [if_pos rfl, hbucket]
    simp only [bind, Except.bind, hsame accessRef (hother rfl)]
  · rw [if_neg hscope]

/-- A document of which one project's or session's entry has been rewritten is read as before by
every access to others. -/
lemma enabledAt_written (hread : readSettings row = .ok settings)
    (hscopes : controlScopes settings = .ok scopes)
    (hbucket : scopeControls scopes scope = .ok bucket) (hscope : scope ≠ .user)
    (hlearning : written.get? "learning_enabled" = settings.get? "learning_enabled")
    (hnames : ∀ c : Control, written.get? c.name = settings.get? c.name)
    (hschema : written.get? "schema_version" = some (.int 1))
    (hwritten : written.get? "control_scopes" =
      some (.obj (scopes.set scope.name (.obj bucket'))))
    (hsame : ∀ r, r ≠ ref → bucket'.get? r = bucket.get? r)
    (hother : ¬ Includes scope ref projectRef sessionRef) :
    enabledAt (some (.obj written)) control projectRef sessionRef =
      enabledAt row control projectRef sessionRef := by
  obtain ⟨hrow, hcheck⟩ := readSettings_eq_ok.mp hread
  obtain ⟨hbool, -, hcontrols, scopes', hscopes', hbuckets⟩ := checkSettings_eq_ok.mp hcheck
  obtain rfl := Except.ok.inj (hscopes.symm.trans hscopes')
  have hnew : controlScopes written = .ok (scopes.set scope.name (.obj bucket')) := by
    simp [controlScopes, hwritten]
  have hreadNew : readSettings (some (.obj written)) = .ok written := by
    refine readSettings_eq_ok.mpr ⟨rfl, checkSettings_eq_ok.mpr ⟨?_, hschema, ?_, _, hnew, ?_⟩⟩
    · rw [hlearning]
      exact hbool
    · intro c
      rw [hlearning, hnames]
      exact hcontrols c
    · intro scope'
      rw [scopeControls_set]
      split_ifs
      · exact ⟨_, rfl⟩
      · exact hbuckets scope'
  have huser : (scopes.set scope.name (.obj bucket')).get? Scope.user.name =
      scopes.get? Scope.user.name := by simp [hscope]
  have hproject : ∀ values, applyReference (scopes.set scope.name (.obj bucket')) .project
      projectRef values = applyReference scopes .project projectRef values := by
    refine applyReference_set hbucket hsame .project ?_
    rintro rfl href
    exact hother href.symm
  have hsession : ∀ values, applyReference (scopes.set scope.name (.obj bucket')) .session
      sessionRef values = applyReference scopes .session sessionRef values := by
    refine applyReference_set hbucket hsame .session ?_
    rintro rfl href
    exact hother href.symm
  have heffective : effectiveControls written projectRef sessionRef =
      effectiveControls settings projectRef sessionRef := by
    simp only [effectiveControls, hlearning, hnames, hnew, hscopes, huser, bind, Except.bind,
      hproject, hsession]
  simp only [enabledAt, hread, hreadNew, heffective, bind, Except.bind]

lemma Control.name_ne (control : Control) : control.name ≠ "schema_version" ∧
    control.name ≠ "updated_at" ∧ "learning_enabled" ≠ control.name := by
  cases control <;> decide

lemma enabledAt_setControl {now : String}
    (h : setControl row control enabled scope ref now = .ok doc) (hscope : scope ≠ .user)
    (hother : ¬ Includes scope ref projectRef sessionRef) :
    enabledAt (some doc) control' projectRef sessionRef =
      enabledAt row control' projectRef sessionRef := by
  obtain ⟨settings, hread, h⟩ := except_bind_eq_ok.mp h
  obtain ⟨scopes, hscopes, h⟩ := except_bind_eq_ok.mp h
  obtain ⟨bucket, hbucket, h⟩ := except_bind_eq_ok.mp h
  obtain ⟨bucket', hset, rfl⟩ := except_last_eq_ok.mp h
  have hsame : ∀ r, r ≠ ref → bucket'.get? r = bucket.get? r := by
    intro r hr
    cases scope with
    | user => exact absurd rfl hscope
    | project | session =>
      obtain ⟨entry, -, rfl⟩ := except_last_eq_ok.mp hset
      simp [Ne.symm hr]
  refine enabledAt_written hread hscopes hbucket hscope ?_ ?_ ?_ ?_ hsame hother
  · simp [hscope]
  · intro c
    simp [hscope, c.name_ne_scopes.symm, c.name_ne.1.symm, c.name_ne.2.1.symm]
  · simp
  · simp [hscope]

lemma enabledAt_deleteControlScope {now : String}
    (h : deleteControlScope row scope ref now = .ok (some doc)) (hscope : scope ≠ .user)
    (hother : ¬ Includes scope ref projectRef sessionRef) :
    enabledAt (some doc) control' projectRef sessionRef =
      enabledAt row control' projectRef sessionRef := by
  obtain ⟨settings, hread, h⟩ := except_bind_eq_ok.mp h
  obtain ⟨scopes, hscopes, h⟩ := except_bind_eq_ok.mp h
  obtain ⟨bucket, hbucket, h⟩ := except_bind_eq_ok.mp h
  obtain ⟨-, hcheck⟩ := readSettings_eq_ok.mp hread
  by_cases hchanged : hasControls settings bucket scope ref = true
  · rw [if_pos hchanged] at h
    obtain rfl := Option.some.inj (Except.ok.inj h)
    have hsame : ∀ r, r ≠ ref → (dropBucket bucket scope ref).get? r = bucket.get? r := by
      intro r hr
      cases scope with
      | user => exact absurd rfl hscope
      | project | session => simp [dropBucket, Ne.symm hr]
    refine enabledAt_written hread hscopes hbucket hscope ?_ ?_ ?_ ?_ hsame hother
    · simp [hscope]
    · intro c
      simp [hscope, c.name_ne_scopes.symm, c.name_ne.2.1.symm]
    · simpa [hscope] using (checkSettings_eq_ok.mp hcheck).2.1
    · simp
  · rw [if_neg hchanged] at h
    exact absurd (Except.ok.inj h) (by simp)

/-! ### Interleaved calls -/

/-- The settings row, and what the calls of `set_learning_enabled` that are between their two
transactions have read. -/
structure Settings where
  row : Option Json := none
  reads : List (Nat × Fields) := []

/-- A transaction of one of the calls. One that fails is rolled back. -/
inductive Transaction where
  | setControl (fails : Bool) (control : Control) (enabled : Bool) (scope : Scope)
      (project session now : String)
  | readScopes (fails : Bool) (call : Nat)
  | setLearning (fails : Bool) (call : Nat) (enabled : Bool) (now : String)
  | deleteScope (fails : Bool) (scope : Scope) (project session now : String)

def rowAfter (row : Option Json) (fails : Bool) (written : Except GhostSettingsError (Option Json)) :
    Option Json :=
  match fails, written with
  | false, .ok (some doc) => some doc
  | _, _ => row

/-- The settings after a transaction; there is none for a call that names no scope. -/
def step (host : Host) (s : Settings) : Transaction → Option Settings
  | .setControl fails control enabled scope project session now =>
    (controlScopeRef host scope project session).map fun ref =>
      let written := (Ghost.setControl s.row control enabled scope ref now).map some
      { s with row := rowAfter s.row fails written }
  | .readScopes fails call =>
    if (s.reads.lookup call).isSome then none
    else some { s with reads := (call, if fails then [] else Ghost.readScopes s.row) :: s.reads }
  | .setLearning fails call enabled now =>
    (s.reads.lookup call).map fun scopes =>
      { row := rowAfter s.row fails (.ok (some (learningSettings scopes enabled now)))
        reads := s.reads.filter (·.1 ≠ call) }
  | .deleteScope fails scope project session now =>
    (controlScopeRef host scope project session).map fun ref =>
      { s with row := rowAfter s.row fails (deleteControlScope s.row scope ref now) }

/-- A call turns the control on at the scope, or deletes the scope. -/
def Lifts (host : Host) (scope : Scope) (ref : String) (control : Control) (s : Settings) :
    Transaction → Prop
  | .setControl fails control' enabled scope' project session now =>
    fails = false ∧ control' = control ∧ enabled = true ∧ scope' = scope ∧
      controlScopeRef host scope' project session = some ref ∧
      ∃ doc, Ghost.setControl s.row control enabled scope ref now = .ok doc
  | .readScopes _ _ => False
  | .setLearning fails _ enabled _ => fails = false ∧ enabled = true ∧ scope = .user
  | .deleteScope fails scope' project session now =>
    fails = false ∧ scope' = scope ∧ controlScopeRef host scope' project session = some ref ∧
      ∃ doc, deleteControlScope s.row scope ref now = .ok (some doc)

/-- When a `set_learning_enabled` writes, every switch that is off for a project or a session was
already off when it read. -/
def Faithful (s : Settings) : Transaction → Prop
  | .setLearning false call _ _ =>
    ∀ scopes, s.reads.lookup call = some scopes → ∀ scope ref control, scope ≠ .user →
      Off s.row scope ref control → switchAt scopes scope ref control = some (.bool false)
  | _ => True

variable {s s' : Settings} {e : Transaction}

lemma rowAfter_cases (row : Option Json) (fails : Bool)
    (written : Except GhostSettingsError (Option Json)) :
    rowAfter row fails written = row ∨
      ∃ doc, fails = false ∧ written = .ok (some doc) ∧ rowAfter row fails written = some doc := by
  rcases fails with _ | _ <;> rcases written with _ | (_ | doc) <;> simp [rowAfter]

lemma eq_of_sameScope {scope' : Scope} {ref' project session project' session' : String}
    (h : controlScopeRef host scope project session = some ref)
    (h' : controlScopeRef host scope' project' session' = some ref')
    (hsame : sameScope scope' ref' scope ref = true) : scope' = scope ∧ ref' = ref := by
  simp only [sameScope, Bool.and_eq_true, decide_eq_true_eq, Bool.or_eq_true] at hsame
  obtain ⟨rfl, rfl | href⟩ := hsame
  · exact ⟨rfl, Option.some.inj (h'.symm.trans h)⟩
  · exact ⟨rfl, href⟩

variable {project session : String}

/-- What a faithful transaction that does not lift a switch leaves off. -/
lemma off_step (href : controlScopeRef host scope project session = some ref)
    (hoff : Off s.row scope ref control) (hfaithful : Faithful s e)
    (hlifts : ¬ Lifts host scope ref control s e) (hstep : step host s e = some s') :
    Off s'.row scope ref control := by
  cases e with
  | setControl fails control' enabled scope' project' session' now =>
    obtain ⟨ref', href', rfl⟩ := Option.map_eq_some_iff.mp hstep
    rcases rowAfter_cases s.row fails
      ((Ghost.setControl s.row control' enabled scope' ref' now).map some) with hrow | hwritten
    · simpa only [hrow] using hoff
    · obtain ⟨doc, rfl, hok, hrow⟩ := hwritten
      obtain ⟨doc', hset, hdoc⟩ : ∃ doc', Ghost.setControl s.row control' enabled scope' ref' now =
          .ok doc' ∧ doc' = doc := by
        cases hset : Ghost.setControl s.row control' enabled scope' ref' now with
        | error e => simp [hset, Except.map] at hok
        | ok doc' => exact ⟨doc', rfl, by simpa [hset, Except.map] using hok⟩
      subst hdoc
      simp only [hrow, Off, switchAt_setControl hset]
      split_ifs with hsame
      · rw [Bool.and_eq_true, decide_eq_true_eq] at hsame
        obtain ⟨rfl, rfl⟩ := eq_of_sameScope href href' hsame.1
        cases enabled with
        | false => rfl
        | true =>
          obtain rfl := hsame.2
          exact absurd ⟨rfl, rfl, rfl, rfl, href', _, hset⟩ hlifts
      · exact hoff
  | readScopes fails call =>
    simp only [step, Option.ite_none_left_eq_some, Option.some.injEq] at hstep
    obtain ⟨-, rfl⟩ := hstep
    exact hoff
  | setLearning fails call enabled now =>
    obtain ⟨scopes, hscopes, rfl⟩ := Option.map_eq_some_iff.mp hstep
    rcases rowAfter_cases s.row fails (.ok (some (learningSettings scopes enabled now))) with
      hrow | hwritten
    · simpa only [hrow] using hoff
    · obtain ⟨doc, rfl, hok, hrow⟩ := hwritten
      obtain rfl := Option.some.inj (Except.ok.inj hok)
      simp only [hrow, Off, switchAt_learningSettings]
      split_ifs with huser
      · cases enabled with
        | false => rfl
        | true => exact absurd ⟨rfl, rfl, huser⟩ hlifts
      · exact hfaithful scopes hscopes scope ref control huser hoff
  | deleteScope fails scope' project' session' now =>
    obtain ⟨ref', href', rfl⟩ := Option.map_eq_some_iff.mp hstep
    rcases rowAfter_cases s.row fails (deleteControlScope s.row scope' ref' now) with
      hrow | hwritten
    · simpa only [hrow] using hoff
    · obtain ⟨doc, rfl, hok, hrow⟩ := hwritten
      simp only [hrow, Off, switchAt_deleteControlScope hok]
      split_ifs with hsame
      · obtain ⟨rfl, rfl⟩ := eq_of_sameScope href href' hsame
        exact absurd ⟨rfl, rfl, href', _, hok⟩ hlifts
      · exact hoff

lemma off_of_reach
    (href : controlScopeRef host scope project session = some ref)
    (hoff : Off s.row scope ref control)
    (h : Steps.Reach (step host) (fun s e => Faithful s e ∧ ¬ Lifts host scope ref control s e)
      s s') : Off s'.row scope ref control :=
  h.invariant (I := fun s => Off s.row scope ref control) hoff
    fun _ _ _ hoff hok hstep => off_step href hoff hok.1 hok.2 hstep

lemma ref_ne_empty (href : controlScopeRef host scope project session = some ref)
    (hscope : scope ≠ .user) : ref ≠ "" := by
  cases scope with
  | user => exact absurd rfl hscope
  | project | session =>
    simp only [controlScopeRef, Option.ite_none_left_eq_some, Option.some.injEq] at href
    obtain ⟨hne, rfl⟩ := href
    exact hne

def callScope (host : Host) : Transaction → Option (Scope × String)
  | .setControl _ _ _ scope project session _ | .deleteScope _ scope project session _ =>
    if scope = .user then none else (controlScopeRef host scope project session).map (scope, ·)
  | .readScopes _ _ | .setLearning _ _ _ _ => none

/-- A call for one project or session leaves the controls of every other access as they are. -/
lemma enabledAt_step (hstep : step host s e = some s') (hcall : callScope host e = some (scope, ref))
    (hother : ¬ Includes scope ref projectRef sessionRef) :
    enabledAt s'.row control projectRef sessionRef =
      enabledAt s.row control projectRef sessionRef := by
  cases e with
  | setControl fails control' enabled scope' project session now =>
    simp only [callScope, Option.ite_none_left_eq_some, Option.map_eq_some_iff, Prod.mk.injEq]
      at hcall
    obtain ⟨hscope, ref', href, rfl, rfl⟩ := hcall
    simp only [step, href, Option.map_some, Option.some.injEq] at hstep
    subst hstep
    cases hset : Ghost.setControl s.row control' enabled scope' ref' now with
    | error error => cases fails <;> rfl
    | ok doc =>
      cases fails with
      | true => rfl
      | false => exact enabledAt_setControl hset hscope hother
  | deleteScope fails scope' project session now =>
    simp only [callScope, Option.ite_none_left_eq_some, Option.map_eq_some_iff, Prod.mk.injEq]
      at hcall
    obtain ⟨hscope, ref', href, rfl, rfl⟩ := hcall
    simp only [step, href, Option.map_some, Option.some.injEq] at hstep
    subst hstep
    rcases rowAfter_cases s.row fails (deleteControlScope s.row scope' ref' now) with
      hrow | ⟨doc, -, hok, hrow⟩
    · simp only [hrow]
    · simp only [hrow]
      exact enabledAt_deleteControlScope hok hscope hother
  | readScopes fails call | setLearning fails call enabled now => simp [callScope] at hcall

/-- A write of `set_learning_enabled` loses a switch exactly when it is not faithful. -/
lemma faithful_iff {call : Nat} {now : String}
    (hstep : step host s (.setLearning false call enabled now) = some s') :
    Faithful s (.setLearning false call enabled now) ↔
      ∀ scope ref control, scope ≠ .user → Off s.row scope ref control →
        Off s'.row scope ref control := by
  obtain ⟨scopes, hscopes, rfl⟩ := Option.map_eq_some_iff.mp hstep
  simp only [Faithful, hscopes, Option.some.injEq, forall_eq']
  refine forall₅_congr fun scope ref control hscope hoff => ?_
  simp only [Off, rowAfter, switchAt_learningSettings, if_neg hscope]

/-- A control turned off for the user, a project or a session stays off for every access that
includes that scope until a call lifts it, as long as every write of `set_learning_enabled` is
faithful; the writes that are not are those that lose a switch. A call for one project or session
changes no other's controls. -/
theorem switches_stay_off (host : Host) :
    (∀ (s s' : Settings) (control : Control) (scope : Scope) (project session now ref : String)
      (doc : Json), controlScopeRef host scope project session = some ref →
      setControl s.row control false scope ref now = .ok doc →
      Steps.Reach (step host) (fun s e => Faithful s e ∧ ¬ Lifts host scope ref control s e)
        { s with row := some doc } s' →
      ∀ project' session',
        Includes scope ref (normalizeProject host project') (Ghost.sessionRef session') →
        controlEnabled host s'.row control project' session' ≠ .ok true) ∧
    (∀ (s s' : Settings) (call : Nat) (enabled : Bool) (now : String),
      step host s (.setLearning false call enabled now) = some s' →
      (Faithful s (.setLearning false call enabled now) ↔
        ∀ scope ref control, scope ≠ .user → Off s.row scope ref control →
          Off s'.row scope ref control)) ∧
    ∀ (s s' : Settings) (e : Transaction) (scope : Scope) (ref : String),
      step host s e = some s' → callScope host e = some (scope, ref) →
      ∀ control project' session',
        ¬ Includes scope ref (normalizeProject host project') (Ghost.sessionRef session') →
        controlEnabled host s'.row control project' session' =
          controlEnabled host s.row control project' session' := by
  refine ⟨?_, fun s s' call enabled now hstep => faithful_iff hstep, ?_⟩
  · intro s s' control scope project session now ref doc href hset hrun project' session' hincl
    have hoff : Off (some doc) scope ref control := by
      rw [Off, switchAt_setControl hset]
      simp [sameScope]
    exact not_enabledAt_of_off (off_of_reach href hoff hrun) (ref_ne_empty href) hincl
  · intro s s' e scope ref hstep hcall control project' session' hother
    exact enabledAt_step hstep hcall hother

/-! ### A lost switch -/

/-- A file system in which every path is its own resolution. -/
def flatHost : Host := ⟨some⟩

/-- A switch turned off between the two transactions of a `set_learning_enabled` is on again. -/
theorem switch_lost :
    ∃ (s s' : Settings) (doc : Json),
      Steps.Reach (step flatHost) (fun _ _ => True) {} s ∧
      controlScopeRef flatHost .project "shop" "" = some "shop" ∧
      setControl s.row .acceptEvents false .project "shop" "noon" = .ok doc ∧
      Steps.Reach (step flatHost)
        (fun s e => ¬ Lifts flatHost .project "shop" .acceptEvents s e) { s with row := some doc } s' ∧
      controlEnabled flatHost s'.row .acceptEvents "shop" "" = .ok true := by
  refine ⟨⟨none, [(1, [])]⟩, ⟨some (learningSettings [] true "later"), []⟩, _, ?_, ?_, rfl, ?_, ?_⟩
  · exact .step (e := .readScopes false 1) .init trivial rfl
  · decide +kernel
  · exact .step (e := .setLearning false 1 true "later") .init (by simp [Lifts]) rfl
  · decide +kernel

def shopOff : Settings where
  row := some (.obj [
    ("control_scopes", .obj [("project", .obj [("shop", .obj [("accept_events", .bool false)])])]),
    ("learning_enabled", .bool true), ("schema_version", .int 1), ("updated_at", .str "noon")])

/-- The settings while a `set_learning_enabled` is between its transactions. -/
def shopRead : Settings := { shopOff with reads := [(1, readScopes shopOff.row)] }

/-- The settings after that call has written. -/
def shopLater : Settings where
  row := some (learningSettings (readScopes shopOff.row) true "later")

/-- A switch survives a `set_learning_enabled` that reads after it was turned off, and another
project never notices it. -/
theorem switches_stay_off_sample :
    step flatHost {} (.setControl false .acceptEvents false .project "shop" "" "noon") =
      some shopOff ∧
      step flatHost shopRead (.setLearning false 1 true "later") = some shopLater ∧
      controlEnabled flatHost shopLater.row .acceptEvents "shop" "" ≠ .ok true ∧
      controlEnabled flatHost shopOff.row .acceptEvents "farm" "" =
        controlEnabled flatHost none .acceptEvents "farm" "" ∧
      (Faithful shopRead (.setLearning false 1 true "later") ↔
        ∀ scope ref control, scope ≠ .user → Off shopRead.row scope ref control →
          Off shopLater.row scope ref control) := by
  have href : controlScopeRef flatHost .project "shop" "" = some "shop" := by decide +kernel
  have hset : setControl none .acceptEvents false .project "shop" "noon" =
      .ok (shopOff.row.getD .null) := rfl
  have hstep : step flatHost {} (.setControl false .acceptEvents false .project "shop" "" "noon") =
      some shopOff := by simp [step, href, hset, Except.map, rowAfter, shopOff]
  have hread : step flatHost shopOff (.readScopes false 1) = some shopRead := rfl
  have hwrite : step flatHost shopRead (.setLearning false 1 true "later") = some shopLater := rfl
  have hquiet : Faithful shopOff (.readScopes false 1) := trivial
  have hfaithful : Faithful shopRead (.setLearning false 1 true "later") := by
    intro scopes hscopes scope ref control hscope hoff
    obtain rfl : readScopes shopOff.row = scopes := Option.some.inj hscopes
    exact (switchAt_readScopes hscope ref).trans hoff
  have hrun : Steps.Reach (step flatHost) (fun s e => Faithful s e ∧
      ¬ Lifts flatHost .project "shop" .acceptEvents s e) shopOff shopLater :=
    .step (.step .init ⟨hquiet, id⟩ hread) ⟨hfaithful, by simp [Lifts]⟩ hwrite
  have hcall : callScope flatHost (.setControl false .acceptEvents false .project "shop" ""
      "noon") = some (.project, "shop") := by simp [callScope, href]
  refine ⟨hstep, hwrite, ?_, ?_, ?_⟩
  · exact (switches_stay_off flatHost).1 {} shopLater .acceptEvents .project "shop" "" "noon" "shop"
      _ href hset hrun "shop" "" (by decide +kernel)
  · exact (switches_stay_off flatHost).2.2 {} shopOff _ .project "shop" hstep hcall .acceptEvents
      "farm" "" (by decide +kernel)
  · exact (switches_stay_off flatHost).2.1 shopRead shopLater 1 true "later" hwrite

end Ghost

end Codey
