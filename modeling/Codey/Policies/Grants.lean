import Codey.Lib.Since
import Codey.Policies.CommandPermissions
import Mathlib.Data.List.Nodup

/-!
# Grants never widen

A request is answered by a saved grant exactly when a request that compares equal was granted and
its grant has not been revoked since, over every sequence of calls on one file.
-/

namespace Codey

namespace Policies

/-! ### What a request is compared by -/

lemma ShellKind.ofName?_name (kind : ShellKind) : ShellKind.ofName? kind.name = some kind := by
  cases kind <;> decide

lemma Startup.ofName?_name (startup : Startup) : Startup.ofName? startup.name = some startup := by
  cases startup <;> decide

lemma ShellKind.name_injective : Function.Injective ShellKind.name := fun kind kind' h => by
  simpa [ShellKind.ofName?_name] using congrArg ShellKind.ofName? h

lemma Startup.name_injective : Function.Injective Startup.name := fun startup startup' h => by
  simpa [Startup.ofName?_name] using congrArg Startup.ofName? h

lemma ShellSpec.toPayload_injective : Function.Injective ShellSpec.toPayload := by
  rintro ⟨kind, executable, version, startup, binary⟩
    ⟨kind', executable', version', startup', binary'⟩ h
  simp only [ShellSpec.toPayload, Json.obj.injEq, List.cons.injEq, Prod.mk.injEq, Json.str.injEq,
    true_and, and_true] at h
  obtain ⟨rfl, rfl, hkind, hstartup, hversion⟩ := h
  obtain rfl := ShellKind.name_injective hkind
  obtain rfl := Startup.name_injective hstartup
  have hversion : version = version' := by
    cases version <;> cases version' <;> simp_all
  rw [hversion]

/-- What takes part in the comparison of two requests. -/
structure Request where
  project : String
  cwd : String
  command : String
  shell : ShellSpec
  parser : String
  environmentSha256 : String

section Requests

variable (lib : Library) (around : Surroundings)

/-- A request as a grant records it. -/
def Request.identity (request : Request) : Identity where
  project := request.project
  cwd := request.cwd
  command := request.command
  executor := executor lib request.shell request.parser
  environmentSha256 := request.environmentSha256

/-- The pending request is bound to its command, interpreter and parser, is reusable, and is
compared as `request`: by the places that its paths lead to, its command text, its interpreter and
parser, and the digest of the environment. -/
structure Pending.Reusable (pending : Pending) (request : Request) : Prop where
  shell : ShellSpec.fromPayload lib pending.shell = .ok request.shell
  bound : ∃ analysis, boundAnalysis lib pending.command request.shell pending.analysis =
    .ok analysis ∧ analysis.reusable = true ∧ analysis.parser = request.parser
  places : ∃ project cwd, around.resolve (orDot pending.project) = .ok project ∧
    around.resolve (around.join project (orDot pending.cwd)) = .ok cwd ∧
    request.project = around.normcase project ∧ request.cwd = around.normcase cwd
  command : request.command = pending.command
  environment : request.environmentSha256 = environmentSha256 lib around

variable {lib around} {pending : Pending}

lemma boundAnalysis_eq_ok {command : String} {shell : ShellSpec} {value : Json}
    {analysis : ShellAnalysis} : boundAnalysis lib command shell value = .ok analysis ↔
      ShellAnalysis.fromPayload value = .ok analysis ∧
        analysis.matches lib command shell = true ∧ analysis.parser = parserIdentity shell := by
  constructor
  · intro h
    obtain ⟨analysis', hread, h⟩ := except_bind_eq_ok.mp h
    obtain ⟨hbound, h⟩ := except_seq_eq_ok.mp h
    obtain rfl := Except.ok.inj h
    exact ⟨hread, by simpa using hbound⟩
  · rintro ⟨hread, hmatches, hparser⟩
    simp [boundAnalysis, hread, hmatches, hparser, bind, Except.bind, pure, Except.pure]

/-- A pending request is compared in one way. -/
lemma Pending.Reusable.unique {request request' : Request}
    (h : pending.Reusable lib around request) (h' : pending.Reusable lib around request') :
    request = request' := by
  obtain ⟨project, cwd, hproject, hcwd, hplace, hplace'⟩ := h.places
  obtain ⟨project', cwd', hproject', hcwd', hsame, hsame'⟩ := h'.places
  obtain rfl := Except.ok.inj (hproject.symm.trans hproject')
  obtain rfl := Except.ok.inj (hcwd.symm.trans hcwd')
  have hshell : request.shell = request'.shell := Except.ok.inj (h.shell.symm.trans h'.shell)
  obtain ⟨analysis, hbound, -, hparser⟩ := h.bound
  obtain ⟨analysis', hbound', -, hparser'⟩ := h'.bound
  rw [hshell] at hbound
  obtain rfl := Except.ok.inj (hbound.symm.trans hbound')
  have hcommand := h.command.trans h'.command.symm
  have henvironment := h.environment.trans h'.environment.symm
  cases request
  cases request'
  simp_all

/-- A request that is read, may be granted and has an identity is reusable, and not that of a login
shell. -/
lemma exists_reusable {shell : ShellSpec} {analysis : ShellAnalysis} {identity : Identity}
    (hrequest : requestAnalysis lib pending = .ok (shell, analysis))
    (havailable : sessionRuleAvailable lib pending.command shell analysis = true)
    (hidentity : commandIdentity lib around pending shell analysis = .ok identity) :
    ∃ request, pending.Reusable lib around request ∧ request.shell.startup = .noninteractive ∧
      identity = request.identity lib := by
  obtain ⟨shell', hshell, hrequest⟩ := except_bind_eq_ok.mp hrequest
  obtain ⟨analysis', hanalysis, hrequest⟩ := except_bind_eq_ok.mp hrequest
  cases hrequest
  obtain ⟨project, hproject, hidentity⟩ := except_bind_eq_ok.mp hidentity
  obtain ⟨cwd, hcwd, hidentity⟩ := except_bind_eq_ok.mp hidentity
  cases hidentity
  simp only [sessionRuleAvailable, Bool.and_eq_true, decide_eq_true_eq] at havailable
  let request : Request := {
    project := around.normcase project
    cwd := around.normcase cwd
    command := pending.command
    shell := shell
    parser := analysis.parser
    environmentSha256 := environmentSha256 lib around }
  exact ⟨request, ⟨hshell, ⟨analysis, hanalysis, havailable.1.1.2, rfl⟩,
    ⟨project, cwd, hproject, hcwd, rfl, rfl⟩, rfl, rfl⟩, havailable.1.1.1, rfl⟩

/-- A reusable request that is not that of a login shell is read, may be granted and has an
identity. -/
lemma Pending.Reusable.spec {request : Request} (h : pending.Reusable lib around request)
    (hstartup : request.shell.startup = .noninteractive) :
    ∃ analysis, requestAnalysis lib pending = .ok (request.shell, analysis) ∧
      sessionRuleAvailable lib pending.command request.shell analysis = true ∧
      commandIdentity lib around pending request.shell analysis = .ok (request.identity lib) := by
  obtain ⟨hshell, ⟨analysis, hanalysis, hreusable, hparser⟩, hplaces, hcommand, henvironment⟩ := h
  obtain ⟨project, cwd, hproject, hcwd, hproject', hcwd'⟩ := hplaces
  obtain ⟨-, hmatches, hparser'⟩ := boundAnalysis_eq_ok.mp hanalysis
  refine ⟨analysis, ?_, ?_, ?_⟩
  · simp [requestAnalysis, hshell, hanalysis, bind, Except.bind, pure, Except.pure]
  · simp [sessionRuleAvailable, hstartup, hreusable, hmatches, hparser']
  · simp [commandIdentity, hproject, hcwd, Request.identity, hproject', hcwd', hcommand, hparser,
      henvironment, bind, Except.bind, pure, Except.pure]

/-- The identity that a saved grant has to have. -/
lemma grantable_eq_ok {identity : Identity} :
    grantable lib around pending = .ok (some identity) ↔
      ∃ request, pending.Reusable lib around request ∧ request.shell.startup = .noninteractive ∧
        identity = request.identity lib := by
  constructor
  · intro h
    obtain ⟨⟨shell, analysis⟩, hrequest, h⟩ := except_bind_eq_ok.mp h
    dsimp only at h
    split_ifs at h with havailable
    · cases hidentity : commandIdentity lib around pending shell analysis with
      | error e =>
        rw [hidentity] at h
        cases h
      | ok identity' =>
        rw [hidentity] at h
        cases h
        exact exists_reusable hrequest havailable hidentity
    · cases h
  · rintro ⟨request, hreusable, hstartup, rfl⟩
    obtain ⟨analysis, hrequest, havailable, hidentity⟩ := hreusable.spec hstartup
    simp [grantable, hrequest, havailable, hidentity, bind, Except.bind, Except.map]

/-- A reusable request that is not that of a login shell may be remembered for its session. -/
lemma Pending.Reusable.rememberable {request : Request} (h : pending.Reusable lib around request)
    (hstartup : request.shell.startup = .noninteractive) (pathName : String → String) :
    rememberable lib around pathName pending GrantScope.session.name =
      .ok (grantOf pending .session (request.identity lib)) := by
  obtain ⟨analysis, hrequest, havailable, hidentity⟩ := h.spec hstartup
  simp [Policies.rememberable, ShellSpec.named, hrequest, havailable, hidentity, bind,
    Except.bind, pure, Except.pure]

lemma GrantScope.name_of_named {name message : String} {scope : GrantScope}
    (h : ShellSpec.named (GrantScope.ofName? name) message = .ok scope) : scope.name = name := by
  cases hname : GrantScope.ofName? name with
  | none =>
    rw [hname] at h
    cases h
  | some scope' =>
    rw [hname] at h
    cases h
    simpa using List.find?_some hname

/-- What a grant that may be remembered is for. -/
lemma rememberable_spec {pathName : String → String} {scope : String} {grant : Grant}
    (h : rememberable lib around pathName pending scope = .ok grant) :
    (∃ request, pending.Reusable lib around request ∧ request.shell.startup = .noninteractive ∧
      grant.identity = request.identity lib) ∧ scope = grant.scope.name ∧
      grant.sessionId = if grant.scope = .session then pending.sessionId else "" := by
  obtain ⟨scope', hscope, h⟩ := except_bind_eq_ok.mp h
  obtain ⟨⟨shell, analysis⟩, hrequest, h⟩ := except_bind_eq_ok.mp h
  obtain ⟨havailable, h⟩ := except_seq_eq_ok.mp h
  obtain ⟨-, h⟩ := except_seq_eq_ok.mp h
  obtain ⟨identity, hidentity, h⟩ := except_bind_eq_ok.mp h
  cases h
  refine ⟨exists_reusable hrequest (require_eq_ok.mp havailable) hidentity, ?_, rfl⟩
  exact (GrantScope.name_of_named hscope).symm

end Requests

/-! ### Calls -/

/-- A call that writes the file. The file is locked while a call is at work, so the calls of all
processes come one after another, each with what its process finds around it. -/
inductive Call where
  | remember (around : Surroundings) (pending : Pending) (scope id : String) (fresh : id ≠ "")
  | revoke (id : String)

section Calls

variable (lib : Library) (pathName : String → String)

def Call.run (call : Call) (file : Option Json) : Except String (Option Json) :=
  match call with
  | .remember around pending scope id fresh =>
    Policies.remember lib around pathName pending scope id fresh file
  | .revoke id => Policies.revoke id file

def Call.file (file : Option Json) (call : Call) : Option Json :=
  match call.run lib pathName file with
  | .ok file => file
  | .error _ => file

def after (calls : List Call) : Option Json := calls.foldl (Call.file lib pathName) none

def Saved (file : Option Json) (rule : Rule) : Prop :=
  ∃ rules, readRules file = .ok rules ∧ rule ∈ rules

def Call.Remembers (grant : Grant) (before : List Call) (call : Call) : Prop :=
  ∃ around pending scope id fresh file, call = .remember around pending scope id fresh ∧
    call.run lib pathName (after lib pathName before) = .ok file ∧
    rememberable lib around pathName pending scope = .ok grant

def Call.Keeps (grant : Grant) (before : List Call) (call : Call) : Prop :=
  ∀ rule, Saved (after lib pathName before) rule → rule.grant = grant → call ≠ .revoke rule.id

/-- The call remembers the grant for a request that compares equal, for the same session or for the
project. -/
def Call.RemembersFor (request : Request) (sessionId : String) (grant : Grant)
    (before : List Call) (call : Call) : Prop :=
  call.Remembers lib pathName grant before ∧
    ∃ around pending scope id fresh, call = .remember around pending scope id fresh ∧
      pending.Reusable lib around request ∧
      (scope = "project" ∨ (scope = "session" ∧ pending.sessionId = sessionId))

variable {lib pathName} {file : Option Json} {rules : List Rule} {calls : List Call}

lemma after_snoc (call : Call) :
    after lib pathName (calls ++ [call]) = call.file lib pathName (after lib pathName calls) := by
  simp [after]

lemma file_of_error {around : Surroundings} {pending : Pending} {scope id e : String}
    {fresh : id ≠ ""} (h : rememberable lib around pathName pending scope = .error e) :
    (Call.remember around pending scope id fresh).file lib pathName file = file := by
  simp [Call.file, Call.run, remember, h, bind, Except.bind]

lemma run_remember {around : Surroundings} {pending : Pending} {scope id : String}
    {fresh : id ≠ ""} {grant : Grant} (hread : readRules file = .ok rules)
    (h : rememberable lib around pathName pending scope = .ok grant) :
    (Call.remember around pending scope id fresh).run lib pathName file =
      .ok (if rules.any (·.grant = grant) then file
        else some (writeRules (rules ++ [{ id := id, grant := grant, named := fresh }]))) := by
  simp only [Call.run, remember, h, hread, bind, Except.bind, pure, Except.pure]

lemma read_remember {around : Surroundings} {pending : Pending} {scope id : String}
    {fresh : id ≠ ""} {grant : Grant} (hread : readRules file = .ok rules)
    (h : rememberable lib around pathName pending scope = .ok grant) :
    readRules ((Call.remember around pending scope id fresh).file lib pathName file) =
      .ok (if rules.any (·.grant = grant) then rules
        else rules ++ [{ id := id, grant := grant, named := fresh }]) := by
  rw [Call.file, run_remember hread h]
  dsimp only
  split_ifs
  · exact hread
  · exact readRules_writeRules _

lemma read_revoke {id : String} (hread : readRules file = .ok rules) :
    readRules ((Call.revoke id).file lib pathName file) = .ok (rules.filter (·.id ≠ id)) := by
  have hrun : (Call.revoke id).run lib pathName file =
      .ok (some (writeRules (rules.filter (·.id ≠ id)))) := by
    simp only [Call.run, revoke, hread, bind, Except.bind, pure, Except.pure]
  rw [Call.file, hrun]
  exact readRules_writeRules _

/-- The file can be read, no two rows hold one grant, and these are the grants that it holds. -/
def Holds (file : Option Json) (grants : Grant → Prop) : Prop :=
  ∃ rules, readRules file = .ok rules ∧ (rules.map (·.grant)).Nodup ∧
    ∀ grant, (∃ rule ∈ rules, rule.grant = grant) ↔ grants grant

/-- A call remembers the grant of its request, when the file can be read. -/
lemma remembers_iff {around : Surroundings} {pending : Pending} {scope id : String}
    {fresh : id ≠ ""} {grant : Grant} (hread : readRules (after lib pathName calls) = .ok rules) :
    (Call.remember around pending scope id fresh).Remembers lib pathName grant calls ↔
      rememberable lib around pathName pending scope = .ok grant := by
  constructor
  · rintro ⟨around, pending, scope, id, fresh, file, hcall, -, hgrant⟩
    cases hcall
    exact hgrant
  · intro hgrant
    exact ⟨around, pending, scope, id, fresh, _, rfl, run_remember hread hgrant, hgrant⟩

/-- The rows that a revocation leaves hold the grants that it keeps. -/
lemma exists_of_revoke {id : String} {grant : Grant}
    (hread : readRules (after lib pathName calls) = .ok rules)
    (hnodup : (rules.map (·.grant)).Nodup) :
    (∃ rule ∈ rules.filter (·.id ≠ id), rule.grant = grant) ↔
      (∃ rule ∈ rules, rule.grant = grant) ∧ (Call.revoke id).Keeps lib pathName grant calls := by
  constructor
  · rintro ⟨rule, hrule, rfl⟩
    obtain ⟨hrule, hid⟩ := List.mem_filter.mp hrule
    refine ⟨⟨rule, hrule, rfl⟩, ?_⟩
    rintro rule' ⟨rules', hread', hrule'⟩ hgrant hcall
    rw [hread] at hread'
    cases hread'
    obtain rfl := List.inj_on_of_nodup_map hnodup hrule' hrule hgrant
    cases hcall
    simp at hid
  · rintro ⟨⟨rule, hrule, hgrant⟩, hkeeps⟩
    refine ⟨rule, List.mem_filter.mpr ⟨hrule, ?_⟩, hgrant⟩
    exact decide_eq_true fun hid => hkeeps rule ⟨rules, hread, hrule⟩ hgrant (hid ▸ rfl)

/-- The rows that hold a grant after one more, and at most one row holds it. -/
lemma holds_added {id : String} (fresh : id ≠ "") (added : Grant)
    (hnodup : (rules.map (·.grant)).Nodup) {rules' : List Rule}
    (hrules : rules' = if rules.any (·.grant = added) then rules
      else rules ++ [{ id := id, grant := added, named := fresh }]) :
    (rules'.map (·.grant)).Nodup ∧ ∀ grant, (∃ rule ∈ rules', rule.grant = grant) ↔
      added = grant ∨ ∃ rule ∈ rules, rule.grant = grant := by
  subst hrules
  split_ifs with hany
  · refine ⟨hnodup, fun grant => ⟨Or.inr, ?_⟩⟩
    rintro (rfl | h)
    · simpa using hany
    · exact h
  · refine ⟨?_, fun grant => ?_⟩
    · have hnew : added ∉ rules.map (·.grant) := by simpa using hany
      simpa [List.nodup_append, hnodup] using fun rule hrule h =>
        hnew (List.mem_map.mpr ⟨rule, hrule, h⟩)
    · simp only [List.mem_append, List.mem_singleton]
      constructor
      · rintro ⟨rule, hrule | rfl, rfl⟩
        · exact Or.inr ⟨rule, hrule, rfl⟩
        · exact Or.inl rfl
      · rintro (rfl | ⟨rule, hrule, rfl⟩)
        · exact ⟨_, Or.inr rfl, rfl⟩
        · exact ⟨rule, Or.inl hrule, rfl⟩

/-- What one call does to the grants that the file holds. -/
lemma Holds.step {grants : Grant → Prop} (h : Holds (after lib pathName calls) grants)
    (call : Call) : Holds (after lib pathName (calls ++ [call])) fun grant =>
      call.Remembers lib pathName grant calls ∨
        (grants grant ∧ call.Keeps lib pathName grant calls) := by
  obtain ⟨rules, hread, hnodup, hgrants⟩ := h
  rw [after_snoc]
  cases call with
  | revoke id =>
    have hnot : ∀ grant, ¬(Call.revoke id).Remembers lib pathName grant calls := by
      rintro grant ⟨_, _, _, _, _, _, hcall, -⟩
      cases hcall
    refine ⟨_, read_revoke hread, hnodup.sublist (List.filter_sublist.map _), fun grant => ?_⟩
    rw [exists_of_revoke hread hnodup, hgrants]
    exact (or_iff_right (hnot grant)).symm
  | remember around pending scope id fresh =>
    have hkeeps : ∀ grant, (Call.remember around pending scope id fresh).Keeps lib pathName grant
        calls := fun grant rule _ _ h => by cases h
    simp only [remembers_iff hread, hkeeps, and_true]
    cases hgrant : rememberable lib around pathName pending scope with
    | error e =>
      rw [file_of_error hgrant]
      exact ⟨rules, hread, hnodup, fun grant => by simp [hgrants]⟩
    | ok added =>
      obtain ⟨hnodup', hrows⟩ := holds_added fresh added hnodup rfl
      exact ⟨_, read_remember hread hgrant, hnodup', fun grant => by simp [hrows, hgrants]⟩

/-- The file holds the grants that were remembered and have not been revoked since. -/
theorem holds_after (lib : Library) (pathName : String → String) (calls : List Call) :
    Holds (after lib pathName calls) fun grant =>
      Since (Call.Remembers lib pathName grant) (Call.Keeps lib pathName grant) calls := by
  induction calls using List.reverseRecOn with
  | nil => exact ⟨[], rfl, List.nodup_nil, by simp⟩
  | append_singleton calls call ih => simpa only [since_snoc] using ih.step call

end Calls

/-! ### What a saved grant answers -/

section Answers

variable {lib : Library} {pathName : String → String}

/-- The paths that a call finds are settled: a place whose spelling is normalised leads to itself,
and is not without a name. -/
def Surroundings.Settled (around : Surroundings) : Prop :=
  ∀ path place, around.resolve path = .ok place → around.normcase place ≠ "" ∧
    ∃ place', around.resolve (around.normcase place) = .ok place' ∧
      around.normcase place' = around.normcase place

def Library.TellsExecutors (lib : Library) : Prop :=
  ∀ shell parser shell' parser', executor lib shell parser = executor lib shell' parser' →
    shell.toPayload = shell'.toPayload ∧ parser = parser'

def Grant.Answers (grant : Grant) (sessionId : String) : Prop :=
  (grant.scope = .session ∧ grant.sessionId = sessionId) ∨ grant.scope = .project

lemma Request.identity_injective (hlib : lib.TellsExecutors) :
    Function.Injective (Request.identity lib) := by
  rintro ⟨project, cwd, command, shell, parser, environment⟩
    ⟨project', cwd', command', shell', parser', environment'⟩ h
  simp only [Request.identity, Identity.mk.injEq] at h
  obtain ⟨rfl, rfl, rfl, hexecutor, rfl⟩ := h
  obtain ⟨hshell, rfl⟩ := hlib _ _ _ _ hexecutor
  obtain rfl := ShellSpec.toPayload_injective hshell
  rfl

/-- The rows that are listed for a request. -/
lemma listRules_eq_ok {around : Surroundings} {pending : Pending} {request : Request}
    {file : Option Json} {rules : List Rule} (hsettled : around.Settled)
    (hreusable : pending.Reusable lib around request) (hread : readRules file = .ok rules) :
    listRules around file pending.sessionId request.project = .ok (rules.filter fun rule =>
      (rule.grant.scope = .session && rule.grant.sessionId = pending.sessionId) ||
        (rule.grant.scope = .project && rule.grant.identity.project = request.project)) := by
  obtain ⟨project, cwd, hproject, -, hplace, -⟩ := hreusable.places
  obtain ⟨hnamed, place, hresolve, hplace'⟩ := hsettled _ _ hproject
  rw [← hplace] at hnamed hresolve hplace'
  rw [listRules, hread]
  refine filterE_eq_ok fun rule _ => ?_
  rw [listed, Bool.false_or]
  by_cases hsession : (rule.grant.scope = .session && rule.grant.sessionId = pending.sessionId) = true
  · rw [if_pos hsession, hsession, Bool.true_or]
  rw [if_neg hsession, Bool.not_eq_true _ |>.mp hsession, Bool.false_or]
  by_cases hscope : rule.grant.scope = .project
  · simp [hnamed, hscope, hresolve, hplace', bind, Except.bind, pure, Except.pure]
  · simp [hscope]

/-- Which rows answer a request. -/
lemma matching_eq_some {around : Surroundings} {pending : Pending} {file : Option Json}
    {rules : List Rule} (hsettled : around.Settled) (hread : readRules file = .ok rules) :
    (∃ rule, matching lib around pending file = .ok (some rule)) ↔
      ∃ request, pending.Reusable lib around request ∧ request.shell.startup = .noninteractive ∧
        ∃ rule ∈ rules, rule.grant.identity = request.identity lib ∧
          rule.grant.Answers pending.sessionId := by
  unfold matching
  constructor
  · rintro ⟨rule, h⟩
    cases hgrantable : grantable lib around pending with
    | error e =>
      rw [hgrantable] at h
      cases h
    | ok identity =>
      cases identity with
      | none =>
        rw [hgrantable] at h
        cases h
      | some identity =>
        obtain ⟨request, hreusable, hstartup, rfl⟩ := grantable_eq_ok.mp hgrantable
        rw [hgrantable] at h
        dsimp only at h
        rw [show (request.identity lib).project = request.project from rfl,
          listRules_eq_ok hsettled hreusable hread] at h
        have hfind := Except.ok.inj h
        obtain ⟨hrule, hlisted⟩ := List.mem_filter.mp (List.mem_of_find?_eq_some hfind)
        refine ⟨request, hreusable, hstartup, rule, hrule, by simpa using List.find?_some hfind, ?_⟩
        simp only [Bool.or_eq_true, Bool.and_eq_true, decide_eq_true_eq] at hlisted
        exact hlisted.imp_right And.left
  · rintro ⟨request, hreusable, hstartup, rule, hrule, hidentity, hanswers⟩
    rw [grantable_eq_ok.mpr ⟨request, hreusable, hstartup, rfl⟩]
    dsimp only
    rw [show (request.identity lib).project = request.project from rfl,
      listRules_eq_ok hsettled hreusable hread]
    have hproject : rule.grant.identity.project = request.project := by
      rw [hidentity]
      rfl
    have hlisted : rule ∈ rules.filter fun rule =>
        (rule.grant.scope = .session && rule.grant.sessionId = pending.sessionId) ||
          (rule.grant.scope = .project && rule.grant.identity.project = request.project) :=
      List.mem_filter.mpr ⟨hrule, by simpa [hproject, Grant.Answers] using hanswers⟩
    obtain ⟨found, hfound⟩ := Option.isSome_iff_exists.mp
      (List.find?_isSome (p := (·.grant.identity = request.identity lib)) |>.mpr
        ⟨rule, hlisted, decide_eq_true hidentity⟩)
    exact ⟨found, congrArg Except.ok hfound⟩

/-- The grant that a call remembers answers a request exactly when the call was made for a request
that compares equal, in its session or with project scope. -/
lemma remembersFor_iff (hlib : lib.TellsExecutors) {request : Request} {sessionId : String}
    {grant : Grant} {before : List Call} {call : Call} :
    call.RemembersFor lib pathName request sessionId grant before ↔
      call.Remembers lib pathName grant before ∧ grant.identity = request.identity lib ∧
        grant.Answers sessionId := by
  refine and_congr_right fun hremembers => ?_
  obtain ⟨around, pending, scope, id, fresh, file, rfl, -, hgrant⟩ := hremembers
  obtain ⟨⟨request', hreusable, -, hidentity⟩, rfl, hsession⟩ := rememberable_spec hgrant
  constructor
  · rintro ⟨_, _, _, _, _, hcall, hreusable', hscope⟩
    cases hcall
    refine ⟨hidentity.trans (congrArg _ (hreusable.unique hreusable')), ?_⟩
    cases hgrantScope : grant.scope with
    | project => exact Or.inr hgrantScope
    | session =>
      simp only [hgrantScope, GrantScope.name, if_true] at hscope hsession
      exact Or.inl ⟨hgrantScope, hsession.trans (by simpa using hscope)⟩
  · rintro ⟨hidentity', hanswers⟩
    obtain rfl := Request.identity_injective hlib (hidentity.symm.trans hidentity')
    refine ⟨around, pending, grant.scope.name, id, fresh, rfl, hreusable, ?_⟩
    obtain ⟨hscope, hsame⟩ | hscope := hanswers
    · rw [hscope, if_pos rfl] at hsession
      exact Or.inr ⟨by rw [hscope]; rfl, hsession.symm.trans hsame⟩
    · exact Or.inl (by rw [hscope]; rfl)

def Answered (lib : Library) (pathName : String → String) (calls : List Call)
    (around : Surroundings) (pending : Pending) : Prop :=
  ∃ rule, matching lib around pending (after lib pathName calls) = .ok (some rule)

/-- Some earlier call remembered a grant for a request that compares equal, for the same session or
with project scope, and that grant has not been revoked since. -/
def Granted (lib : Library) (pathName : String → String) (calls : List Call) (request : Request)
    (sessionId : String) : Prop :=
  ∃ grant, Since (Call.RemembersFor lib pathName request sessionId grant)
    (Call.Keeps lib pathName grant) calls

theorem answered_iff (hlib : lib.TellsExecutors) {calls : List Call} {around : Surroundings}
    (hsettled : around.Settled) (pending : Pending) :
    Answered lib pathName calls around pending ↔ ∃ request, pending.Reusable lib around request ∧
      Granted lib pathName calls request pending.sessionId := by
  obtain ⟨rules, hread, -, hheld⟩ := holds_after lib pathName calls
  rw [Answered, matching_eq_some hsettled hread]
  constructor
  · rintro ⟨request, hreusable, -, rule, hrule, hidentity, hanswers⟩
    refine ⟨request, hreusable, rule.grant, ?_⟩
    exact ((hheld _).mp ⟨rule, hrule, rfl⟩).imp
      (fun before call h => (remembersFor_iff hlib).mpr ⟨h, hidentity, hanswers⟩) fun _ _ h => h
  · rintro ⟨request, hreusable, grant, hsince⟩
    obtain ⟨rule, hrule, rfl⟩ := (hheld grant).mpr (hsince.imp (fun _ _ h => h.1) fun _ _ h => h)
    obtain ⟨before, call, later, -, hcall, -⟩ := hsince
    obtain ⟨hremembers, hidentity, hanswers⟩ := (remembersFor_iff hlib).mp hcall
    refine ⟨request, hreusable, ?_, rule, hrule, hidentity, hanswers⟩
    -- the request that was granted was not that of a login shell
    obtain ⟨around', pending', scope, id, fresh, file, -, -, hgrant⟩ := hremembers
    obtain ⟨⟨request', -, hstartup, hidentity'⟩, -, -⟩ := rememberable_spec hgrant
    obtain rfl := Request.identity_injective hlib (hidentity.symm.trans hidentity')
    exact hstartup

end Answers

/-! ### The whole -/

/-- An analysis of `cmd.exe` is of its command and its interpreter. -/
lemma available_of_cmd {lib : Library} {others : String → ShellSpec → String → ShellAnalysis}
    {command : String} {shell : ShellSpec} (hkind : shell.kind = .cmd)
    (hstartup : shell.startup = .noninteractive) :
    sessionRuleAvailable lib command shell (analyzeShell lib others command shell) =
      (analyzeShell lib others command shell).reusable := by
  have hdigest : (analyzeShell lib others command shell).commandSha256 = lib.sha256 command := by
    unfold analyzeShell cmdAnalysis
    dsimp only
    split_ifs
    · rfl
    · rfl
    · cases cmdLex 0 command.toList {} <;> rfl
  simp [sessionRuleAvailable, hstartup, ShellAnalysis.matches, hdigest,
    show (analyzeShell lib others command shell).shellSha256 = shellIdentity lib shell from rfl,
    show (analyzeShell lib others command shell).parser = parserIdentity shell from rfl]

/-- A text with its quotation marks and backslashes escaped. -/
def escaped : List Char → List Char
  | [] => []
  | ch :: cs => if ch = '"' || ch = '\\' then '\\' :: ch :: escaped cs else ch :: escaped cs

def quoted (s : String) : List Char := '"' :: escaped s.toList ++ ['"']

def objectText (text : Json → List Char) (members : Fields) : List Char :=
  "\x7b".toList ++ ", ".toList.intercalate (members.map fun member =>
    quoted member.1 ++ ": ".toList ++ text member.2) ++ "\x7d".toList

def plainText : Json → List Char
  | .str s => quoted s
  | .obj members => objectText (fun value => (value.str?.map quoted).getD "null".toList) members
  | _ => "null".toList

def payloadText : Json → String
  | .obj members => String.ofList (objectText plainText members)
  | value => String.ofList (plainText value)

/-- A text in quotation marks ends where it was ended. -/
lemma escaped_append_inj {cs cs' t t' : List Char}
    (h : escaped cs ++ '"' :: t = escaped cs' ++ '"' :: t') : cs = cs' ∧ t = t' := by
  have hmark : ∀ {ch : Char}, ¬(ch = '"' || ch = '\\') = true → '"' ≠ ch ∧ '\\' ≠ ch := by
    intro ch hch
    exact ⟨by rintro rfl; exact hch rfl, by rintro rfl; exact hch rfl⟩
  induction cs generalizing cs' with
  | nil =>
    cases cs' with
    | nil => simpa [escaped] using h
    | cons ch' cs' =>
      simp only [escaped] at h
      split_ifs at h with hch'
      · simp at h
      · exact absurd (List.cons.inj h).1 (hmark hch').1
  | cons ch cs ih =>
    cases cs' with
    | nil =>
      simp only [escaped] at h
      split_ifs at h with hch
      · simp at h
      · exact absurd (List.cons.inj h).1.symm (hmark hch).1
    | cons ch' cs' =>
      simp only [escaped] at h
      split_ifs at h with hch hch' hch'
      · simp only [List.cons_append, List.cons.injEq, true_and] at h
        exact ⟨congrArg₂ _ h.1 (ih h.2).1, (ih h.2).2⟩
      · exact absurd (List.cons.inj h).1 (hmark hch').2
      · exact absurd (List.cons.inj h).1.symm (hmark hch).2
      · simp only [List.cons_append, List.cons.injEq] at h
        exact ⟨congrArg₂ _ h.1 (ih h.2).1, (ih h.2).2⟩

lemma quoted_append_inj {s s' : String} {t t' : List Char} (h : quoted s ++ t = quoted s' ++ t') :
    s = s' ∧ t = t' := by
  have h : escaped s.toList ++ '"' :: t = escaped s'.toList ++ '"' :: t' := by
    simpa [quoted] using h
  obtain ⟨hs, ht⟩ := escaped_append_inj h
  exact ⟨String.toList_injective hs, ht⟩

/-- A library for texts of plain characters, with the digests of one request. -/
def plainLibrary : Library where
  sha256 s :=
    if s.toList = "git status".toList then "e62b04aadf39df1a47b771265e4ae5c452df3f1903d5c263ab00f088e86102f6"
    else if "\x7b\"binary".toList.isPrefixOf s.toList then
      "b22a27d628e1ff2e3e871927fa0b51e3044afb30f60f5b5565b31fcf0de257d1"
    else "f58ab7a9306f85e1db1fe3e19dfeb77912fdd34398bce28468d6dddfafb0fc6b"
  dumps := payloadText
  lower s := String.ofList (s.toList.map Char.toLower)
  windowsStem s := if s = "C:\\Windows\\System32\\cmd.exe" then some "cmd" else none

lemma plainLibrary_tells : plainLibrary.TellsExecutors := by
  intro shell parser shell' parser' h
  have h := congrArg String.toList h
  simp only [executor, plainLibrary, payloadText, objectText, ShellSpec.toPayload, plainText,
    String.toList_ofList, List.map_cons, List.map_nil, List.intercalate, List.intersperse,
    List.flatten_cons, List.flatten_nil, List.append_assoc, List.append_cancel_left_eq,
    Json.str?_str, Option.map_some, Option.getD_some] at h
  obtain ⟨rfl, h⟩ := quoted_append_inj h
  simp only [List.append_cancel_left_eq] at h
  obtain ⟨hbinary, h⟩ := quoted_append_inj h
  simp only [List.append_cancel_left_eq] at h
  obtain ⟨hexecutable, h⟩ := quoted_append_inj h
  simp only [List.append_cancel_left_eq] at h
  obtain ⟨hkind, h⟩ := quoted_append_inj h
  simp only [List.append_cancel_left_eq] at h
  obtain ⟨hstartup, h⟩ := quoted_append_inj h
  simp only [List.append_cancel_left_eq, List.append_cancel_right_eq] at h
  refine ⟨?_, rfl⟩
  have hversion : shell.version = shell'.version := by
    cases hversion : shell.version with
    | none =>
      cases hversion' : shell'.version with
      | none => rfl
      | some version' =>
        rw [hversion, hversion'] at h
        cases h
    | some version =>
      cases hversion' : shell'.version with
      | none =>
        rw [hversion, hversion'] at h
        cases h
      | some version' =>
        rw [hversion, hversion'] at h
        have happend : quoted version ++ [] = quoted version' ++ [] := by simpa using h
        exact congrArg some (quoted_append_inj happend).1
  rw [ShellSpec.toPayload, ShellSpec.toPayload, hbinary, hexecutable, hkind, hstartup, hversion]

/-! ### One request -/

def cmdShell : ShellSpec where
  kind := .cmd
  executable := "C:\\Windows\\System32\\cmd.exe"
  version := none
  startup := .noninteractive
  binarySha256 := "0000000000000000000000000000000000000000000000000000000000000000"

def wordPayload (s : String) : Json :=
  .obj [("expansions", .arr []), ("literal", .str s), ("raw", .str s)]

/-- The request for `git status`, with its analysis. -/
def statusRequest : Pending where
  project := "/p"
  cwd := ""
  command := "git status"
  sessionId := "s"
  shell := cmdShell.toPayload
  analysis := .obj [
    ("command_sha256",
      .str "e62b04aadf39df1a47b771265e4ae5c452df3f1903d5c263ab00f088e86102f6"),
    ("commands", .arr [.obj [("words", .arr [wordPayload "git", wordPayload "status"])]]),
    ("dynamic", .bool false),
    ("expansions", .arr []),
    ("operators", .arr []),
    ("parser", .str "cmd-literal/v1"),
    ("reason", .str ""),
    ("redirections", .arr []),
    ("shell_sha256",
      .str "b22a27d628e1ff2e3e871927fa0b51e3044afb30f60f5b5565b31fcf0de257d1"),
    ("status", .str "parsed")]

/-- A directory without links, and no variables. -/
def plainDirectory : Surroundings where
  resolve path := .ok (if path = "/p" || path = "/p/." then "/p" else "/")
  join path name := path ++ "/" ++ name
  normcase path := path
  environ _ := none

lemma plainDirectory_settled : plainDirectory.Settled := by
  intro path place h
  have hplace : place = "/p" ∨ place = "/" := by
    have hplace := Except.ok.inj h
    split_ifs at hplace
    · exact Or.inl hplace.symm
    · exact Or.inr hplace.symm
  obtain rfl | rfl := hplace
  · exact ⟨by decide, "/p", rfl, rfl⟩
  · exact ⟨by decide, "/", rfl, rfl⟩

/-- The parsers of the other dialects give up. -/
def noParser (_ : String) (_ : ShellSpec) (commandSha256 : String) : ShellAnalysis where
  commandSha256 := commandSha256
  status := .obscure
  parser := ""

def statusCompared : Request where
  project := "/p"
  cwd := "/p"
  command := "git status"
  shell := cmdShell
  parser := "cmd-literal/v1"
  environmentSha256 := environmentSha256 plainLibrary plainDirectory

def statusAnalysis : ShellAnalysis where
  commandSha256 := "e62b04aadf39df1a47b771265e4ae5c452df3f1903d5c263ab00f088e86102f6"
  status := .parsed
  parser := "cmd-literal/v1"
  commands := [{ words := [
    { raw := "git", literal := some "git" }, { raw := "status", literal := some "status" }] }]
  shellSha256 := "b22a27d628e1ff2e3e871927fa0b51e3044afb30f60f5b5565b31fcf0de257d1"

lemma matches_status : statusAnalysis.matches plainLibrary "git status" cmdShell = true := by
  have hshell : plainLibrary.sha256 (payloadText cmdShell.toPayload) =
      statusAnalysis.shellSha256 := by
    simp only [plainLibrary, payloadText, ShellSpec.toPayload, String.toList_ofList]
    decide
  have hcommand : plainLibrary.sha256 "git status" = statusAnalysis.commandSha256 := by decide
  simp [ShellAnalysis.matches, hcommand, shellIdentity,
    show plainLibrary.dumps = payloadText from rfl,
    hshell]

lemma statusRequest_reusable :
    statusRequest.Reusable plainLibrary plainDirectory statusCompared := by
  have hread : ShellAnalysis.fromPayload statusRequest.analysis = .ok statusAnalysis := by
    decide +kernel
  have hbound : boundAnalysis plainLibrary "git status" cmdShell statusRequest.analysis =
      .ok statusAnalysis :=
    boundAnalysis_eq_ok.mpr ⟨hread, matches_status, rfl⟩
  exact ⟨by decide +kernel, ⟨statusAnalysis, hbound, by decide +kernel, rfl⟩,
    ⟨"/p", "/p", rfl, rfl, rfl, rfl⟩, rfl, rfl⟩

def rememberStatus : Call := .remember plainDirectory statusRequest "session" "r" (by decide)

end Policies

end Codey
