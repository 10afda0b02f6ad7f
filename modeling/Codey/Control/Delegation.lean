import Codey.Control.Commits

/-!
# Delegation

While every creation is fresh, a delegation is bounded and can be revoked for good.
-/

namespace Codey

namespace Control

variable {φ ψ : Type} [DecidableEq φ] [DecidableEq ψ]

open Host (conv rid)

/-- The conversation is delegated to the caller of the command, under the generation that the
command names; or the command creates it. -/
def Permitted (w : World φ) (actor : Actor) (name : String) (args : Fields) : Prop :=
  (∃ config, w.latest (conv args) = some config ∧ config.mode = .delegated ∧
    config.controllerActorId = actor.actorId ∧
    intArg args "control_generation" = config.controlGeneration) ∨
  name = "create_conversation" ∧ w.latest (conv args) = none

/-- The command has been answered already, or has become an input already. -/
def Repeated (h : Host φ ψ) (w : World φ) (actor : Actor) (name : String) (args : Fields) : Prop :=
  (∃ old, w.answered (conv args) (rid args) = some old ∧
    old.fingerprint = h.request actor.actorId name args) ∨
  name = "send_message" ∧ ∃ existing sent,
    w.input? (h.inputIdentity (conv args) (rid args)) = some existing ∧
    existing.sent = some sent ∧ sent.fingerprint =
      h.fingerprint (.obj [("actor", .str actor.actorId), ("params", .obj args)])

/-- No input of an earlier generation runs on: none is permitted to dispatch, and those that are
not over are cancelled. -/
structure Barred (w : World φ) (c : String) (generation : Int) : Prop
    extends Revoked w c generation where
  dispatch : ∀ (env : Env φ) (t : Task φ) (w' : World φ), t.ownedBefore c generation = true →
    (permitsDispatch env t).run w ≠ (.ok true, w')

/-- What delegations are like in a state. -/
structure Delegates (h : Host φ ψ) (w : World φ) : Prop where
  grows : ∀ w' c, Runs h (Event.Fresh h) w w' → w.generation c ≤ w'.generation c
  authorized : ∀ env actor name params w', actor.operator = false →
    Event.Fresh h w (.command env actor name params) →
    (Event.command env actor name params).Step h w w' → w' = w ∨
      ∃ readonly args, h.accepted actor name params = .ok (readonly, args) ∧
        (Permitted w actor name args ∨ Repeated h w actor name args ∧
          Carried w.tasks w'.tasks ∧ ∀ c, w'.latest c = w.latest c)
  repeated : ∀ env actor name params args result v,
    h.accepted actor name params = .ok (false, args) → Host.elsewhere name = false →
    Event.Fresh h w (.command env actor name params) →
    (h.execute env actor name params).run w = (.ok result, v) →
    ∀ env' v', Runs h (Event.Fresh h) v v' → ∃ w',
      (h.execute env' actor name params).run v' = (.ok result, w') ∧ Cancels v' w'
  once : ∀ identity, w.admissions identity ≤ 1
  bounded : ∀ r ∈ w.records, ∀ config, r.config = some config →
    (w.inputs r.conversationId config.controlGeneration : Int) ≤ 1 + config.maxRevisions
  paused : ∀ env actor params command result v,
    h.accepted actor "pause_control" params = .ok command →
    (h.execute env actor "pause_control" params).run w = (.ok result, v) →
    ∀ v', Runs h (Event.Fresh h) v v' →
      Barred v' (conv command.2) (intArg command.2 "control_generation" + 1)
  taken : ∀ env c config paused v, w.latest c = some config → config.mode = .delegated →
    (h.takeoverUi env c paused).run w = (.ok (), v) → ∀ v', Runs h (Event.Fresh h) v v' →
      Barred v' c (config.controlGeneration + 1)

variable {h : Host φ ψ} {env : Env φ} {actor : Actor} {w w' v : World φ}

/-! ### Revocation -/

omit [DecidableEq φ] in
/-- An input of an earlier generation is not dispatched. -/
lemma Revoked.barred {c : String} {generation : Int} (hrevoked : Revoked w c generation) :
    Barred w c generation := by
  refine ⟨hrevoked, fun env t w' howned hrun => ?_⟩
  rw [Task.ownedBefore, Bool.and_eq_true, decide_eq_true_eq, Option.any_eq_true] at howned
  obtain ⟨rfl, sent, hsent, hlt⟩ := howned
  rw [decide_eq_true_eq] at hlt
  unfold permitsDispatch at hrun
  split_ifs at hrun
  · cases hrun
  simp only [hsent] at hrun
  obtain ⟨config, hsee, hrun⟩ := (readOnly_see _).run_bind hrun
  have hlatest := (run_see_eq_ok.mp hsee).1
  split_ifs at hrun with hcurrent
  · -- the generation is not the current one
    cases config with
    | none => cases hcurrent
    | some config =>
      simp only [Option.any_some, Bool.and_eq_true, decide_eq_true_eq] at hcurrent
      have hbarrier := hrevoked.barrier
      rw [generation_of_latest hlatest.symm, hcurrent.1.2] at hbarrier
      exact absurd hlt hbarrier.not_gt
  · obtain ⟨_, _, -, hrun⟩ := Prog.run_bind_eq_ok.mp hrun
    cases hrun

omit [DecidableEq φ] in
lemma revoked_of_cancels {c : String} {config : Config} {s : Record φ}
    (hcancels : Cancels (w.record s) w') (hs : s.conversationId = c)
    (hconfig : s.config = some config)
    (hdone : ∀ t ∈ w'.tasks, t.ownedBefore c config.controlGeneration = true →
      t.status.terminal = true ∨ t.cancelRequested = true) :
    Revoked w' c config.controlGeneration := by
  refine ⟨?_, hdone⟩
  have hlatest : w'.latest c = some config := by
    rw [latest_congr hcancels.records, latest_record, if_pos hs, hconfig]
    rfl
  rw [generation_of_latest hlatest]

variable {args : Fields} {result : Json} {name : String}

/-- Once its receipt is read, an answer is returned as it is, or the command is carried out. -/
lemma line_eq_ok (hrun : (h.line env actor name false args).run w = (.ok result, v)) :
    (∃ old, w.answered (conv args) (rid args) = some old ∧
      old.fingerprint = h.request actor.actorId name args) ∨
    w.answered (conv args) (rid args) = none ∧ ∃ done u,
      Host.Mutated h env actor name args w (some done) u ∧
      ((h.conclude actor name args done).bind fun _ => Prog.ret done.1).run u =
        (.ok result, v) := by
  rw [Host.line, if_neg Bool.false_ne_true] at hrun
  obtain ⟨o, hreceipt, hrun⟩ := (Prog.readOnly_readE _).run_bind hrun
  have hold := (Hashes.run_receipt_eq_ok hreceipt).2
  cases o with
  | some r =>
    obtain ⟨old, hused, hsame, -⟩ := hold
    exact Or.inl ⟨old, hused, hsame⟩
  | none =>
    obtain ⟨done, u, hmutate, hrun⟩ := Prog.run_bind_eq_ok.mp hrun
    exact Or.inr ⟨hold, done, u, Host.mutated_of_leaves (o := some done) hold hmutate, hrun⟩

omit [DecidableEq φ] [DecidableEq ψ] in
/-- A pause that returns for the first time was made under the current generation. -/
lemma guard_of_mutated {args : Fields} {o : Json × Option Config}
    (hm : Host.Mutated h env actor "pause_control" args w (some o) w') :
    ∃ config, w.latest (conv args) = some config ∧ guard actor config args = .ok () := by
  cases hm with
  | paused _ hlatest hguard => exact ⟨_, hlatest, hguard⟩
  | acted hlatest hguard => exact ⟨_, hlatest, hguard⟩
  | created hname | sent hname | resent hname | granted hname => exact absurd hname (by decide)

/-- A pause that has returned has revoked what came before it. -/
lemma revoked_of_line (hfp : Function.Injective h.fingerprint) (hw : Governed h w)
    (hrun : (h.line env actor "pause_control" false args).run w = (.ok result, v)) :
    Revoked v (conv args) (intArg args "control_generation" + 1) := by
  obtain ⟨old, hold, hsame⟩ | ⟨hnone, done, u, hmutated, -⟩ := line_eq_ok hrun
  · -- the pause of before is repeated
    obtain ⟨hmem, hc, -⟩ := of_answered hold
    obtain ⟨config, hconfig, hresult, hgen, -⟩ := pause_of_fingerprint hfp hw.toInv hmem hsame
    obtain ⟨w', hrun', hcancels, hdone⟩ := run_repause env hold hsame hresult
    obtain rfl : v = w' := (Prod.mk.inj (hrun.symm.trans hrun')).2
    rw [hw.conversation old hmem config hconfig, hc] at hdone
    rw [hgen]
    refine ⟨?_, hdone⟩
    rw [generation_congr hcancels.records, ← hc]
    exact Int.ofNat_le.mpr (hw.grows old hmem config hconfig)
  · obtain ⟨config, hlatest, hguard⟩ := guard_of_mutated hmutated
    obtain ⟨w', hrun', hcancels, hdone⟩ := run_pause h env hnone hlatest hguard
    obtain rfl : v = w' := (Prod.mk.inj (hrun.symm.trans hrun')).2
    rw [(guard_eq_ok hguard).1]
    have hdone := hw.latest_conversation hlatest ▸ hdone
    exact revoked_of_cancels hcancels rfl rfl hdone

lemma revoked_of_execute (hfp : Function.Injective h.fingerprint) (hw : Governed h w)
    {params : Json} {command : Bool × Fields}
    (ha : h.accepted actor "pause_control" params = .ok command)
    (hrun : (h.execute env actor "pause_control" params).run w = (.ok result, v)) :
    Revoked v (conv command.2) (intArg command.2 "control_generation" + 1) := by
  obtain ⟨readonly, args⟩ := command
  have hparams := accepted_eq_ok ha
  rw [if_neg (by decide)] at hparams
  subst hparams
  exact revoked_of_line hfp hw ((run_execute_pause env ha w).symm.trans hrun)

lemma runs_importUi {ok : World φ → Event φ → Prop} (hok : ∀ w env item, ok w (.importUi env item))
    {r : Except Failure Unit} (hrun : (h.importUi env).run w = (r, v)) : Runs h ok w v := by
  have hstops := Prog.stops_of_run hrun
  refine Prog.stops_forEach (I := Runs h ok) (fun _ => .refl) (fun _ _ _ => .trans) ?_ hstops
  exact fun item _ u u' hu => .single ⟨_, hok u env item, hu⟩

omit [DecidableEq φ] in
/-- A takeover that has returned has revoked what came before it. -/
lemma revoked_of_takeover (hdigest : Function.Injective h.digest) (hw : Governed h w)
    {c : String} {config : Config} {paused : Bool} (hlatest : w.latest c = some config)
    (hmode : config.mode = .delegated) (hrun : (h.takeover env c paused).run w = (.ok (), v)) :
    Revoked v c (config.controlGeneration + 1) := by
  cases hold : w.answered c (Host.takeoverId (config.controlGeneration + 1)) with
  | none =>
    obtain ⟨w', hrun', hcancels, hdone⟩ := run_takeover h env paused hlatest hmode hold
    obtain rfl : v = w' := (Prod.mk.inj (hrun.symm.trans hrun')).2
    have hdone := hw.latest_conversation hlatest ▸ hdone
    exact revoked_of_cancels hcancels rfl rfl hdone
  | some old =>
    -- the entry would be of a configuration that there is not yet
    exfalso
    rw [Host.takeover] at hrun
    obtain ⟨o, hsee, hrun⟩ := (readOnly_see _).run_bind hrun
    obtain rfl := (run_see_eq_ok.mp hsee).1
    simp only [hlatest, hmode, ne_eq, not_true_eq_false, if_false] at hrun
    obtain ⟨_, u, hwrite, -⟩ := Prog.run_bind_eq_ok.mp hrun
    have hsame : old = takeoverRecord h c (Host.revoked config (Host.takenMode paused)) :=
      hdigest (Hashes.digest_of_write hold hwrite)
    obtain ⟨hmem, hc, -⟩ := of_answered hold
    have hle := hw.grows old hmem _ (congrArg Record.config hsame)
    rw [hc, generation_of_latest hlatest] at hle
    exact Nat.not_succ_le_self _ hle

lemma revoked_of_takeoverUi (hdigest : Function.Injective h.digest) (hw : Governed h w)
    {c : String} {config : Config} {paused : Bool} (hlatest : w.latest c = some config)
    (hmode : config.mode = .delegated) (hrun : (h.takeoverUi env c paused).run w = (.ok (), v)) :
    Revoked v c (config.controlGeneration + 1) := by
  obtain ⟨_, u, himport, hrun⟩ := Prog.run_bind_eq_ok.mp hrun
  have hruns : Runs h (Event.Fresh h) w u := runs_importUi (fun _ _ _ => trivial) himport
  obtain ⟨u', hrun', -, hentries⟩ := run_importUi env hw.toInv
  obtain rfl : u = u' := (Prod.mk.inj (himport.symm.trans hrun')).2
  have hentries := hentries c (hlatest.trans_ne (Option.some_ne_none config))
  exact revoked_of_takeover hdigest (hruns.commits.governed hw)
    ((latest_of_entries hentries).trans hlatest) hmode hrun

/-! ### Repetition -/

omit [DecidableEq φ] [DecidableEq ψ] in
lemma records_of_mutated {name : String} {args : Fields} {o : Option (Json × Option Config)}
    (hm : Host.Mutated h env actor name args w o w') (hpause : name ≠ "pause_control") :
    w'.records = w.records := by
  cases hm with
  | still | created | sent | resent | granted => rfl
  | paused hname => exact absurd hname hpause
  | acted _ _ hacts => exact hacts.records

/-- A command that has been answered returns the same answer, and admits nothing. -/
lemma run_line_of_answered (env : Env φ) (hfp : Function.Injective h.fingerprint)
    (hw : Governed h w) {s : Record φ} (hs : w.answered (conv args) (rid args) = some s)
    (hsame : s.fingerprint = h.request actor.actorId name args) :
    ∃ w', (h.line env actor name false args).run w = (.ok s.result, w') ∧ Cancels w w' := by
  by_cases hpause : name = "pause_control"
  · subst hpause
    obtain ⟨config, -, hresult, -⟩ :=
      pause_of_fingerprint hfp hw.toInv (of_answered hs).1 hsame
    obtain ⟨w', hrun, hcancels, -⟩ := run_repause env hs hsame hresult
    exact ⟨w', hresult ▸ hrun, hcancels⟩
  · refine ⟨w, ?_, .refl w⟩
    have hreceipt : (h.receipt (conv args) actor.actorId name args).run w =
        (.ok (some s.result), w) := by
      rw [Hashes.receipt, Prog.run_readE]
      simp only [hs, hsame, if_true]
    rw [Host.line, if_neg Bool.false_ne_true]
    refine (Prog.run_bind_ok hreceipt).trans ?_
    simp only [ne_eq, hpause, not_false_eq_true, if_true]
    rfl

/-- A command that has returned stands answered. -/
lemma answered_of_line (hfp : Function.Injective h.fingerprint) (hw : Governed h w)
    (hrun : (h.line env actor name false args).run w = (.ok result, v)) :
    ∃ s, v.answered (conv args) (rid args) = some s ∧
      s.fingerprint = h.request actor.actorId name args ∧ s.result = result := by
  obtain ⟨old, hold, hsame⟩ | ⟨hnone, done, u, hmutated, hconclude⟩ := line_eq_ok hrun
  · obtain ⟨w', hrun', hcancels⟩ := run_line_of_answered env hfp hw hold hsame
    obtain ⟨hresult, rfl⟩ := Prod.mk.inj (hrun.symm.trans hrun')
    refine ⟨old, ?_, hsame, (Except.ok.inj hresult).symm⟩
    exact (answered_congr hcancels.records).trans hold
  by_cases hpause : name = "pause_control"
  · subst hpause
    obtain ⟨config, hlatest, hguard⟩ := guard_of_mutated hmutated
    obtain ⟨w', hrun', hcancels, -⟩ := run_pause h env hnone hlatest hguard
    obtain ⟨hresult, rfl⟩ := Prod.mk.inj (hrun.symm.trans hrun')
    have hanswered : v.answered (conv args) (rid args) = some (h.answer (conv args) actor.actorId
        "pause_control" args (Host.revoked config .paused).toJson
        (some (Host.revoked config .paused))) := by
      rw [answered_congr hcancels.records, answered_record]
      exact if_pos ⟨rfl, rfl⟩
    exact ⟨_, hanswered, rfl, (Except.ok.inj hresult).symm⟩
  · -- its answer is written after everything else
    have hunused : u.answered (conv args) (rid args) = none :=
      (answered_congr (records_of_mutated hmutated hpause)).trans hnone
    rw [Host.conclude, if_neg hpause] at hconclude
    obtain ⟨_, u', hwrite, hret⟩ := Prog.run_bind_eq_ok.mp hconclude
    rw [Hashes.run_write_of_unused hunused] at hwrite
    obtain rfl := (Prod.mk.inj hwrite).2
    obtain ⟨hresult, rfl⟩ := Prod.mk.inj hret
    have hanswered := answered_record u
      (h.answer (conv args) actor.actorId name args done.1 done.2) (conv args) (rid args)
    rw [if_pos ⟨rfl, rfl⟩] at hanswered
    exact ⟨_, hanswered, rfl, Except.ok.inj hresult⟩

omit [DecidableEq ψ] in
/-- A message that has been answered is not prepared again. -/
lemma run_prepare_of_answered {name : String} {args : Fields} {s : Record φ}
    (hs : w.answered (conv args) (rid args) = some s)
    (hsame : s.fingerprint = h.request actor.actorId name args) :
    (h.prepare env actor name args).run w = (.ok (), w) := by
  rw [Host.prepare]
  split_ifs with hname
  · subst hname
    have hreceipt : (h.receipt (conv args) actor.actorId "send_message" args).run w =
        (.ok (some s.result), w) := by
      rw [Hashes.receipt, Prog.run_readE]
      simp only [hs, hsame, if_true]
    rw [Host.prepareMessage]
    refine (Prog.run_bind_ok hreceipt).trans ?_
    exact Prog.run_bind_ok (Prog.run_readE _ w)
  · rfl

/-- A command that changes anything is carried out under the control line. -/
lemma execute_eq_ok {params : Json} (ha : h.accepted actor name params = .ok (false, args))
    (hhere : Host.elsewhere name = false)
    (hrun : (h.execute env actor name params).run w = (.ok result, v)) :
    (h.line env actor name false args).run w = (.ok result, v) := by
  rw [Host.execute] at hrun
  obtain ⟨command, hcommand, hrun⟩ := (Prog.readOnly_ofExcept _).run_bind hrun
  obtain rfl := Except.ok.inj ((Prog.run_ofExcept_eq_ok.mp hcommand).1.symm.trans ha)
  rw [hhere, if_neg Bool.false_ne_true] at hrun
  obtain ⟨_, -, hrun⟩ := readOnly_prepare.run_bind hrun
  exact hrun

lemma run_execute_of_answered (env : Env φ) (hfp : Function.Injective h.fingerprint)
    (hw : Governed h w) {params : Json} {s : Record φ}
    (ha : h.accepted actor name params = .ok (false, args)) (hhere : Host.elsewhere name = false)
    (hs : w.answered (conv args) (rid args) = some s)
    (hsame : s.fingerprint = h.request actor.actorId name args) :
    ∃ w', (h.execute env actor name params).run w = (.ok s.result, w') ∧ Cancels w w' := by
  obtain ⟨w', hrun, hcancels⟩ := run_line_of_answered env hfp hw hs hsame
  refine ⟨w', ?_, hcancels⟩
  rw [Host.execute]
  refine (Prog.run_bind_ok (by rw [ha]; rfl)).trans ?_
  rw [hhere, if_neg Bool.false_ne_true]
  exact (Prog.run_bind_ok (run_prepare_of_answered hs hsame)).trans hrun

omit [DecidableEq φ] [DecidableEq ψ] in
/-- The adoption of a chat answers no command. -/
lemma ne_importRecord_of_accepted (hfp : Function.Injective h.fingerprint) {params : Json}
    {readonly : Bool} {s : Record φ} (ha : h.accepted actor name params = .ok (readonly, args))
    (hsame : s.fingerprint = h.request actor.actorId name args) (env : Env φ) (item : UiSession) :
    s ≠ importRecord h env item := by
  rintro rfl
  have hrequest := Json.obj.inj (hfp hsame)
  simp only [List.cons.injEq, Prod.mk.injEq, Json.str.injEq, true_and] at hrequest
  obtain ⟨-, rfl, -⟩ := hrequest
  have hargs := accepted_eq_ok ha
  rw [if_neg (by decide)] at hargs
  obtain ⟨command, hcommand, -⟩ := checked_of_accepted (hargs ▸ ha)
  cases hcommand

/-! ### Authority -/

omit [DecidableEq φ] [DecidableEq ψ] in
/-- What an external actor's command does. -/
lemma permitted_of_served {name : String} {args : Fields} (hexternal : actor.operator = false)
    (hfresh : name = "create_conversation" →
      w.latest (conv args) = none ∨ Used w (conv args) (rid args))
    (hs : h.Served env actor name args w w') : w' = w ∨ Permitted w actor name args ∨
      Repeated h w actor name args ∧ Carried w.tasks w'.tasks ∧ ∀ c, w'.latest c = w.latest c := by
  have hpermitted : ∀ {config}, w.latest (conv args) = some config →
      guard actor config args = .ok () → Permitted w actor name args := by
    intro config hlatest hguard
    obtain ⟨hgen, hop | ⟨hmode, hactor⟩⟩ := guard_eq_ok hguard
    · rw [hexternal] at hop
      cases hop
    · exact Or.inl ⟨config, hlatest, hmode, hactor, hgen⟩
  cases hs with
  | still => exact Or.inl rfl
  | repaused _ hold hsame hcancels =>
    refine Or.inr (Or.inr ⟨Or.inl ⟨_, hold, hsame⟩, hcancels.tasks, fun c => ?_⟩)
    exact latest_congr hcancels.records
  | created hname hnone hconfig =>
    obtain hlatest | hused := hfresh hname
    · exact Or.inr (Or.inl (Or.inr ⟨hname, hlatest⟩))
    · exact absurd hused (answered_eq_none_iff_used.mp hnone)
  | sent _ _ hlatest hsendable | sentAnswered _ _ hlatest hsendable =>
    exact Or.inr (Or.inl (hpermitted hlatest hsendable.guarded))
  | @resent config existing result hname hnone hlatest hexisting hsame =>
    refine Or.inr (Or.inr ⟨Or.inr ⟨hname, existing, ?_⟩, .refl _, fun c => ?_⟩)
    · obtain ⟨sent, hsent, hprint⟩ := Option.map_eq_some_iff.mp hsame
      exact ⟨sent, hexisting, hsent, hprint⟩
    · rw [latest_record]
      split_ifs <;> rfl
  | granted _ _ hlatest hguard | paused _ _ hlatest hguard | acted _ hlatest hguard
    | actedAnswered _ _ hlatest hguard => exact Or.inr (Or.inl (hpermitted hlatest hguard))

/-! ### Delegations -/

/-- In every run whose creations are fresh and whose deletions concern what no command has touched,
delegations are bounded and can be revoked. -/
theorem delegates_of_runs (hfp : Function.Injective h.fingerprint)
    (hdigest : Function.Injective h.digest) (hrun : Runs h (Event.Fresh h) {} w) :
    Delegates h w := by
  have hw : Governed h w := hrun.commits.governed .empty
  refine ⟨fun w' c hruns => hruns.commits.generation_le c, ?_, ?_, hw.once, hw.bounded, ?_, ?_⟩
  · rintro env actor name params w' hexternal hok ⟨readonly, args, ha, hs⟩
    have hserved := Host.served_of_stops hs
    exact (permitted_of_served hexternal (fun hname => hok hname _ ha) hserved).imp_right
      fun hdone => ⟨readonly, args, ha, hdone⟩
  · intro env actor name params args result v ha hhere hok hrun env' v' hruns
    obtain ⟨s, hs, hsame, rfl⟩ := answered_of_line hfp hw (execute_eq_ok ha hhere hrun)
    have hv : Governed h v := by
      obtain rfl | hstep := step_of_execute (Prog.stops_of_run hrun)
      · exact hw
      · exact (commits_of_step hok hstep).governed hw
    have hcommand := ne_importRecord_of_accepted hfp ha hsame
    have hs' := hruns.commits.answered hv hs hcommand
    exact run_execute_of_answered env' hfp (hruns.commits.governed hv) ha hhere hs' hsame
  · intro env actor params command result v ha hrun v' hruns
    exact (hruns.commits.revoked (revoked_of_execute hfp hw ha hrun)).barred
  · intro env c config paused v hlatest hmode hrun v' hruns
    exact (hruns.commits.revoked (revoked_of_takeoverUi hdigest hw hlatest hmode hrun)).barred

theorem delegates_created : Delegates plainHost (created "first") := by
  have hok : (creation "first").Fresh plainHost {} := by
    rintro - _ ⟨⟩
    exact Or.inl rfl
  exact delegates_of_runs Function.injective_id Function.injective_id
    (.single ⟨_, hok, step_creation rfl⟩)

/-- The chat that the creation leaves in the browser. -/
def leftChat : UiSession where
  id := "control_"
  title := "Codex · Codey"
  provider := "deepseek"
  project := "control_"
  modelSelection := .obj []

/-- The arguments of an operator's command on that chat. -/
def operatorArgs (requestId : String) (generation : Int) : Fields :=
  [("conversation_id", .str "control_"), ("request_id", .str requestId),
    ("control_generation", .int generation)]

/-- The conversation is deleted, as a new chat does it. -/
def forgotten : World Json :=
  { created "first" with records := [], tasks := [] }

/-- The chat that was kept is adopted again. -/
def readopted : World Json :=
  ((plainHost.importSession (.empty Json 0) leftChat).run forgotten).2

def regranted : World Json :=
  ((plainHost.line (.empty Json 0) .user "grant_control" false (operatorArgs "grant" 0)).run
    readopted).2

def repaused : World Json :=
  ((plainHost.line (.empty Json 0) .user "pause_control" false (operatorArgs "pause" 1)).run
    regranted).2

def recreated : World Json :=
  ((plainHost.line (.empty Json 0) .codex "create_conversation" false
    (Fields.set [("request_id", .str "first")] "conversation_id" (.str "control_"))).run
    repaused).2

/-- After a new chat in a created conversation, the retry of its creation sets the generation back
and delegates the conversation again. -/
theorem generation_restarts : ∃ w w' c, Runs plainHost (fun _ _ => True) {} w ∧
    Runs plainHost (fun _ _ => True) w w' ∧ w'.generation c < w.generation c := by
  have hfirst : Runs plainHost (fun _ _ => True) {} (created "first") :=
    .single ⟨creation "first", trivial, step_creation rfl⟩
  have hdelete : (Event.delete "control_").Step plainHost (created "first") forgotten :=
    ⟨rfl, rfl⟩
  have himport : (Event.importUi (.empty Json 0) leftChat).Step plainHost forgotten readopted :=
    Prog.stops_run _ _
  have hgrant : (Event.command (.empty Json 0) .user "grant_control"
      (.obj (operatorArgs "grant" 0))).Step plainHost readopted regranted :=
    ⟨false, _, rfl, Prog.stops_run _ _⟩
  have hpause : (Event.command (.empty Json 0) .user "pause_control"
      (.obj (operatorArgs "pause" 1))).Step plainHost regranted repaused :=
    ⟨false, _, rfl, Prog.stops_run _ _⟩
  have hcreate : (creation "first").Step plainHost repaused recreated :=
    ⟨false, _, rfl, Prog.stops_run _ _⟩
  refine ⟨repaused, recreated, "control_", ?_, .single ⟨_, trivial, hcreate⟩, ?_⟩
  · have hadopted := (hfirst.tail ⟨_, trivial, hdelete⟩).tail ⟨_, trivial, himport⟩
    exact (hadopted.tail ⟨_, trivial, hgrant⟩).tail ⟨_, trivial, hpause⟩
  · have hbefore : repaused.generation "control_" = 2 := rfl
    have hafter : recreated.generation "control_" = 1 := rfl
    rw [hbefore, hafter]
    exact Nat.one_lt_two

end Control

end Codey
