import Codey.Control.Generations

/-!
# Revocation

When the user, an operator and the budget poll get a delegated conversation back.
-/

namespace Codey

namespace Control

variable {φ ψ : Type}

open Host (conv rid)

/-- A command, an import or a takeover of the conversation has been answered under the id. -/
def Used (w : World φ) (c requestId : String) : Prop :=
  ∃ r ∈ w.records, r.conversationId = c ∧ r.requestId = requestId

/-- The program succeeds, and leaves the conversation undelegated and under a higher
generation. -/
def Revokes {α : Type} (p : Op φ α) (w : World φ) (c : String) : Prop :=
  ∃ r w' config', p.run w = (.ok r, w') ∧ w'.latest c = some config' ∧
    config'.mode ≠ .delegated ∧ w.generation c < config'.controlGeneration

lemma answered_eq_none_iff_used {w : World φ} {c requestId : String} :
    w.answered c requestId = none ↔ ¬Used w c requestId := by
  simp [answered_eq_none_iff, Used]

lemma exists_answered {w : World φ} {c requestId : String} (hused : Used w c requestId) :
    ∃ r, w.answered c requestId = some r := by
  refine Option.ne_none_iff_exists'.mp fun hnone => ?_
  exact answered_eq_none_iff_used.mp hnone hused

variable {config : Config}

lemma generation_of_latest {w : World φ} {c : String} (hlatest : w.latest c = some config) :
    w.generation c = config.controlGeneration := by
  rw [World.generation, hlatest]
  rfl

lemma not_revokes {α : Type} {p : Op φ α} {w : World φ} {c : String}
    (hsame : ∀ r, (p.run w).1 = .ok r → (p.run w).2.latest c = w.latest c) : ¬Revokes p w c := by
  rintro ⟨r, w', config', hrun, hlatest, -, hlt⟩
  have hsame := hsame r (by rw [hrun])
  rw [hrun] at hsame
  rw [generation_of_latest (hsame.symm.trans hlatest)] at hlt
  exact Nat.lt_irrefl _ hlt

variable [DecidableEq φ] [DecidableEq ψ] {h : Host φ ψ} {env : Env φ} {w : World φ}

/-! ### The pause -/

variable {actor : Actor}

/-- A pause under the current generation whose request id is unused. -/
lemma run_pause (h : Host φ ψ) (env : Env φ) {args : Fields}
    (hnone : w.answered (conv args) (rid args) = none)
    (hlatest : w.latest (conv args) = some config) (hguard : guard actor config args = .ok ()) :
    ∃ w', (h.line env actor "pause_control" false args).run w =
        (.ok (Host.revoked config .paused).toJson, w') ∧
      Cancels (w.record (h.answer (conv args) actor.actorId "pause_control" args
        (Host.revoked config .paused).toJson (some (Host.revoked config .paused)))) w' ∧
      ∀ t ∈ w'.tasks, t.ownedBefore (Host.revoked config .paused).conversationId
          (Host.revoked config .paused).controlGeneration = true →
        t.status.terminal = true ∨ t.cancelRequested = true := by
  obtain ⟨w', hrun, hcancels, hdone⟩ := run_cancelOwned env
    (Host.revoked config .paused).conversationId
    (Host.revoked config .paused).controlGeneration
    (w.record (h.answer (conv args) actor.actorId "pause_control" args
      (Host.revoked config .paused).toJson (some (Host.revoked config .paused))))
  refine ⟨w', ?_, hcancels, hdone⟩
  have hreceipt : (h.receipt (conv args) actor.actorId "pause_control" args).run w =
      (.ok none, w) := by
    rw [Hashes.receipt, Prog.run_readE]
    simp only [hnone]
  have hconfig : (configFor actor (conv args)).run w = (.ok config, w) := by
    rw [configFor, Prog.run_readE]
    have haccess : (actor.operator || actor.actorId = config.createdBy ||
        actor.actorId = config.controllerActorId) = true := by
      obtain hop | ⟨-, hactor⟩ := (guard_eq_ok hguard).2
      · simp [hop]
      · simp [hactor]
    simp only [hlatest, haccess, if_true]
  -- the parts of the pause, in order
  rw [Host.line, if_neg Bool.false_ne_true]
  refine (Prog.run_bind_ok hreceipt).trans ?_
  have hmutate : (h.mutate env actor "pause_control" args).run w =
      (.ok ((Host.revoked config .paused).toJson, none), w') := by
    rw [Host.mutate, if_neg (by decide)]
    refine (Prog.run_bind_ok hconfig).trans ?_
    rw [if_neg (by decide)]
    refine (Prog.run_bind_ok (by rw [hguard]; rfl)).trans ?_
    rw [if_neg (by decide), if_pos rfl]
    refine (Prog.run_bind_ok (Hashes.run_write_of_unused hnone)).trans ?_
    exact Prog.run_bind_ok hrun
  refine (Prog.run_bind_ok hmutate).trans ?_
  rw [Host.conclude, if_pos rfl]
  rfl

omit [DecidableEq φ] in
lemma revokes_of_pause {α : Type} {p : Op φ α} {r : α} {w' : World φ} {c : String}
    {config next : Config} {s : Record φ} (hlatest : w.latest c = some config)
    (hrun : p.run w = (.ok r, w')) (hs : s.conversationId = c) (hconfig : s.config = some next)
    (hmode : next.mode ≠ .delegated)
    (hgen : next.controlGeneration = config.controlGeneration + 1)
    (hcancels : Cancels (w.record s) w') : Revokes p w c := by
  refine ⟨r, w', next, hrun, ?_, hmode, ?_⟩
  · rw [latest_congr hcancels.records, latest_record, if_pos hs, hconfig]
    rfl
  · rw [generation_of_latest hlatest, hgen]
    exact Nat.lt_succ_self _

/-! ### The takeover -/

omit [DecidableEq φ] in
/-- A takeover of a delegated conversation whose request id is unused. -/
lemma run_takeover (h : Host φ ψ) (env : Env φ) {c : String} {config : Config} (paused : Bool)
    (hlatest : w.latest c = some config) (hmode : config.mode = .delegated)
    (hnone : w.answered c (Host.takeoverId (config.controlGeneration + 1)) = none) :
    ∃ w', (h.takeover env c paused).run w = (.ok (), w') ∧
      Cancels (w.record (takeoverRecord h c (Host.revoked config (Host.takenMode paused)))) w' ∧
      ∀ t ∈ w'.tasks, t.ownedBefore (Host.revoked config .paused).conversationId
          (Host.revoked config .paused).controlGeneration = true →
        t.status.terminal = true ∨ t.cancelRequested = true := by
  obtain ⟨w', hrun, hcancels, hdone⟩ := run_cancelOwned env
    (Host.revoked config (Host.takenMode paused)).conversationId
    (Host.revoked config (Host.takenMode paused)).controlGeneration
    (w.record (takeoverRecord h c (Host.revoked config (Host.takenMode paused))))
  refine ⟨w', ?_, hcancels, hdone⟩
  rw [Host.takeover]
  refine (Prog.run_bind_ok (Prog.run_readE _ w)).trans ?_
  simp only [hlatest, hmode, ne_eq, not_true_eq_false, if_false]
  exact (Prog.run_bind_ok (Hashes.run_write_of_unused hnone)).trans hrun

omit [DecidableEq φ] in
/-- A takeover whose request id is used leaves the configuration as it is. -/
lemma latest_takeover_of_used (env : Env φ) {c : String} {config : Config} (paused : Bool)
    (hlatest : w.latest c = some config)
    (hused : Used w c (Host.takeoverId (config.controlGeneration + 1))) (d : String) :
    ((h.takeover env c paused).run w).2.latest d = w.latest d := by
  obtain ⟨old, hold⟩ := exists_answered hused
  have hstop := stops_takeover (Prog.stops_run (h.takeover env c paused) w)
  obtain heq | ⟨config', hlatest', -, hcancels | ⟨hnone, -⟩⟩ := hstop
  · rw [heq]
  · exact latest_congr hcancels.records
  · rw [hlatest] at hlatest'
    obtain rfl := Option.some.inj hlatest'
    rw [hold] at hnone
    cases hnone

omit [DecidableEq φ] in
lemma entries_append {w w' : World φ} {r : Record φ} (hrecords : w'.records = w.records ++ [r])
    {c : String} (hne : r.conversationId ≠ c) : w'.entries c = w.entries c := by
  have heq : w'.entries c = (w.record r).entries c := by
    rw [World.entries, World.entries, hrecords]
    rfl
  rw [heq, entries_record, if_neg hne, List.append_nil]

omit [DecidableEq φ] in
/-- The import succeeds, and leaves configured conversations alone. -/
lemma run_importSession (env : Env φ) (hw : Inv h w) (item : UiSession) :
    ∃ w', (h.importSession env item).run w = (.ok (), w') ∧ Inv h w' ∧
      ∀ c, w.latest c ≠ none → w'.entries c = w.entries c := by
  rw [Host.importSession]
  by_cases hprovider : item.provider = ""
  · rw [if_pos hprovider]
    exact ⟨w, rfl, hw, fun _ _ => rfl⟩
  rw [if_neg hprovider]
  have hsee : (see (·.latest item.id)).run w = (.ok (w.latest item.id), w) := Prog.run_readE _ w
  cases hlatest : w.latest item.id with
  | some config =>
    refine ⟨w, (Prog.run_bind_ok hsee).trans ?_, hw, fun _ _ => rfl⟩
    rw [hlatest]
    rfl
  | none =>
    refine ⟨w.record (importRecord h env item), (Prog.run_bind_ok hsee).trans ?_, ?_, ?_⟩
    · rw [hlatest]
      exact Hashes.run_write_of_unused (hw.answered_of_latest hlatest _)
    · exact hw.writes (Or.inr (Or.inl ⟨_, .imported hlatest, rfl⟩))
    · intro c hc
      refine entries_append rfl fun heq => hc ?_
      rw [← heq]
      exact hlatest

omit [DecidableEq φ] in
lemma run_importUi (env : Env φ) (hw : Inv h w) : ∃ w', (h.importUi env).run w = (.ok (), w') ∧
    Inv h w' ∧
    ∀ c, w.latest c ≠ none → w'.entries c = w.entries c := by
  rw [Host.importUi]
  generalize env.sessions = items
  induction items generalizing w with
  | nil => exact ⟨w, rfl, hw, fun _ _ => rfl⟩
  | cons item items ih =>
    obtain ⟨v, hv, hvinv, hventries⟩ := run_importSession env hw item
    obtain ⟨w', hrun, hw', hentries⟩ := ih hvinv
    refine ⟨w', (Prog.run_bind_ok hv).trans hrun, hw', fun c hc => ?_⟩
    rw [hentries c ?_, hventries c hc]
    rwa [latest_of_entries (hventries c hc)]

omit [DecidableEq φ] in
/-- A real action of the user takes the conversation back exactly when the request id of the
takeover is unused. -/
lemma revokes_takeoverUi_iff (hw : Inv h w) {c : String} {config : Config} (paused : Bool)
    (hlatest : w.latest c = some config) (hmode : config.mode = .delegated) :
    Revokes (h.takeoverUi env c paused) w c ↔
      ¬Used w c (Host.takeoverId (config.controlGeneration + 1)) := by
  obtain ⟨v, hv, hvinv, hentries⟩ := run_importUi env hw
  have hentries := hentries c (by simp [hlatest])
  have hvlatest := (latest_of_entries hentries).trans hlatest
  have hrun : (h.takeoverUi env c paused).run w = (h.takeover env c paused).run v :=
    Prog.run_bind_ok hv
  rw [← answered_eq_none_iff_used, ← answered_of_entries hentries]
  constructor
  · intro hrevokes
    by_contra hused
    rw [answered_eq_none_iff_used, not_not] at hused
    refine not_revokes (fun r _ => ?_) hrevokes
    rw [hrun]
    exact (latest_takeover_of_used env paused hvlatest hused c).trans (latest_of_entries hentries)
  · intro hnone
    obtain ⟨w', htake, hcancels, -⟩ := run_takeover h env paused hvlatest hmode hnone
    have hrevokes : Revokes (h.takeover env c paused) v c := by
      refine revokes_of_pause hvlatest htake rfl rfl ?_ rfl hcancels
      cases paused <;> simp [Host.revoked, Host.takenMode]
    obtain ⟨r, u, config', hu, hulatest, humode, hlt⟩ := hrevokes
    refine ⟨r, u, config', hrun.trans hu, hulatest, humode, ?_⟩
    rwa [generation_of_latest hlatest, ← generation_of_latest hvlatest]

/-! ### The poll -/

/-- Whatever the computation raises is an error for the caller. -/
def Tells {α : Type} (x : Except Failure α) : Prop := ∀ e, x = .error e → e.isControl = true

section Tells

variable {α β : Type}

lemma tells_ok (a : α) : Tells (.ok a : Except Failure α) := fun _ he => nomatch he

lemma tells_error {e : Failure} (he : e.isControl = true) :
    Tells (.error e : Except Failure α) := fun _ heq => Except.error.inj heq ▸ he

lemma tells_bind {x : Except Failure α} {f : α → Except Failure β} (hx : Tells x)
    (hf : ∀ a, Tells (f a)) : Tells (x >>= f) := by
  intro e he
  obtain he | ⟨a, -, he⟩ := except_bind_eq_error.mp he
  · exact hx e he
  · exact hf a e he

lemma tells_require {cond : Bool} {e : Failure} (he : e.isControl = true) :
    Tells (require cond e) := by
  cases cond with
  | true => exact tells_ok ()
  | false => exact tells_error he

lemma tells_checkAll {xs : List α} {f : α → Except Failure Unit} (hf : ∀ x, Tells (f x)) :
    Tells (checkAll xs f) := by
  induction xs with
  | nil => exact tells_ok ()
  | cons x xs ih => exact tells_bind (hf x) fun _ => ih

end Tells

lemma tells_declared (name : String) : Tells (declared name) := by
  unfold declared
  split
  · exact tells_ok _
  · exact tells_error rfl

lemma tells_args (command : Command) (params : Json) : Tells (command.args params) := by
  cases params with
  | obj given =>
    simp only [Command.args]
    split_ifs
    · exact tells_ok _
    · exact tells_error rfl
  | _ => exact tells_error rfl

omit [DecidableEq φ] [DecidableEq ψ] in
/-- The protocol refuses to the caller. -/
lemma tells_accepted (actor : Actor) (name : String) (params : Json) :
    Tells (h.accepted actor name params) := by
  have hvalid : Tells (validateCommand h.frameBytes name params) :=
    tells_bind (tells_declared name) fun command => tells_bind (tells_args command params)
      fun members => tells_bind (tells_require rfl) fun _ =>
      tells_bind (tells_checkAll fun member => tells_bind (tells_require rfl) fun _ =>
        tells_require rfl) fun _ => tells_bind (tells_require rfl) fun _ => tells_ok _
  refine tells_bind hvalid fun args => tells_bind (tells_declared name) fun command =>
    tells_bind (tells_require rfl) fun _ => ?_
  split_ifs
  · exact tells_ok _
  · exact tells_ok _

lemma tells_guard (actor : Actor) (config : Config) (args : Fields) :
    Tells (guard actor config args) := tells_bind (tells_require rfl) fun _ => tells_require rfl

omit [DecidableEq φ] in
lemma tells_configFor (actor : Actor) (c : String) (w : World φ) :
    Tells ((configFor actor c).run w).1 := by
  rw [configFor, Prog.run_readE]
  dsimp only
  split
  · exact tells_error rfl
  · split_ifs
    · exact tells_ok _
    · exact tells_error rfl

/-- A pause that was made already is repeated. -/
lemma run_repause (env : Env φ) {args : Fields} {old : Record φ}
    (hold : w.answered (conv args) (rid args) = some old)
    (hsame : old.fingerprint = h.request actor.actorId "pause_control" args)
    (hresult : old.result = config.toJson) :
    ∃ w', (h.line env actor "pause_control" false args).run w = (.ok config.toJson, w') ∧
      Cancels w w' ∧ ∀ t ∈ w'.tasks,
        t.ownedBefore config.conversationId config.controlGeneration = true →
        t.status.terminal = true ∨ t.cancelRequested = true := by
  obtain ⟨w', hrun, hcancels, hdone⟩ :=
    run_cancelOwned env config.conversationId config.controlGeneration w
  refine ⟨w', ?_, hcancels, hdone⟩
  have hreceipt : (h.receipt (conv args) actor.actorId "pause_control" args).run w =
      (.ok (some config.toJson), w) := by
    rw [Hashes.receipt, Prog.run_readE]
    simp only [hold, hsame, if_true, hresult]
  rw [Host.line, if_neg Bool.false_ne_true]
  refine (Prog.run_bind_ok hreceipt).trans ?_
  simp only [ne_eq, not_true_eq_false, if_false]
  refine (Prog.run_bind_ok (a := (config.conversationId, (config.controlGeneration : Int)))
    rfl).trans ?_
  exact Prog.run_bind_ok hrun

omit [DecidableEq φ] [DecidableEq ψ] in
/-- The entry that answers a pause holds the configuration that the pause left, when no two
requests have one fingerprint. -/
lemma pause_of_fingerprint (hfp : Function.Injective h.fingerprint) (hw : Inv h w)
    {r : Record φ} (hr : r ∈ w.records) {actorId : String} {args : Fields}
    (hsame : r.fingerprint = h.request actorId "pause_control" args) :
    ∃ config, r.config = some config ∧ r.result = config.toJson ∧
      intArg args "control_generation" + 1 = config.controlGeneration ∧
      r.conversationId = conv args := by
  obtain ⟨actorId', operation, params, hprint, hpause⟩ := hw.sound r hr
  have hreq := hfp (hprint.symm.trans hsame)
  simp only [Json.obj.injEq, List.cons.injEq, Prod.mk.injEq, Json.str.injEq, true_and,
    and_true] at hreq
  obtain ⟨-, hoperation, rfl⟩ := hreq
  exact hpause hoperation

/-- A pause raises nothing but what its caller is told. -/
lemma tells_pause (hfp : Function.Injective h.fingerprint) (hw : Inv h w) (env : Env φ)
    (actor : Actor) (args : Fields) :
    Tells ((h.line env actor "pause_control" false args).run w).1 := by
  intro e he
  cases hold : w.answered (conv args) (rid args) with
  | some old =>
    by_cases hsame : old.fingerprint = h.request actor.actorId "pause_control" args
    · obtain ⟨config, -, hresult, -⟩ :=
        pause_of_fingerprint hfp hw (of_answered hold).1 hsame
      obtain ⟨w', hrun, -⟩ := run_repause env hold hsame hresult
      rw [hrun] at he
      cases he
    · have hreceipt : (h.receipt (conv args) actor.actorId "pause_control" args).run w =
          (.error (.control "REQUEST_CONFLICT"
            "This request ID already names different content"), w) := by
        rw [Hashes.receipt, Prog.run_readE]
        simp only [hold, hsame, if_false]
      rw [Host.line, if_neg Bool.false_ne_true, Prog.bind_eq, Prog.run_bind_error hreceipt] at he
      exact Except.error.inj he ▸ rfl
  | none =>
    by_cases hready : ∃ config, w.latest (conv args) = some config ∧
        guard actor config args = .ok ()
    · obtain ⟨config, hlatest, hguard⟩ := hready
      obtain ⟨w', hrun, -⟩ := run_pause h env hold hlatest hguard
      rw [hrun] at he
      cases he
    -- otherwise it is refused before its first commit
    rw [Host.line, if_neg Bool.false_ne_true] at he
    obtain he | ⟨answer, hrun, he⟩ := (Prog.readOnly_readE _).run_bind_error he
    · rw [Prog.run_readE] at he
      simp only [hold] at he
      cases he
    rw [Prog.run_readE] at hrun
    simp only [hold, Prod.mk.injEq, Except.ok.injEq, and_true] at hrun
    subst hrun
    obtain he | ⟨done, t, -, he⟩ := Prog.run_bind_eq_error he
    · rw [Host.mutate, if_neg (by decide)] at he
      obtain he | ⟨config, hrun, he⟩ := (readOnly_configFor _ _).run_bind_error he
      · exact tells_configFor _ _ _ e he
      have hlatest := (run_configFor hrun).1
      rw [if_neg (by decide)] at he
      obtain he | ⟨_, hrun, -⟩ := (Prog.readOnly_ofExcept _).run_bind_error he
      · rw [Prog.run_ofExcept] at he
        exact tells_guard _ _ _ e he
      · exact absurd ⟨config, hlatest, (Prog.run_ofExcept_eq_ok.mp hrun).1⟩ hready
    · rw [Host.conclude, if_pos rfl] at he
      cases he

omit [DecidableEq φ] [DecidableEq ψ] in
/-- The arguments of an accepted pause are those that it came with. -/
lemma args_of_accepted_pause {actor : Actor} {fields args : Fields} {readonly : Bool}
    (ha : h.accepted actor "pause_control" (.obj fields) = .ok (readonly, args)) :
    readonly = false ∧ args = fields := by
  have hargs := accepted_eq_ok ha
  rw [if_neg (by decide)] at hargs
  refine ⟨?_, (Json.obj.inj hargs).symm⟩
  unfold Host.accepted at ha
  obtain ⟨_, -, ha⟩ := except_bind_eq_ok.mp ha
  obtain ⟨command, hcommand, ha⟩ := except_bind_eq_ok.mp ha
  obtain ⟨-, ha⟩ := except_seq_eq_ok.mp ha
  obtain rfl := Except.ok.inj hcommand
  rw [if_neg (by decide)] at ha
  exact (Prod.mk.inj (Except.ok.inj ha)).1.symm

lemma run_execute_pause (env : Env φ) {fields args : Fields} {readonly : Bool}
    (ha : h.accepted actor "pause_control" (.obj fields) = .ok (readonly, args)) (w : World φ) :
    (h.execute env actor "pause_control" (.obj fields)).run w =
      (h.line env actor "pause_control" false fields).run w := by
  obtain ⟨rfl, rfl⟩ := args_of_accepted_pause ha
  rw [Host.execute]
  refine (Prog.run_bind_ok (by rw [ha]; rfl)).trans ?_
  rw [if_neg (by decide)]
  rfl

def pauseCommand : Command where
  fields := writeFields
  required := ["conversation_id", "request_id", "control_generation"]
  readonly := false

lemma declared_pause : declared "pause_control" = .ok pauseCommand := rfl

/-- The command of the poll keeps to the limits of the protocol. -/
def Host.BudgetFits (h : Host φ ψ) (config : Config) : Prop :=
  (Host.budgetId config.controlGeneration).length ≤ maxText ∧
    h.frameBytes (budgetArgs config) ≤ maxFrameBytes

omit [DecidableEq φ] [DecidableEq ψ] in
/-- The command of the poll is accepted when it keeps to the limits. -/
lemma accepted_budgetParams {config : Config} (hid : validId config.conversationId = true)
    (hfits : h.BudgetFits config) : h.accepted .user "pause_control" (Host.budgetParams config) =
      .ok (false, budgetArgs config) := by
  have hlen : lengthOk "conversation_id" (.str config.conversationId) = true := hid
  have hrid : lengthOk "request_id" (.str (Host.budgetId config.controlGeneration)) = true := by
    rw [lengthOk, Bool.and_eq_true]
    exact ⟨decide_eq_true hfits.1, by simp [Host.budgetId, blank]⟩
  have hfields : checkAll (budgetArgs config) pauseCommand.checkField = .ok () := by
    rw [checkAll_eq_ok]
    intro member hmember
    simp only [budgetArgs, List.mem_cons, List.not_mem_nil, or_false] at hmember
    obtain rfl | rfl | rfl := hmember
    · rfl
    · exact except_seq_eq_ok.mpr ⟨rfl, require_eq_ok.mpr hlen⟩
    · exact except_seq_eq_ok.mpr ⟨rfl, require_eq_ok.mpr hrid⟩
  have hvalid : validateCommand h.frameBytes "pause_control" (.obj (budgetArgs config)) =
      .ok (budgetArgs config) :=
    except_bind_eq_ok.mpr ⟨pauseCommand, declared_pause, except_bind_eq_ok.mpr
      ⟨budgetArgs config, rfl, except_seq_eq_ok.mpr ⟨rfl, except_seq_eq_ok.mpr ⟨hfields,
        except_seq_eq_ok.mpr ⟨require_eq_ok.mpr (decide_eq_true hfits.2), rfl⟩⟩⟩⟩⟩
  exact except_bind_eq_ok.mpr ⟨budgetArgs config, hvalid, except_bind_eq_ok.mpr
    ⟨pauseCommand, declared_pause, rfl⟩⟩

omit [DecidableEq φ] [DecidableEq ψ] in
/-- An accepted command keeps to the limits. -/
lemma fits_of_accepted {config : Config} {command : Bool × Fields}
    (ha : h.accepted .user "pause_control" (Host.budgetParams config) = .ok command) :
    h.BudgetFits config := by
  obtain ⟨readonly, args⟩ := command
  have hbudget : h.accepted .user "pause_control" (.obj (budgetArgs config)) =
      .ok (readonly, args) := ha
  obtain ⟨_, -, -, hfields⟩ := checked_of_accepted hbudget
  have hrid := (hfields ("request_id", .str (Host.budgetId config.controlGeneration))
    (by simp [budgetArgs])).2
  rw [lengthOk, Bool.and_eq_true, decide_eq_true_eq] at hrid
  refine ⟨hrid.1, ?_⟩
  obtain ⟨members, hvalid, -⟩ := except_bind_eq_ok.mp ha
  obtain ⟨_, -, hvalid⟩ := except_bind_eq_ok.mp hvalid
  obtain ⟨members, hmembers, hvalid⟩ := except_bind_eq_ok.mp hvalid
  obtain ⟨-, hvalid⟩ := except_seq_eq_ok.mp hvalid
  obtain ⟨-, hvalid⟩ := except_seq_eq_ok.mp hvalid
  obtain ⟨hframe, -⟩ := except_seq_eq_ok.mp hvalid
  obtain rfl : budgetArgs config = members := by
    simp only [Host.budgetParams, Command.args] at hmembers
    split_ifs at hmembers
    exact Except.ok.inj hmembers
  exact of_decide_eq_true (require_eq_ok.mp hframe)

/-- The command of the poll raises nothing that the poll does not swallow. -/
lemma tells_budget (hfp : Function.Injective h.fingerprint) (hw : Inv h w) (env : Env φ)
    (config : Config) :
    Tells ((h.execute env .user "pause_control" (Host.budgetParams config)).run w).1 := by
  intro e he
  cases ha : h.accepted .user "pause_control" (Host.budgetParams config) with
  | error e' =>
    rw [Host.execute, Prog.bind_eq, Prog.run_bind_error (by rw [ha]; rfl)] at he
    exact tells_accepted _ _ _ e ((congrArg Except.error (Except.error.inj he)) ▸ ha)
  | ok command =>
    have hrun := run_execute_pause env ha w
    rw [Host.budgetParams] at he
    exact tells_pause hfp hw env .user (budgetArgs config) e (hrun ▸ he)

omit [DecidableEq φ] in
/-- What a program that tells its caller of every error leaves, is left when the errors are
swallowed. -/
lemma run_swallow {p : Op φ Json} (w : World φ) (htells : Tells (p.run w).1) :
    ((p.bind fun _ => pure ()).handle fun e =>
      if e.isControl then pure () else Prog.throw e).run w = (.ok (), (p.run w).2) := by
  rw [Prog.run_handle, Prog.run_bind]
  cases hrun : p.run w with
  | mk r v =>
    cases r with
    | ok a => rfl
    | error e =>
      have he := htells e (by rw [hrun])
      simp only [he, if_true]
      rfl

/-- The pause of the poll is made when the request id is unused and the command keeps to the
limits. -/
lemma run_pollOne_of_unused (env : Env φ) (hfp : Function.Injective h.fingerprint) (hw : Inv h w)
    (hlatest : w.latest config.conversationId = some config) (hmode : config.mode = .delegated)
    (hexpired : config.expiresAt ≤ env.now)
    (hunused : ¬Used w config.conversationId (Host.budgetId config.controlGeneration))
    (hfits : h.BudgetFits config) :
    ((h.pollOne env config).run w).2.latest config.conversationId =
      some (Host.revoked config .paused) := by
  have ha := accepted_budgetParams (hw.valid_of_latest hlatest hmode) hfits
  have hguard : guard .user config (budgetArgs config) = .ok () :=
    except_seq_eq_ok.mpr ⟨require_eq_ok.mpr (decide_eq_true rfl), rfl⟩
  obtain ⟨v, hrun, hcancels, -⟩ := run_pause h env
    (answered_eq_none_iff_used.mpr (rid_budgetArgs config ▸ hunused)) hlatest hguard
  have hbudget : (h.execute env .user "pause_control" (Host.budgetParams config)).run w =
      (.ok (Host.revoked config .paused).toJson, v) := (run_execute_pause env ha w).trans hrun
  rw [Host.pollOne, if_pos (by simp [hmode, hexpired]),
    run_swallow w (tells_budget hfp hw env config), hbudget, latest_congr hcancels.records,
    latest_record]
  exact if_pos rfl

/-- Nothing is paused by the poll when the request id is used or the command exceeds the
limits. -/
lemma latest_pollOne_of_used (env : Env φ)
    (hblocked : Used w config.conversationId (Host.budgetId config.controlGeneration) ∨
      ¬h.BudgetFits config) (c : String) :
    ((h.pollOne env config).run w).2.latest c = w.latest c := by
  obtain hused | hfits := hblocked
  · have hserved := served_of_pollOne (Prog.stops_run (h.pollOne env config) w)
    obtain hsame | ⟨r, -, -, -, -, hnone, -⟩ := writes_of_served (Or.inl rfl) hserved
    · exact latest_congr hsame
    · exact absurd hused (answered_eq_none_iff_used.mp hnone)
  · -- the command is refused before anything is read
    rw [Host.pollOne]
    split_ifs
    · cases ha : h.accepted .user "pause_control" (Host.budgetParams config) with
      | ok command => exact absurd (fits_of_accepted ha) hfits
      | error e =>
        have hrun : (h.execute env .user "pause_control" (Host.budgetParams config)).run w =
            (.error e, w) := Prog.run_bind_error (by rw [ha]; rfl)
        have htells : Tells (.error e : Except Failure Json) :=
          tells_error (tells_accepted _ _ _ e ha)
        rw [run_swallow w (by rwa [hrun]), hrun]
    · rfl

/-- A turn of the poll ends, and concerns one conversation. -/
lemma run_pollOne (env : Env φ) (hfp : Function.Injective h.fingerprint) (hw : Inv h w)
    (config : Config) : ∃ w', (h.pollOne env config).run w = (.ok (), w') ∧ Inv h w' ∧
      ∀ c, c ≠ config.conversationId → w'.entries c = w.entries c := by
  have hserved := served_of_pollOne (Prog.stops_run (h.pollOne env config) w)
  have hwrites := writes_of_served (Or.inl rfl) hserved
  refine ⟨((h.pollOne env config).run w).2, ?_, hw.writes ?_, fun c hc => ?_⟩
  · refine Prod.ext ?_ rfl
    rw [Host.pollOne]
    split_ifs
    · rw [run_swallow w (tells_budget hfp hw env config)]
    · rfl
  · obtain hsame | ⟨r, hr, hrecords, -⟩ := hwrites
    · exact Or.inl hsame
    · exact Or.inr (Or.inl ⟨r, hr, hrecords⟩)
  · obtain hsame | ⟨r, hr, hrecords, hconv, -⟩ := hwrites
    · rw [World.entries, World.entries, hsame]
    · refine entries_append hrecords fun heq => hc ?_
      rw [← heq, hconv, conv_budgetArgs]

lemma run_polls (env : Env φ) (hfp : Function.Injective h.fingerprint) (hw : Inv h w)
    (configs : List Config) :
    ∃ w', (Prog.forEach configs (h.pollOne env)).run w = (.ok (), w') ∧ Inv h w' ∧
      ∀ c, (∀ config ∈ configs, config.conversationId ≠ c) → w'.entries c = w.entries c := by
  induction configs generalizing w with
  | nil => exact ⟨w, rfl, hw, fun _ _ => rfl⟩
  | cons config configs ih =>
    obtain ⟨v, hv, hvinv, hventries⟩ := run_pollOne env hfp hw config
    obtain ⟨w', hrun, hw', hentries⟩ := ih hvinv
    refine ⟨w', (Prog.run_bind_ok hv).trans hrun, hw', fun c hc => ?_⟩
    rw [hentries c fun other hother => hc other (List.mem_cons_of_mem _ hother)]
    exact hventries c (hc config List.mem_cons_self).symm

omit [DecidableEq φ] [DecidableEq ψ] in
lemma mem_conversationIds {c : String} : c ∈ w.conversationIds ↔
    ∃ r ∈ w.records, r.conversationId = c := by
  rw [World.conversationIds, (List.perm_insertionSort _ _).mem_iff, List.mem_dedup, List.mem_map]

omit [DecidableEq φ] [DecidableEq ψ] in
lemma nodup_conversationIds (w : World φ) : w.conversationIds.Nodup :=
  (List.perm_insertionSort _ _).nodup_iff.mpr (List.nodup_dedup _)

omit [DecidableEq φ] [DecidableEq ψ] in
/-- The configuration of a conversation is read once by the poll, among those of others. -/
lemma configurations_split (hw : Inv h w) {c : String} {config : Config}
    (hlatest : w.latest c = some config) : ∃ before after,
      w.configurations = before ++ config :: after ∧
      (∀ other ∈ before, other.conversationId ≠ c) ∧ ∀ other ∈ after, other.conversationId ≠ c := by
  obtain ⟨r, hr, hc, -⟩ := exists_of_latest hlatest
  obtain ⟨ids, ids', hids⟩ := List.append_of_mem (mem_conversationIds.mpr ⟨r, hr, hc⟩)
  have hnodup := nodup_conversationIds w
  rw [hids, List.nodup_middle, List.nodup_cons, List.mem_append, not_or] at hnodup
  obtain ⟨⟨hbefore, hafter⟩, -⟩ := hnodup
  have hother : ∀ ids : List String, c ∉ ids →
      ∀ other ∈ ids.filterMap w.latest, other.conversationId ≠ c := by
    intro ids hmem other hother heq
    obtain ⟨d, hd, hlatest⟩ := List.mem_filterMap.mp hother
    exact hmem (heq ▸ hw.latest_conversation hlatest ▸ hd)
  refine ⟨ids.filterMap w.latest, ids'.filterMap w.latest, ?_, hother ids hbefore,
    hother ids' hafter⟩
  rw [World.configurations, hids, List.filterMap_append, List.filterMap_cons_some hlatest]

/-- The poll takes an expired delegation back exactly when the request id of its pause is unused,
and the pause keeps to the limits of the protocol. -/
lemma revokes_poll_iff (hfp : Function.Injective h.fingerprint) (hw : Inv h w) {c : String}
    (hlatest : w.latest c = some config) (hmode : config.mode = .delegated)
    (hdraining : env.draining = false) (hexpired : config.expiresAt ≤ env.now) :
    Revokes (h.poll env true) w c ↔
      ¬Used w c (Host.budgetId config.controlGeneration) ∧ h.BudgetFits config := by
  obtain ⟨before, after, hconfigs, hbefore, hafter⟩ := configurations_split hw hlatest
  have hc := hw.latest_conversation hlatest
  -- the turns before that of the conversation, its own, and those after it
  obtain ⟨u, hu, huinv, huentries⟩ := run_polls env hfp hw before
  obtain ⟨v, hv, hvinv, -⟩ := run_pollOne env hfp huinv config
  obtain ⟨w', hw', -, hentries⟩ := run_polls env hfp hvinv after
  have hrun : (h.poll env true).run w = (.ok (), w') := by
    rw [Host.poll, hdraining, if_neg (by decide)]
    refine (Prog.run_bind_ok (Prog.run_readE _ w)).trans ?_
    dsimp only
    rw [hconfigs, Prog.forEach_append]
    exact (Prog.run_bind_ok hu).trans ((Prog.run_bind_ok hv).trans hw')
  have hulatest := (latest_of_entries (huentries c hbefore)).trans hlatest
  have hlatest' : w'.latest c = ((h.pollOne env config).run u).2.latest c := by
    rw [latest_of_entries (hentries c hafter), hv]
  have hused : Used u c (Host.budgetId config.controlGeneration) ↔
      Used w c (Host.budgetId config.controlGeneration) := by
    rw [← not_iff_not, ← answered_eq_none_iff_used, ← answered_eq_none_iff_used,
      answered_of_entries (huentries c hbefore)]
  constructor
  · intro hrevokes
    by_contra hblocked
    rw [not_and_or, not_not, ← hused] at hblocked
    refine not_revokes (fun _ _ => ?_) hrevokes
    rw [hrun, hlatest', hlatest, latest_pollOne_of_used env (hc.symm ▸ hblocked), hulatest]
  · rintro ⟨hunused, hfits⟩
    rw [← hused] at hunused
    refine ⟨(), w', Host.revoked config .paused, hrun, ?_, by simp [Host.revoked], ?_⟩
    · rw [hlatest', ← hc]
      exact run_pollOne_of_unused env hfp huinv (hc.symm ▸ hulatest) hmode hexpired
        (hc.symm ▸ hunused) hfits
    · rw [generation_of_latest hlatest]
      exact Nat.lt_succ_self _

/-- An operator pauses under the current generation, with an unused request id. -/
lemma revokes_execute_pause (env : Env φ) {params : Json} {command : Bool × Fields}
    (ha : h.accepted actor "pause_control" params = .ok command) (hop : actor.operator = true)
    (hlatest : w.latest (conv command.2) = some config)
    (hgeneration : intArg command.2 "control_generation" = config.controlGeneration)
    (hunused : ¬Used w (conv command.2) (rid command.2)) :
    Revokes (h.execute env actor "pause_control" params) w (conv command.2) := by
  obtain ⟨readonly, args⟩ := command
  have hparams := accepted_eq_ok ha
  rw [if_neg (by decide)] at hparams
  subst hparams
  have hguard : guard actor config args = .ok () :=
    except_seq_eq_ok.mpr ⟨require_eq_ok.mpr (decide_eq_true hgeneration),
      require_eq_ok.mpr (by rw [hop, Bool.true_or])⟩
  obtain ⟨w', hrun, hcancels, -⟩ :=
    run_pause h env (answered_eq_none_iff_used.mpr hunused) hlatest hguard
  exact revokes_of_pause hlatest ((run_execute_pause env ha w).trans hrun) rfl rfl
    (by simp [Host.revoked]) rfl hcancels

end Control

end Codey
