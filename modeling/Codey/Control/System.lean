import Codey.Control.Commands

/-!
# Runs of the control service

Commands, takeovers, polls, imports and dispatch checks, in any order and each stopped at any
point, among the deletions of conversations and the other commits of the durable line; and what
holds of the control entries in every run.
-/

namespace Codey

namespace Control

variable {φ ψ : Type}

/-- What the rest of the application commits: tasks go on, and others that no command sent
come. -/
structure Others (w w' : World φ) : Prop where
  records : w'.records = w.records
  tasks : ∃ old new, w'.tasks = old ++ new ∧ Carried w.tasks old ∧ ∀ t ∈ new, t.sent = none

/-- What `delete_conversation` commits: the entries of the conversation and its tasks are gone. -/
structure Deleted (w w' : World φ) (conversationId : String) : Prop where
  records : w'.records = w.records.filter (·.conversationId ≠ conversationId)
  tasks : w'.tasks = w.tasks.filter (·.conversationId ≠ conversationId)

/-- What happens to the control service. -/
inductive Event (φ : Type) where
  | command (env : Env φ) (actor : Actor) (name : String) (params : Json)
  | poll (env : Env φ) (config : Config)
  | takeover (env : Env φ) (conversationId : String) (paused : Bool)
  | importUi (env : Env φ) (item : UiSession)
  | dispatch (env : Env φ) (task : Task φ)
  | delete (conversationId : String)
  | other

variable [DecidableEq φ] [DecidableEq ψ] (h : Host φ ψ)

/-- What an event may leave. A command prepares before it takes the control line, so that its
part under the line is the step; a poll goes by whatever configuration it has read before. -/
def Event.Step : Event φ → World φ → World φ → Prop
  | .command env actor name params, w, w' => ∃ readonly args,
      h.accepted actor name params = .ok (readonly, args) ∧
      Prog.Stops (h.line env actor name readonly args) w w'
  | .poll env config, w, w' => Prog.Stops (h.pollOne env config) w w'
  | .takeover env c paused, w, w' => Prog.Stops (h.takeover env c paused) w w'
  | .importUi env item, w, w' => Prog.Stops (h.importSession env item) w w'
  | .dispatch env task, w, w' => Prog.Stops (permitsDispatch env task) w w'
  | .delete c, w, w' => Deleted w w' c
  | .other, w, w' => Others w w'

/-- The runs all of whose events `ok` admits in the state in which they happen. -/
def Runs (ok : World φ → Event φ → Prop) : World φ → World φ → Prop :=
  Relation.ReflTransGen fun w w' => ∃ e, ok w e ∧ e.Step h w w'

/-! ### Whole operations are made of steps -/

variable {h} {env : Env φ} {actor : Actor} {name : String} {params : Json} {w w' : World φ}

omit [DecidableEq ψ] in
lemma readOnly_prepare {args : Fields} : Prog.ReadOnly (h.prepare env actor name args) := by
  unfold Host.prepare Host.prepareMessage
  split_ifs
  · refine (Prog.readOnly_readE _).bind fun old => (readOnly_see _).bind fun existing => ?_
    split_ifs
    · exact Prog.readOnly_ret ()
    · exact (readOnly_configFor _ _).bind fun _ => (Prog.readOnly_ofExcept _).bind fun _ =>
        (Prog.readOnly_ofExcept _).bind fun _ => Prog.readOnly_ofExcept _
  · exact Prog.readOnly_ret ()

lemma step_of_execute (hs : Prog.Stops (h.execute env actor name params) w w') :
    w' = w ∨ (Event.command env actor name params).Step h w w' := by
  unfold Host.execute at hs
  obtain hs | ⟨command, haccepted, hs⟩ := (Prog.readOnly_ofExcept _).stops_bind hs
  · exact Or.inl hs
  have haccepted := (Prog.run_ofExcept_eq_ok.mp haccepted).1
  split_ifs at hs
  · exact Or.inl (Prog.stops_ofExcept.mp hs)
  · obtain hs | ⟨_, -, hs⟩ := readOnly_prepare.stops_bind hs
    · exact Or.inl hs
    · exact Or.inr ⟨command.1, command.2, haccepted, hs⟩

omit [DecidableEq φ] [DecidableEq ψ] in
/-- An accepted command is checked, not changed, unless it creates a conversation. -/
lemma accepted_eq_ok {readonly : Bool} {args : Fields}
    (ha : h.accepted actor name params = .ok (readonly, args)) :
    if name = "create_conversation" then
      ∃ fields : Fields, params = .obj fields ∧ args = fields.set "conversation_id"
        (.str (h.conversationId actor.actorId (textArg fields "request_id")))
    else params = .obj args := by
  unfold Host.accepted at ha
  obtain ⟨fields, hfields, ha⟩ := except_bind_eq_ok.mp ha
  obtain ⟨command, -, ha⟩ := except_bind_eq_ok.mp ha
  obtain ⟨-, ha⟩ := except_seq_eq_ok.mp ha
  have hparams : params = .obj fields := by
    unfold validateCommand at hfields
    obtain ⟨command, -, hfields⟩ := except_bind_eq_ok.mp hfields
    obtain ⟨members, hmembers, hfields⟩ := except_bind_eq_ok.mp hfields
    obtain ⟨-, hfields⟩ := except_seq_eq_ok.mp hfields
    obtain ⟨-, hfields⟩ := except_seq_eq_ok.mp hfields
    obtain ⟨-, hfields⟩ := except_seq_eq_ok.mp hfields
    obtain rfl := Except.ok.inj hfields
    cases params with
    | obj given =>
      simp only [Command.args] at hmembers
      split_ifs at hmembers
      rw [Except.ok.inj hmembers]
    | _ => cases hmembers
  split_ifs at ha ⊢
  · exact ⟨fields, hparams, (Prod.mk.inj (Except.ok.inj ha)).2.symm⟩
  · rw [hparams, (Prod.mk.inj (Except.ok.inj ha)).2]

/-- The arguments with which the poll pauses a conversation. -/
def budgetArgs (config : Config) : Fields := [
  ("control_generation", .int config.controlGeneration),
  ("conversation_id", .str config.conversationId),
  ("request_id", .str (Host.budgetId config.controlGeneration))]

@[simp] lemma conv_budgetArgs (config : Config) :
    Host.conv (budgetArgs config) = config.conversationId := rfl

@[simp] lemma rid_budgetArgs (config : Config) :
    Host.rid (budgetArgs config) = Host.budgetId config.controlGeneration := rfl

/-- A turn of the poll pauses one conversation, if it does anything. -/
lemma served_of_pollOne {config : Config} (hs : Prog.Stops (h.pollOne env config) w w') :
    h.Served env .user "pause_control" (budgetArgs config) w w' := by
  unfold Host.pollOne at hs
  split_ifs at hs
  · have hs : Prog.Stops (h.execute env .user "pause_control" (Host.budgetParams config)) w w' := by
      obtain hs | ⟨e, v, hrun, hs⟩ := Prog.stops_handle hs
      · obtain hs | ⟨_, v, hrun, hs⟩ := Prog.stops_bind.mp hs
        · exact hs
        · rw [Prog.stops_ret.mp hs]
          exact Prog.stops_of_run hrun
      · have hw' : w' = v := by split_ifs at hs <;> exact hs
        have := Prog.stops_of_run hrun
        obtain this | ⟨_, u, hrun, this⟩ := Prog.stops_bind.mp this
        · exact hw' ▸ this
        · rw [hw', Prog.stops_ret.mp this]
          exact Prog.stops_of_run hrun
    obtain rfl | ⟨readonly, args, ha, hs⟩ := step_of_execute hs
    · exact .still
    · have hargs := accepted_eq_ok ha
      rw [if_neg (by decide)] at hargs
      obtain rfl : budgetArgs config = args := Json.obj.inj hargs
      exact Host.served_of_stops hs
  · rw [Prog.stops_ret.mp hs]
    exact .still

/-! ### The steps -/

omit [DecidableEq φ] in
/-- A deletion leaves nothing of its conversation, and the others as they are. -/
lemma Deleted.entries {c : String} (hd : Deleted w w' c) (other : String) :
    w'.entries other = if other = c then [] else w.entries other := by
  rw [World.entries, hd.records, List.filter_filter]
  split_ifs with heq
  · exact List.filter_eq_nil_iff.mpr fun r _ => by simp [heq]
  · refine List.filter_congr fun r _ => ?_
    by_cases hr : r.conversationId = other <;> simp [hr, heq]

omit [DecidableEq φ] in
lemma Deleted.latest {c other : String} (hd : Deleted w w' c) (hne : other ≠ c) :
    w'.latest other = w.latest other :=
  latest_of_entries (by rw [hd.entries, if_neg hne])

omit [DecidableEq φ] in
lemma Deleted.mem_records {c : String} (hd : Deleted w w' c) {r : Record φ}
    (hr : r ∈ w'.records) : r ∈ w.records ∧ r.conversationId ≠ c := by
  rw [hd.records, List.mem_filter, decide_eq_true_eq] at hr
  exact hr

omit [DecidableEq φ] in
lemma Deleted.mem_tasks {c : String} (hd : Deleted w w' c) {t : Task φ}
    (ht : t ∈ w'.tasks) : t ∈ w.tasks ∧ t.conversationId ≠ c := by
  rw [hd.tasks, List.mem_filter, decide_eq_true_eq] at ht
  exact ht

/-- The entry by which a session of the browser is adopted. -/
def importRecord (h : Host φ ψ) (env : Env φ) (item : UiSession) : Record φ :=
  h.answer item.id "user" "import_ui" [("request_id", .str "import-ui")]
    (.obj [("conversation_id", .str item.id)]) (some (Host.importedConfig env item))

def takeoverRecord (h : Host φ ψ) (c : String) (next : Config) : Record φ :=
  h.answer c "user" "takeover" [("request_id", .str (Host.takeoverId next.controlGeneration))]
    next.toJson (some next)

omit [DecidableEq φ] in
lemma stops_importSession {item : UiSession}
    (hs : Prog.Stops (h.importSession env item) w w') :
    w' = w ∨ w.latest item.id = none ∧ w' = w.record (importRecord h env item) := by
  unfold Host.importSession at hs
  split_ifs at hs
  · exact Or.inl hs
  obtain hs | ⟨config, hsee, hs⟩ := (readOnly_see _).stops_bind hs
  · exact Or.inl hs
  obtain rfl := (run_see_eq_ok.mp hsee).1
  split_ifs at hs with hsome
  · exact Or.inl hs
  · refine (Hashes.stops_write hs).imp_right fun hw => ⟨?_, hw.2⟩
    simpa using hsome

omit [DecidableEq φ] in
lemma stops_takeover {c : String} {paused : Bool}
    (hs : Prog.Stops (h.takeover env c paused) w w') :
    w' = w ∨ ∃ config, w.latest c = some config ∧ config.mode = .delegated ∧
      (Cancels w w' ∨
        w.answered c (Host.takeoverId (config.controlGeneration + 1)) = none ∧
        Cancels (w.record (takeoverRecord h c (Host.revoked config (Host.takenMode paused))))
          w') := by
  unfold Host.takeover at hs
  obtain hs | ⟨config, hsee, hs⟩ := (readOnly_see _).stops_bind hs
  · exact Or.inl hs
  have hlatest := (run_see_eq_ok.mp hsee).1
  cases config with
  | none => exact Or.inl hs
  | some config =>
    dsimp only at hs
    split_ifs at hs with hmode
    · exact Or.inl hs
    refine Or.inr ⟨config, hlatest.symm, not_not.mp hmode, ?_⟩
    obtain hs | ⟨_, v, hrun, hs⟩ := Prog.stops_bind.mp hs
    · obtain rfl | ⟨hnone, rfl⟩ := Hashes.stops_write hs
      · exact Or.inl (.refl _)
      · exact Or.inr ⟨hnone, .refl _⟩
    · have hcancels := stops_cancelOwned hs
      obtain rfl | ⟨hnone, rfl⟩ := Hashes.stops_write (Prog.stops_of_run hrun)
      · exact Or.inl hcancels
      · exact Or.inr ⟨hnone, hcancels⟩

omit [DecidableEq φ] in
lemma stops_permitsDispatch {task : Task φ}
    (hs : Prog.Stops (permitsDispatch env task) w w') : Cancels w w' := by
  unfold permitsDispatch at hs
  split_ifs at hs
  · rw [Prog.stops_ret.mp hs]
    exact .refl _
  cases hsent : task.sent with
  | none =>
    simp only [hsent] at hs
    rw [Prog.stops_ret.mp hs]
    exact .refl _
  | some sent =>
    simp only [hsent] at hs
    obtain rfl | ⟨config, -, hs⟩ := (readOnly_see _).stops_bind hs
    · exact .refl _
    split_ifs at hs
    · rw [Prog.stops_ret.mp hs]
      exact .refl _
    · obtain hs | ⟨_, v, hrun, hs⟩ := Prog.stops_bind.mp hs
      · exact stops_requestCancel hs
      · rw [Prog.stops_ret.mp hs]
        exact stops_requestCancel (Prog.stops_of_run hrun)

end Control

end Codey
