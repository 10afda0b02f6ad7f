import Codey.Control.Effects

/-!
# Served commands

Every state in which a command may be stopped, by what the command did so far.
-/

namespace Codey

namespace Control

variable {φ ψ : Type}

/-- Tasks go on, and nothing happens to the control entries. -/
structure Acts (w w' : World φ) : Prop where
  records : w'.records = w.records
  tasks : Carried w.tasks w'.tasks

lemma Acts.refl (w : World φ) : Acts w w := ⟨rfl, .refl _⟩

lemma Cancels.acts {w w' : World φ} (h : Cancels w w') : Acts w w' := ⟨h.records, h.tasks⟩

/-! ### Reads -/

lemma run_see_eq_ok {α : Type} {f : World φ → α} {w w' : World φ} {a : α} :
    (see f).run w = (.ok a, w') ↔ a = f w ∧ w' = w := by
  rw [see, Prog.run_readE_eq_ok, Except.ok.injEq, eq_comm]

lemma run_configFor {actor : Actor} {c : String} {w w' : World φ} {config : Config}
    (h : (configFor actor c).run w = (.ok config, w')) : w.latest c = some config ∧ w' = w := by
  obtain ⟨hf, rfl⟩ := Prog.run_readE_eq_ok.mp h
  split at hf
  · cases hf
  · split_ifs at hf
    cases hf
    exact ⟨‹_›, rfl⟩

lemma readOnly_see {α : Type} (f : World φ → α) : Prog.ReadOnly (see f) := Prog.readOnly_readE _

lemma readOnly_configFor (actor : Actor) (c : String) :
    Prog.ReadOnly (configFor (φ := φ) actor c) := Prog.readOnly_readE _

lemma readOnly_taskFor (c runId : String) : Prog.ReadOnly (taskFor (φ := φ) c runId) :=
  Prog.readOnly_readE _

variable [DecidableEq φ] [DecidableEq ψ]

namespace Hashes

variable (h : Hashes φ ψ)

/-- The entry that `write` admits. -/
def answer (c actorId name : String) (params : Fields) (result : Json)
    (config : Option Config) : Record φ where
  conversationId := c
  requestId := textArg params "request_id"
  fingerprint := h.request actorId name params
  result := result
  config := config

variable {h} {c actorId name : String} {params : Fields} {result : Json}
  {config : Option Config} {w w' : World φ}

omit [DecidableEq φ] in
lemma run_write_of_unused (hunused : w.answered c (textArg params "request_id") = none) :
    (h.write c actorId name params result config).run w =
      (.ok (), w.record (h.answer c actorId name params result config)) := by
  unfold write admitRecord
  simp only [Prog.run_step, hunused, Prog.run_ret]
  rfl

omit [DecidableEq φ] in
lemma digest_of_write {old : Record φ}
    (hold : w.answered c (textArg params "request_id") = some old)
    (hrun : (h.write c actorId name params result config).run w = (.ok (), w')) :
    h.digest old = h.digest (h.answer c actorId name params result config) := by
  unfold write admitRecord at hrun
  simp only [Prog.run_step, hold] at hrun
  split_ifs at hrun with hsame
  · exact hsame
  · cases hrun

omit [DecidableEq φ] in
lemma stops_write (hw : Prog.Stops (h.write c actorId name params result config) w w') :
    w' = w ∨ w.answered c (textArg params "request_id") = none ∧
      w' = w.record (h.answer c actorId name params result config) := by
  unfold write admitRecord at hw
  rw [Prog.stops_step] at hw
  obtain rfl | hw := hw
  · exact Or.inl rfl
  · cases hold : w.answered c (textArg params "request_id") with
    | none =>
      simp only [hold, Prog.stops_ret] at hw
      exact Or.inr ⟨rfl, hw⟩
    | some old =>
      simp only [hold] at hw
      split_ifs at hw <;> exact Or.inl hw

omit [DecidableEq ψ] in
lemma run_receipt_eq_ok {r : Option Json}
    (hr : (h.receipt c actorId name params).run w = (.ok r, w')) : w' = w ∧
      match r with
      | none => w.answered c (textArg params "request_id") = none
      | some result => ∃ old, w.answered c (textArg params "request_id") = some old ∧
          old.fingerprint = h.request actorId name params ∧ old.result = result := by
  obtain ⟨hf, rfl⟩ := Prog.run_readE_eq_ok.mp hr
  refine ⟨rfl, ?_⟩
  split at hf
  case h_1 hnone =>
    cases hf
    exact hnone
  case h_2 old hold =>
    split_ifs at hf with hfp
    cases hf
    exact ⟨old, hold, hfp, rfl⟩

end Hashes

namespace Host

variable (h : Host φ ψ) (env : Env φ) (actor : Actor) (name : String) (args : Fields)

abbrev conv : String := textArg args "conversation_id"

abbrev rid : String := textArg args "request_id"

structure Sendable (config : Config) (w : World φ) : Prop where
  unsent : w.input? (h.inputIdentity (conv args) (rid args)) = none
  guarded : guard actor config args = .ok ()
  valid : validateMessage env actor args config w = .ok ()

/-- What a command leaves when it is stopped, before or after its last commit. -/
inductive Served (w : World φ) : World φ → Prop where
  | still : Served w w
  | repaused {w' : World φ} {old : Record φ} : name = "pause_control" →
      w.answered (conv args) (rid args) = some old →
      old.fingerprint = h.request actor.actorId name args → Cancels w w' → Served w w'
  | created {config : Config} : name = "create_conversation" →
      w.answered (conv args) (rid args) = none → create env actor args = .ok config →
      Served w (w.record (h.answer (conv args) actor.actorId name args config.toJson (some config)))
  | sent {config : Config} : name = "send_message" →
      w.answered (conv args) (rid args) = none → w.latest (conv args) = some config →
      h.Sendable env actor args config w → Served w (w.admitTask (h.sentTask env actor args config))
  | sentAnswered {config : Config} {result : Json} : name = "send_message" →
      w.answered (conv args) (rid args) = none → w.latest (conv args) = some config →
      h.Sendable env actor args config w → Served w
        ((w.admitTask (h.sentTask env actor args config)).record
        (h.answer (conv args) actor.actorId name args result none))
  | resent {config : Config} {existing : Task φ} {result : Json} : name = "send_message" →
      w.answered (conv args) (rid args) = none → w.latest (conv args) = some config →
      w.input? (h.inputIdentity (conv args) (rid args)) = some existing →
      existing.sent.map (·.fingerprint) =
        (h.sentTask env actor args config).sent.map (·.fingerprint) →
      Served w (w.record (h.answer (conv args) actor.actorId name args result none))
  | granted {config next : Config} : name = "grant_control" →
      w.answered (conv args) (rid args) = none → w.latest (conv args) = some config →
      guard actor config args = .ok () → granted env config args = .ok next →
      Served w (w.record (h.answer (conv args) actor.actorId name args next.toJson (some next)))
  | paused {config : Config} {w' : World φ} : name = "pause_control" →
      w.answered (conv args) (rid args) = none → w.latest (conv args) = some config →
      guard actor config args = .ok () →
      Cancels (w.record (h.answer (conv args) actor.actorId name args
        (revoked config .paused).toJson (some (revoked config .paused)))) w' → Served w w'
  | acted {config : Config} {w' : World φ} :
      w.answered (conv args) (rid args) = none → w.latest (conv args) = some config →
      guard actor config args = .ok () → Acts w w' → Served w w'
  | actedAnswered {config : Config} {v : World φ} {result : Json} : name ≠ "pause_control" →
      w.answered (conv args) (rid args) = none → w.latest (conv args) = some config →
      guard actor config args = .ok () → Acts w v →
      Served w (v.record (h.answer (conv args) actor.actorId name args result none))

variable {h env actor name args} {config : Config} {w w' : World φ}

/-! ### The parts of a command -/

omit [DecidableEq φ] in
lemma readOnly_checkTarget : Prog.ReadOnly (checkTarget env args) := by
  unfold checkTarget
  split_ifs
  · exact (readOnly_taskFor _ _).bind fun _ => Prog.readOnly_ofExcept _
  · exact Prog.readOnly_ret ()

omit [DecidableEq φ] in
lemma readOnly_checkReply : Prog.ReadOnly (checkReply (φ := φ) args) := by
  unfold checkReply
  split_ifs
  · exact Prog.readOnly_ret ()
  · exact (readOnly_taskFor _ _).bind fun _ => Prog.readOnly_ret ()

omit [DecidableEq ψ] in
/-- A new input is admitted in one commit, and an old one is found. -/
lemma stops_send (hs : Prog.Stops (h.send env actor args config) w w') :
    w' = w ∨ h.Sendable env actor args config w ∧
      w' = w.admitTask (h.sentTask env actor args config) := by
  unfold send at hs
  obtain hs | ⟨existing, hsee, hs⟩ := (readOnly_see _).stops_bind hs
  · exact Or.inl hs
  have hexisting := (run_see_eq_ok.mp hsee).1
  cases existing with
  | some existing =>
    obtain hs | ⟨_, -, hs⟩ := (Prog.readOnly_ofExcept _).stops_bind hs
    · exact Or.inl hs
    · exact Or.inl hs
  | none =>
    -- the checks, one by one, then the commit
    obtain hs | ⟨_, hguard, hs⟩ := (Prog.readOnly_ofExcept _).stops_bind hs
    · exact Or.inl hs
    obtain hs | ⟨_, hvalid, hs⟩ := (Prog.readOnly_readE _).stops_bind hs
    · exact Or.inl hs
    obtain hs | ⟨_, -, hs⟩ := readOnly_checkTarget.stops_bind hs
    · exact Or.inl hs
    obtain hs | ⟨_, -, hs⟩ := readOnly_checkReply.stops_bind hs
    · exact Or.inl hs
    obtain hs | hs := hs
    · exact Or.inl hs
    · exact Or.inr ⟨⟨hexisting.symm, (Prog.run_ofExcept_eq_ok.mp hguard).1,
        (Prog.run_readE_eq_ok.mp hvalid).1⟩, hs⟩

omit [DecidableEq ψ] in
/-- A message is answered by the input that it became before, or becomes a new one. -/
lemma run_send {result : Json} (hrun : (h.send env actor args config).run w = (.ok result, w')) :
    (∃ existing, w.input? (h.inputIdentity (conv args) (rid args)) = some existing ∧
      existing.sent.map (·.fingerprint) =
        (h.sentTask env actor args config).sent.map (·.fingerprint) ∧ w' = w) ∨
    h.Sendable env actor args config w ∧
      w' = w.admitTask (h.sentTask env actor args config) := by
  obtain hstay | hsent := stops_send (Prog.stops_of_run hrun)
  · refine Or.inl ?_
    unfold send at hrun
    obtain ⟨existing, hsee, hrun⟩ := (readOnly_see _).run_bind hrun
    have hexisting := (run_see_eq_ok.mp hsee).1
    cases existing with
    | some existing =>
      obtain ⟨_, hreq, -⟩ := (Prog.readOnly_ofExcept _).run_bind hrun
      have hfp := (Prog.run_ofExcept_eq_ok.mp hreq).1
      rw [require_eq_ok, decide_eq_true_eq] at hfp
      exact ⟨existing, hexisting.symm, hfp, hstay⟩
    | none =>
      -- a new input would have been admitted, so that the tasks would not be what they were
      exfalso
      obtain ⟨_, -, hrun⟩ := (Prog.readOnly_ofExcept _).run_bind hrun
      obtain ⟨_, -, hrun⟩ := (Prog.readOnly_readE _).run_bind hrun
      obtain ⟨_, -, hrun⟩ := readOnly_checkTarget.run_bind hrun
      obtain ⟨_, -, hrun⟩ := readOnly_checkReply.run_bind hrun
      have hlen := congrArg (fun v : World φ => v.tasks.length) (Prod.mk.inj hrun).2
      simp [World.admitTask, hstay] at hlen
  · exact Or.inr hsent

omit [DecidableEq φ] in
/-- The answer is one commit: it wakes the run that waits for it. -/
lemma stops_answerQuestion (hs : Prog.Stops (answerQuestion env actor args) w w') :
    Acts w w' := by
  unfold answerQuestion at hs
  obtain rfl | ⟨task, -, hs⟩ := (readOnly_taskFor _ _).stops_bind hs
  · exact .refl _
  cases hquestion : env.question (textArg args "question_id") with
  | none =>
    simp only [hquestion, Prog.stops_throw] at hs
    exact hs ▸ .refl _
  | some item =>
    simp only [hquestion] at hs
    obtain rfl | ⟨_, -, hs⟩ := (Prog.readOnly_ofExcept _).stops_bind hs
    · exact .refl _
    obtain rfl | ⟨_, -, hs⟩ := (Prog.readOnly_ofExcept _).stops_bind hs
    · exact .refl _
    obtain rfl | ⟨_, -, hs⟩ := (Prog.readOnly_ofExcept _).stops_bind hs
    · exact .refl _
    obtain rfl | hs := hs
    · exact .refl _
    obtain rfl := Prog.stops_ret.mp hs
    beta_reduce
    split_ifs
    · exact .refl _
    · refine ⟨rfl, carried_map (fun t => ?_) _⟩
      split_ifs with hwaits
      · refine ⟨rfl, rfl, rfl, rfl, fun hterm => ?_, id⟩
        simp only [Bool.and_eq_true, decide_eq_true_eq] at hwaits
        rw [hwaits.2] at hterm
        cases hterm
      · exact .refl t

omit [DecidableEq φ] in
lemma stops_recordReview {r : Review} (hs : Prog.Stops (recordReview r) w w') : Acts w w' := by
  unfold recordReview at hs
  obtain rfl | hs := hs
  · exact .refl _
  -- whether the answer is an error or not, the commit has been made
  have hw' : w' = if w.reviews.any fun old => old.conversationId = r.conversationId &&
      old.requestId = r.requestId then w else { w with reviews := w.reviews ++ [r] } := by
    beta_reduce at hs
    split at hs <;> exact hs
  rw [hw']
  split_ifs
  · exact .refl _
  · exact ⟨rfl, .refl _⟩

omit [DecidableEq φ] in
lemma stops_review (hs : Prog.Stops (review env actor args) w w') : Acts w w' := by
  unfold review at hs
  obtain rfl | ⟨task, -, hs⟩ := (readOnly_taskFor _ _).stops_bind hs
  · exact .refl _
  obtain rfl | ⟨candidate, -, hs⟩ := (Prog.readOnly_ofExcept _).stops_bind hs
  · exact .refl _
  obtain rfl | ⟨_, -, hs⟩ := (Prog.readOnly_ofExcept _).stops_bind hs
  · exact .refl _
  obtain hs | ⟨_, v, hrun, hs⟩ := Prog.stops_bind.mp hs
  · exact stops_recordReview hs
  · obtain rfl := Prog.stops_ret.mp hs
    exact stops_recordReview (Prog.stops_of_run hrun)

/-! ### Whole commands -/

/-- What the mutation of a command leaves, and what is still to be recorded: `none` while the
mutation has not returned. -/
inductive Mutated (h : Host φ ψ) (env : Env φ) (actor : Actor) (name : String) (args : Fields)
    (w : World φ) : Option (Json × Option Config) → World φ → Prop where
  | still : Mutated h env actor name args w none w
  | created {config : Config} : name = "create_conversation" →
      create env actor args = .ok config →
      Mutated h env actor name args w (some (config.toJson, some config)) w
  | sent {config : Config} {done : Option (Json × Option Config)} : name = "send_message" →
      w.latest (conv args) = some config → h.Sendable env actor args config w →
      (∀ d ∈ done, d.2 = none) →
      Mutated h env actor name args w done (w.admitTask (h.sentTask env actor args config))
  | resent {config : Config} {existing : Task φ} {result : Json} : name = "send_message" →
      w.latest (conv args) = some config →
      w.input? (h.inputIdentity (conv args) (rid args)) = some existing →
      existing.sent.map (·.fingerprint) =
        (h.sentTask env actor args config).sent.map (·.fingerprint) →
      Mutated h env actor name args w (some (result, none)) w
  | granted {config next : Config} : name = "grant_control" →
      w.latest (conv args) = some config → guard actor config args = .ok () →
      granted env config args = .ok next →
      Mutated h env actor name args w (some (next.toJson, some next)) w
  | paused {config : Config} {done : Option (Json × Option Config)} {w' : World φ} :
      name = "pause_control" → w.latest (conv args) = some config →
      guard actor config args = .ok () →
      Cancels (w.record (h.answer (conv args) actor.actorId name args
        (revoked config .paused).toJson (some (revoked config .paused)))) w' →
      Mutated h env actor name args w done w'
  | acted {config : Config} {done : Option (Json × Option Config)} {w' : World φ} :
      w.latest (conv args) = some config → guard actor config args = .ok () → Acts w w' →
      (∀ d ∈ done, d.2 = none) → Mutated h env actor name args w done w'

omit [DecidableEq ψ] in
/-- A message, up to any point: the input is admitted at once, or found. -/
lemma leaves_send {o : Option Json} (hs : Prog.Leaves (h.send env actor args config) w o w') :
    (w' = w ∧ (∀ result ∈ o, ∃ existing,
      w.input? (h.inputIdentity (conv args) (rid args)) = some existing ∧
      existing.sent.map (·.fingerprint) =
        (h.sentTask env actor args config).sent.map (·.fingerprint))) ∨
    h.Sendable env actor args config w ∧
      w' = w.admitTask (h.sentTask env actor args config) := by
  cases o with
  | none => exact (stops_send hs).imp_left fun hw => ⟨hw, by simp⟩
  | some result =>
    obtain ⟨existing, hexisting, hfp, hw⟩ | hsent := run_send hs
    · exact Or.inl ⟨hw, fun _ _ => ⟨existing, hexisting, hfp⟩⟩
    · exact Or.inr hsent

omit [DecidableEq φ] in
/-- A pause records the new generation, then cancels. -/
lemma leaves_pause {α : Type} {d : α} {o : Option α}
    (hnone : w.answered (conv args) (rid args) = none)
    (hs : Prog.Leaves ((h.write (conv args) actor.actorId name args
        (revoked config .paused).toJson (some (revoked config .paused))).bind fun _ =>
      (cancelOwned env config.conversationId (revoked config .paused).controlGeneration).bind
        fun _ => Prog.ret d) w o w') :
    (o = none ∧ w' = w) ∨ Cancels (w.record (h.answer (conv args) actor.actorId name args
      (revoked config .paused).toJson (some (revoked config .paused)))) w' := by
  obtain ⟨ho, hs⟩ | ⟨_, v, hrun, hs⟩ := Prog.leaves_bind hs
  · refine (Hashes.stops_write hs).imp (fun hw => ⟨ho, hw⟩) fun hw => ?_
    rw [hw.2]
    exact .refl _
  · rw [Hashes.run_write_of_unused hnone] at hrun
    obtain rfl := (Prod.mk.inj hrun).2
    obtain ⟨o', hs, -⟩ := Prog.leaves_bind_ret hs
    exact Or.inr (stops_cancelOwned hs.stops)

/-- The mutation of a command, up to any point. -/
lemma mutated_of_leaves {o : Option (Json × Option Config)}
    (hnone : w.answered (conv args) (rid args) = none)
    (hs : Prog.Leaves (h.mutate env actor name args) w o w') :
    Mutated h env actor name args w o w' := by
  unfold mutate at hs
  by_cases hcreate : name = "create_conversation"
  · rw [if_pos hcreate] at hs
    obtain ⟨rfl, rfl⟩ | ⟨config, hconfig, hs⟩ := (Prog.readOnly_ofExcept _).leaves_bind hs
    · exact .still
    obtain ⟨rfl, ho⟩ := Prog.leaves_ret hs
    cases o with
    | none => exact .still
    | some d =>
      rw [ho d rfl]
      exact .created hcreate (Prog.run_ofExcept_eq_ok.mp hconfig).1
  rw [if_neg hcreate] at hs
  obtain ⟨rfl, rfl⟩ | ⟨config, hconfig, hs⟩ := (readOnly_configFor _ _).leaves_bind hs
  · exact .still
  have hlatest := (run_configFor hconfig).1
  by_cases hsend : name = "send_message"
  · rw [if_pos hsend] at hs
    obtain ⟨o', hs, ho⟩ := Prog.leaves_bind_ret hs
    have hd : ∀ d ∈ o, d.2 = none := by
      intro d hd
      obtain ⟨a, -, rfl⟩ := ho d hd
      rfl
    obtain ⟨rfl, hfound⟩ | ⟨hsendable, rfl⟩ := leaves_send hs
    · cases o with
      | none => exact .still
      | some d =>
        obtain ⟨a, rfl, rfl⟩ := ho d rfl
        obtain ⟨existing, hexisting, hfp⟩ := hfound a rfl
        exact .resent hsend hlatest hexisting hfp
    · exact .sent hsend hlatest hsendable hd
  rw [if_neg hsend] at hs
  obtain ⟨rfl, rfl⟩ | ⟨_, hrun, hs⟩ := (Prog.readOnly_ofExcept _).leaves_bind hs
  · exact .still
  have hguard := (Prog.run_ofExcept_eq_ok.mp hrun).1
  -- from here on every commit comes under the current generation
  by_cases hgrant : name = "grant_control"
  · rw [if_pos hgrant] at hs
    obtain ⟨rfl, rfl⟩ | ⟨next, hnext, hs⟩ := (Prog.readOnly_ofExcept _).leaves_bind hs
    · exact .still
    obtain ⟨rfl, ho⟩ := Prog.leaves_ret hs
    cases o with
    | none => exact .still
    | some d =>
      rw [ho d rfl]
      exact .granted hgrant hlatest hguard (Prog.run_ofExcept_eq_ok.mp hnext).1
  rw [if_neg hgrant] at hs
  by_cases hpause : name = "pause_control"
  · rw [if_pos hpause] at hs
    obtain ⟨rfl, rfl⟩ | hs := leaves_pause hnone hs
    · exact .still
    · exact .paused hpause hlatest hguard hs
  rw [if_neg hpause] at hs
  by_cases hstop : name = "stop_run"
  · rw [if_pos hstop] at hs
    obtain ⟨rfl, rfl⟩ | ⟨t, -, hs⟩ := (readOnly_taskFor _ _).leaves_bind hs
    · exact .still
    obtain ⟨o', hs, ho⟩ := Prog.leaves_bind_ret hs
    refine .acted hlatest hguard (stops_cancel hs.stops).acts fun d hd => ?_
    obtain ⟨a, -, rfl⟩ := ho d hd
    rfl
  rw [if_neg hstop] at hs
  by_cases hanswer : name = "answer_question"
  · rw [if_pos hanswer] at hs
    obtain ⟨o', hs, ho⟩ := Prog.leaves_bind_ret hs
    refine .acted hlatest hguard (stops_answerQuestion hs.stops) fun d hd => ?_
    obtain ⟨a, -, rfl⟩ := ho d hd
    rfl
  rw [if_neg hanswer] at hs
  by_cases hreview : name = "record_review"
  · rw [if_pos hreview] at hs
    obtain ⟨o', hs, ho⟩ := Prog.leaves_bind_ret hs
    refine .acted hlatest hguard (stops_review hs.stops) fun d hd => ?_
    obtain ⟨a, -, rfl⟩ := ho d hd
    rfl
  · rw [if_neg hreview] at hs
    obtain ⟨rfl, rfl⟩ := Prog.leaves_throw hs
    exact .still

omit [DecidableEq φ] in
/-- The answer is recorded, or not yet. -/
lemma stops_conclude {done : Json × Option Config} {result : Json}
    (hs : Prog.Stops ((h.conclude actor name args done).bind fun _ => Prog.ret result) w w') :
    w' = w ∨ name ≠ "pause_control" ∧
      w' = w.record (h.answer (conv args) actor.actorId name args done.1 done.2) := by
  have hs : Prog.Stops (h.conclude actor name args done) w w' := by
    obtain hs | ⟨_, v, hrun, hs⟩ := Prog.stops_bind.mp hs
    · exact hs
    · rw [Prog.stops_ret.mp hs]
      exact Prog.stops_of_run hrun
  unfold conclude at hs
  split_ifs at hs with hpause
  · exact Or.inl hs
  · exact (Hashes.stops_write hs).imp_right fun hw => ⟨hpause, hw.2⟩

/-- The state in which a command may be stopped. -/
lemma served_of_stops {readonly : Bool}
    (hs : Prog.Stops (h.line env actor name readonly args) w w') :
    Served h env actor name args w w' := by
  unfold line at hs
  cases readonly with
  | true =>
    rw [if_pos rfl] at hs
    obtain rfl | ⟨_, -, hs⟩ := (readOnly_configFor _ _).stops_bind hs
    · exact .still
    · rw [Prog.stops_ofExcept.mp hs]
      exact .still
  | false =>
    rw [if_neg Bool.false_ne_true] at hs
    obtain rfl | ⟨old, hreceipt, hs⟩ := (Prog.readOnly_readE _).stops_bind hs
    · exact .still
    have hold := (Hashes.run_receipt_eq_ok hreceipt).2
    cases old with
    | some result =>
      obtain ⟨old, hused, hfp, -⟩ := hold
      dsimp only at hs
      split_ifs at hs with hpause
      · rw [Prog.stops_ret.mp hs]
        exact .still
      · rw [not_not] at hpause
        obtain rfl | ⟨_, -, hs⟩ := (Prog.readOnly_ofExcept _).stops_bind hs
        · exact .still
        refine .repaused hpause hused hfp ?_
        obtain hs | ⟨_, v, hrun, hs⟩ := Prog.stops_bind.mp hs
        · exact stops_cancelOwned hs
        · rw [Prog.stops_ret.mp hs]
          exact stops_cancelOwned (Prog.stops_of_run hrun)
    | none =>
      have hnone : w.answered (conv args) (rid args) = none := hold
      obtain hs | ⟨done, v, hrun, hs⟩ := Prog.stops_bind.mp hs
      · -- stopped before the mutation has returned
        cases mutated_of_leaves (o := none) hnone hs with
        | still => exact .still
        | sent hsend hlatest hsendable => exact .sent hsend hnone hlatest hsendable
        | paused hpause hlatest hguard hw => exact .paused hpause hnone hlatest hguard hw
        | acted hlatest hguard hw => exact .acted hnone hlatest hguard hw
      · have hdone := stops_conclude hs
        cases mutated_of_leaves (o := some done) hnone hrun with
        | created hcreate hconfig =>
          obtain rfl | ⟨-, rfl⟩ := hdone
          · exact .still
          · exact .created hcreate hnone hconfig
        | sent hsend hlatest hsendable hd =>
          obtain rfl | ⟨-, rfl⟩ := hdone
          · exact .sent hsend hnone hlatest hsendable
          · rw [hd done rfl]
            exact .sentAnswered hsend hnone hlatest hsendable
        | resent hsend hlatest hexisting hfp =>
          obtain rfl | ⟨-, rfl⟩ := hdone
          · exact .still
          · exact .resent hsend hnone hlatest hexisting hfp
        | granted hgrant hlatest hguard hnext =>
          obtain rfl | ⟨-, rfl⟩ := hdone
          · exact .still
          · exact .granted hgrant hnone hlatest hguard hnext
        | paused hpause hlatest hguard hw =>
          obtain rfl | ⟨hne, -⟩ := hdone
          · exact .paused hpause hnone hlatest hguard hw
          · exact absurd hpause hne
        | acted hlatest hguard hw hd =>
          obtain rfl | ⟨hne, rfl⟩ := hdone
          · exact .acted hnone hlatest hguard hw
          · rw [hd done rfl]
            exact .actedAnswered hne hnone hlatest hguard hw

end Host

end Control

end Codey
