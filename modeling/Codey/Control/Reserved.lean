import Codey.Control.Revocation

/-!
# Reserved request ids

The takeover of a conversation and the pause of the poll are answered under request ids that are
derived from the generation of control, and that any caller may use as well.
-/

namespace Codey

namespace Control

variable {φ ψ : Type}

open Host (conv rid)

/-! ### The ids -/

lemma toString_injective : Function.Injective (toString : Nat → String) := by
  have hof : ∀ k : Nat, Nat.ofDigitChars 10 (toString k).toList 0 = k := by
    intro k
    simp [Nat.toString_eq_repr, Nat.toList_repr]
  intro k l hkl
  rw [← hof k, hkl, hof l]

lemma append_injective (s : String) : Function.Injective (s ++ · : String → String) := by
  intro a b hab
  have hlist := congrArg String.toList hab
  simp only [String.toList_append, List.append_cancel_left_eq] at hlist
  exact String.ext hlist

lemma takeoverId_injective : Function.Injective Host.takeoverId :=
  (append_injective _).comp toString_injective

lemma budgetId_injective : Function.Injective Host.budgetId :=
  (append_injective _).comp toString_injective

lemma takeoverId_ne_budgetId (k l : Nat) : Host.takeoverId k ≠ Host.budgetId l := by
  intro heq
  have hlist := congrArg String.toList heq
  simp [Host.takeoverId, Host.budgetId] at hlist

lemma takeoverId_ne_import (k : Nat) : Host.takeoverId k ≠ "import-ui" := by
  intro heq
  have hlist := congrArg String.toList heq
  simp [Host.takeoverId] at hlist

lemma budgetId_ne_import (k : Nat) : Host.budgetId k ≠ "import-ui" := by
  intro heq
  have hlist := congrArg String.toList heq
  simp [Host.budgetId] at hlist

/-- The entry takes no id of a takeover or of a poll that is still to come. -/
structure Record.Past (w : World φ) (r : Record φ) : Prop where
  takeover : ∀ k, r.requestId = Host.takeoverId k → k ≤ w.generation r.conversationId
  budget : ∀ k, r.requestId = Host.budgetId k → k < w.generation r.conversationId

/-- The ids of the takeovers and polls to come are unused. -/
def Reserved (w : World φ) : Prop := ∀ r ∈ w.records, r.Past w

lemma Reserved.unused {w : World φ} (hw : Reserved w) {c : String} {config : Config}
    (hlatest : w.latest c = some config) :
    ¬Used w c (Host.takeoverId (config.controlGeneration + 1)) ∧
      ¬Used w c (Host.budgetId config.controlGeneration) := by
  constructor
  · rintro ⟨r, hr, rfl, hid⟩
    have hle := (hw r hr).takeover _ hid
    rw [generation_of_latest hlatest] at hle
    exact Nat.not_succ_le_self _ hle
  · rintro ⟨r, hr, rfl, hid⟩
    have hlt := (hw r hr).budget _ hid
    rw [generation_of_latest hlatest] at hlt
    exact Nat.lt_irrefl _ hlt

variable [DecidableEq φ] [DecidableEq ψ] {h : Host φ ψ} {w w' : World φ}

/-! ### Steps that leave them unused -/

/-- A command that takes no id of a takeover or of a poll to come, and creates no conversation
that there is already. -/
def Event.Apart (h : Host φ ψ) (w : World φ) : Event φ → Prop
  | .command _ actor name params => ∀ command, h.accepted actor name params = .ok command →
      (∀ k, rid command.2 = Host.takeoverId k → k ≤ w.generation (conv command.2)) ∧
      (∀ k, rid command.2 = Host.budgetId k → k < w.generation (conv command.2)) ∧
      (name = "create_conversation" →
        w.latest (conv command.2) = none ∨ Used w (conv command.2) (rid command.2))
  | _ => True

omit [DecidableEq φ] in
/-- The generation of a conversation after one more entry. -/
lemma generation_le_of_follows {r : Record φ} (hrecords : w'.records = w.records ++ [r])
    (hfollows : Follows w r) (c : String) : w.generation c ≤ w'.generation c := by
  rw [World.generation, World.generation, latest_of_append hrecords]
  split_ifs with hc
  · cases hconfig : r.config with
    | none => exact le_refl _
    | some next =>
      obtain hnone | ⟨config, hlatest, hnext⟩ := hfollows next hconfig
      · rw [← hc, hnone]
        exact Nat.zero_le _
      · rw [← hc, hlatest]
        exact (Nat.le_succ _).trans_eq hnext.symm
  · exact le_refl _

omit [DecidableEq φ] in
lemma generation_congr (hrecords : w'.records = w.records) (c : String) :
    w'.generation c = w.generation c := by
  rw [World.generation, World.generation, latest_congr hrecords]

/-- Nothing is written, or an entry that follows and takes no reserved id, or a conversation is
deleted. -/
def Keeps (w w' : World φ) : Prop :=
  w'.records = w.records ∨ (∃ r, w'.records = w.records ++ [r] ∧ Follows w r ∧ r.Past w') ∨
    ∃ c, Deleted w w' c

omit [DecidableEq φ] in
lemma Keeps.reserved (hk : Keeps w w') (hw : Reserved w) : Reserved w' := by
  obtain hsame | ⟨r, hrecords, hfollows, hpast⟩ | ⟨c, hd⟩ := hk
  · intro s hs
    rw [hsame] at hs
    refine ⟨fun k hid => ?_, fun k hid => ?_⟩
    · rw [generation_congr hsame]
      exact (hw s hs).takeover k hid
    · rw [generation_congr hsame]
      exact (hw s hs).budget k hid
  · intro s hs
    rw [hrecords] at hs
    obtain hs | hs := List.mem_append.mp hs
    · have hle := generation_le_of_follows hrecords hfollows s.conversationId
      exact ⟨fun k hid => ((hw s hs).takeover k hid).trans hle,
        fun k hid => ((hw s hs).budget k hid).trans_le hle⟩
    · obtain rfl := List.mem_singleton.mp hs
      exact hpast
  · intro s hs
    obtain ⟨hs, hne⟩ := hd.mem_records hs
    have hgen : w'.generation s.conversationId = w.generation s.conversationId := by
      rw [World.generation, World.generation, hd.latest hne]
    exact ⟨hgen ▸ (hw s hs).takeover, hgen ▸ (hw s hs).budget⟩

omit [DecidableEq φ] in
/-- An entry with the next configuration. -/
lemma keeps_of_next {r : Record φ} {config next : Config}
    (hlatest : w.latest r.conversationId = some config) (hconfig : r.config = some next)
    (hnext : next.controlGeneration = config.controlGeneration + 1)
    (hid : r.requestId = Host.takeoverId (config.controlGeneration + 1) ∨
      r.requestId = Host.budgetId config.controlGeneration)
    (hrecords : w'.records = w.records ++ [r]) : Keeps w w' := by
  have hgen : w'.generation r.conversationId = config.controlGeneration + 1 := by
    refine (generation_of_latest ?_).trans hnext
    rw [latest_of_append hrecords, if_pos rfl, hconfig]
    rfl
  refine Or.inr (Or.inl ⟨r, hrecords, ?_, ?_, ?_⟩)
  · intro other hother
    obtain rfl := Option.some.inj (hconfig.symm.trans hother)
    exact Or.inr ⟨config, hlatest, hnext⟩
  · intro k hk
    obtain hid | hid := hid
    · rw [hgen, takeoverId_injective (hk.symm.trans hid)]
    · exact absurd (hk.symm.trans hid) (takeoverId_ne_budgetId _ _)
  · intro k hk
    obtain hid | hid := hid
    · exact absurd (hid.symm.trans hk) (takeoverId_ne_budgetId _ _)
    · rw [hgen, budgetId_injective (hk.symm.trans hid)]
      exact Nat.lt_succ_self _

lemma keeps_of_step {e : Event φ} (hok : e.Apart h w) (hs : e.Step h w w') : Keeps w w' := by
  cases e with
  | command env actor name params =>
    obtain ⟨readonly, args, ha, hs⟩ := hs
    obtain ⟨htakeover, hbudget, hcreate⟩ := hok _ ha
    have hid := fun hname => validId_of_accepted ha hname
    obtain hsame | ⟨r, hr, hrecords, hconv, hrid, hnone, hfollows⟩ :=
      writes_of_served (Or.inr hid) (Host.served_of_stops hs)
    · exact Or.inl hsame
    have hfollows : Follows w r := by
      obtain hname | hfollows := hfollows
      · obtain hfresh | hused := hcreate hname
        · exact fun _ _ => Or.inl (hconv ▸ hfresh)
        · exact absurd hused (answered_eq_none_iff_used.mp hnone)
      · exact hfollows
    have hle := generation_le_of_follows hrecords hfollows (conv args)
    refine Or.inr (Or.inl ⟨r, hrecords, hfollows, ?_, ?_⟩)
    · rw [hconv, hrid]
      exact fun k hk => (htakeover k hk).trans hle
    · rw [hconv, hrid]
      exact fun k hk => (hbudget k hk).trans_le hle
  | poll env config =>
    -- the pause of the poll is guarded by the generation that its request id names
    cases served_of_pollOne hs with
    | still => exact Or.inl rfl
    | repaused _ _ _ hcancels => exact Or.inl hcancels.records
    | @paused latest _ _ _ hlatest hguard hcancels =>
      have hgen : config.controlGeneration = latest.controlGeneration :=
        Int.natCast_inj.mp (guard_eq_ok hguard).1
      refine keeps_of_next hlatest rfl rfl (Or.inr ?_) hcancels.records
      rw [← hgen]
      rfl
    | acted _ _ _ hacts => exact Or.inl hacts.records
    | actedAnswered hname => exact absurd rfl hname
    | created hname | sent hname | sentAnswered hname | resent hname | granted hname =>
      exact absurd hname (by decide)
  | takeover env c paused =>
    obtain rfl | ⟨config, hlatest, hmode, hcancels | ⟨hnone, hcancels⟩⟩ := stops_takeover hs
    · exact Or.inl rfl
    · exact Or.inl hcancels.records
    · exact keeps_of_next hlatest rfl rfl (Or.inl rfl) hcancels.records
  | importUi env item =>
    obtain rfl | ⟨hnone, rfl⟩ := stops_importSession hs
    · exact Or.inl rfl
    · refine Or.inr (Or.inl ⟨_, rfl, fun _ _ => Or.inl hnone, ?_, ?_⟩)
      · exact fun k hk => absurd hk.symm (takeoverId_ne_import k)
      · exact fun k hk => absurd hk.symm (budgetId_ne_import k)
  | dispatch env task => exact Or.inl (stops_permitsDispatch hs).records
  | delete c => exact Or.inr (Or.inr ⟨c, hs⟩)
  | other => exact Or.inl hs.records

/-- In every run of such steps the ids of the takeover and of the poll are unused. -/
lemma Runs.reserved (hrun : Runs h (Event.Apart h) {} w) : Reserved w :=
  hrun.invariant (by simp [Reserved]) fun _ _ _ hw hok hs => (keeps_of_step hok hs).reserved hw

/-! ### Delegations that can be revoked -/

/-- The user, an operator and the clock each get the conversation back. -/
structure Regained (h : Host φ ψ) (w : World φ) (c : String) (config : Config) : Prop where
  takeover : ∀ env paused, Revokes (h.takeoverUi env c paused) w c
  pause : ∀ (env : Env φ) (actor : Actor) (params : Json) (command : Bool × Fields),
    actor.operator = true → h.accepted actor "pause_control" params = .ok command →
    conv command.2 = c → intArg command.2 "control_generation" = config.controlGeneration →
    ¬Used w c (rid command.2) → Revokes (h.execute env actor "pause_control" params) w c
  poll : ∀ env : Env φ, env.draining = false → config.expiresAt ≤ env.now →
    Revokes (h.poll env true) w c

/-- Nothing stands in the way of the takeover and of the poll. -/
structure Regainable (h : Host φ ψ) (w : World φ) (c : String) (config : Config) : Prop where
  takeover : ¬Used w c (Host.takeoverId (config.controlGeneration + 1))
  budget : ¬Used w c (Host.budgetId config.controlGeneration)
  fits : h.BudgetFits config

/-- Surroundings in which there is nothing, at a time. -/
def Env.empty (φ : Type) (now : Rat) : Env φ where
  now := now
  draining := false
  sessions := []
  runId := ""
  active := none
  workspace := id
  resolve := id
  authorized := fun _ => false
  isDirectory := fun _ => true
  selection := .ok ()
  admission := fun _ => .null
  question := fun _ => none
  answer := .ok .null
  candidate := .error (invalid "")
  settled := fun t => t.status
  query := .ok .null

lemma regained_iff (hfp : Function.Injective h.fingerprint) (hw : Inv h w) {c : String}
    {config : Config} (hlatest : w.latest c = some config) (hmode : config.mode = .delegated) :
    Regained h w c config ↔ Regainable h w c config := by
  constructor
  · intro hregained
    have hpoll := hregained.poll (.empty φ config.expiresAt) rfl Rat.le_refl
    rw [revokes_poll_iff hfp hw hlatest hmode rfl Rat.le_refl] at hpoll
    have htakeover := hregained.takeover (.empty φ 0) false
    rw [revokes_takeoverUi_iff hw false hlatest hmode] at htakeover
    exact ⟨htakeover, hpoll.1, hpoll.2⟩
  · intro hregainable
    refine ⟨fun env paused => ?_, ?_, fun env hdraining hexpired => ?_⟩
    · exact (revokes_takeoverUi_iff hw paused hlatest hmode).mpr hregainable.takeover
    · rintro env actor params command hop ha rfl hgeneration hunused
      exact revokes_execute_pause env ha hop hlatest hgeneration hunused
    · exact (revokes_poll_iff hfp hw hlatest hmode hdraining hexpired).mpr
        ⟨hregainable.budget, hregainable.fits⟩

/-- In a reachable state a delegation can be revoked exactly when the request ids of its revocation
are unused, and they are in every run whose commands keep apart from them. -/
theorem regained_of_runs (hfp : Function.Injective h.fingerprint) :
    (∀ w, Runs h (fun _ _ => True) {} w → ∀ c config, w.latest c = some config →
      config.mode = .delegated → (Regained h w c config ↔ Regainable h w c config)) ∧
    ∀ w, Runs h (Event.Apart h) {} w → ∀ c config, w.latest c = some config →
      config.mode = .delegated → h.BudgetFits config → Regained h w c config := by
  refine ⟨fun w hrun c config hlatest hmode => regained_iff hfp hrun.inv hlatest hmode, ?_⟩
  intro w hrun c config hlatest hmode hfits
  have hunused := hrun.reserved.unused hlatest
  exact (regained_iff hfp hrun.inv hlatest hmode).mpr ⟨hunused.1, hunused.2, hfits⟩

def plainHost : Host Json (Record Json) where
  fingerprint := id
  digest := id
  hex := fun _ => ""
  frameBytes := fun _ => 0

/-- The external actor creates its first conversation, under a request id of its choice. -/
def creation (requestId : String) : Event Json :=
  .command (.empty Json 0) .codex "create_conversation" (.obj [("request_id", .str requestId)])

def created (requestId : String) : World Json :=
  ((plainHost.line (.empty Json 0) .codex "create_conversation" false
    (Fields.set [("request_id", .str requestId)] "conversation_id" (.str "control_"))).run {}).2

/-- The configuration that the creation leaves. -/
def createdConfig : Config where
  conversationId := "control_"
  title := "Codex · Codey"
  project := "control_"
  provider := "deepseek"
  modelSelection := .obj []
  createdBy := "codex"
  createdAt := 0
  mode := .delegated
  controllerActorId := "codex"
  controlGeneration := 1
  rootRequestId := ""
  expiresAt := 0 + (1800 : Int)
  maxSeconds := 1800
  maxRevisions := 3

lemma step_creation {requestId : String} (ha : plainHost.accepted .codex "create_conversation"
    (.obj [("request_id", .str requestId)]) = .ok (false,
      Fields.set [("request_id", .str requestId)] "conversation_id" (.str "control_"))) :
    (creation requestId).Step plainHost {} (created requestId) :=
  ⟨false, _, ha, Prog.stops_run _ _⟩

theorem regained_created : Regained plainHost (created "first") "control_" createdConfig := by
  have hlatest : (created "first").latest "control_" = some createdConfig := rfl
  have hok : (creation "first").Apart plainHost {} := by
    rintro _ ⟨⟩
    refine ⟨fun k hk => ?_, fun k hk => ?_, fun _ => Or.inl rfl⟩
    · have hlist : "first".toList = (Host.takeoverId k).toList := congrArg String.toList hk
      simp [Host.takeoverId] at hlist
    · have hlist : "first".toList = (Host.budgetId k).toList := congrArg String.toList hk
      simp [Host.budgetId] at hlist
  exact (regained_of_runs Function.injective_id).2 _ (.single ⟨_, hok, step_creation rfl⟩) _ _
    hlatest rfl ⟨by decide, Nat.zero_le _⟩

/-- The external actor takes the request id of the takeover for its creation. -/
theorem takeover_conflicts : ∃ w c config, Runs plainHost (fun _ _ => True) {} w ∧
    w.latest c = some config ∧ config.mode = .delegated ∧
    ¬Revokes (plainHost.takeoverUi (.empty Json 0) c false) w c := by
  have hlatest : (created "takeover_2").latest "control_" = some createdConfig := rfl
  have hrun : Runs plainHost (fun _ _ => True) {} (created "takeover_2") :=
    .single ⟨_, trivial, step_creation rfl⟩
  refine ⟨_, _, _, hrun, hlatest, rfl, ?_⟩
  rw [revokes_takeoverUi_iff hrun.inv false hlatest rfl, not_not]
  exact ⟨_, List.mem_singleton.mpr rfl, rfl, rfl⟩

end Control

end Codey
