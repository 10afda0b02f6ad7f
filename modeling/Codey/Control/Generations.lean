import Codey.Control.System

/-!
# Generations of control

Which control entries the operations write, and what holds of the entries of every run: each is
the answer to one request, a conversation with entries has a configuration, and its generation
grows.
-/

namespace Codey

namespace Control

variable {φ ψ : Type}

open Host (conv rid)

def World.generation (w : World φ) (c : String) : Nat :=
  ((w.latest c).map (·.controlGeneration)).getD 0

/-- A text that the protocol accepts as the id of a conversation. -/
def validId (c : String) : Bool := lengthOk "conversation_id" (.str c)

/-- The entries that the operations write, with what they find when they write them. -/
inductive Written (h : Host φ ψ) (w : World φ) : Record φ → Prop where
  | receipt {actor : Actor} {name : String} {args : Fields} {result : Json} {config : Config} :
      name ≠ "pause_control" → w.answered (conv args) (rid args) = none →
      w.latest (conv args) = some config →
      Written h w (h.answer (conv args) actor.actorId name args result none)
  | created {env : Env φ} {actor : Actor} {args : Fields} {config : Config} :
      validId (conv args) = true → w.answered (conv args) (rid args) = none →
      Host.create env actor args = .ok config →
      Written h w (h.answer (conv args) actor.actorId "create_conversation" args config.toJson
        (some config))
  | granted {env : Env φ} {actor : Actor} {args : Fields} {config next : Config} :
      validId (conv args) = true → w.answered (conv args) (rid args) = none →
      w.latest (conv args) = some config →
      guard actor config args = .ok () → Host.granted env config args = .ok next →
      Written h w (h.answer (conv args) actor.actorId "grant_control" args next.toJson (some next))
  | paused {actor : Actor} {args : Fields} {config : Config} :
      w.answered (conv args) (rid args) = none → w.latest (conv args) = some config →
      guard actor config args = .ok () →
      Written h w (h.answer (conv args) actor.actorId "pause_control" args
        (Host.revoked config .paused).toJson (some (Host.revoked config .paused)))
  | imported {env : Env φ} {item : UiSession} : w.latest item.id = none →
      Written h w (importRecord h env item)
  | taken {c : String} {config : Config} {paused : Bool} : w.latest c = some config →
      config.mode = .delegated →
      w.answered c (Host.takeoverId (config.controlGeneration + 1)) = none →
      Written h w (takeoverRecord h c (Host.revoked config (Host.takenMode paused)))

/-- The entry follows the configuration of its conversation, or is the first to have one. -/
def Follows (w : World φ) (r : Record φ) : Prop :=
  ∀ next, r.config = some next → w.latest r.conversationId = none ∨
    ∃ config, w.latest r.conversationId = some config ∧
      next.controlGeneration = config.controlGeneration + 1

def Writes (h : Host φ ψ) (w w' : World φ) : Prop :=
  w'.records = w.records ∨ (∃ r, Written h w r ∧ w'.records = w.records ++ [r]) ∨
    ∃ c, Deleted w w' c

variable {h : Host φ ψ} {w w' : World φ}

variable {args : Fields} {actor : Actor} {config : Config}

lemma revisions_nonneg {n : Int} (h : revisions args = .ok n) : 0 ≤ n := by
  obtain ⟨hbound, h⟩ := except_seq_eq_ok.mp h
  obtain rfl := Except.ok.inj h
  rw [require_eq_ok, Bool.and_eq_true, decide_eq_true_eq] at hbound
  exact hbound.1

/-- A configuration that is created is for the conversation of the command. -/
lemma create_eq_ok {env : Env φ} (hc : Host.create env actor args = .ok config) :
    config.conversationId = conv args ∧ config.controlGeneration = 1 ∧
      0 ≤ config.maxRevisions := by
  unfold Host.create at hc
  obtain ⟨-, hc⟩ := except_seq_eq_ok.mp hc
  obtain ⟨-, hc⟩ := except_seq_eq_ok.mp hc
  obtain ⟨-, hc⟩ := except_seq_eq_ok.mp hc
  obtain ⟨maxSeconds, -, hc⟩ := except_bind_eq_ok.mp hc
  obtain ⟨maxRevisions, hrev, rfl⟩ := except_last_eq_ok.mp hc
  exact ⟨rfl, rfl, revisions_nonneg hrev⟩

lemma granted_eq_ok {env : Env φ} {config next : Config}
    (hg : Host.granted env config args = .ok next) :
    next.conversationId = config.conversationId ∧
      next.controlGeneration = config.controlGeneration + 1 ∧ 0 ≤ next.maxRevisions := by
  unfold Host.granted at hg
  obtain ⟨maxSeconds, -, hg⟩ := except_bind_eq_ok.mp hg
  obtain ⟨maxRevisions, hrev, rfl⟩ := except_last_eq_ok.mp hg
  exact ⟨rfl, rfl, revisions_nonneg hrev⟩

lemma guard_eq_ok (hg : guard actor config args = .ok ()) :
    intArg args "control_generation" = config.controlGeneration ∧
      (actor.operator = true ∨
        config.mode = .delegated ∧ config.controllerActorId = actor.actorId) := by
  unfold guard at hg
  obtain ⟨hgen, hg⟩ := except_seq_eq_ok.mp hg
  rw [require_eq_ok, decide_eq_true_eq] at hgen
  simp only [require_eq_ok, Bool.or_eq_true, Bool.and_eq_true, decide_eq_true_eq] at hg
  exact ⟨hgen, hg⟩

/-- A command writes its own answer. -/
lemma writes_of_served {env : Env φ} {name : String}
    (hid : name = "pause_control" ∨ (name = "create_conversation" ∨ name = "grant_control" →
      validId (conv args) = true))
    (hs : h.Served env actor name args w w') : w'.records = w.records ∨
      ∃ r, Written h w r ∧ w'.records = w.records ++ [r] ∧ r.conversationId = conv args ∧
        r.requestId = rid args ∧ w.answered (conv args) (rid args) = none ∧
        (name = "create_conversation" ∨ Follows w r) := by
  cases hs with
  | still => exact Or.inl rfl
  | repaused _ _ _ hcancels => exact Or.inl hcancels.records
  | created hname hnone hconfig =>
    subst hname
    have hid := hid.resolve_left (by decide) (Or.inl rfl)
    exact Or.inr ⟨_, .created hid hnone hconfig, rfl, rfl, rfl, hnone, Or.inl rfl⟩
  | sent => exact Or.inl rfl
  | sentAnswered hname hnone hlatest =>
    subst hname
    exact Or.inr ⟨_, .receipt (by decide) hnone hlatest, rfl, rfl, rfl, hnone,
      Or.inr (by simp [Follows, Hashes.answer])⟩
  | resent hname hnone hlatest =>
    subst hname
    exact Or.inr ⟨_, .receipt (by decide) hnone hlatest, rfl, rfl, rfl, hnone,
      Or.inr (by simp [Follows, Hashes.answer])⟩
  | granted hname hnone hlatest hguard hnext =>
    subst hname
    have hid := hid.resolve_left (by decide) (Or.inr rfl)
    refine Or.inr ⟨_, .granted hid hnone hlatest hguard hnext, rfl, rfl, rfl, hnone, Or.inr ?_⟩
    rintro _ ⟨⟩
    exact Or.inr ⟨_, hlatest, (granted_eq_ok hnext).2.1⟩
  | paused hname hnone hlatest hguard hcancels =>
    subst hname
    refine Or.inr ⟨_, .paused hnone hlatest hguard, hcancels.records, rfl, rfl, hnone,
      Or.inr ?_⟩
    rintro _ ⟨⟩
    exact Or.inr ⟨_, hlatest, rfl⟩
  | acted _ _ _ hacts => exact Or.inl hacts.records
  | @actedAnswered config v result hname hnone hlatest _ hacts =>
    have hreceipt : Written h w (h.answer (conv args) actor.actorId name args result none) :=
      .receipt hname hnone hlatest
    refine Or.inr ⟨_, hreceipt, ?_, rfl, rfl, hnone, Or.inr (by simp [Follows, Hashes.answer])⟩
    rw [World.record, hacts.records]

lemma mem_of_get? {fields : Fields} {key : String} {v : Json} (hv : fields.get? key = some v) :
    (key, v) ∈ fields := by
  induction fields with
  | nil => cases hv
  | cons member fields ih =>
    obtain ⟨k, u⟩ := member
    rw [Fields.get?_cons] at hv
    split_ifs at hv with hk
    · obtain rfl := Option.some.inj hv
      exact hk ▸ List.mem_cons_self
    · exact List.mem_cons_of_mem _ (ih hv)

/-- What the protocol has checked of an accepted command. -/
lemma checked_of_accepted {name : String} {readonly : Bool} {fields args : Fields}
    (ha : h.accepted actor name (.obj fields) = .ok (readonly, args)) :
    ∃ command, declared name = .ok command ∧
      (∀ key ∈ command.required, (fields.get? key).isSome = true) ∧
      ∀ member ∈ fields, ((command.fields.lookup member.1).getD .string).holds member.2 = true ∧
        lengthOk member.1 member.2 = true := by
  unfold Host.accepted at ha
  obtain ⟨_, hvalid, -⟩ := except_bind_eq_ok.mp ha
  unfold validateCommand at hvalid
  obtain ⟨command, hcommand, hvalid⟩ := except_bind_eq_ok.mp hvalid
  obtain ⟨members, hmembers, hvalid⟩ := except_bind_eq_ok.mp hvalid
  obtain ⟨hrequired, hvalid⟩ := except_seq_eq_ok.mp hvalid
  obtain ⟨hchecked, -⟩ := except_seq_eq_ok.mp hvalid
  obtain rfl : fields = members := by
    simp only [Command.args] at hmembers
    split_ifs at hmembers
    exact Except.ok.inj hmembers
  refine ⟨command, hcommand, ?_, fun member hmember => ?_⟩
  · simpa using hrequired
  · have hone := checkAll_eq_ok.mp hchecked member hmember
    unfold Command.checkField at hone
    obtain ⟨hkind, hlen⟩ := except_seq_eq_ok.mp hone
    exact ⟨require_eq_ok.mp hkind, require_eq_ok.mp hlen⟩

/-- The id of a conversation that is created or granted is one that the protocol accepts. -/
lemma validId_of_accepted {name : String} {params : Json} {readonly : Bool}
    (ha : h.accepted actor name params = .ok (readonly, args))
    (hname : name = "create_conversation" ∨ name = "grant_control") :
    validId (conv args) = true := by
  have hargs := accepted_eq_ok ha
  obtain rfl | rfl := hname
  · rw [if_pos rfl] at hargs
    obtain ⟨fields, -, rfl⟩ := hargs
    -- a derived id is short, and is not blank
    simp only [conv, textArg, Fields.get?_set, if_pos, Option.bind_some, Json.str?_str,
      Option.getD_some, validId, lengthOk, Host.conversationId, Bool.and_eq_true, Bool.or_eq_true,
      decide_eq_true_eq, String.length_append, String.length_ofList]
    refine ⟨?_, Or.inr ?_⟩
    · exact (Nat.add_le_add_left (List.length_take_le _ _) _).trans (by decide)
    · simp [blank]
  · rw [if_neg (by decide)] at hargs
    subst hargs
    obtain ⟨command, hcommand, hrequired, hfields⟩ := checked_of_accepted ha
    obtain rfl := Except.ok.inj hcommand
    obtain ⟨v, hv⟩ : ∃ v, args.get? "conversation_id" = some v :=
      Option.isSome_iff_exists.mp (hrequired "conversation_id" (by simp))
    obtain ⟨hkind, hlen⟩ := hfields _ (mem_of_get? hv)
    have hkind : FieldKind.string.holds v = true := hkind
    obtain ⟨c, rfl⟩ : ∃ c, v = .str c := by
      cases v with
      | str c => exact ⟨c, rfl⟩
      | _ => cases hkind
    rw [conv, textArg, hv]
    exact hlen

variable [DecidableEq φ] [DecidableEq ψ] in
/-- Every step writes at most one entry, or deletes those of one conversation. -/
lemma writes_of_step {e : Event φ} (hs : e.Step h w w') : Writes h w w' := by
  cases e with
  | command env actor name params =>
    obtain ⟨readonly, args, ha, hs⟩ := hs
    have hid := fun hname => validId_of_accepted ha hname
    obtain hsame | ⟨r, hr, hrecords, -⟩ :=
      writes_of_served (Or.inr hid) (Host.served_of_stops hs)
    · exact Or.inl hsame
    · exact Or.inr (Or.inl ⟨r, hr, hrecords⟩)
  | poll env config =>
    obtain hsame | ⟨r, hr, hrecords, -⟩ := writes_of_served (Or.inl rfl) (served_of_pollOne hs)
    · exact Or.inl hsame
    · exact Or.inr (Or.inl ⟨r, hr, hrecords⟩)
  | takeover env c paused =>
    obtain rfl | ⟨config, hlatest, hmode, hcancels | ⟨hnone, hcancels⟩⟩ := stops_takeover hs
    · exact Or.inl rfl
    · exact Or.inl hcancels.records
    · exact Or.inr (Or.inl ⟨_, .taken hlatest hmode hnone, hcancels.records⟩)
  | importUi env item =>
    obtain rfl | ⟨hnone, rfl⟩ := stops_importSession hs
    · exact Or.inl rfl
    · exact Or.inr (Or.inl ⟨_, .imported hnone, rfl⟩)
  | dispatch env task => exact Or.inl (stops_permitsDispatch hs).records
  | delete c => exact Or.inr (Or.inr ⟨c, hs⟩)
  | other => exact Or.inl hs.records

/-! ### What every run keeps -/

/-- The entry answers one request. A pause is answered by the configuration that it leaves. -/
def Record.Sound (h : Host φ ψ) (r : Record φ) : Prop :=
  ∃ actorId operation params, r.fingerprint = h.request actorId operation params ∧
    (operation = "pause_control" → ∃ config, r.config = some config ∧ r.result = config.toJson ∧
      intArg params "control_generation" + 1 = config.controlGeneration ∧
      r.conversationId = conv params)

/-- What holds of the control entries in every run. -/
structure Inv (h : Host φ ψ) (w : World φ) : Prop where
  conversation : ∀ r ∈ w.records, ∀ config, r.config = some config →
    config.conversationId = r.conversationId
  configured : ∀ r ∈ w.records, ∃ config, w.latest r.conversationId = some config
  named : ∀ r ∈ w.records, ∀ config, r.config = some config → config.mode = .delegated →
    validId config.conversationId = true
  sound : ∀ r ∈ w.records, r.Sound h

lemma Inv.empty : Inv h ({} : World φ) := ⟨by simp, by simp, by simp, by simp⟩

lemma Inv.latest_conversation (hw : Inv h w) {c : String} (hlatest : w.latest c = some config) :
    config.conversationId = c := by
  obtain ⟨r, hr, hc, hconfig⟩ := exists_of_latest hlatest
  rw [hw.conversation r hr config hconfig, hc]

lemma Inv.valid_of_latest (hw : Inv h w) {c : String} (hlatest : w.latest c = some config)
    (hmode : config.mode = .delegated) : validId config.conversationId = true := by
  obtain ⟨r, hr, -, hconfig⟩ := exists_of_latest hlatest
  exact hw.named r hr config hconfig hmode

lemma Inv.answered_of_latest (hw : Inv h w) {c : String} (hlatest : w.latest c = none)
    (requestId : String) : w.answered c requestId = none := by
  refine answered_eq_none_iff.mpr fun r hr hc => ?_
  obtain ⟨config, hconfig⟩ := hw.configured r hr
  rw [hc, hlatest] at hconfig
  cases hconfig

/-- What a new entry has to do with the conversation that it is written in. -/
lemma Written.entry (hw : Inv h w) {r : Record φ} (hr : Written h w r) :
    r.Sound h ∧ (r.config = none ∨ ∃ config, r.config = some config ∧
      config.conversationId = r.conversationId ∧
      (config.mode = .delegated → validId config.conversationId = true)) ∧
      (r.config ≠ none ∨ ∃ config, w.latest r.conversationId = some config) := by
  cases hr with
  | @receipt actor name args result config hname hnone hlatest =>
    exact ⟨⟨_, _, args, rfl, fun heq => absurd heq hname⟩, Or.inl rfl, Or.inr ⟨_, hlatest⟩⟩
  | @created env actor args config hid hnone hconfig =>
    exact ⟨⟨_, _, args, rfl, fun heq => absurd heq (by decide)⟩,
      Or.inr ⟨config, rfl, (create_eq_ok hconfig).1, fun _ => (create_eq_ok hconfig).1 ▸ hid⟩,
      Or.inl (by simp [Hashes.answer])⟩
  | @granted env actor args config next hid hnone hlatest hguard hnext =>
    have hconv := (granted_eq_ok hnext).1.trans (hw.latest_conversation hlatest)
    exact ⟨⟨_, _, args, rfl, fun heq => absurd heq (by decide)⟩,
      Or.inr ⟨next, rfl, hconv, fun _ => hconv ▸ hid⟩, Or.inl (by simp [Hashes.answer])⟩
  | @paused actor args config hnone hlatest hguard =>
    have hconv := hw.latest_conversation hlatest
    refine ⟨⟨_, _, args, rfl, fun _ => ⟨_, rfl, rfl, ?_, rfl⟩⟩,
      Or.inr ⟨_, rfl, hconv, fun hmode => absurd hmode (by simp [Host.revoked])⟩,
      Or.inl (by simp [Hashes.answer])⟩
    rw [(guard_eq_ok hguard).1]
    exact (Int.natCast_succ _).symm
  | @imported env item hnone =>
    exact ⟨⟨_, _, _, rfl, fun heq => absurd heq (by decide)⟩,
      Or.inr ⟨_, rfl, rfl, fun hmode => absurd hmode (by simp [Host.importedConfig])⟩,
      Or.inl (by simp [importRecord, Hashes.answer])⟩
  | @taken c config paused hlatest hmode hnone =>
    have hconv := hw.latest_conversation hlatest
    have hmode : Host.takenMode paused ≠ .delegated := by cases paused <;> decide
    exact ⟨⟨_, _, _, rfl, fun heq => absurd heq (by decide)⟩,
      Or.inr ⟨_, rfl, hconv, fun hdelegated => absurd hdelegated hmode⟩,
      Or.inl (by simp [takeoverRecord, Hashes.answer])⟩

lemma latest_of_append {r : Record φ} (hrecords : w'.records = w.records ++ [r]) (c : String) :
    w'.latest c = if r.conversationId = c then r.config.or (w.latest c) else w.latest c := by
  rw [← latest_record]
  exact latest_congr hrecords

lemma Inv.deleted (hw : Inv h w) {c : String} (hd : Deleted w w' c) : Inv h w' := by
  refine ⟨?_, ?_, ?_, ?_⟩
  all_goals
    intro r hr
    obtain ⟨hr, hne⟩ := hd.mem_records hr
  · exact hw.conversation r hr
  · rw [hd.latest hne]
    exact hw.configured r hr
  · exact hw.named r hr
  · exact hw.sound r hr

lemma Inv.writes (hw : Inv h w) (hs : Writes h w w') : Inv h w' := by
  obtain hsame | ⟨r, hr, hrecords⟩ | ⟨c, hd⟩ := hs
  rotate_right
  · exact hw.deleted hd
  · refine ⟨?_, ?_, ?_, ?_⟩
    all_goals rw [hsame]
    · exact hw.conversation
    · intro r hr
      rw [latest_congr hsame]
      exact hw.configured r hr
    · exact hw.named
    · exact hw.sound
  obtain ⟨hsound, hconfig, hconfigured⟩ := hr.entry hw
  refine ⟨?_, ?_, ?_, ?_⟩
  all_goals
    rw [hrecords]
    intro s hs
    obtain hs | hs := List.mem_append.mp hs
  · exact hw.conversation s hs
  · obtain rfl := List.mem_singleton.mp hs
    intro config hsome
    obtain hnone | ⟨config', hsome', hconv, -⟩ := hconfig
    · rw [hnone] at hsome
      cases hsome
    · rw [hsome'] at hsome
      exact Option.some.inj hsome ▸ hconv
  · obtain ⟨config, hlatest⟩ := hw.configured s hs
    rw [latest_of_append hrecords, hlatest]
    split_ifs
    · cases r.config with
      | none => exact ⟨config, rfl⟩
      | some next => exact ⟨next, rfl⟩
    · exact ⟨config, rfl⟩
  · obtain rfl := List.mem_singleton.mp hs
    rw [latest_of_append hrecords, if_pos rfl]
    obtain hsome | ⟨config, hlatest⟩ := hconfigured
    · obtain ⟨config, hsome⟩ := Option.ne_none_iff_exists'.mp hsome
      exact ⟨config, by rw [hsome]; rfl⟩
    · rw [hlatest]
      cases s.config with
      | none => exact ⟨config, rfl⟩
      | some next => exact ⟨next, rfl⟩
  · exact hw.named s hs
  · obtain rfl := List.mem_singleton.mp hs
    intro config hsome
    obtain hnone | ⟨config', hsome', -, hid⟩ := hconfig
    · rw [hnone] at hsome
      cases hsome
    · rw [hsome'] at hsome
      exact Option.some.inj hsome ▸ hid
  · exact hw.sound s hs
  · obtain rfl := List.mem_singleton.mp hs
    exact hsound

variable [DecidableEq φ] [DecidableEq ψ]

lemma Runs.invariant {ok : World φ → Event φ → Prop} {I : World φ → Prop} {w₀ : World φ}
    (hrun : Runs h ok w₀ w) (hinit : I w₀)
    (hstep : ∀ w w' e, I w → ok w e → e.Step h w w' → I w') : I w := by
  induction hrun with
  | refl => exact hinit
  | tail _ hlast ih =>
    obtain ⟨e, hok, hs⟩ := hlast
    exact hstep _ _ e ih hok hs

lemma Runs.inv {ok : World φ → Event φ → Prop} (hrun : Runs h ok {} w) : Inv h w :=
  hrun.invariant .empty fun _ _ _ hw _ hs => hw.writes (writes_of_step hs)

end Control

end Codey
