import Codey.Control.Reserved

/-!
# Commits of the control service

The steps of a run are made of single commits, and every commit keeps the account of a delegation:
one configuration for each generation, and no more inputs under it than it allows.
-/

namespace Codey

namespace Control

variable {φ ψ : Type}

open Host (conv rid)

/-- The inputs that external actors have sent to a conversation under a generation. -/
def World.inputs (w : World φ) (c : String) (generation : Nat) : Nat :=
  w.tasks.countP fun t => t.conversationId = c &&
    t.sent.any fun sent => !sent.actor.operator && sent.generation = generation

def World.admissions (w : World φ) (identity : String) : Nat :=
  w.tasks.countP fun t => t.sent.isSome && t.inputIdentity = some identity

/-- The inputs of earlier generations are cancelled, and the generation is no longer one of
them. -/
structure Revoked (w : World φ) (c : String) (generation : Int) : Prop where
  barrier : generation ≤ w.generation c
  cancelled : ∀ t ∈ w.tasks, t.ownedBefore c generation = true →
    t.status.terminal = true ∨ t.cancelRequested = true

lemma Acts.others {w w' : World φ} (h : Acts w w') : Others w w' :=
  ⟨h.records, w'.tasks, [], (List.append_nil _).symm, h.tasks, by simp⟩

lemma Cancels.others {w w' : World φ} (h : Cancels w w') : Others w w' := h.acts.others

variable {h : Host φ ψ} {w w' : World φ}

/-- The conversation has at most been adopted from the browser, and no command has sent it
anything. -/
structure Untouched (h : Host φ ψ) (w : World φ) (c : String) : Prop where
  records : ∀ r ∈ w.records, r.conversationId = c → ∃ env item, r = importRecord h env item
  tasks : ∀ t ∈ w.tasks, t.conversationId = c → t.sent = none

/-- One commit. -/
inductive Commit (h : Host φ ψ) (w : World φ) : World φ → Prop where
  | entry {r : Record φ} : Written h w r → Follows w r → Commit h w (w.record r)
  | input {env : Env φ} {actor : Actor} {args : Fields} {config : Config} :
      w.latest (conv args) = some config → h.Sendable env actor args config w →
      Commit h w (w.admitTask (h.sentTask env actor args config))
  | deleted {w' : World φ} {c : String} : Deleted w w' c → Untouched h w c → Commit h w w'
  | others {w' : World φ} : Others w w' → Commit h w w'

abbrev Commits (h : Host φ ψ) : World φ → World φ → Prop := Relation.ReflTransGen (Commit h)

/-! ### Steps are made of commits -/

/-- A creation finds no configuration, unless it has been carried out before, and a deletion
concerns a conversation that no command has touched. -/
def Event.Fresh (h : Host φ ψ) (w : World φ) : Event φ → Prop
  | .command _ actor name params => name = "create_conversation" →
      ∀ command, h.accepted actor name params = .ok command →
        w.latest (conv command.2) = none ∨ Used w (conv command.2) (rid command.2)
  | .delete c => Untouched h w c
  | _ => True

lemma follows_of_receipt {c actorId name : String} {params : Fields} {result : Json} :
    Follows w (h.answer c actorId name params result none) := by
  simp [Follows, Hashes.answer]

lemma Cancels.commit (hc : Cancels w w') : Commits h w w' := .single (.others hc.others)

lemma commits_of_served {env : Env φ} {actor : Actor} {name : String} {args : Fields}
    (hid : name = "pause_control" ∨ (name = "create_conversation" ∨ name = "grant_control" →
      validId (conv args) = true))
    (hfresh : name = "create_conversation" →
      w.latest (conv args) = none ∨ Used w (conv args) (rid args))
    (hs : h.Served env actor name args w w') : Commits h w w' := by
  cases hs with
  | still => exact .refl
  | repaused _ _ _ hcancels => exact hcancels.commit
  | created hname hnone hconfig =>
    have hvalid := hid.resolve_left (by rw [hname]; decide) (Or.inl hname)
    obtain hlatest | hused := hfresh hname
    · subst hname
      exact .single (.entry (.created hvalid hnone hconfig) fun _ _ => Or.inl hlatest)
    · exact absurd hused (answered_eq_none_iff_used.mp hnone)
  | sent hname hnone hlatest hsendable => exact .single (.input hlatest hsendable)
  | sentAnswered hname hnone hlatest hsendable =>
    have hpause : name ≠ "pause_control" := by rw [hname]; decide
    refine .tail (.single (.input hlatest hsendable)) (.entry ?_ follows_of_receipt)
    exact .receipt hpause hnone hlatest
  | resent hname hnone hlatest =>
    have hpause : name ≠ "pause_control" := by rw [hname]; decide
    exact .single (.entry (.receipt hpause hnone hlatest) follows_of_receipt)
  | granted hname hnone hlatest hguard hnext =>
    have hvalid := hid.resolve_left (by rw [hname]; decide) (Or.inr hname)
    subst hname
    refine .single (.entry (.granted hvalid hnone hlatest hguard hnext) ?_)
    rintro _ ⟨⟩
    exact Or.inr ⟨_, hlatest, (granted_eq_ok hnext).2.1⟩
  | paused hname hnone hlatest hguard hcancels =>
    subst hname
    refine .tail (.single (.entry (.paused hnone hlatest hguard) ?_)) (.others hcancels.others)
    rintro _ ⟨⟩
    exact Or.inr ⟨_, hlatest, rfl⟩
  | acted _ _ _ hacts => exact .single (.others hacts.others)
  | actedAnswered hname hnone hlatest _ hacts =>
    refine .tail (.single (.others hacts.others)) (.entry ?_ follows_of_receipt)
    exact .receipt hname ((answered_congr hacts.records).trans hnone)
      ((latest_congr hacts.records).trans hlatest)

variable [DecidableEq φ] [DecidableEq ψ] in
lemma commits_of_step {e : Event φ} (hok : e.Fresh h w) (hs : e.Step h w w') :
    Commits h w w' := by
  cases e with
  | command env actor name params =>
    obtain ⟨readonly, args, ha, hs⟩ := hs
    exact commits_of_served (Or.inr fun hname => validId_of_accepted ha hname)
      (fun hname => hok hname _ ha) (Host.served_of_stops hs)
  | poll env config =>
    exact commits_of_served (Or.inl rfl) (fun hname => absurd hname (by decide))
      (served_of_pollOne hs)
  | takeover env c paused =>
    obtain rfl | ⟨config, hlatest, hmode, hcancels | ⟨hnone, hcancels⟩⟩ := stops_takeover hs
    · exact .refl
    · exact hcancels.commit
    · refine .trans (.single (.entry (.taken hlatest hmode hnone) ?_)) hcancels.commit
      rintro _ ⟨⟩
      exact Or.inr ⟨_, hlatest, rfl⟩
  | importUi env item =>
    obtain rfl | ⟨hnone, rfl⟩ := stops_importSession hs
    · exact .refl
    · exact .single (.entry (.imported hnone) fun _ _ => Or.inl hnone)
  | dispatch env task => exact (stops_permitsDispatch hs).commit
  | delete c => exact .single (.deleted hs hok)
  | other => exact .single (.others hs)

variable [DecidableEq φ] [DecidableEq ψ] in
lemma Runs.commits (hrun : Runs h (Event.Fresh h) w w') : Commits h w w' := by
  induction hrun with
  | refl => exact .refl
  | tail _ hlast ih =>
    obtain ⟨e, hok, hs⟩ := hlast
    exact ih.trans (commits_of_step hok hs)

/-! ### What a commit keeps -/

/-- A conversation that is deleted had no generation to lose. -/
lemma Deleted.generation_eq {c : String} (hd : Deleted w w' c) (huntouched : Untouched h w c)
    (other : String) : w'.generation other = w.generation other := by
  by_cases heq : other = c
  · subst heq
    have hnone : w'.latest other = none := by
      rw [World.latest, hd.entries, if_pos rfl]
      rfl
    cases hlatest : w.latest other with
    | none => rw [World.generation, World.generation, hnone, hlatest]
    | some config =>
      obtain ⟨r, hr, hc, hconfig⟩ := exists_of_latest hlatest
      obtain ⟨env, item, rfl⟩ := huntouched.records r hr hc
      obtain rfl := Option.some.inj hconfig
      rw [World.generation, World.generation, hnone, hlatest]
      rfl
  · rw [World.generation, World.generation, hd.latest heq]

lemma Commit.generation_le (hc : Commit h w w') (c : String) : w.generation c ≤ w'.generation c := by
  cases hc with
  | entry _ hfollows => exact generation_le_of_follows rfl hfollows c
  | input => exact le_refl _
  | deleted hd huntouched => exact (hd.generation_eq huntouched c).ge
  | others hothers => exact (generation_congr hothers.records c).ge

lemma Commits.generation_le (hc : Commits h w w') (c : String) :
    w.generation c ≤ w'.generation c := by
  induction hc with
  | refl => exact le_refl _
  | tail _ hlast ih => exact ih.trans (hlast.generation_le c)

lemma Written.unused (hw : Inv h w) {r : Record φ} (hr : Written h w r) :
    w.answered r.conversationId r.requestId = none := by
  cases hr with
  | receipt _ hnone | created _ hnone | granted _ hnone | paused hnone | taken _ _ hnone =>
    exact hnone
  | imported hnone => exact hw.answered_of_latest hnone _

/-- An answer stands, unless it was the adoption of a chat. -/
lemma Commit.answered (hw : Inv h w) (hc : Commit h w w') {c requestId : String} {s : Record φ}
    (hs : w.answered c requestId = some s) (hcommand : ∀ env item, s ≠ importRecord h env item) :
    w'.answered c requestId = some s := by
  cases hc with
  | @entry r hr =>
    rw [answered_record, if_neg]
    · exact hs
    · rintro ⟨rfl, rfl⟩
      rw [hr.unused hw] at hs
      cases hs
  | input => exact hs
  | @deleted _ deleted hd huntouched =>
    have hne : c ≠ deleted := by
      rintro rfl
      obtain ⟨hmem, hc, -⟩ := of_answered hs
      obtain ⟨env, item, himport⟩ := huntouched.records s hmem hc
      exact hcommand env item himport
    have hentries : w'.entries c = w.entries c := by rw [hd.entries, if_neg hne]
    exact (answered_of_entries hentries _).trans hs
  | others hothers => exact (answered_congr hothers.records).trans hs

/-- What is sent to the conversation after a revocation comes under a later generation. -/
lemma Commit.revoked (hc : Commit h w w') {c : String} {generation : Int}
    (hrevoked : Revoked w c generation) : Revoked w' c generation := by
  have hle := hc.generation_le c
  refine ⟨hrevoked.barrier.trans (Int.ofNat_le.mpr hle), fun t ht howned => ?_⟩
  cases hc with
  | entry => exact hrevoked.cancelled t ht howned
  | @input env actor args config hlatest hsendable =>
    obtain ht | ht := List.mem_append.mp ht
    · exact hrevoked.cancelled t ht howned
    -- the new input comes under the current generation
    obtain rfl := List.mem_singleton.mp ht
    simp only [Task.ownedBefore, Bool.and_eq_true, decide_eq_true_eq] at howned
    obtain ⟨rfl, hlt⟩ := howned
    have hlt : (config.controlGeneration : Int) < generation := of_decide_eq_true hlt
    have hbarrier : generation ≤ w.generation (conv args) := hrevoked.barrier
    rw [generation_of_latest hlatest] at hbarrier
    exact absurd hlt hbarrier.not_gt
  | deleted hd => exact hrevoked.cancelled t (hd.mem_tasks ht).1 howned
  | others hothers =>
    obtain ⟨old, new, htasks, hcarried, hnew⟩ := hothers.tasks
    rw [htasks] at ht
    obtain ht | ht := List.mem_append.mp ht
    · obtain ⟨t₀, ht₀, hev⟩ := hcarried.mem_right ht
      rw [Task.ownedBefore, hev.conversationId, hev.sent] at howned
      exact (hrevoked.cancelled t₀ ht₀ howned).imp hev.terminal hev.cancelRequested
    · simp [Task.ownedBefore, hnew t ht] at howned

lemma Commits.revoked (hc : Commits h w w') {c : String} {generation : Int}
    (hrevoked : Revoked w c generation) : Revoked w' c generation := by
  induction hc with
  | refl => exact hrevoked
  | tail _ hlast ih => exact hlast.revoked ih

/-! ### The account of a delegation -/

/-- What holds of entries and tasks while every creation is fresh. -/
structure Governed (h : Host φ ψ) (w : World φ) : Prop extends Inv h w where
  grows : ∀ r ∈ w.records, ∀ config, r.config = some config →
    config.controlGeneration ≤ w.generation r.conversationId
  revisions : ∀ r ∈ w.records, ∀ config, r.config = some config → 0 ≤ config.maxRevisions
  same : ∀ r ∈ w.records, ∀ s ∈ w.records, r.conversationId = s.conversationId →
    ∀ a b, r.config = some a → s.config = some b →
      a.controlGeneration = b.controlGeneration → a = b
  sent : ∀ t ∈ w.tasks, ∀ sent, t.sent = some sent →
    w.latest t.conversationId ≠ none ∧ sent.generation ≤ w.generation t.conversationId
  bounded : ∀ r ∈ w.records, ∀ config, r.config = some config →
    (w.inputs r.conversationId config.controlGeneration : Int) ≤ 1 + config.maxRevisions
  once : ∀ identity, w.admissions identity ≤ 1

lemma Governed.empty : Governed h ({} : World φ) :=
  ⟨.empty, by simp, by simp, by simp, by simp, by simp, fun _ => Nat.zero_le _⟩

lemma Written.revisions (hw : Governed h w) {r : Record φ} (hr : Written h w r) {next : Config}
    (hnext : r.config = some next) : 0 ≤ next.maxRevisions := by
  have hlatest : ∀ {c config}, w.latest c = some config → 0 ≤ config.maxRevisions := by
    intro c config hlatest
    obtain ⟨s, hs, -, hconfig⟩ := exists_of_latest hlatest
    exact hw.revisions s hs config hconfig
  cases hr with
  | receipt => cases hnext
  | created _ _ hconfig =>
    obtain rfl := Option.some.inj hnext
    exact (create_eq_ok hconfig).2.2
  | granted _ _ _ _ hgranted =>
    obtain rfl := Option.some.inj hnext
    exact (granted_eq_ok hgranted).2.2
  | paused _ hprev =>
    obtain rfl := Option.some.inj hnext
    have hprev := hlatest hprev
    exact hprev
  | imported =>
    obtain rfl := Option.some.inj hnext
    exact (by decide : (0 : Int) ≤ 3)
  | taken hprev =>
    obtain rfl := Option.some.inj hnext
    have hprev := hlatest hprev
    exact hprev

/-- A new configuration has a generation of its own. -/
lemma Governed.lt_of_follows (hw : Governed h w) {r : Record φ} (hfollows : Follows w r)
    {next : Config} (hnext : r.config = some next) :
    (∀ s ∈ w.records, s.conversationId = r.conversationId → ∀ config, s.config = some config →
      config.controlGeneration < next.controlGeneration) ∧
    ∀ t ∈ w.tasks, t.conversationId = r.conversationId → ∀ sent, t.sent = some sent →
      sent.generation < next.controlGeneration := by
  obtain hnone | ⟨config, hlatest, hgen⟩ := hfollows next hnext
  · constructor
    · intro s hs hc
      obtain ⟨config, hlatest⟩ := hw.configured s hs
      rw [hc, hnone] at hlatest
      cases hlatest
    · intro t ht hc sent hsent
      exact absurd (hc ▸ hnone) (hw.sent t ht sent hsent).1
  · have hlt : w.generation r.conversationId < next.controlGeneration := by
      rw [generation_of_latest hlatest, hgen]
      exact Nat.lt_succ_self _
    constructor
    · intro s hs hc config hconfig
      exact (hc ▸ hw.grows s hs config hconfig).trans_lt hlt
    · intro t ht hc sent hsent
      exact (hc ▸ (hw.sent t ht sent hsent).2).trans_lt hlt

lemma Governed.entry (hw : Governed h w) {r : Record φ} (hr : Written h w r)
    (hfollows : Follows w r) : Governed h (w.record r) := by
  have hlatest : ∀ c, (w.record r).latest c =
      if r.conversationId = c then r.config.or (w.latest c) else w.latest c :=
    latest_of_append rfl
  have hle : ∀ c, w.generation c ≤ (w.record r).generation c :=
    generation_le_of_follows rfl hfollows
  have hnew : ∀ next, r.config = some next →
      (w.record r).generation r.conversationId = next.controlGeneration := by
    intro next hnext
    refine generation_of_latest ?_
    rw [hlatest, if_pos rfl, hnext]
    rfl
  refine ⟨hw.writes (Or.inr (Or.inl ⟨r, hr, rfl⟩)), ?_, ?_, ?_, ?_, ?_, hw.once⟩
  · intro s hs config hconfig
    obtain hs | hs := List.mem_append.mp hs
    · exact (hw.grows s hs config hconfig).trans (hle _)
    · obtain rfl := List.mem_singleton.mp hs
      exact (hnew config hconfig).ge
  · intro s hs config hconfig
    obtain hs | hs := List.mem_append.mp hs
    · exact hw.revisions s hs config hconfig
    · obtain rfl := List.mem_singleton.mp hs
      exact hr.revisions hw hconfig
  · -- an old and a new configuration differ in their generations
    intro s hs t ht hc a b ha hb hgen
    obtain hold | hs := List.mem_append.mp hs <;> obtain hold' | ht := List.mem_append.mp ht
    · exact hw.same s hold t hold' hc a b ha hb hgen
    · obtain rfl := List.mem_singleton.mp ht
      exact absurd hgen ((hw.lt_of_follows hfollows hb).1 s hold hc a ha).ne
    · obtain rfl := List.mem_singleton.mp hs
      exact absurd hgen ((hw.lt_of_follows hfollows ha).1 t hold' hc.symm b hb).ne'
    · obtain rfl := List.mem_singleton.mp hs
      obtain rfl := List.mem_singleton.mp ht
      exact Option.some.inj (ha.symm.trans hb)
  · intro t ht sent hsent
    obtain ⟨hsome, hgen⟩ := hw.sent t ht sent hsent
    refine ⟨?_, hgen.trans (hle _)⟩
    rw [hlatest]
    split_ifs
    · cases hconfig : r.config with
      | none => exact hsome
      | some next => exact Option.some_ne_none next
    · exact hsome
  · intro s hs config hconfig
    obtain hs | hs := List.mem_append.mp hs
    · exact hw.bounded s hs config hconfig
    -- nothing has been sent under the new generation
    obtain rfl := List.mem_singleton.mp hs
    have hnone : w.inputs s.conversationId config.controlGeneration = 0 := by
      rw [World.inputs, List.countP_eq_zero]
      intro t ht hcounted
      rw [Bool.and_eq_true, decide_eq_true_eq, Option.any_eq_true] at hcounted
      obtain ⟨hc, sent, hsent, hgen⟩ := hcounted
      rw [Bool.and_eq_true, decide_eq_true_eq] at hgen
      exact absurd hgen.2 ((hw.lt_of_follows hfollows hconfig).2 t ht hc sent hsent).ne
    have hzero : (w.record s).inputs s.conversationId config.controlGeneration = 0 := hnone
    rw [hzero]
    exact Int.add_nonneg (by decide) (hr.revisions hw hconfig)

/-- The budget of a generation is checked before an input of an external actor. -/
lemma inputs_lt_of_valid {env : Env φ} {actor : Actor} {args : Fields} {config : Config}
    (hvalid : Host.validateMessage env actor args config w = .ok ())
    (hexternal : actor.operator = false) :
    (w.inputs (conv args) config.controlGeneration : Int) < 1 + config.maxRevisions := by
  unfold Host.validateMessage at hvalid
  obtain ⟨-, hvalid⟩ := except_seq_eq_ok.mp hvalid
  obtain ⟨-, hvalid⟩ := except_seq_eq_ok.mp hvalid
  obtain ⟨hbudget, -⟩ := except_seq_eq_ok.mp hvalid
  rw [require_eq_ok, hexternal, Bool.false_or, decide_eq_true_eq] at hbudget
  refine (Int.ofNat_le.mpr ?_).trans_lt hbudget
  rw [World.inputs, ← List.countP_eq_length_filter]
  refine List.countP_mono_left fun t _ ht => ?_
  rw [Bool.and_eq_true, Option.any_eq_true] at ht ⊢
  obtain ⟨hc, sent, hsent, hgen⟩ := ht
  exact ⟨hc, sent, hsent, (Bool.and_eq_true _ _ ▸ hgen).2⟩

lemma Governed.input (hw : Governed h w) {env : Env φ} {actor : Actor} {args : Fields}
    {config : Config} (hlatest : w.latest (conv args) = some config)
    (hsendable : h.Sendable env actor args config w) :
    Governed h (w.admitTask (h.sentTask env actor args config)) := by
  refine ⟨hw.writes (Or.inl rfl), hw.grows, hw.revisions, hw.same, ?_, ?_, fun identity => ?_⟩
  · intro t ht sent hsent
    obtain ht | ht := List.mem_append.mp ht
    · exact hw.sent t ht sent hsent
    · obtain rfl := List.mem_singleton.mp ht
      obtain rfl := Option.some.inj hsent
      refine ⟨?_, (generation_of_latest hlatest).ge⟩
      exact hlatest.trans_ne (Option.some_ne_none config)
  · intro r hr other hother
    rw [World.inputs, World.admitTask, List.countP_append, List.countP_singleton]
    split_ifs with hcounted
    · -- it is one more under the generation that is current
      rw [Bool.and_eq_true, decide_eq_true_eq] at hcounted
      obtain ⟨hc, hgen⟩ := hcounted
      have hgen : (!actor.operator && decide (config.controlGeneration = other.controlGeneration))
        = true := hgen
      rw [Bool.and_eq_true, Bool.not_eq_true', decide_eq_true_eq] at hgen
      have hc : conv args = r.conversationId := hc
      obtain ⟨s, hs, hsc, hconfig⟩ := exists_of_latest hlatest
      obtain rfl := hw.same s hs r hr (hsc.trans hc) config other hconfig hother hgen.2
      have hlt := inputs_lt_of_valid hsendable.valid hgen.1
      rw [hc] at hlt
      exact Int.add_one_le_iff.mpr hlt
    · exact hw.bounded r hr other hother
  · rw [World.admissions, World.admitTask, List.countP_append, List.countP_singleton]
    split_ifs with hcounted
    · -- nothing has come under its input id
      have hid : h.inputIdentity (conv args) (rid args) = identity := by
        have hid := (Bool.and_eq_true _ _ ▸ hcounted).2
        exact Option.some.inj (of_decide_eq_true hid)
      have hnone := hsendable.unsent
      rw [World.input?, List.find?_eq_none, hid] at hnone
      rw [List.countP_eq_zero.mpr fun t ht hcount => hnone t ht (Bool.and_eq_true _ _ ▸ hcount).2]
    · exact hw.once identity

/-- What is left after a deletion was there before. -/
lemma Governed.deleted (hw : Governed h w) {c : String} (hd : Deleted w w' c)
    (huntouched : Untouched h w c) : Governed h w' := by
  refine ⟨hw.toInv.deleted hd, ?_, ?_, ?_, ?_, ?_, fun identity => ?_⟩
  · intro r hr config hconfig
    rw [hd.generation_eq huntouched]
    exact hw.grows r (hd.mem_records hr).1 config hconfig
  · intro r hr
    exact hw.revisions r (hd.mem_records hr).1
  · intro r hr s hs
    exact hw.same r (hd.mem_records hr).1 s (hd.mem_records hs).1
  · intro t ht
    obtain ⟨ht, hne⟩ := hd.mem_tasks ht
    rw [hd.generation_eq huntouched, hd.latest hne]
    exact hw.sent t ht
  · intro r hr config hconfig
    have hle : w'.inputs r.conversationId config.controlGeneration ≤
        w.inputs r.conversationId config.controlGeneration := by
      rw [World.inputs, hd.tasks]
      exact List.filter_sublist.countP_le
    exact (Int.ofNat_le.mpr hle).trans (hw.bounded r (hd.mem_records hr).1 config hconfig)
  · have hle : w'.admissions identity ≤ w.admissions identity := by
      rw [World.admissions, hd.tasks]
      exact List.filter_sublist.countP_le
    exact hle.trans (hw.once identity)

lemma Governed.others (hw : Governed h w) (hothers : Others w w') : Governed h w' := by
  obtain ⟨hrecords, old, new, htasks, hcarried, hnew⟩ := hothers
  refine ⟨hw.writes (Or.inl hrecords), ?_, ?_, ?_, ?_, ?_, fun identity => ?_⟩
  · intro r hr config hconfig
    rw [generation_congr hrecords]
    exact hw.grows r (hrecords ▸ hr) config hconfig
  · rw [hrecords]
    exact hw.revisions
  · rw [hrecords]
    exact hw.same
  · intro t ht sent hsent
    rw [generation_congr hrecords, latest_congr hrecords]
    obtain ht | ht := List.mem_append.mp (htasks ▸ ht)
    · obtain ⟨t₀, ht₀, hev⟩ := hcarried.mem_right ht
      rw [hev.conversationId]
      exact hw.sent t₀ ht₀ sent (hev.sent ▸ hsent)
    · rw [hnew t ht] at hsent
      cases hsent
  · intro r hr config hconfig
    have hold := hw.bounded r (hrecords ▸ hr) config hconfig
    have hnone : (new.countP fun t => t.conversationId = r.conversationId && t.sent.any fun sent =>
        !sent.actor.operator && sent.generation = config.controlGeneration) = 0 := by
      refine List.countP_eq_zero.mpr fun t ht => ?_
      simp [hnew t ht]
    have hcount : w'.inputs r.conversationId config.controlGeneration =
        w.inputs r.conversationId config.controlGeneration := by
      rw [World.inputs, World.inputs, htasks, List.countP_append, hnone, Nat.add_zero]
      refine hcarried.countP_eq fun t t' hev => ?_
      rw [hev.conversationId, hev.sent]
    rw [hcount]
    exact hold
  · have hnone : (new.countP fun t => t.sent.isSome && t.inputIdentity = some identity) = 0 := by
      refine List.countP_eq_zero.mpr fun t ht => ?_
      simp [hnew t ht]
    have hcount : w'.admissions identity = w.admissions identity := by
      rw [World.admissions, World.admissions, htasks, List.countP_append, hnone, Nat.add_zero]
      refine hcarried.countP_eq fun t t' hev => ?_
      rw [hev.inputIdentity, hev.sent]
    rw [hcount]
    exact hw.once identity

lemma Commit.governed (hc : Commit h w w') (hw : Governed h w) : Governed h w' := by
  cases hc with
  | entry hr hfollows => exact hw.entry hr hfollows
  | input hlatest hsendable => exact hw.input hlatest hsendable
  | deleted hd huntouched => exact hw.deleted hd huntouched
  | others hothers => exact hw.others hothers

lemma Commits.governed (hc : Commits h w w') (hw : Governed h w) : Governed h w' := by
  induction hc with
  | refl => exact hw
  | tail _ hlast ih => exact hlast.governed ih

lemma Commits.answered (hc : Commits h w w') (hw : Governed h w) {c requestId : String}
    {s : Record φ} (hs : w.answered c requestId = some s)
    (hcommand : ∀ env item, s ≠ importRecord h env item) :
    w'.answered c requestId = some s := by
  induction hc with
  | refl => exact hs
  | tail hc hlast ih => exact hlast.answered (Commits.governed hc hw).toInv ih hcommand

end Control

end Codey
