import Codey.Lib.Check
import Codey.Repairs.AdapterOverrides

/-!
# Runs of adapter overrides

Over any calls on the index of a provider, what is rolled back stays rolled back, as long as no
generation is rolled back that is its own fallback or that is not the current one, and no failure
count is reset by anything but a success.
-/

namespace Codey

namespace AdapterOverrides

/-! ### Traces -/

def Store.enabled (s : Store) (g : Nat) : Bool := (s.index.record g).any (·.status.enabled)

/-- The store, the generations that were marked provisional, the structural failures of each
generation since its last success, and the generations that collected too many of them. -/
structure Trace where
  store : Store := {}
  marked : Finset Nat := ∅
  failures : Nat → Nat := fun _ => 0
  failed : Finset Nat := ∅

/-- The trace behind a call. A call that raises is not counted. -/
def perform (h : Host) (t : Trace) : Call → Trace
  | .installCandidate c => { t with store := (installCandidate h t.store c).1 }
  | .markProvisional g =>
    match markProvisional h t.store g with
    | (store, .ok (some _)) => { t with store, marked := insert g t.marked }
    | (store, _) => { t with store }
  | .recordSuccess g =>
    match recordSuccess h t.store g with
    | (store, .ok _) =>
      { t with
        store
        failures := if t.store.enabled g then Function.update t.failures g 0 else t.failures }
    | (store, .error _) => { t with store }
  | .recordFailure g kind =>
    match recordFailure h t.store g kind with
    | (store, .ok _) =>
      if kind ∈ structuralFailures ∧ t.store.enabled g = true then
        { t with
          store
          failures := Function.update t.failures g (t.failures g + 1)
          failed :=
            if failureRollbackCount ≤ t.failures g + 1 then insert g t.failed else t.failed }
      else { t with store }
    | (store, .error _) => { t with store }

def Call.isResultOf (g : Nat) : Call → Prop
  | .recordSuccess g' | .recordFailure g' _ => g' = g
  | .installCandidate _ | .markProvisional _ => False

/-- What a call keeps: `t` is the trace before it and `t'` the one behind it. -/
structure RollsBack (h : Host) (t : Trace) (call : Call) (t' : Trace) : Prop where
  /-- What is loaded was marked provisional. -/
  loads : ∀ o, loadEnabledOverride h t'.store = some o → o.generation ∈ t'.marked
  /-- A generation that failed too often is neither enabled nor current. -/
  failed : ∀ g ∈ t'.failed, t'.store.enabled g = false ∧ t'.store.index.current ≠ g
  /-- Results of another generation leave the current one. -/
  foreign : ∀ g, call.isResultOf g → g ≠ t.store.index.current →
    t'.store.index.current = t.store.index.current
  /-- The current generation is replaced by an earlier enabled one, or by none. -/
  fallsBack : ∀ g kind, call = .recordFailure g kind → g = t.store.index.current → g ∈ t'.failed →
    t'.store.index.current = 0 ∨ (t'.store.index.current ≠ g ∧
      t'.store.index.current ∈ t.marked ∧ t.store.enabled t'.store.index.current = true ∧
      t'.store.index.current ∉ t'.failed)
  /-- The directories of the current and of the previous generation stay. -/
  kept : ∀ g, g = t'.store.index.current ∨ g = t'.store.index.previous →
    g ∈ t.store.dirs → g ∈ t'.store.dirs

/-- The generation that a rollback falls back to. -/
def Store.fallback (s : Store) : Nat :=
  if s.index.previous ∈ s.dirs then s.index.previous else 0

/-- The calls behind which the code keeps what it promises. A failure that is written has been
counted since the last success of its generation, and when it is one too many, the generation is
the current one and not its own fallback, or the fallback is the current one already. An index
that cannot be written does not lose the directory of its fallback. -/
def Meets (h : Host) (t : Trace) : Call → Prop
  | .installCandidate c =>
    c.hasPackage = true → c.hasSurface = true →
      maxIndexBytes < h.indexBytes (t.store.index.install h c).trim →
        t.store.index.previous ∉ (t.store.index.install h c).surplus
  | .recordFailure g kind => ∀ record, kind ∈ structuralFailures →
      t.store.index.record g = some record → record.status.enabled = true →
      h.indexBytes (t.store.fail record) ≤ maxIndexBytes →
        t.failures g = record.failureCount ∧ (failureRollbackCount ≤ record.fail.failureCount →
          (g = t.store.index.current → t.store.fallback ≠ g) ∧
          (g ≠ t.store.index.current → t.store.fallback = t.store.index.current))
  | .markProvisional _ | .recordSuccess _ => True

/-! ### The invariant -/

def Dead (index : Index) (g : Nat) : Prop :=
  0 < g ∧ g < index.next ∧ ∀ record, index.record g = some record → record.status = .rolledBack

/-- What holds between calls. -/
structure Inv (t : Trace) : Prop where
  current : t.store.index.current ≠ 0 → t.store.enabled t.store.index.current = true ∧
    t.store.index.current ∈ t.marked
  previous : t.store.index.previous ≠ 0 →
    (t.store.index.record t.store.index.previous).isSome = true ∧
    t.store.index.previous ∈ t.marked ∧ (t.store.index.previous ∈ t.store.dirs →
      t.store.enabled t.store.index.previous = true)
  failed : ∀ g ∈ t.failed, Dead t.store.index g

section Laws

variable {h : Host} {s : Store} {t : Trace} {index : Index} {record record' : Record} {g g' : Nat}
  {call : Call}

lemma Store.enabled_iff : s.enabled g = true ↔
    ∃ record, s.index.record g = some record ∧ record.status.enabled = true := by
  simp [Store.enabled, Option.any_eq_true]

lemma Store.isSome_of_enabled (hg : s.enabled g = true) : (s.index.record g).isSome = true := by
  obtain ⟨record, hrecord, -⟩ := Store.enabled_iff.mp hg
  rw [hrecord]
  rfl

lemma not_dead_of_enabled (hg : s.enabled g = true) : ¬Dead s.index g := by
  rintro ⟨-, -, hrolled⟩
  obtain ⟨record, hrecord, henabled⟩ := Store.enabled_iff.mp hg
  rw [hrolled record hrecord] at henabled
  cases henabled

lemma isSome_record_write (hg : (index.record g).isSome = true) :
    ((index.write record).record g).isSome = true := by
  rw [Index.record_write]
  split_ifs
  · rfl
  · exact hg

lemma next_le_write (index : Index) (record : Record) : index.next ≤ (index.write record).next :=
  Index.next_le fun _ => isSome_record_write

lemma any_record_write (hrecord : record.status.enabled = true)
    (hg : (index.record g).any (·.status.enabled) = true) :
    ((index.write record).record g).any (·.status.enabled) = true := by
  rw [Index.record_write]
  split_ifs
  · exact hrecord
  · exact hg

lemma Dead.write (hdead : Dead index g)
    (hrecord : record.generation = g → record.status = .rolledBack) :
    Dead (index.write record) g := by
  obtain ⟨hpos, hlt, hrolled⟩ := hdead
  refine ⟨hpos, hlt.trans_le (next_le_write index record), fun r hr => ?_⟩
  rw [Index.record_write] at hr
  split_ifs at hr with hgeneration
  · obtain rfl := Option.some.inj hr
    exact hrecord hgeneration
  · exact hrolled r hr

lemma Dead.write_over (hdead : Dead index g) (hrecord : index.record g' = some record)
    (hstatus : record.status ≠ .rolledBack) (hgeneration : record'.generation = g') :
    Dead (index.write record') g := by
  refine hdead.write fun heq => absurd (hdead.2.2 record ?_) hstatus
  rw [← heq, hgeneration]
  exact hrecord

lemma Status.ne_rolledBack {status : Status} (henabled : status.enabled = true) :
    status ≠ .rolledBack := by
  rintro rfl
  cases henabled

lemma Inv.failed_ne (hinv : Inv t) (hg : g ∈ t.failed) : t.store.index.current ≠ g := by
  rintro rfl
  have hdead := hinv.failed _ hg
  exact not_dead_of_enabled (hinv.current hdead.1.ne').1 hdead

lemma load_eq_some {o : Override} (hload : loadEnabledOverride h s = some o) :
    o.generation = s.index.current ∧ s.index.current ≠ 0 := by
  unfold loadEnabledOverride at hload
  split_ifs at hload with hcurrent
  split at hload
  · cases hload
  · rename_i record hrecord
    split_ifs at hload
    obtain rfl := Option.some.inj hload
    exact ⟨Index.generation_of_record hrecord, hcurrent⟩

/-- What is loaded and what has failed, whatever the call was. -/
lemma Inv.rollsBack {t' : Trace} (hinv : Inv t')
    (hforeign : ∀ g, call.isResultOf g → g ≠ t.store.index.current →
      t'.store.index.current = t.store.index.current)
    (hfalls : ∀ g kind, call = .recordFailure g kind → g = t.store.index.current →
      g ∈ t'.failed → t'.store.index.current = 0 ∨ (t'.store.index.current ≠ g ∧
        t'.store.index.current ∈ t.marked ∧ t.store.enabled t'.store.index.current = true ∧
        t'.store.index.current ∉ t'.failed))
    (hkept : ∀ g, g = t'.store.index.current ∨ g = t'.store.index.previous →
      g ∈ t.store.dirs → g ∈ t'.store.dirs) : RollsBack h t call t' where
  loads o hload := by
    obtain ⟨hgeneration, hcurrent⟩ := load_eq_some hload
    rw [hgeneration]
    exact (hinv.current hcurrent).2
  failed g hg := by
    refine ⟨?_, hinv.failed_ne hg⟩
    rw [← Bool.not_eq_true]
    exact fun henabled => not_dead_of_enabled henabled (hinv.failed g hg)
  foreign := hforeign
  fallsBack := hfalls
  kept := hkept

lemma Inv.rollsBack_self (hinv : Inv t) : RollsBack h t call t :=
  hinv.rollsBack (fun _ _ _ => rfl)
    (fun _ _ _ heq hg => absurd heq.symm (hinv.failed_ne hg)) fun _ _ hmem => hmem

/-! ### The calls -/

lemma Store.enabled_of_record (hrecord : s.index.record g = some record) :
    s.enabled g = record.status.enabled := by
  simp [Store.enabled, hrecord]

lemma perform_mark (h : Host) (t : Trace) (g : Nat) : perform h t (.markProvisional g) = t ∨
    ∃ record, t.store.index.record g = some record ∧ record.status ≠ .rolledBack ∧
      perform h t (.markProvisional g) = { t with
        store := { t.store with index := t.store.index.mark record }
        marked := insert g t.marked } := by
  rw [perform, markProvisional]
  cases hrecord : t.store.index.record g with
  | none => exact .inl rfl
  | some record =>
    by_cases hstatus : record.status = .rolledBack
    · refine .inl ?_
      simp [hstatus]
    · simp only [if_neg hstatus]
      rcases saving_cases h t.store (t.store.index.mark record)
        (fun _ => some record.mark.override) with ⟨-, hsaved⟩ | ⟨-, hraised⟩
      · rw [hsaved]
        exact .inr ⟨record, rfl, hstatus, rfl⟩
      · rw [hraised]
        exact .inl rfl

lemma perform_success (h : Host) (t : Trace) (g : Nat) : perform h t (.recordSuccess g) = t ∨
    ∃ record, t.store.index.record g = some record ∧ record.status.enabled = true ∧
      perform h t (.recordSuccess g) = { t with
        store := { t.store with index := t.store.index.write record.succeed }
        failures := Function.update t.failures g 0 } := by
  rw [perform, recordSuccess]
  cases hrecord : t.store.index.record g with
  | none =>
    refine .inl ?_
    simp [Store.enabled, hrecord]
  | some record =>
    rw [Store.enabled_of_record hrecord]
    by_cases henabled : record.status.enabled = true
    · simp only [if_pos henabled]
      rcases saving_cases h t.store (t.store.index.write record.succeed) (loadEnabledOverride h)
        with ⟨-, hsaved⟩ | ⟨-, hraised⟩
      · rw [hsaved]
        exact .inr ⟨record, rfl, henabled, rfl⟩
      · rw [hraised]
        exact .inl rfl
    · refine .inl ?_
      simp [henabled]

lemma perform_failure (h : Host) (t : Trace) (g : Nat) (kind : String) :
    perform h t (.recordFailure g kind) = t ∨
    ∃ record, kind ∈ structuralFailures ∧ t.store.index.record g = some record ∧
      record.status.enabled = true ∧ h.indexBytes (t.store.fail record) ≤ maxIndexBytes ∧
      perform h t (.recordFailure g kind) = { t with
        store := { t.store with index := t.store.fail record }
        failures := Function.update t.failures g (t.failures g + 1)
        failed := if failureRollbackCount ≤ t.failures g + 1 then insert g t.failed
          else t.failed } := by
  rw [perform, recordFailure]
  by_cases hkind : kind ∈ structuralFailures
  · rw [if_neg (not_not.mpr hkind)]
    cases hrecord : t.store.index.record g with
    | none =>
      refine .inl ?_
      simp [Store.enabled, hrecord]
    | some record =>
      rw [Store.enabled_of_record hrecord]
      by_cases henabled : record.status.enabled = true
      · simp only [if_pos henabled]
        rcases saving_cases h t.store (t.store.fail record) (loadEnabledOverride h)
          with ⟨hfits, hsaved⟩ | ⟨-, hraised⟩
        · refine .inr ⟨record, hkind, rfl, henabled, hfits, ?_⟩
          simp [hsaved, hkind, henabled]
        · refine .inl ?_
          simp [hraised]
      · refine .inl ?_
        simp [henabled]
  · refine .inl ?_
    simp [hkind]

lemma mark_step (g : Nat) (hinv : Inv t) : Inv (perform h t (.markProvisional g)) ∧
    RollsBack h t (.markProvisional g) (perform h t (.markProvisional g)) := by
  obtain hsame | ⟨record, hrecord, hstatus, hmarked⟩ := perform_mark h t g
  · rw [hsame]
    exact ⟨hinv, hinv.rollsBack_self⟩
  · rw [hmarked]
    obtain rfl := Index.generation_of_record hrecord
    have hinv' : Inv { t with
        store := { t.store with index := t.store.index.mark record }
        marked := insert record.generation t.marked } := by
      refine ⟨fun _ => ⟨?_, Finset.mem_insert_self _ _⟩, fun hprevious => ?_, fun g hg => ?_⟩
      · rw [Store.enabled]
        change ((t.store.index.write record.mark).record record.generation).any _ = true
        rw [Index.record_write, if_pos (show record.mark.generation = record.generation from rfl)]
        rfl
      · have hkept : ∀ g, t.store.enabled g = true →
            (Store.mk (t.store.index.mark record) t.store.dirs).enabled g = true :=
          fun g => any_record_write rfl
        dsimp only [Index.mark] at hprevious ⊢
        split_ifs at hprevious ⊢ with hcurrent
        · obtain ⟨henabled, hmem⟩ := hinv.current hprevious
          exact ⟨isSome_record_write (Store.isSome_of_enabled henabled),
            Finset.mem_insert_of_mem hmem, fun _ => hkept _ henabled⟩
        · obtain ⟨hsome, hmem, henabled⟩ := hinv.previous hprevious
          exact ⟨isSome_record_write hsome, Finset.mem_insert_of_mem hmem,
            fun hdir => hkept _ (henabled hdir)⟩
      · exact (hinv.failed g hg).write_over hrecord hstatus rfl
    exact ⟨hinv', hinv'.rollsBack (fun _ hresult => hresult.elim) (fun _ _ hcall => nomatch hcall)
      fun _ _ hmem => hmem⟩

lemma success_step (g : Nat) (hinv : Inv t) : Inv (perform h t (.recordSuccess g)) ∧
    RollsBack h t (.recordSuccess g) (perform h t (.recordSuccess g)) := by
  obtain hsame | ⟨record, hrecord, henabled, hsaved⟩ := perform_success h t g
  · rw [hsame]
    exact ⟨hinv, hinv.rollsBack_self⟩
  · rw [hsaved]
    obtain rfl := Index.generation_of_record hrecord
    have hsucceed : record.succeed.status.enabled = true := by
      unfold Record.succeed
      dsimp only
      split_ifs
      · rfl
      · exact henabled
    have hinv' : Inv { t with
        store := { t.store with index := t.store.index.write record.succeed }
        failures := Function.update t.failures record.generation 0 } := by
      refine ⟨fun hcurrent => ?_, fun hprevious => ?_, fun g hg => ?_⟩
      · obtain ⟨henabled, hmem⟩ := hinv.current hcurrent
        exact ⟨any_record_write hsucceed henabled, hmem⟩
      · obtain ⟨hsome, hmem, henabled⟩ := hinv.previous hprevious
        exact ⟨isSome_record_write hsome, hmem, fun hdir => any_record_write hsucceed (henabled hdir)⟩
      · exact (hinv.failed g hg).write_over hrecord (Status.ne_rolledBack henabled) rfl
    exact ⟨hinv', hinv'.rollsBack (fun _ _ _ => rfl) (fun _ _ hcall => nomatch hcall)
      fun _ _ hmem => hmem⟩

lemma generation_restore (hrecord : index.record g = some record) :
    record.restore.generation = g := by
  rw [← Index.generation_of_record hrecord]
  rfl

lemma fail_of_few (hfew : ¬failureRollbackCount ≤ record.fail.failureCount) :
    s.fail record = s.index.write record.fail :=
  if_pos (Nat.not_le.mp hfew)

/-- A rollback that falls back to the previous generation. -/
lemma fail_of_usable (hmany : failureRollbackCount ≤ record.fail.failureCount)
    (hne : record.generation ≠ s.index.previous)
    (hprevious : s.index.record s.index.previous = some record')
    (husable : s.index.previous ≠ 0 ∧ s.index.previous ∈ s.dirs) :
    s.fail record = { (s.index.write record.rollBack).write record'.restore with
      current := s.index.previous } := by
  have hrow : (s.index.write record.rollBack).record (s.index.write record.rollBack).previous =
      some record' := by
    rw [Index.record_write]
    exact (if_neg hne).trans hprevious
  unfold Store.fail
  rw [if_neg (Nat.not_lt.mpr hmany)]
  dsimp only
  rw [hrow]
  exact if_pos husable

lemma fail_of_unusable (hmany : failureRollbackCount ≤ record.fail.failureCount)
    (hunusable : ¬(s.index.previous ≠ 0 ∧ s.index.previous ∈ s.dirs)) :
    s.fail record = { s.index.write record.rollBack with current := 0 } := by
  unfold Store.fail
  rw [if_neg (Nat.not_lt.mpr hmany)]
  dsimp only
  split
  · exact if_neg hunusable
  · rfl

lemma Inv.dead_rollBack (hinv : Inv t)
    (hrecord : t.store.index.record record.generation = some record)
    (henabled : record.status.enabled = true) (hg : g ∈ insert record.generation t.failed) :
    Dead (t.store.index.write record.rollBack) g := by
  rcases Finset.mem_insert.mp hg with rfl | hg
  · refine ⟨record.generation_pos, (Index.lt_next hrecord).trans_le (next_le_write _ _), ?_⟩
    intro r hr
    rw [Index.record_write] at hr
    obtain rfl := Option.some.inj ((if_pos rfl).symm.trans hr)
    rfl
  · exact (hinv.failed g hg).write_over hrecord (Status.ne_rolledBack henabled) rfl

def Trace.fail (t : Trace) (record : Record) : Trace := { t with
  store := { t.store with index := t.store.fail record }
  failures := Function.update t.failures record.generation record.fail.failureCount
  failed := if failureRollbackCount ≤ record.fail.failureCount then
    insert record.generation t.failed else t.failed }

lemma Inv.fail_few (hinv : Inv t)
    (hrecord : t.store.index.record record.generation = some record)
    (henabled : record.status.enabled = true)
    (hfew : ¬failureRollbackCount ≤ record.fail.failureCount) : Inv (t.fail record) ∧
      ∀ kind, RollsBack h t (.recordFailure record.generation kind) (t.fail record) := by
  have hinv' : Inv (t.fail record) := by
    rw [Trace.fail, fail_of_few hfew, if_neg hfew]
    refine ⟨fun hcurrent => ?_, fun hprevious => ?_, fun g hg => ?_⟩
    · obtain ⟨hcurrent, hmarked⟩ := hinv.current hcurrent
      exact ⟨any_record_write henabled hcurrent, hmarked⟩
    · obtain ⟨hsome, hmarked, hprevious⟩ := hinv.previous hprevious
      exact ⟨isSome_record_write hsome, hmarked,
        fun hdir => any_record_write henabled (hprevious hdir)⟩
    · exact (hinv.failed g hg).write_over hrecord (Status.ne_rolledBack henabled) rfl
  have hcurrent : (t.fail record).store.index.current = t.store.index.current := by
    rw [Trace.fail, fail_of_few hfew]
    rfl
  refine ⟨hinv', fun kind => hinv'.rollsBack (fun _ _ _ => hcurrent) ?_ fun _ _ hmem => hmem⟩
  intro g kind _ heq hg
  exact absurd (hcurrent.trans heq.symm) (hinv'.failed_ne hg)

lemma Inv.fail_usable (hinv : Inv t)
    (hrecord : t.store.index.record record.generation = some record)
    (henabled : record.status.enabled = true)
    (hmany : failureRollbackCount ≤ record.fail.failureCount)
    (hne : record.generation ≠ t.store.index.previous)
    (hforeign : record.generation ≠ t.store.index.current →
      t.store.index.previous = t.store.index.current)
    (husable : t.store.index.previous ≠ 0 ∧ t.store.index.previous ∈ t.store.dirs) :
    Inv (t.fail record) ∧
      ∀ kind, RollsBack h t (.recordFailure record.generation kind) (t.fail record) := by
  obtain ⟨hsome, hmarked, hprevious⟩ := hinv.previous husable.1
  have hprevious := hprevious husable.2
  obtain ⟨previous, hrow⟩ := Option.isSome_iff_exists.mp hsome
  have hnotFailed : t.store.index.previous ∉ insert record.generation t.failed := by
    intro hmem
    rcases Finset.mem_insert.mp hmem with heq | hmem
    · exact hne heq.symm
    · exact not_dead_of_enabled hprevious (hinv.failed _ hmem)
  have hrestored : (((t.store.index.write record.rollBack).write previous.restore).record
      t.store.index.previous).any (·.status.enabled) = true := by
    rw [Index.record_write, if_pos (generation_restore hrow)]
    rfl
  rw [Trace.fail, fail_of_usable hmany hne hrow husable, if_pos hmany]
  refine (and_iff_left_of_imp fun hinv' => ?_).mpr ?_
  · intro kind
    refine hinv'.rollsBack ?_ ?_ fun _ _ hmem => hmem
    · rintro g rfl hcurrent
      exact hforeign hcurrent
    · rintro g kind hcall hcurrent -
      obtain ⟨rfl, -⟩ := Call.recordFailure.inj hcall
      exact .inr ⟨hne.symm, hmarked, hprevious, hnotFailed⟩
  · refine ⟨fun _ => ⟨hrestored, hmarked⟩, fun _ => ⟨?_, hmarked, fun _ => hrestored⟩, ?_⟩
    · exact isSome_record_write (isSome_record_write hsome)
    · intro g hg
      refine (hinv.dead_rollBack hrecord henabled hg).write fun heq => ?_
      rw [generation_restore hrow] at heq
      rw [← heq] at hg
      exact absurd hg hnotFailed

lemma Inv.fail_unusable (hinv : Inv t)
    (hrecord : t.store.index.record record.generation = some record)
    (henabled : record.status.enabled = true)
    (hmany : failureRollbackCount ≤ record.fail.failureCount)
    (hforeign : record.generation ≠ t.store.index.current → 0 = t.store.index.current)
    (hunusable : ¬(t.store.index.previous ≠ 0 ∧ t.store.index.previous ∈ t.store.dirs)) :
    Inv (t.fail record) ∧
      ∀ kind, RollsBack h t (.recordFailure record.generation kind) (t.fail record) := by
  rw [Trace.fail, fail_of_unusable hmany hunusable, if_pos hmany]
  refine (and_iff_left_of_imp fun hinv' => ?_).mpr ?_
  · intro kind
    refine hinv'.rollsBack ?_ (fun _ _ _ _ _ => .inl rfl) fun _ _ hmem => hmem
    rintro g rfl hcurrent
    exact hforeign hcurrent
  · refine ⟨fun hzero => absurd rfl hzero, fun hprevious => ?_,
      fun g hg => hinv.dead_rollBack hrecord henabled hg⟩
    obtain ⟨hsome, hmarked, -⟩ := hinv.previous hprevious
    exact ⟨isSome_record_write hsome, hmarked, fun hdir => absurd ⟨hprevious, hdir⟩ hunusable⟩

lemma failure_step (g : Nat) (kind : String) (hinv : Inv t)
    (hmeets : Meets h t (.recordFailure g kind)) : Inv (perform h t (.recordFailure g kind)) ∧
      RollsBack h t (.recordFailure g kind) (perform h t (.recordFailure g kind)) := by
  obtain hsame | ⟨record, hkind, hrecord, henabled, hfits, hfailed⟩ := perform_failure h t g kind
  · rw [hsame]
    exact ⟨hinv, hinv.rollsBack_self⟩
  obtain ⟨hcount, hrollback⟩ := hmeets record hkind hrecord henabled hfits
  obtain rfl := Index.generation_of_record hrecord
  rw [hcount] at hfailed
  rw [show perform h t (.recordFailure record.generation kind) = t.fail record from hfailed]
  suffices hstep : Inv (t.fail record) ∧
      ∀ kind, RollsBack h t (.recordFailure record.generation kind) (t.fail record) from
    ⟨hstep.1, hstep.2 kind⟩
  by_cases hmany : failureRollbackCount ≤ record.fail.failureCount
  · obtain ⟨hown, hforeign⟩ := hrollback hmany
    by_cases husable : t.store.index.previous ≠ 0 ∧ t.store.index.previous ∈ t.store.dirs
    · have hfallback : t.store.fallback = t.store.index.previous := if_pos husable.2
      rw [hfallback] at hown hforeign
      refine hinv.fail_usable hrecord henabled hmany (fun heq => ?_) hforeign husable
      by_cases hcurrent : record.generation = t.store.index.current
      · exact hown hcurrent heq.symm
      · exact hcurrent (heq.trans (hforeign hcurrent))
    · have hfallback : t.store.fallback = 0 := by
        unfold Store.fallback
        split_ifs with hdir
        · by_contra hzero
          exact husable ⟨hzero, hdir⟩
        · rfl
      rw [hfallback] at hforeign
      exact hinv.fail_unusable hrecord henabled hmany hforeign husable
  · exact hinv.fail_few hrecord henabled hmany

/-- The index with a candidate, trimmed, points to the current generation only. -/
lemma Inv.install (hinv : Inv t) (c : Candidate) (dirs : Finset Nat) : Inv { t with
    store := { index := (t.store.index.install h c).trim, dirs } } := by
  have hnew : ∀ g, g < t.store.index.next → (t.store.index.install h c).record g =
      t.store.index.record g := by
    intro g hg
    exact Table.get?_put_of_ne _ hg.ne'
  have hkept : t.store.index.current ≠ 0 → (t.store.index.install h c).trim.record
      t.store.index.current = t.store.index.record t.store.index.current := by
    intro hcurrent
    obtain ⟨record, hrecord, -⟩ := Store.enabled_iff.mp (hinv.current hcurrent).1
    have hsurplus : t.store.index.current ∉ (t.store.index.install h c).surplus :=
      fun hmem => (Index.kept_of_surplus hmem).1 rfl
    rw [Index.record_trim, if_neg hsurplus]
    exact hnew _ (Index.lt_next hrecord)
  have hcurrent : t.store.index.current ≠ 0 →
      (Store.mk (t.store.index.install h c).trim dirs).enabled t.store.index.current = true ∧
        t.store.index.current ∈ t.marked := by
    intro hne
    obtain ⟨henabled, hmarked⟩ := hinv.current hne
    refine ⟨?_, hmarked⟩
    rw [Store.enabled, hkept hne]
    exact henabled
  refine ⟨hcurrent, fun hne => ?_, fun g hg => ?_⟩
  · obtain ⟨henabled, hmarked⟩ := hcurrent hne
    exact ⟨Store.isSome_of_enabled henabled, hmarked, fun _ => henabled⟩
  · obtain ⟨hpos, hlt, hrolled⟩ := hinv.failed g hg
    refine ⟨hpos, hlt.trans ?_, fun record hrecord => ?_⟩
    · -- the candidate is the newest generation, so it is still there
      have hnewest : ∀ r ∈ (t.store.index.install h c).generations.rows,
          r.generation ≤ t.store.index.next := by
        intro r hr
        rcases Table.mem_put_iff.mp hr with rfl | ⟨hr, -⟩
        · exact le_rfl
        · exact (Index.lt_next (Table.mem_rows_iff.mp hr)).le
      have hsome : ((t.store.index.install h c).trim.record t.store.index.next).isSome = true := by
        rw [Index.record_trim, if_neg (Index.newest_notMem_surplus hnewest)]
        exact congrArg Option.isSome (Table.get?_put_self _ _)
      obtain ⟨record, hrecord⟩ := Option.isSome_iff_exists.mp hsome
      exact Index.lt_next hrecord
    · rw [Index.record_trim] at hrecord
      split_ifs at hrecord
      rw [hnew g hlt] at hrecord
      exact hrolled record hrecord

lemma Inv.of_dirs (hinv : Inv t) (dirs : Finset Nat)
    (hdirs : ∀ g ∈ dirs, g < t.store.index.next → g ∈ t.store.dirs) :
    Inv { t with store := { t.store with dirs } } := by
  refine ⟨hinv.current, fun hprevious => ?_, hinv.failed⟩
  obtain ⟨hsome, hmarked, henabled⟩ := hinv.previous hprevious
  obtain ⟨record, hrecord⟩ := Option.isSome_iff_exists.mp hsome
  exact ⟨hsome, hmarked, fun hdir => henabled (hdirs _ hdir (Index.lt_next hrecord))⟩

lemma Inv.lt_next (hinv : Inv t)
    (hg : g = t.store.index.current ∨ g = t.store.index.previous) : g < t.store.index.next := by
  by_cases hzero : g = 0
  · rw [hzero]
    exact Nat.succ_pos _
  · have hsome : (t.store.index.record g).isSome = true := by
      rcases hg with rfl | rfl
      · exact Store.isSome_of_enabled (hinv.current hzero).1
      · exact (hinv.previous hzero).1
    obtain ⟨record, hrecord⟩ := Option.isSome_iff_exists.mp hsome
    exact Index.lt_next hrecord

lemma install_step (c : Candidate) (hinv : Inv t) (hmeets : Meets h t (.installCandidate c)) :
    Inv (perform h t (.installCandidate c)) ∧
      RollsBack h t (.installCandidate c) (perform h t (.installCandidate c)) := by
  have hrolls : ∀ {t' : Trace}, Inv t' → (∀ g, g = t'.store.index.current ∨
      g = t'.store.index.previous → g ∈ t.store.dirs → g ∈ t'.store.dirs) →
      RollsBack h t (.installCandidate c) t' := fun hinv' =>
    hinv'.rollsBack (fun _ hresult => hresult.elim) (fun _ _ hcall => nomatch hcall)
  rw [perform, installCandidate]
  cases hpackage : c.hasPackage with
  | false => exact ⟨hinv, hinv.rollsBack_self⟩
  | true =>
    cases hsurface : c.hasSurface with
    | false =>
      have hinv' := hinv.of_dirs (t.store.dirs.erase t.store.index.next)
        fun g hg _ => Finset.mem_of_mem_erase hg
      exact ⟨hinv', hrolls hinv' fun g hg hdir =>
        Finset.mem_erase.mpr ⟨(hinv.lt_next hg).ne, hdir⟩⟩
    | true =>
      have hstays : ∀ g, g < t.store.index.next → g ∉ (t.store.index.install h c).surplus →
          g ∈ t.store.dirs → g ∈ t.store.installDirs (t.store.index.install h c) := by
        intro g hlt hsurplus hdir
        rw [Store.installDirs, Finset.mem_sdiff, List.mem_toFinset]
        exact ⟨Finset.mem_insert_of_mem (Finset.mem_erase.mpr ⟨hlt.ne, hdir⟩), hsurplus⟩
      have hcurrent : t.store.index.current ∉ (t.store.index.install h c).surplus :=
        fun hmem => (Index.kept_of_surplus hmem).1 rfl
      simp only [Bool.not_true, Bool.false_eq_true, if_false, save]
      split_ifs with hlarge
      · have hinv' := hinv.of_dirs (t.store.installDirs (t.store.index.install h c)) (by
          intro g hg hlt
          have hmem := (Finset.mem_sdiff.mp hg).1
          rw [Finset.mem_insert] at hmem
          exact Finset.mem_of_mem_erase (hmem.resolve_left hlt.ne))
        refine ⟨hinv', hrolls hinv' fun g hg hdir => ?_⟩
        rcases hg with rfl | rfl
        · exact hstays _ (hinv.lt_next (.inl rfl)) hcurrent hdir
        · exact hstays _ (hinv.lt_next (.inr rfl)) (hmeets hpackage hsurface hlarge) hdir
      · have hinv' := hinv.install (h := h) c (t.store.installDirs (t.store.index.install h c))
        refine ⟨hinv', hrolls hinv' fun g hg hdir => ?_⟩
        have hg : g = t.store.index.current := hg.elim id id
        exact hstays g (hg ▸ hinv.lt_next (.inl rfl)) (hg ▸ hcurrent) hdir

lemma perform_step (hinv : Inv t) (hmeets : Meets h t call) :
    Inv (perform h t call) ∧ RollsBack h t call (perform h t call) := by
  cases call with
  | installCandidate c => exact install_step c hinv hmeets
  | markProvisional g => exact mark_step g hinv
  | recordSuccess g => exact success_step g hinv
  | recordFailure g kind => exact failure_step g kind hinv hmeets

lemma Inv.performAll (hinv : Inv t) (calls : List Call)
    (hmeets : FoldOk (Meets h) (perform h) t calls) :
    FoldOk (fun t call => RollsBack h t call (perform h t call)) (perform h) t calls := by
  induction calls generalizing t with
  | nil => trivial
  | cons call calls ih =>
    obtain ⟨hinv', hrolls⟩ := perform_step hinv hmeets.1
    exact ⟨hrolls, ih hinv' hmeets.2⟩

end Laws

/-- Over any calls on the index of a provider, what is rolled back stays rolled back, when every
call meets its condition. -/
theorem performAll_rollsBack (h : Host) (calls : List Call)
    (hmeets : FoldOk (Meets h) (perform h) {} calls) :
    FoldOk (fun t call => RollsBack h t call (perform h t call)) (perform h) {} calls := by
  have hinv : Inv {} := by
    refine ⟨fun hzero => absurd rfl hzero, fun hzero => absurd rfl hzero, fun g hg => ?_⟩
    exact absurd hg (Finset.notMem_empty g)
  exact hinv.performAll calls hmeets

/-- A host on which every index can be written. -/
def plainHost : Host := ⟨"1", "codey", "base", fun _ => 0⟩

/-- The second repair fails twice and gives way to the first one. -/
def twoRepairs : List Call :=
  [.installCandidate {}, .markProvisional 1, .installCandidate {}, .markProvisional 2,
    .recordFailure 2 "control_missing", .recordFailure 2 "response_missing"]

theorem performAll_rollsBack_two :
    FoldOk (fun t call => RollsBack plainHost t call (perform plainHost t call))
        (perform plainHost) {} twoRepairs ∧
      (twoRepairs.foldl (perform plainHost) {}).failed = {2} ∧
      (twoRepairs.foldl (perform plainHost) {}).store.index.current = 1 := by
  refine ⟨performAll_rollsBack plainHost twoRepairs ?_, by decide, by decide⟩
  have hsmall : ∀ index, ¬maxIndexBytes < plainHost.indexBytes index := fun _ => Nat.not_lt_zero _
  refine ⟨fun _ _ hlarge => absurd hlarge (hsmall _), trivial,
    fun _ _ hlarge => absurd hlarge (hsmall _), trivial, ?_, ?_, trivial⟩
  · rintro record - hrecord - -
    obtain rfl := Option.some.inj hrecord
    exact ⟨rfl, fun hmany => absurd hmany (by decide)⟩
  · rintro record - hrecord - -
    obtain rfl := Option.some.inj hrecord
    exact ⟨rfl, fun _ => ⟨fun _ => by decide, fun hother => absurd rfl hother⟩⟩

/-- A second repair is installed while the first one is in use, which then fails twice. -/
def repairInUse : List Call :=
  [.installCandidate {}, .markProvisional 1, .installCandidate {},
    .recordFailure 1 "control_missing", .recordFailure 1 "control_missing"]

/-- The generation that failed twice is its own fallback, and is enabled and current again. -/
theorem not_rollsBack_inUse :
    ¬FoldOk (fun t call => RollsBack plainHost t call (perform plainHost t call))
      (perform plainHost) {} repairInUse := by
  rintro ⟨-, -, -, -, hlast, -⟩
  have hfailed := hlast.failed 1 (by decide)
  exact hfailed.2 (by decide)

end AdapterOverrides

end Codey
