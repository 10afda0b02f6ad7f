import Codey.Lib.Check
import Codey.Providers.Supervisor

/-!
# Operations on provider health

Over any operations of any supervisors on one file, what returns has been applied once, what raises
has changed nothing, and no failure makes a provider selectable, as long as no failure is recorded
for a provider out of use that would end its cooldown or its wait for the user.
-/

namespace Codey

namespace Supervisor

inductive Op where
  | recordSuccess (id : String) (canary : Bool)
  | recordFailure (id kind : String)
  | recordCanaryFailure (id kind : String)
  | prepareUserSelected (id : String)
  | get (id : String)
  | select (preferred : String) (providerIds excluded : List String)

/-- An operation, what the clock shows in it, and what goes wrong. -/
structure Call where
  op : Op
  now : Rat
  fault : Fault := .none

inductive Result where
  | health (health : Health)
  | selected (id : Option String)
  deriving DecidableEq

def Op.providerId : Op → String
  | .recordSuccess id _ | .recordFailure id _ | .recordCanaryFailure id _
  | .prepareUserSelected id | .get id => id
  | .select preferred _ _ => preferred

/-- The event of an operation. -/
def Op.apply (now : Rat) : Op → Health → Health
  | .recordSuccess _ canary, current => applySuccess current canary now
  | .recordFailure _ kind, current => applyFailure current kind now
  | .recordCanaryFailure _ kind, current => applyCanaryFailure current kind now
  | .prepareUserSelected _, current => allow current
  | .get _, current | .select _ _ _, current => current

def Op.isFailure : Op → Bool
  | .recordFailure _ _ | .recordCanaryFailure _ _ => true
  | _ => false

/-- The file behind a call, and what it returns or raises. -/
def perform (h : Host) (file : List Row) (c : Call) : List Row × Except Error Result :=
  match c.op with
  | .select preferred providerIds excluded =>
    let (file', result) := select h c.fault c.now file preferred providerIds excluded
    (file', result.map .selected)
  | op =>
    let (file', result) := update h c.fault c.now file op.providerId (op.apply c.now)
    (file', result.map .health)

def after (h : Host) (c : Call) (state : String → Health) : String → Health :=
  match c.op with
  | .select _ _ _ => fun id => settle (state id) c.now
  | op => Function.update state (normalizeProviderId h op.providerId)
      (op.apply c.now (settle (state (normalizeProviderId h op.providerId)) c.now))

/-- What a call keeps. -/
structure Respects (h : Host) (file : List Row) (c : Call) : Prop where
  /-- What returns has applied its event once. -/
  applied : ∀ result, (perform h file c).2 = .ok result →
    reads h (perform h file c).1 = after h c (reads h file)
  /-- What raises has changed nothing. -/
  unchanged : ∀ e, (perform h file c).2 = .error e → (perform h file c).1 = file
  /-- A failure ends no cooldown. -/
  cools : c.op.isFailure = true → ∀ id, (reads h file id).state = .opened → ∀ u, c.now ≤ u →
    u < (reads h file id).circuitOpenUntil →
      (settle (reads h (perform h file c).1 id) u).state.available = false
  /-- A failure does not stand for the user. -/
  waits : c.op.isFailure = true → ∀ id, (reads h file id).state = .authRequired →
    (reads h (perform h file c).1 id).state = .authRequired
  /-- The first provider is selected that is neither excluded nor out of use. -/
  selects : ∀ preferred providerIds excluded id,
    c.op = .select preferred providerIds excluded → (perform h file c).2 = .ok (.selected id) →
      id = ((preferred :: providerIds).map (normalizeProviderId h)).find? fun id =>
        id ≠ "" && !(excluded.map (normalizeProviderId h)).contains id &&
          (settle (reads h file id) c.now).state.available

/-- How long the circuit opens behind a failure. -/
def cooldown (current : Health) (kind : String) (canary : Bool) : Option Rat :=
  if kind = failureRateLimited then some rateLimitCooldown
  else if kind ∈ structuralFailures ∧
      (canary = true ∨ structuralThreshold ≤ failureRun current kind) then some structuralCooldown
  else if canary = true ∨ kind = failureTransient ∧ transientThreshold ≤ failureRun current kind then
    some transientCooldown
  else none

/-- A failure that leaves a provider out of use: one that asks for the user, or, while a circuit is
open, one that opens it for as long or longer. -/
def Keeps (current : Health) (kind : String) (canary : Bool) (now : Rat) : Prop :=
  kind ∈ authFailures ∨ current.state ≠ .authRequired ∧ (current.state = .opened →
    ∃ length, cooldown current kind canary = some length ∧
      current.circuitOpenUntil ≤ now + length)

/-- The calls behind which the code keeps what it promises. -/
def Meets (h : Host) (file : List Row) (c : Call) : Prop :=
  0 ≤ c.now ∧ c.fault ≠ .sync ∧
    match c.op with
    | .recordSuccess id _ => normalizeProviderId h id ≠ ""
    | .recordFailure id kind => normalizeProviderId h id ≠ "" ∧ kind.length ≤ 40 ∧
        Keeps (settle (reads h file (normalizeProviderId h id)) c.now) kind false c.now
    | .recordCanaryFailure id kind => normalizeProviderId h id ≠ "" ∧ kind.length ≤ 40 ∧
        Keeps (settle (reads h file (normalizeProviderId h id)) c.now) kind true c.now
    | .prepareUserSelected _ | .get _ | .select _ _ _ => True

section Laws

variable {h : Host} {file : List Row} {d : Snapshot} {health current : Health} {now u : Rat}
  {kind id : String} {row : Row} {c : Call}

/-! ### What is read back -/

/-- An identifier that was normalized stays as it is. -/
lemma normalize_normalize (hid : normalizeProviderId h id ≠ "") :
    normalizeProviderId h (normalizeProviderId h id) = normalizeProviderId h id := by
  set text := h.lower (strip id.toList) with htext
  set letters := text.filter fun ch => ch ≠ '-' && ch ≠ '_' with hletters
  have hdef : ∀ value, normalizeProviderId h value =
      if ((h.lower (strip value.toList)).filter fun ch => ch ≠ '-' && ch ≠ '_') ≠ [] ∧
          ((h.lower (strip value.toList)).filter fun ch => ch ≠ '-' && ch ≠ '_').all h.isAlnum
        then String.ofList (h.lower (strip value.toList)) else "" := fun value => rfl
  have hsome : letters ≠ [] ∧ letters.all h.isAlnum := by
    by_contra hnone
    exact hid ((hdef id).trans (if_neg hnone))
  have hone : normalizeProviderId h id = String.ofList text := (hdef id).trans (if_pos hsome)
  have hblank : ∀ ch ∈ text, blank ch = false := by
    intro ch hch
    by_cases hmark : ch = '-' ∨ ch = '_'
    · rcases hmark with rfl | rfl <;> rfl
    · push Not at hmark
      have hletter : ch ∈ letters := List.mem_filter.mpr ⟨hch, by simpa using hmark⟩
      exact h.blank_of_isAlnum ch (List.all_eq_true.mp hsome.2 ch hletter)
  have hstrip : strip text = text :=
    strip_eq_self_iff.mpr ⟨fun ch hch => hblank ch (List.mem_of_mem_head? hch),
      fun ch hch => hblank ch (List.mem_of_mem_getLast? hch)⟩
  have htwice : h.lower (strip (String.ofList text).toList) = text := by
    rw [String.toList_ofList, hstrip, htext, h.lower_lower]
  rw [hone, hdef, htwice]
  exact if_pos hsome

def Health.Bounded (health : Health) : Prop :=
  health.lastFailureKind.length ≤ 40 ∧ 0 ≤ health.lastSuccessAt ∧ 0 ≤ health.lastFailureAt ∧
    0 ≤ health.circuitOpenUntil

lemma readHealth_of_bounded (hb : health.Bounded) : readHealth health = health := by
  obtain ⟨hkind, hsuccess, hfailure, huntil⟩ := hb
  have htake : health.lastFailureKind.toList.take 40 = health.lastFailureKind.toList :=
    List.take_of_length_le (by rwa [String.length_toList])
  unfold readHealth
  rw [max_eq_right hsuccess, max_eq_right hfailure, max_eq_right huntil, htake,
    String.ofList_toList]

lemma bounded_readHealth (health : Health) : (readHealth health).Bounded := by
  refine ⟨?_, le_max_left _ _, le_max_left _ _, le_max_left _ _⟩
  simp [readHealth]

lemma bounded_default : Health.Bounded {} := by
  refine ⟨?_, le_rfl, le_rfl, le_rfl⟩
  simp

lemma Health.Bounded.settle (hb : health.Bounded) (now : Rat) :
    (settle health now).Bounded := by
  unfold Supervisor.settle expireOpen
  split_ifs with hexpired
  · exact ⟨hb.1, hb.2.1, hb.2.2.1, le_rfl⟩
  · exact hb

lemma Health.Bounded.applySuccess (hb : health.Bounded) (hnow : 0 ≤ now) (canary : Bool) :
    (applySuccess health canary now).Bounded := by
  refine ⟨?_, hnow, hb.2.2.1, le_rfl⟩
  simp [Supervisor.applySuccess]

lemma Health.Bounded.applyFailure (hb : health.Bounded) (hnow : 0 ≤ now) (hkind : kind.length ≤ 40) :
    (applyFailure health kind now).Bounded := by
  refine ⟨hkind, hb.2.1, hnow, ?_⟩
  have hrate : (0 : Rat) ≤ rateLimitCooldown := by decide
  have hstructural : (0 : Rat) ≤ structuralCooldown := by decide
  have htransient : (0 : Rat) ≤ transientCooldown := by decide
  simp only [Supervisor.applyFailure]
  split_ifs <;> first | exact le_rfl | exact add_nonneg hnow ‹_›

lemma Health.Bounded.applyCanaryFailure (hb : health.Bounded) (hnow : 0 ≤ now)
    (hkind : kind.length ≤ 40) : (applyCanaryFailure health kind now).Bounded := by
  have hupdated := hb.applyFailure hnow hkind
  simp only [Supervisor.applyCanaryFailure]
  split_ifs
  · exact hupdated
  · refine ⟨hupdated.1, hupdated.2.1, hupdated.2.2.1, add_nonneg hnow (by decide)⟩
  · refine ⟨hupdated.1, hupdated.2.1, hupdated.2.2.1, add_nonneg hnow (by decide)⟩

lemma Health.Bounded.allow (hb : health.Bounded) : (allow health).Bounded := by
  unfold Supervisor.allow
  split_ifs
  · exact hb
  · exact ⟨hb.1, hb.2.1, hb.2.2.1, le_rfl⟩

/-! ### Tables of health -/

/-- A table as it is read from the file. -/
def Sound (h : Host) (d : Snapshot) : Prop :=
  ∀ row ∈ d.rows, row.id ≠ "" ∧ normalizeProviderId h row.id = row.id ∧ row.health.Bounded

lemma sound_load (h : Host) (file : List Row) : Sound h (load h file) := by
  intro row hrow
  obtain hrow | hrow := Table.mem_of_mem_foldl_put hrow
  · obtain ⟨hrow, hid⟩ := List.mem_filter.mp hrow
    obtain ⟨raw, -, rfl⟩ := List.mem_map.mp hrow
    have hid : normalizeProviderId h raw.id ≠ "" := by simpa using hid
    exact ⟨hid, normalize_normalize hid, bounded_readHealth raw.health⟩
  · cases hrow

lemma Sound.put (hd : Sound h d) (hid : normalizeProviderId h id ≠ "") (hb : health.Bounded) :
    Sound h (d.put ⟨normalizeProviderId h id, health⟩) := by
  intro row hrow
  rcases Table.mem_put_iff.mp hrow with rfl | ⟨hrow, -⟩
  · exact ⟨hid, normalize_normalize hid, hb⟩
  · exact hd row hrow

/-- What is written is read back. -/
lemma lookup_load_rowsOf (hd : Sound h d) : lookup (load h (rowsOf d)) = lookup d := by
  have hperm : (rowsOf d).Perm d.rows := sortByKey_perm _ d.rows
  have hmap : (rowsOf d).map (fun row => (⟨normalizeProviderId h row.id, readHealth row.health⟩ :
      Row)) = rowsOf d := by
    conv_rhs => rw [← List.map_id (rowsOf d)]
    apply List.map_congr_left
    intro row hrow
    obtain ⟨-, hid, hb⟩ := hd row (hperm.subset hrow)
    rw [hid, readHealth_of_bounded hb]
    rfl
  have hfilter : (rowsOf d).filter (·.id ≠ "") = rowsOf d := by
    rw [List.filter_eq_self]
    intro row hrow
    exact decide_eq_true (hd row (hperm.subset hrow)).1
  have hload : load h (rowsOf d) = Table.ofRows (rowsOf d) := by
    unfold load
    rw [hmap, hfilter]
  have hnodup : ((rowsOf d).map (·.id)).Nodup := (hperm.map _).nodup_iff.mpr d.nodup
  have hsame : ∀ row, row ∈ (load h (rowsOf d)).rows ↔ row ∈ d.rows := by
    intro row
    rw [hload, Table.mem_ofRows hnodup, hperm.mem_iff]
  funext id
  unfold lookup
  rw [Table.get?_congr hsame]

lemma Sound.bounded_lookup (hd : Sound h d) (id : String) : (lookup d id).Bounded := by
  unfold lookup
  cases hrow : d.get? id with
  | none => exact bounded_default
  | some row => exact (hd row (Table.mem_of_get? hrow)).2.2

lemma Sound.lookup_empty (hd : Sound h d) : lookup d "" = {} := by
  have hnone : d.get? "" = none :=
    Table.get?_eq_none_iff.mpr fun row hrow => (hd row hrow).1
  unfold lookup
  rw [hnone]
  rfl

lemma lookup_put (d : Snapshot) (id : String) (health : Health) :
    lookup (d.put ⟨id, health⟩) = Function.update (lookup d) id health := by
  funext other
  unfold lookup
  rw [Table.get?_put, Function.update_apply]
  by_cases hid : other = id
  · simp [hid]
  · simp [hid, Ne.symm hid]

lemma nodup_expired (d : Snapshot) (now : Rat) : ((expired d now).map (·.id)).Nodup := by
  have hsub : ∀ rows : List Row, ((rows.filterMap fun row => (expireOpen row.health now).map
      fun health => (⟨row.id, health⟩ : Row)).map (·.id)).Sublist (rows.map (·.id)) := by
    intro rows
    induction rows with
    | nil => exact List.Sublist.slnil
    | cons row rows ih =>
      rw [List.filterMap_cons]
      cases expireOpen row.health now with
      | none => exact ih.cons row.id
      | some health => exact ih.cons_cons row.id
  exact (hsub d.rows).nodup d.nodup

/-- The write behind a selection cools down every circuit that is due. -/
lemma lookup_expired (d : Snapshot) (now : Rat) (id : String) :
    lookup ((expired d now).foldl Table.put d) id = settle (lookup d id) now := by
  have hfrom : ∀ row ∈ expired d now, ∃ old, d.get? row.id = some old ∧
      expireOpen old.health now = some row.health := by
    intro row hrow
    obtain ⟨old, hold, hexpired⟩ := List.mem_filterMap.mp hrow
    obtain ⟨health, hhealth, rfl⟩ := Option.map_eq_some_iff.mp hexpired
    exact ⟨old, Table.mem_rows_iff.mp hold, hhealth⟩
  unfold lookup
  cases hrow : d.get? id with
  | none =>
    rw [Table.get?_foldl_put_of_notMem (nodup_expired d now), hrow]
    · rfl
    · rintro row hmem rfl
      obtain ⟨old, hold, -⟩ := hfrom row hmem
      rw [hrow] at hold
      cases hold
  | some row =>
    obtain rfl := Table.key_of_get? hrow
    cases hexpired : expireOpen row.health now with
    | none =>
      rw [Table.get?_foldl_put_of_notMem (nodup_expired d now), hrow]
      · simp [settle, hexpired]
      · intro new hmem hid
        obtain ⟨old, hold, hsome⟩ := hfrom new hmem
        rw [hid, hrow] at hold
        obtain rfl := Option.some.inj hold
        rw [hexpired] at hsome
        cases hsome
    | some health =>
      have hmem : (⟨row.id, health⟩ : Row) ∈ expired d now :=
        List.mem_filterMap.mpr ⟨row, Table.mem_of_get? hrow, by rw [hexpired]; rfl⟩
      have hget := Table.get?_foldl_put_of_mem (nodup_expired d now) d hmem
      simp [hget, settle, hexpired]

/-! ### One operation -/

section Write

variable {α : Type} {fault : Fault} {result r : α} {e : Error}
  {body : Snapshot → List Row × Except Error α}

lemma writeSnapshot_ok (hok : (writeSnapshot h fault file d result).2 = .ok r) :
    (writeSnapshot h fault file d result).1 = rowsOf d ∧ result = r := by
  unfold writeSnapshot at hok ⊢
  split_ifs at hok ⊢
  exact ⟨rfl, Except.ok.inj hok⟩

lemma writeSnapshot_error (hfault : fault ≠ .sync)
    (herror : (writeSnapshot h fault file d result).2 = .error e) :
    (writeSnapshot h fault file d result).1 = file := by
  unfold writeSnapshot at herror ⊢
  split_ifs at herror ⊢ <;> rfl

lemma exclusive_ok (hok : (exclusive h fault file body).2 = .ok r) :
    exclusive h fault file body = body (load h file) := by
  unfold exclusive at hok ⊢
  split_ifs at hok ⊢
  rfl

lemma exclusive_error (hbody : (body (load h file)).2 = .error e → (body (load h file)).1 = file)
    (herror : (exclusive h fault file body).2 = .error e) :
    (exclusive h fault file body).1 = file := by
  unfold exclusive at herror ⊢
  split_ifs at herror ⊢
  · rfl
  · rfl
  · exact hbody herror

end Write

section Update

variable {fault : Fault} {mutate : Health → Health} {result : Health} {e : Error}

/-- What an update makes of the health that every supervisor reads. -/
lemma update_ok (hmutate : ∀ health, health.Bounded → (mutate health).Bounded)
    (hid : normalizeProviderId h id = "" → mutate {} = {})
    (hok : (update h fault now file id mutate).2 = .ok result) :
    reads h (update h fault now file id mutate).1 =
      Function.update (reads h file) (normalizeProviderId h id)
        (mutate (settle (reads h file (normalizeProviderId h id)) now)) := by
  have hbody := exclusive_ok hok
  have hsound := sound_load h file
  unfold update at hok ⊢
  rw [hbody] at hok ⊢
  dsimp only at hok ⊢
  set key := normalizeProviderId h id with hkey
  have hreads : reads h file = lookup (load h file) := rfl
  split_ifs at hok ⊢ with hsame
  · rw [hreads, hsame, Function.update_eq_self]
  · rw [(writeSnapshot_ok hok).1]
    have hne : key ≠ "" := by
      intro hempty
      apply hsame
      rw [hempty, hsound.lookup_empty]
      exact hid hempty
    have hb : (mutate (settle (lookup (load h file) key) now)).Bounded :=
      hmutate _ ((hsound.bounded_lookup key).settle now)
    exact (lookup_load_rowsOf (hsound.put hne hb)).trans (lookup_put _ _ _)

lemma update_error (hfault : fault ≠ .sync)
    (herror : (update h fault now file id mutate).2 = .error e) :
    (update h fault now file id mutate).1 = file := by
  unfold update at herror ⊢
  apply exclusive_error ?_ herror
  intro hbody
  dsimp only at hbody ⊢
  split_ifs at hbody ⊢
  exact writeSnapshot_error hfault hbody

end Update

section Select

variable {fault : Fault} {preferred : String} {providerIds excluded : List String}
  {selected : Option String} {e : Error}

/-- An id that was seen before is not available, so that looking at it again changes nothing. -/
lemma firstAvailable_eq (snapshot : Snapshot) (blocked ids seen : List String)
    (hseen : ∀ id ∈ seen, (lookup snapshot id).state.available = false) :
    firstAvailable snapshot blocked ids seen = ids.find? fun id =>
      id ≠ "" && !blocked.contains id && (lookup snapshot id).state.available := by
  induction ids generalizing seen with
  | nil => rfl
  | cons id ids ih =>
    rw [firstAvailable, List.find?_cons]
    split_ifs with hskip havailable
    · have hfalse : (id ≠ "" && !blocked.contains id && (lookup snapshot id).state.available) =
          false := by
        rcases hskip with rfl | hid | hid
        · rfl
        · simp [hseen id hid]
        · simp [hid]
      rw [hfalse]
      exact ih seen hseen
    · push Not at hskip
      simp [hskip.1, hskip.2.2, havailable]
    · have hunavailable : (lookup snapshot id).state.available = false := by
        simpa using havailable
      rw [hunavailable, Bool.and_false]
      apply ih
      intro other hother
      rcases List.mem_cons.mp hother with rfl | hother
      · exact hunavailable
      · exact hseen other hother

lemma Sound.expired (hd : Sound h d) (now : Rat) :
    Sound h ((expired d now).foldl Table.put d) := by
  intro row hrow
  rcases Table.mem_of_mem_foldl_put hrow with hrow | hrow
  · obtain ⟨old, hold, hexpired⟩ := List.mem_filterMap.mp hrow
    obtain ⟨health, hhealth, rfl⟩ := Option.map_eq_some_iff.mp hexpired
    obtain ⟨hne, hid, hb⟩ := hd old hold
    have hb := hb.settle now
    rw [settle, hhealth] at hb
    exact ⟨hne, hid, hb⟩
  · exact hd row hrow

lemma select_ok (hok : (select h fault now file preferred providerIds excluded).2 = .ok selected) :
    reads h (select h fault now file preferred providerIds excluded).1 =
        (fun id => settle (reads h file id) now) ∧
      selected = ((preferred :: providerIds).map (normalizeProviderId h)).find? fun id =>
        id ≠ "" && !(excluded.map (normalizeProviderId h)).contains id &&
          (settle (reads h file id) now).state.available := by
  have hbody := exclusive_ok hok
  have hsound := (sound_load h file).expired now
  have hlookup : lookup ((expired (load h file) now).foldl Table.put (load h file)) =
      fun id => settle (reads h file id) now := by
    funext id
    exact lookup_expired (load h file) now id
  unfold select at hok ⊢
  rw [hbody] at hok ⊢
  dsimp only at hok ⊢
  rw [firstAvailable_eq _ _ _ _ (by simp), hlookup] at hok ⊢
  split_ifs at hok ⊢ with hnone
  · refine ⟨?_, (Except.ok.inj hok).symm⟩
    rw [hnone] at hlookup
    exact hlookup
  · obtain ⟨hfile, hselected⟩ := writeSnapshot_ok hok
    refine ⟨?_, hselected.symm⟩
    rw [hfile]
    exact (lookup_load_rowsOf hsound).trans hlookup

lemma select_error (hfault : fault ≠ .sync)
    (herror : (select h fault now file preferred providerIds excluded).2 = .error e) :
    (select h fault now file preferred providerIds excluded).1 = file := by
  unfold select at herror ⊢
  apply exclusive_error ?_ herror
  intro hbody
  dsimp only at hbody ⊢
  split_ifs at hbody ⊢
  exact writeSnapshot_error hfault hbody

end Select

/-! ### Circuits -/

lemma settle_of_lt (hlt : u < health.circuitOpenUntil) : settle health u = health := by
  unfold settle expireOpen
  rw [if_neg fun hexpired => absurd hexpired.2 (not_le.mpr hlt)]
  rfl

lemma settle_of_not_opened (now : Rat) (hstate : health.state ≠ .opened) :
    settle health now = health := by
  unfold settle expireOpen
  rw [if_neg fun hexpired => hstate hexpired.1]
  rfl

lemma applyFailure_auth (hkind : kind ∈ authFailures) :
    (applyFailure current kind now).state = .authRequired := by
  simp [applyFailure, hkind]

lemma applyCanaryFailure_auth (hkind : kind ∈ authFailures) :
    (applyCanaryFailure current kind now).state = .authRequired := by
  simp [applyCanaryFailure, applyFailure_auth hkind]

lemma applyFailure_opened {length : Rat} (now : Rat) (hkind : kind ∉ authFailures)
    (hlength : cooldown current kind false = some length) :
    (applyFailure current kind now).state = .opened ∧
      (applyFailure current kind now).circuitOpenUntil = now + length := by
  unfold cooldown at hlength
  simp only [applyFailure, hkind, if_false]
  simp only [Bool.false_eq_true, false_or] at hlength
  split_ifs at hlength ⊢ <;> simp_all

lemma applyFailure_degraded (now : Rat) (hkind : kind ∉ authFailures)
    (hnone : cooldown current kind false = none) :
    (applyFailure current kind now).state = .degraded := by
  unfold cooldown at hnone
  simp only [applyFailure, hkind, if_false]
  simp only [Bool.false_eq_true, false_or] at hnone
  split_ifs at hnone ⊢
  rfl

/-- A failed canary opens the circuit for as long as the failure itself, if that opens it. -/
lemma cooldown_canary {length : Rat} (hlength : cooldown current kind false = some length) :
    cooldown current kind true = some length := by
  unfold cooldown at hlength ⊢
  simp only [Bool.false_eq_true, false_or, true_or, and_true, if_true] at hlength ⊢
  by_cases hstructural : kind ∈ structuralFailures
  · have hother : kind ≠ failureTransient := by
      rintro rfl
      exact absurd hstructural (by decide)
    simp only [hstructural, hother, true_and, false_and, if_true, if_false] at hlength ⊢
    split_ifs at hlength ⊢
    · exact hlength
    · exact hlength
  · simp only [hstructural, false_and, if_false] at hlength ⊢
    split_ifs at hlength ⊢
    · exact hlength
    · exact hlength

lemma applyCanaryFailure_opened {length : Rat} (hkind : kind ∉ authFailures)
    (hlength : cooldown current kind true = some length) :
    (applyCanaryFailure current kind now).state = .opened ∧
      (applyCanaryFailure current kind now).circuitOpenUntil = now + length := by
  cases hfailure : cooldown current kind false with
  | some other =>
    obtain rfl : other = length := by
      rw [cooldown_canary hfailure] at hlength
      exact Option.some.inj hlength
    obtain ⟨hstate, huntil⟩ := applyFailure_opened now hkind hfailure
    simp only [applyCanaryFailure, hstate, true_or, if_true, true_and]
    exact huntil
  | none =>
    have hstate := applyFailure_degraded now hkind hfailure
    have hrate : kind ≠ failureRateLimited := by
      rintro rfl
      simp [cooldown] at hfailure
    simp only [applyCanaryFailure, hstate, reduceCtorEq, or_self, if_false, true_and]
    simp only [cooldown, hrate, true_or, and_true, if_true, if_false] at hlength
    split_ifs at hlength ⊢ <;> simp_all

/-- What a failure that keeps a provider out of use makes of it. -/
lemma Keeps.keeps {canary : Bool} {updated : Health} (hkeeps : Keeps current kind canary now)
    (hauth : kind ∈ authFailures → updated.state = .authRequired)
    (hopened : ∀ length, kind ∉ authFailures → cooldown current kind canary = some length →
      updated.state = .opened ∧ updated.circuitOpenUntil = now + length) :
    (current.state = .authRequired → updated.state = .authRequired) ∧
      (current.state = .opened → u < current.circuitOpenUntil →
        (settle updated u).state.available = false) := by
  by_cases hkind : kind ∈ authFailures
  · have hstate := hauth hkind
    refine ⟨fun _ => hstate, fun _ _ => ?_⟩
    rw [settle_of_not_opened u (by rw [hstate]; decide), hstate]
    rfl
  · obtain ⟨hnot, hwhile⟩ := hkeeps.resolve_left hkind
    refine ⟨fun hstate => absurd hstate hnot, fun hstate hu => ?_⟩
    obtain ⟨length, hlength, hlong⟩ := hwhile hstate
    obtain ⟨hstate', huntil⟩ := hopened length hkind hlength
    rw [settle_of_lt (by rw [huntil]; exact hu.trans_le hlong), hstate']
    rfl

/-! ### Runs -/

lemma available_opened (hstate : health.state = .opened) (hlt : u < health.circuitOpenUntil) :
    (settle health u).state.available = false := by
  rw [settle_of_lt hlt, hstate]
  rfl

/-- An operation on one provider, given what it makes of the health of that provider. -/
lemma respects_update
    (hfile : (perform h file c).1 =
      (update h c.fault c.now file c.op.providerId (c.op.apply c.now)).1)
    (hresult : (perform h file c).2 =
      (update h c.fault c.now file c.op.providerId (c.op.apply c.now)).2.map .health)
    (hafter : after h c (reads h file) = Function.update (reads h file)
      (normalizeProviderId h c.op.providerId)
      (c.op.apply c.now (settle (reads h file (normalizeProviderId h c.op.providerId)) c.now)))
    (hselect : ∀ preferred providerIds excluded, c.op ≠ .select preferred providerIds excluded)
    (hsync : c.fault ≠ .sync)
    (hbounded : ∀ health, health.Bounded → (c.op.apply c.now health).Bounded)
    (hempty : normalizeProviderId h c.op.providerId = "" → c.op.apply c.now {} = {})
    (hkeeps : c.op.isFailure = true → ∀ u current,
      current = settle (reads h file (normalizeProviderId h c.op.providerId)) c.now →
      (current.state = .authRequired → (c.op.apply c.now current).state = .authRequired) ∧
        (current.state = .opened → u < current.circuitOpenUntil →
          (settle (c.op.apply c.now current) u).state.available = false)) :
    Respects h file c := by
  have hok : ∀ result, (perform h file c).2 = .ok result →
      reads h (perform h file c).1 = after h c (reads h file) := by
    intro result hreturned
    rw [hresult] at hreturned
    obtain ⟨health, hupdate, -⟩ := except_map_eq_ok.mp hreturned
    rw [hfile, hafter, update_ok hbounded hempty hupdate]
  have herror : ∀ e, (perform h file c).2 = .error e → (perform h file c).1 = file := by
    intro e hraised
    rw [hresult, except_map_eq_error] at hraised
    rw [hfile, update_error hsync hraised]
  -- a provider other than the one of the operation is read as before
  have hother : ∀ id, reads h (perform h file c).1 id = reads h file id ∨
      id = normalizeProviderId h c.op.providerId ∧ reads h (perform h file c).1 id =
        c.op.apply c.now (settle (reads h file id) c.now) := by
    intro id
    cases hperform : (perform h file c).2 with
    | error e => exact Or.inl (by rw [herror e hperform])
    | ok result =>
      rw [hok result hperform, hafter, Function.update_apply]
      split_ifs with hid
      · exact Or.inr ⟨hid, by rw [hid]⟩
      · exact Or.inl rfl
  refine ⟨hok, herror, fun hfailure id hstate u hnow hlt => ?_, fun hfailure id hstate => ?_,
    fun preferred providerIds excluded id hop => absurd hop (hselect _ _ _)⟩
  · rcases hother id with hsame | ⟨rfl, hnew⟩
    · rw [hsame]
      exact available_opened hstate hlt
    · have hsettled := settle_of_lt (hnow.trans_lt hlt)
      rw [hnew, hsettled]
      exact (hkeeps hfailure u _ hsettled.symm).2 hstate hlt
  · rcases hother id with hsame | ⟨rfl, hnew⟩
    · rw [hsame, hstate]
    · have hsettled := settle_of_not_opened c.now (by rw [hstate]; decide)
      rw [hnew, hsettled]
      exact (hkeeps hfailure 0 _ hsettled.symm).1 hstate

lemma respects_select {preferred : String} {providerIds excluded : List String} {fault : Fault}
    (hsync : fault ≠ .sync) :
    Respects h file ⟨.select preferred providerIds excluded, now, fault⟩ := by
  refine ⟨fun result hresult => ?_, fun e herror => ?_, (nomatch ·), (nomatch ·), ?_⟩
  · obtain ⟨selected, hselected, -⟩ := except_map_eq_ok.mp hresult
    exact (select_ok hselected).1
  · exact select_error hsync (except_map_eq_error.mp herror)
  · rintro preferred' providerIds' excluded' id hop hresult
    obtain ⟨rfl, rfl, rfl⟩ := Op.select.inj hop
    obtain ⟨selected, hselected, hid⟩ := except_map_eq_ok.mp hresult
    obtain rfl := Result.selected.inj hid
    exact (select_ok hselected).2

/-- What a call keeps that meets its condition. -/
lemma perform_respects (hmeets : Meets h file c) : Respects h file c := by
  obtain ⟨op, now, fault⟩ := c
  obtain ⟨hnow, hsync, hop⟩ := hmeets
  cases op with
  | recordSuccess id canary =>
    exact respects_update rfl rfl rfl (fun _ _ _ hop => nomatch hop) hsync
      (fun health hb => hb.applySuccess hnow canary) (fun hempty => absurd hempty hop)
      (fun hfailure => nomatch hfailure)
  | recordFailure id kind =>
    obtain ⟨hid, hkind, hkeeps⟩ := hop
    refine respects_update rfl rfl rfl (fun _ _ _ hop => nomatch hop) hsync
      (fun health hb => hb.applyFailure hnow hkind) (fun hempty => absurd hempty hid) ?_
    rintro - u current rfl
    exact hkeeps.keeps applyFailure_auth fun length => applyFailure_opened now
  | recordCanaryFailure id kind =>
    obtain ⟨hid, hkind, hkeeps⟩ := hop
    refine respects_update rfl rfl rfl (fun _ _ _ hop => nomatch hop) hsync
      (fun health hb => hb.applyCanaryFailure hnow hkind) (fun hempty => absurd hempty hid) ?_
    rintro - u current rfl
    exact hkeeps.keeps applyCanaryFailure_auth fun length => applyCanaryFailure_opened
  | prepareUserSelected id =>
    exact respects_update rfl rfl rfl (fun _ _ _ hop => nomatch hop) hsync
      (fun health hb => hb.allow) (fun _ => rfl) (fun hfailure => nomatch hfailure)
  | get id =>
    exact respects_update rfl rfl rfl (fun _ _ _ hop => nomatch hop) hsync
      (fun health hb => hb) (fun _ => rfl) (fun hfailure => nomatch hfailure)
  | select preferred providerIds excluded => exact respects_select hsync

end Laws

/-- Over any operations on one file, what each call promises holds, when every call meets its
condition. -/
theorem performAll_respects (h : Host) (file : List Row) (calls : List Call)
    (hmeets : FoldOk (Meets h) (fun file c => (perform h file c).1) file calls) :
    FoldOk (Respects h) (fun file c => (perform h file c).1) file calls := by
  induction calls generalizing file with
  | nil => trivial
  | cons c calls ih => exact ⟨perform_respects hmeets.1, ih _ hmeets.2⟩

/-- A host on which ids are words of small letters. -/
def plainHost : Host where
  lower cs := cs
  isAlnum ch := ch.isLower && !blank ch
  fileBytes _ := 0
  lower_lower _ := rfl
  blank_of_isAlnum := by simp

def rateLimitedTwice : List Call :=
  [⟨.recordFailure "qwen" "rate_limited", 100, .none⟩,
    ⟨.recordFailure "qwen" "rate_limited", 101, .none⟩,
    ⟨.select "qwen" [] [], 402, .none⟩]

theorem performAll_respects_rateLimitedTwice :
    FoldOk (Respects plainHost) (fun file c => (perform plainHost file c).1) []
      rateLimitedTwice := by
  have hid : normalizeProviderId plainHost "qwen" ≠ "" := by decide +kernel
  have hkind : "rate_limited".length ≤ 40 := by decide +kernel
  apply performAll_respects plainHost [] rateLimitedTwice
  refine ⟨⟨by decide, by decide, hid, hkind, Or.inr ⟨by decide +kernel, ?_⟩⟩,
    ⟨by decide, by decide, hid, hkind, Or.inr ⟨by decide +kernel, fun _ => ?_⟩⟩,
    ⟨by decide, by decide, trivial⟩, trivial⟩
  · intro hopened
    exact absurd hopened (by decide +kernel)
  · exact ⟨rateLimitCooldown, rfl, by decide +kernel⟩

def lateFailure : List Call :=
  [⟨.recordFailure "qwen" "rate_limited", 100, .none⟩,
    ⟨.recordFailure "qwen" "transient", 101, .none⟩]

theorem not_respects_lateFailure :
    ¬FoldOk (Respects plainHost) (fun file c => (perform plainHost file c).1) []
      lateFailure := by
  rintro ⟨-, hlate, -⟩
  have hfalse := hlate.cools rfl "qwen" (by decide +kernel) 102 (by decide) (by decide +kernel)
  exact absurd hfalse (by decide +kernel)

end Supervisor

end Codey
