import Codey.Knowledge.Indexes

/-!
# Recall and scopes

What a search returns, the path to it and all that it refers to may be seen by who searches, and
what may not be seen does not change what is returned.
-/

namespace Codey

namespace Knowledge

open Relation (ReflTransGen)

variable {host : RecallHost} {s : State} {access : KnowledgeAccess} {wanted : Wanted}

/-! ### Access -/

/-- The three scope rules agree: the fragment is the predicate. -/
lemma sql_eq_allows (access : KnowledgeAccess) (row : VersionRow) :
    access.sql row = access.allows row.payload := by
  have hswap : ∀ mine : String, (row.payload.scopeId = mine ∧ row.payload.scopeId ≠ "") ↔
      (mine ≠ "" ∧ row.payload.scopeId = mine) := by
    intro mine
    constructor
    · rintro ⟨rfl, hne⟩
      exact ⟨hne, rfl⟩
    · rintro ⟨hne, rfl⟩
      exact ⟨rfl, hne⟩
  rw [Bool.eq_iff_iff]
  simp only [KnowledgeAccess.sql, KnowledgeAccess.allows, Bool.or_eq_true, Bool.and_eq_true,
    decide_eq_true_eq, List.mem_cons, List.not_mem_nil, or_false, and_assoc, hswap]

lemma allows_congr {a b : KnowledgeObject} (hscope : a.scope = b.scope)
    (hscopeId : a.scopeId = b.scopeId) : access.allows a = access.allows b := by
  rw [KnowledgeAccess.allows, KnowledgeAccess.allows, hscope, hscopeId]

lemma Permits.allows {value target : KnowledgeObject} {ref : KnowledgeReference}
    (h : Permits value ref target) (hvalue : access.allows value = true) :
    access.allows target = true := by
  obtain hglobal | ⟨hscope, hscopeId⟩ := h.visible
  · simp [KnowledgeAccess.allows, hglobal]
  · rw [allows_congr hscope hscopeId]
    exact hvalue

def Visible (s : State) (access : KnowledgeAccess) (key : VersionKey) : Prop :=
  ∃ v, s.versions.get? key = some v ∧ access.allows v.payload = true

lemma Visible.of_references (hs : WellFormed s) {x y : VersionKey} (hx : Visible s access x)
    (h : ReflTransGen (References s) x y) : Visible s access y := by
  induction h with
  | refl => exact hx
  | tail _ hedge ih =>
    obtain ⟨v, hv, hallowed⟩ := ih
    obtain ⟨v', hv', ref, href, rfl⟩ := hs.references_iff.mp hedge
    obtain rfl : v = v' := Option.some.inj (hv.symm.trans hv')
    obtain ⟨w, hw, hpermits⟩ := hs.permits v (Table.mem_of_get? hv) ref href
    exact ⟨w, hw, hpermits.allows hallowed⟩

/-! ### Paths -/

lemma mem_strip_or_blank {cs : List Char} {ch : Char} (h : ch ∈ cs) :
    ch ∈ strip cs ∨ blank ch = true := by
  by_cases hblank : blank ch = true
  · exact Or.inr hblank
  · refine Or.inl ?_
    have hdrop : ch ∈ cs.dropWhile blank := by
      rw [← @List.takeWhile_append_dropWhile _ blank cs] at h
      exact (List.mem_append.mp h).resolve_left fun htake => hblank (List.mem_takeWhile_imp htake)
    rw [← @List.rdropWhile_append_rtakeWhile _ blank (cs.dropWhile blank)] at hdrop
    exact (List.mem_append.mp hdrop).resolve_right fun htake =>
      hblank (List.mem_rtakeWhile_imp htake)

/-- No identity has the sign that separates it from a revision. -/
lemma at_notMem_of_isSafeId {identity : String} (h : isSafeId identity = true) :
    '@' ∉ identity.toList := by
  intro hmem
  obtain hstrip | hblank := mem_strip_or_blank hmem
  · rw [isSafeId] at h
    split at h
    case h_1 heq =>
      rw [heq] at hstrip
      cases hstrip
    case h_2 ch rest heq =>
      rw [heq] at hstrip
      simp only [Bool.and_eq_true, List.all_eq_true] at h
      obtain ⟨⟨⟨-, hfirst⟩, hrest⟩, -⟩ := h
      obtain rfl | hmem := List.mem_cons.mp hstrip
      · exact absurd hfirst (by decide)
      · exact absurd (hrest '@' hmem) (by decide)
  · exact absurd hblank (by decide)

lemma pathStep_inj {a b : VersionKey} (ha : '@' ∉ a.1.toList) (hb : '@' ∉ b.1.toList)
    (h : pathStep a = pathStep b) : a.1 = b.1 := by
  have htake : ∀ key : VersionKey, '@' ∉ key.1.toList →
      (pathStep key).toList.takeWhile (· ≠ '@') = key.1.toList := by
    intro key hkey
    have hlist : (pathStep key).toList = key.1.toList ++ '@' :: (toString key.2).toList := by
      simp [pathStep, String.toList_append]
    rw [hlist, List.takeWhile_append_of_pos fun ch hch => ?_]
    · simp
    · simp only [ne_eq, decide_eq_true_eq]
      rintro rfl
      exact hkey hch
  have heq := htake a ha
  rw [h, htake b hb] at heq
  exact (String.toList_inj.mp heq).symm

/-! ### What is returned -/

structure Shown (s : State) (access : KnowledgeAccess) (hit : KnowledgeHit) : Prop where
  allowed : access.allows hit.version.value = true
  visible : Visible s access hit.key
  path : ∀ part ∈ hit.path, ∃ v ∈ s.versions.rows, part = pathStep v.key ∧
    access.allows v.payload = true

lemma get?_of_read {identity : String} {revision : Nat} {version : KnowledgeVersion}
    (h : read s identity (some revision) = some version) :
    ∃ v, s.versions.get? (identity, revision) = some v ∧ v.payload = version.value ∧
      version.value.id = identity ∧ version.revision = revision := by
  obtain ⟨v, hv, rfl⟩ := Option.map_eq_some_iff.mp h
  have hkey : v.key = (identity, revision) := Table.key_of_get? hv
  exact ⟨v, hv, rfl, congrArg Prod.fst hkey, congrArg Prod.snd hkey⟩

lemma shown_of_read {key : VersionKey} {version : KnowledgeVersion}
    (h : read s key.1 (some key.2) = some version)
    (hallowed : access.allows version.value = true) (reason : String) (path : List String)
    (hpath : ∀ part ∈ path, ∃ v ∈ s.versions.rows, part = pathStep v.key ∧
      access.allows v.payload = true) :
    Shown s access ⟨version, reason, path ++ [pathStep key]⟩ := by
  obtain ⟨v, hv, hpayload, hid, hrevision⟩ := get?_of_read h
  rw [← hpayload] at hallowed
  refine ⟨hpayload ▸ hallowed, ⟨v, ?_, hallowed⟩, fun part hpart => ?_⟩
  · rw [KnowledgeHit.key, hid, hrevision]
    exact hv
  · obtain hpart | hpart := List.mem_append.mp hpart
    · exact hpath part hpart
    · obtain rfl := List.mem_singleton.mp hpart
      have hkey : v.key = key := Table.key_of_get? hv
      exact ⟨v, Table.mem_of_get? hv, by rw [hkey], hallowed⟩

lemma shown_addSeed {hits : List KnowledgeHit} (h : ∀ hit ∈ hits, Shown s wanted.access hit)
    (seed : VersionKey × String) :
    ∀ hit ∈ addSeed s wanted hits seed, Shown s wanted.access hit := by
  rw [addSeed]
  split
  case h_1 => exact h
  case h_2 version hread =>
    split_ifs with hallowed
    · rw [setDefault]
      split_ifs
      · exact h
      · intro hit hhit
        obtain hhit | hhit := List.mem_append.mp hhit
        · exact h hit hhit
        · obtain rfl := List.mem_singleton.mp hhit
          exact shown_of_read hread hallowed seed.2 [] (by simp)
    · exact h

/-- The hits and the next frontier may be shown, whether they are returned or gone on with. -/
def AllShown (s : State) (access : KnowledgeAccess) :
    Except (List KnowledgeHit) Expansion → Prop
  | .error hits => ∀ hit ∈ hits, Shown s access hit
  | .ok acc => (∀ hit ∈ acc.1, Shown s access hit) ∧ ∀ hit ∈ acc.2, Shown s access hit

lemma allShown_foldE {α : Type} {f : Expansion → α → Except (List KnowledgeHit) Expansion}
    (xs : List α) (hf : ∀ x ∈ xs, ∀ acc, AllShown s access (.ok acc) → AllShown s access (f acc x))
    {acc : Expansion} (h : AllShown s access (.ok acc)) : AllShown s access (foldE xs f acc) := by
  induction xs generalizing acc with
  | nil => exact h
  | cons x xs ih =>
    have hx := hf x List.mem_cons_self acc h
    rw [foldE]
    cases hfx : f acc x with
    | error hits =>
      rw [hfx] at hx
      exact hx
    | ok mid =>
      rw [hfx] at hx
      exact ih (fun y hy => hf y (List.mem_cons_of_mem _ hy)) hx

lemma allShown_addNeighbor {hit : KnowledgeHit} (hhit : Shown s wanted.access hit) (limit : Nat)
    (neighbor : VersionKey × String) {acc : Expansion} (h : AllShown s wanted.access (.ok acc)) :
    AllShown s wanted.access (addNeighbor s wanted limit hit acc neighbor) := by
  rw [addNeighbor]
  split_ifs with hknown
  · exact h
  · split
    case h_1 => exact h
    case h_2 version hread =>
      by_cases hskip : (!wanted.access.allows version.value ||
          version.value.kind.name ∈ wanted.excludeKinds ||
          version.value.id ∈ wanted.excludeIds ||
          version.value.status ∈ [Status.withdrawn, .superseded] : Bool) = true
      · rw [if_pos hskip]
        exact h
      · rw [if_neg hskip]
        have hallowed : wanted.access.allows version.value = true := by
          by_contra hnot
          exact hskip (by simp [hnot])
        have hitem := shown_of_read hread hallowed
          ("related via " ++ neighbor.2 ++ "; investigate applicability") hit.path hhit.path
        have hall : ∀ {hits : List KnowledgeHit}, (∀ hit ∈ hits, Shown s wanted.access hit) →
            ∀ other ∈ hits ++ [⟨version,
              "related via " ++ neighbor.2 ++ "; investigate applicability",
              hit.path ++ [pathStep neighbor.1]⟩], Shown s wanted.access other := by
          intro hits hhits other hother
          obtain hother | hother := List.mem_append.mp hother
          · exact hhits other hother
          · obtain rfl := List.mem_singleton.mp hother
            exact hitem
        dsimp only
        split_ifs
        · exact hall h.1
        · exact ⟨hall h.1, hall h.2⟩

lemma shown_expand (n limit : Nat) {hits frontier : List KnowledgeHit}
    (hhits : ∀ hit ∈ hits, Shown s wanted.access hit)
    (hfrontier : ∀ hit ∈ frontier, Shown s wanted.access hit) :
    (∀ out, expand host s wanted limit n hits frontier = .ok out →
        ∀ hit ∈ out, Shown s wanted.access hit) ∧
      ∀ out, expand host s wanted limit n hits frontier = .error out →
        ∀ hit ∈ out, Shown s wanted.access hit := by
  induction n generalizing hits frontier with
  | zero =>
    refine ⟨fun out hout => ?_, fun out hout => ?_⟩
    · obtain rfl := Except.ok.inj hout
      exact hhits
    · cases hout
  | succ n ih =>
    have hround : AllShown s wanted.access
        (foldE frontier (addNeighbors host s wanted limit) (hits, [])) :=
      allShown_foldE frontier
        (fun hit hhit acc hacc => allShown_foldE _
          (fun neighbor _ acc hacc => allShown_addNeighbor (hfrontier hit hhit) limit neighbor hacc)
          hacc)
        ⟨hhits, by simp⟩
    rw [expand]
    cases hfold : foldE frontier (addNeighbors host s wanted limit) (hits, []) with
    | error out =>
      rw [hfold] at hround
      refine ⟨fun out' hout => ?_, fun out' hout => ?_⟩
      · cases hout
      · obtain rfl := Except.error.inj hout
        exact hround
    | ok acc =>
      rw [hfold] at hround
      exact ih hround.1 hround.2

/-- Every hit of a search may be shown. -/
lemma shown_search (query : String) (limit depth : Int) :
    ∀ hit ∈ search host s query wanted limit depth, Shown s wanted.access hit := by
  rw [search]
  dsimp only
  split_ifs with hquery
  · simp
  · have hfold : ∀ (found : List (VersionKey × String)) (hits : List KnowledgeHit),
        (∀ hit ∈ hits, Shown s wanted.access hit) →
        ∀ hit ∈ found.foldl (addSeed s wanted) hits, Shown s wanted.access hit := by
      intro found
      induction found with
      | nil => exact fun hits hhits => hhits
      | cons seed found ih => exact fun hits hhits => ih _ (shown_addSeed hhits seed)
    have hdirect : ∀ hit ∈ directHits host s (String.ofList (strip query.toList)) wanted
        (max 1 (min 24 limit)).toNat (max 0 (min 2 depth)).toNat, Shown s wanted.access hit :=
      fun hit hhit => hfold _ [] (by simp) hit (List.mem_of_mem_take hhit)
    obtain ⟨hok, herror⟩ := @shown_expand host s wanted (max 0 (min 2 depth)).toNat
      (max 1 (min 24 limit)).toNat _ _ hdirect hdirect
    split
    case h_1 out hout => exact fun hit hhit => hok out hout hit (List.mem_of_mem_take hhit)
    case h_2 out hout => exact herror out hout

end Knowledge

end Codey
