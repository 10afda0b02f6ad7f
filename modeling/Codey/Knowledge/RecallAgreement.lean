import Codey.Knowledge.RecallScopes

/-!
# Recall and secrets

Two repositories that agree on what an access allows give the same hits.
-/

namespace Codey

namespace Knowledge

open Relation (ReflTransGen)

variable {host : RecallHost} {s s' : State} {access : KnowledgeAccess} {wanted : Wanted}

/-- Two states hold the same versions and heads among those that are allowed. -/
structure Agree (access : KnowledgeAccess) (s s' : State) : Prop where
  versions : ∀ v, access.allows v.payload = true → (v ∈ s.versions.rows ↔ v ∈ s'.versions.rows)
  heads : ∀ v ∈ s.versions.rows, access.allows v.payload = true →
    s.heads.get? v.payload.id = s'.heads.get? v.payload.id

/-- The database lists the same rows in the same order in both states. -/
structure SameOrder (host : RecallHost) (wanted : Wanted) (s s' : State) : Prop where
  versions : ∀ listing, (found host s wanted listing).Perm (found host s' wanted listing) →
    host.listVersions s listing wanted (found host s wanted listing) =
      host.listVersions s' listing wanted (found host s' wanted listing)
  refs : ∀ key, (incoming s key wanted).Perm (incoming s' key wanted) →
    host.listRefs s key wanted (incoming s key wanted) =
      host.listRefs s' key wanted (incoming s' key wanted)

structure Kept (host : RecallHost) (s : State) : Prop where
  wellFormed : WellFormed s
  indexed : Indexed host.toHost s

/-! ### Reading -/

lemma Agree.symm (h : Agree access s s') : Agree access s' s :=
  ⟨fun v hv => (h.versions v hv).symm,
    fun v hmem hv => (h.heads v ((h.versions v hv).mpr hmem) hv).symm⟩

variable {key : VersionKey} {v : VersionRow}

lemma Agree.get? (h : Agree access s s') (hv : s.versions.get? key = some v)
    (hallowed : access.allows v.payload = true) : s'.versions.get? key = some v := by
  obtain rfl := Table.key_of_get? hv
  exact Table.mem_rows_iff.mp ((h.versions v hallowed).mp (Table.mem_of_get? hv))

lemma Agree.visible (h : Agree access s s') (hkey : Visible s access key) :
    Visible s' access key := by
  obtain ⟨v, hv, hallowed⟩ := hkey
  exact ⟨v, h.get? hv hallowed, hallowed⟩

lemma Agree.isHead (h : Agree access s s') (hv : v ∈ s.versions.rows)
    (hallowed : access.allows v.payload = true) : Knowledge.isHead s v = Knowledge.isHead s' v := by
  rw [Knowledge.isHead, Knowledge.isHead, h.heads v hv hallowed]

/-- What a visible version reaches in one state, it reaches in the other. -/
lemma Agree.reaches (h : Agree access s s') (hs : Consistent s') (hw : WellFormed s)
    {x y : VersionKey} (hx : Visible s access x) (hxy : ReflTransGen (References s) x y) :
    ReflTransGen (References s') x y := by
  induction hxy with
  | refl => exact .refl
  | @tail y z hxy hyz ih =>
    obtain ⟨v, hv, hallowed⟩ := hx.of_references hw hxy
    obtain ⟨v', hv', href⟩ := hw.references_iff.mp hyz
    obtain rfl : v = v' := Option.some.inj (hv.symm.trans hv')
    exact ih.tail (hs.references_iff.mpr ⟨v, h.get? hv hallowed, href⟩)

lemma Agree.outdated (h : Agree access s s') (hs : WellFormed s) (hkey : Visible s access key)
    (hout : Outdated s key) : Outdated s' key := by
  obtain ⟨v, hv, hallowed⟩ := hkey
  obtain ⟨-, -, hcases⟩ := hout
  have hid : v.payload.id = key.1 := congrArg Prod.fst (Table.key_of_get? hv)
  have hheads := h.heads v (Table.mem_of_get? hv) hallowed
  rw [hid] at hheads
  refine ⟨v, h.get? hv hallowed, hcases.imp (fun hhead => hheads ▸ hhead) ?_⟩
  rintro ⟨w, hw, hstatus⟩
  -- the head of the identity has its scope
  have hwget := get?_of_readRow hw
  have hwid : w.payload.id = key.1 := congrArg Prod.fst (Table.key_of_get? hwget)
  obtain ⟨-, hscope, hscopeId⟩ := hs.sameSort w (Table.mem_of_get? hwget) v
    (Table.mem_of_get? hv) (hwid.trans hid.symm)
  have hwallowed : access.allows w.payload = true :=
    (allows_congr hscope hscopeId).trans hallowed
  refine ⟨w, ?_, hstatus⟩
  obtain ⟨head, hhead, hrow⟩ := Option.bind_eq_some_iff.mp hw
  rw [readRow, ← hheads, hhead, Option.bind_some]
  exact h.get? hrow hwallowed

lemma Agree.dependenciesChanged_of (h : Agree access s s') (hs : WellFormed s)
    (hs' : WellFormed s') (hkey : Visible s access key)
    (hchanged : dependenciesChanged s key = true) : dependenciesChanged s' key = true := by
  have hstored : ∀ {t : State}, Visible t access key → (t.versions.get? key).isSome = true := by
    rintro t ⟨v, hv, -⟩
    exact Option.isSome_iff_exists.mpr ⟨v, hv⟩
  rw [dependenciesChanged_iff hs (hstored hkey)] at hchanged
  rw [dependenciesChanged_iff hs' (hstored (h.visible hkey))]
  refine hchanged.imp ?_ ?_
  · rintro ⟨y, hy, hout⟩
    exact ⟨y, h.reaches hs'.toConsistent hs hkey hy, h.outdated hs (hkey.of_references hs hy) hout⟩
  · rintro ⟨l, hnodup, hlen, hl⟩
    exact ⟨l, hnodup, hlen, fun y hy => h.reaches hs'.toConsistent hs hkey (hl y hy)⟩

lemma Agree.dependenciesChanged (h : Agree access s s') (hs : WellFormed s) (hs' : WellFormed s')
    (hkey : Visible s access key) :
    Knowledge.dependenciesChanged s key = Knowledge.dependenciesChanged s' key :=
  Bool.eq_iff_iff.mpr ⟨h.dependenciesChanged_of hs hs' hkey,
    h.symm.dependenciesChanged_of hs' hs (h.visible hkey)⟩

lemma Agree.read_of (h : Agree access s s') (hs : WellFormed s) (hs' : WellFormed s')
    {identity : String} {revision : Nat} {version : KnowledgeVersion}
    (hread : read s identity (some revision) = some version)
    (hallowed : access.allows version.value = true) :
    read s' identity (some revision) = some version := by
  obtain ⟨v, hv, rfl⟩ := Option.map_eq_some_iff.mp hread
  have hv' : s'.versions.get? (identity, revision) = some v := h.get? hv hallowed
  have hrevision : v.revision = revision := congrArg Prod.snd (Table.key_of_get? hv)
  rw [read, readRow, hv', Option.map_some, hrevision,
    h.dependenciesChanged hs hs' ⟨v, hv, hallowed⟩]

/-- A key is read alike in both states, or it gives nothing that may be seen in either. -/
lemma Agree.read_cases (h : Agree access s s') (hs : WellFormed s) (hs' : WellFormed s')
    (identity : String) (revision : Nat) :
    (∃ version, read s identity (some revision) = some version ∧
        read s' identity (some revision) = some version ∧
        access.allows version.value = true) ∨
      ∀ t, t = s ∨ t = s' → ∀ version, read t identity (some revision) = some version →
        access.allows version.value = false := by
  by_cases hread : ∃ version, read s identity (some revision) = some version ∧
      access.allows version.value = true
  · obtain ⟨version, hread, hallowed⟩ := hread
    exact Or.inl ⟨version, hread, h.read_of hs hs' hread hallowed, hallowed⟩
  · refine Or.inr fun t ht version hversion => ?_
    rw [← Bool.not_eq_true]
    intro hallowed
    obtain rfl | rfl := ht
    · exact hread ⟨version, hversion, hallowed⟩
    · exact hread ⟨version, h.symm.read_of hs' hs hversion hallowed, hallowed⟩

/-! ### Queries -/

lemma nodup_rows {κ ν : Type} {key : ν → κ} (t : Table key) : t.rows.Nodup :=
  List.Nodup.of_map key t.nodup

variable {listing : Listing}

/-- A head is found by its own names and texts only. -/
lemma isFound_of_agree (hs : Kept host s) (hs' : Kept host s') (h : Agree access s s')
    (hfts : (∃ expression, listing = .byText expression) → host.ftsEnabled = true)
    (hv : v ∈ s.versions.rows) (hallowed : access.allows v.payload = true)
    (hhead : isHead s v = true) (hfound : isFound host s v listing = true) :
    isFound host s' v listing = true := by
  have hv' : v ∈ s'.versions.rows := (h.versions v hallowed).mp hv
  have hhead' : isHead s' v = true := h.isHead hv hallowed ▸ hhead
  -- the only head with the identity of `v` is `v`
  have honly : ∀ w ∈ s.versions.rows, isHead s w = true → w.payload.id = v.payload.id → w = v := by
    intro w hw hwhead hid
    obtain ⟨head, hget, hrevision⟩ := isHead_iff.mp hhead
    obtain ⟨other, hother, hwrevision⟩ := isHead_iff.mp hwhead
    rw [hid, hget] at hother
    obtain rfl := Option.some.inj hother
    have hkey : w.key = v.key := Prod.ext hid (hwrevision.symm.trans hrevision)
    have hget := Table.mem_rows_iff.mp hw
    rw [hkey, Table.mem_rows_iff.mp hv] at hget
    exact (Option.some.inj hget).symm
  cases listing with
  | idPrefix query => exact hfound
  | byContent query => exact hfound
  | byName query =>
    simp only [isFound, List.any_eq_true, Bool.and_eq_true, decide_eq_true_eq] at hfound ⊢
    obtain ⟨name, hname, ⟨hid, hlen⟩, hinfix⟩ := hfound
    obtain ⟨w, hw, hwhead, hmem⟩ := (hs.indexed.alias_iff name).mp hname
    obtain rfl := honly w hw hwhead ((id_of_mem_aliasRows hmem).symm.trans hid)
    exact ⟨name, (hs'.indexed.alias_iff name).mpr ⟨w, hv', hhead', hmem⟩, ⟨hid, hlen⟩, hinfix⟩
  | byText expression =>
    simp only [isFound, List.any_eq_true, Bool.and_eq_true, decide_eq_true_eq] at hfound ⊢
    obtain ⟨text, htext, hid, hmatch⟩ := hfound
    have henabled := hfts ⟨expression, rfl⟩
    obtain ⟨w, hw, hwhead, rfl⟩ := (hs.indexed.fts_iff henabled text).mp htext
    obtain rfl := honly w hw hwhead hid
    exact ⟨_, (hs'.indexed.fts_iff henabled _).mpr ⟨w, hv', hhead', rfl⟩, hid, hmatch⟩

lemma allows_of_isListed (h : isListed wanted v = true) :
    wanted.access.allows v.payload = true := by
  simp only [isListed, Bool.and_eq_true] at h
  rw [← sql_eq_allows]
  exact h.1.1.1

lemma mem_found_of_agree (hs : Kept host s) (hs' : Kept host s') (h : Agree wanted.access s s')
    (hfts : (∃ expression, listing = .byText expression) → host.ftsEnabled = true)
    (hv : v ∈ found host s wanted listing) : v ∈ found host s' wanted listing := by
  simp only [found, List.mem_filter, Bool.and_eq_true] at hv ⊢
  obtain ⟨hmem, ⟨hhead, hfound⟩, hlisted⟩ := hv
  have hallowed := allows_of_isListed hlisted
  refine ⟨(h.versions v hallowed).mp hmem, ⟨h.isHead hmem hallowed ▸ hhead, ?_⟩, hlisted⟩
  exact isFound_of_agree hs hs' h hfts hmem hallowed hhead hfound

lemma listed_eq (hs : Kept host s) (hs' : Kept host s') (h : Agree wanted.access s s')
    (horder : SameOrder host wanted s s') (limit : Nat)
    (hfts : (∃ expression, listing = .byText expression) → host.ftsEnabled = true) :
    listed host s wanted limit listing = listed host s' wanted limit listing := by
  have hperm : (found host s wanted listing).Perm (found host s' wanted listing) := by
    refine (List.perm_ext_iff_of_nodup ((nodup_rows _).filter _) ((nodup_rows _).filter _)).mpr ?_
    exact fun v => ⟨mem_found_of_agree hs hs' h hfts, mem_found_of_agree hs' hs h.symm hfts⟩
  simp only [listed, horder.versions listing hperm]

lemma seeds_eq (hs : Kept host s) (hs' : Kept host s') (h : Agree wanted.access s s')
    (horder : SameOrder host wanted s s') (query : String) (limit : Nat) :
    seeds host s query wanted limit = seeds host s' query wanted limit := by
  have hlisted : ∀ listing, ((∃ expression, listing = .byText expression) →
      host.ftsEnabled = true) →
      listed host s wanted limit listing = listed host s' wanted limit listing :=
    fun _ hfts => listed_eq hs hs' h horder limit hfts
  have hid := hlisted (.idPrefix query) (by rintro ⟨_, ⟨⟩⟩)
  have hname := hlisted (.byName query) (by rintro ⟨_, ⟨⟩⟩)
  have hcontent := hlisted (.byContent query) (by rintro ⟨_, ⟨⟩⟩)
  by_cases hfts : host.ftsEnabled = true
  · simp only [seeds, hid, hname, hcontent, hlisted _ fun _ => hfts]
  · rw [Bool.not_eq_true] at hfts
    simp only [seeds, hid, hname, hcontent, hfts, Bool.false_and, Bool.false_eq_true, if_false]

/-! ### Neighbours -/

lemma mem_incoming_of_agree (hs : Kept host s) (hs' : Kept host s') (h : Agree wanted.access s s')
    {ref : RefRow} (href : ref ∈ incoming s key wanted) : ref ∈ incoming s' key wanted := by
  simp only [incoming, List.mem_filter, Bool.and_eq_true, decide_eq_true_eq,
    Option.any_eq_true] at href ⊢
  obtain ⟨hmem, ⟨htarget, hhead⟩, v, hv, hlisted⟩ := href
  have hallowed := allows_of_isListed hlisted
  have hkey : v.key = (ref.id, ref.revision) := Table.key_of_get? hv
  have hheads := h.heads v (Table.mem_of_get? hv) hallowed
  rw [show v.payload.id = ref.id from congrArg Prod.fst hkey] at hheads
  refine ⟨?_, ⟨htarget, hheads ▸ hhead⟩, v, h.get? hv hallowed, hlisted⟩
  obtain ⟨w, hw, r, hr, rfl⟩ := (hs.wellFormed.ref_iff ref).mp hmem
  obtain rfl : w = v := by
    have hget : s.versions.get? w.key = some v := hv
    rw [Table.mem_rows_iff.mp hw] at hget
    exact Option.some.inj hget
  exact (hs'.wellFormed.ref_iff _).mpr ⟨w, (h.versions w hallowed).mp hw, r, hr, rfl⟩

lemma neighbors_eq (hs : Kept host s) (hs' : Kept host s') (h : Agree wanted.access s s')
    (horder : SameOrder host wanted s s') (version : KnowledgeVersion) (limit : Nat) :
    neighbors host s version wanted limit = neighbors host s' version wanted limit := by
  have hperm : (incoming s (version.value.id, version.revision) wanted).Perm
      (incoming s' (version.value.id, version.revision) wanted) := by
    refine (List.perm_ext_iff_of_nodup ((nodup_rows _).filter _) ((nodup_rows _).filter _)).mpr ?_
    exact fun ref => ⟨mem_incoming_of_agree hs hs' h, mem_incoming_of_agree hs' hs h.symm⟩
  rw [neighbors, neighbors, horder.refs _ hperm]

/-! ### The search -/

lemma addSeed_eq (hs : Kept host s) (hs' : Kept host s') (h : Agree wanted.access s s')
    (hits : List KnowledgeHit) (seed : VersionKey × String) :
    addSeed s wanted hits seed = addSeed s' wanted hits seed := by
  obtain ⟨version, hread, hread', -⟩ | hskip :=
    h.read_cases hs.wellFormed hs'.wellFormed seed.1.1 seed.1.2
  · rw [addSeed, addSeed, hread, hread']
  · -- a seed that may not be seen adds nothing
    have hsame : ∀ t, t = s ∨ t = s' → addSeed t wanted hits seed = hits := by
      intro t ht
      rw [addSeed]
      split
      case h_1 => rfl
      case h_2 version hread => simp [hskip t ht version hread]
    rw [hsame s (Or.inl rfl), hsame s' (Or.inr rfl)]

lemma addNeighbor_eq (hs : Kept host s) (hs' : Kept host s') (h : Agree wanted.access s s')
    (limit : Nat) (hit : KnowledgeHit) (acc : Expansion) (neighbor : VersionKey × String) :
    addNeighbor s wanted limit hit acc neighbor = addNeighbor s' wanted limit hit acc neighbor := by
  obtain ⟨version, hread, hread', -⟩ | hskip :=
    h.read_cases hs.wellFormed hs'.wellFormed neighbor.1.1 neighbor.1.2
  · rw [addNeighbor, addNeighbor, hread, hread']
  · have hsame : ∀ t, t = s ∨ t = s' → addNeighbor t wanted limit hit acc neighbor = .ok acc := by
      intro t ht
      rw [addNeighbor]
      split_ifs
      · rfl
      · split
        case h_1 => rfl
        case h_2 version hread => simp [hskip t ht version hread]
    rw [hsame s (Or.inl rfl), hsame s' (Or.inr rfl)]

lemma search_eq (hs : Kept host s) (hs' : Kept host s') (h : Agree wanted.access s s')
    (horder : SameOrder host wanted s s') (query : String) (limit depth : Int) :
    search host s query wanted limit depth = search host s' query wanted limit depth := by
  have hadd : addSeed s wanted = addSeed s' wanted :=
    funext₂ fun hits seed => addSeed_eq hs hs' h hits seed
  have hneighbors : addNeighbors host s wanted = addNeighbors host s' wanted := by
    funext limit acc hit
    rw [addNeighbors, addNeighbors, neighbors_eq hs hs' h horder,
      funext₂ fun acc neighbor => addNeighbor_eq hs hs' h limit hit acc neighbor]
  have hexpand : ∀ limit n hits frontier, expand host s wanted limit n hits frontier =
      expand host s' wanted limit n hits frontier := by
    intro limit n
    induction n with
    | zero => exact fun _ _ => rfl
    | succ n ih =>
      intro hits frontier
      simp only [expand, hneighbors, ih]
  have hdirect : ∀ limit depth query, directHits host s query wanted limit depth =
      directHits host s' query wanted limit depth := by
    intro limit depth query
    rw [directHits, directHits, seeds_eq hs hs' h horder, hadd]
  simp only [search, hdirect, hexpand]

/-- A search shows, follows and refers to nothing but what its access allows, and what it does not
allow has no influence on the hits. -/
theorem recall_respects_scopes (h : Reach host.toHost .empty s) (query : String) (wanted : Wanted)
    (limit depth : Int) :
    (∀ hit ∈ search host s query wanted limit depth,
      wanted.access.allows hit.version.value = true ∧
      (∀ part ∈ hit.path, (∃ v ∈ s.versions.rows, part = pathStep v.key) ∧
        ∀ v ∈ s.versions.rows, part = pathStep v.key → wanted.access.allows v.payload = true) ∧
      ∀ key, ReflTransGen (References s) hit.key key → Visible s wanted.access key) ∧
    ∀ s', Reach host.toHost .empty s' → Agree wanted.access s s' → SameOrder host wanted s s' →
      search host s query wanted limit depth = search host s' query wanted limit depth := by
  obtain ⟨hs, hi⟩ := indexed_of_reach h
  refine ⟨fun hit hhit => ?_, fun s' h' hagree horder => ?_⟩
  · have hshown := shown_search query limit depth hit hhit
    refine ⟨hshown.allowed, fun part hpart => ?_, fun key hkey =>
      hshown.visible.of_references hs.wellFormed hkey⟩
    obtain ⟨v, hv, rfl, hallowed⟩ := hshown.path part hpart
    refine ⟨⟨v, hv, rfl⟩, fun w hw hstep => ?_⟩
    -- the text of a step names an identity, and its versions have one scope
    have hid : v.payload.id = w.payload.id :=
      @pathStep_inj v.key w.key (at_notMem_of_isSafeId v.payload.isSafeId_id)
        (at_notMem_of_isSafeId w.payload.isSafeId_id) hstep
    obtain ⟨-, hscope, hscopeId⟩ := hs.wellFormed.sameSort v hv w hw hid
    rw [← allows_congr hscope hscopeId]
    exact hallowed
  · obtain ⟨hs', hi'⟩ := indexed_of_reach h'
    exact search_eq ⟨hs.wellFormed, hi⟩ ⟨hs'.wellFormed, hi'⟩ hagree horder query limit depth

/-- What a user said, for the user only. -/
def remark : KnowledgeObject where
  id := "p1"
  kind := .observation
  content := "text"
  origin := .userStatement
  scope := .personal
  scopeId := "owner"
  checked := by decide

/-- A host without full text search that finds a text in the content. -/
def pageRecall : RecallHost where
  toHost := pageHost
  isWord ch := ch.isAlphanum
  ftsMatch _ _ := false
  payloadText value := value.content
  listVersions _ _ _ rows := rows
  listRefs _ _ _ rows := rows
  listVersions_perm _ _ _ _ := .refl _
  listRefs_perm _ _ _ _ := .refl _

def remarkState : State := step pageHost stagedState (.commit "c" [⟨remark, 0⟩] false "t")

lemma eq_of_perm_of_length_le_one {α : Type} {l l' : List α} (h : l.Perm l')
    (hlen : l.length ≤ 1) : l = l' := by
  match l, hlen with
  | [], _ => exact h.nil_eq
  | [_], _ => exact h.singleton_eq

lemma listVersions_pageRecall (s : State) (listing : Listing) (wanted : Wanted)
    (rows : List VersionRow) : pageRecall.listVersions s listing wanted rows = rows := rfl

lemma listRefs_pageRecall (s : State) (key : VersionKey) (wanted : Wanted) (rows : List RefRow) :
    pageRecall.listRefs s key wanted rows = rows := rfl

/-- The remark does not change what is found by others than its owner. -/
theorem recall_respects_scopes_remark :
    (search pageRecall stagedState "text" {} 8 0).map (·.path) = [["s1@1"]] ∧
      search pageRecall stagedState "text" {} 8 1 = search pageRecall remarkState "text" {} 8 1 := by
  have hreach : Reach pageRecall.toHost .empty stagedState := reach_foldl stagedTwice .empty
  have hrows : stagedState.versions.rows = [⟨page, 1, "t", "a"⟩] := by decide
  have hrows' : remarkState.versions.rows =
      [⟨page, 1, "t", "a"⟩, ⟨remark, 1, "t", "c"⟩] := by decide
  have hrefs : stagedState.refs.rows = [] ∧ remarkState.refs.rows = [] := by decide
  refine ⟨by decide, (recall_respects_scopes hreach "text" {} 8 1).2
    remarkState (.step hreach trivial rfl) ⟨?_, ?_⟩ ⟨?_, ?_⟩⟩
  · intro v hallowed
    have hne : v ≠ ⟨remark, 1, "t", "c"⟩ := by
      rintro rfl
      exact absurd hallowed (by decide)
    rw [hrows, hrows']
    simp [hne]
  · intro v hv _
    rw [hrows, List.mem_singleton] at hv
    subst hv
    decide
  · intro listing hperm
    have hlen : (found pageRecall stagedState {} listing).length ≤ 1 := by
      rw [found, hrows]
      exact List.length_filter_le _ _
    rw [listVersions_pageRecall, listVersions_pageRecall]
    exact eq_of_perm_of_length_le_one hperm hlen
  · intro key _
    rw [listRefs_pageRecall, listRefs_pageRecall, incoming, incoming, hrefs.1, hrefs.2]
    rfl

end Knowledge

end Codey
