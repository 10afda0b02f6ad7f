import Codey.Lib.Expansion
import Codey.Lib.Lists
import Codey.Providers.ContextLedger

/-!
# Original sources

A checkpoint keeps the entries that its summary stands for, under the digest of the summary. The
expansion of a view replaces each summary by the entries it stands for, down to those that no
checkpoint has written.
-/

namespace Codey

namespace ContextLedger

/-! ### The program -/

/-- The checkpoints that a row keeps as one: those of a transaction, or a single one. -/
def segmentsOf : Json → Except String (List Json)
  | .null => .ok []
  | checkpoint =>
    if member checkpoint "kind" = some (.str "transaction") then
      match member checkpoint "segments" with
      | some (.arr segments) => .ok segments
      | _ => .error "KeyError"
    else .ok [checkpoint]

def rowCheckpoints (row : Json) : Except String (List Json) :=
  segmentsOf ((member row "checkpoint").getD .null)

def checkpoints (records : List Json) : Except String (List Json) :=
  records.mapM rowCheckpoints >>= fun segments => .ok segments.flatten

/-- What a checkpoint stands for, under the digest of its item. -/
def sourceOf (checkpoint : Json) : Except String (Option (String × List Json)) :=
  match checkpoint with
  | .null => .ok none
  | .obj members =>
    if Fields.truthy members "item_digest" then
      match Fields.get? members "item_digest", Fields.get? members "source" with
      | some (.str key), some (.arr source) => .ok (some (key, source))
      | _, _ => .error "KeyError"
    else .ok none
  | _ => .error "AttributeError"

/-- The versions under a digest that are older than a time, oldest first. -/
def versions (sources : List (Option (String × List Json))) (key : String) (before : Nat) :
    List (Nat × List Json) :=
  (sources.zipIdx.filterMap fun place =>
    place.1.bind fun kept => if kept.1 = key then some (place.2, kept.2) else none).filter
    fun version => version.1 < before

lemma mem_versions {sources : List (Option (String × List Json))} {key : String} {before i : Nat}
    {source : List Json} : (i, source) ∈ versions sources key before ↔
      sources[i]? = some (some (key, source)) ∧ i < before := by
  simp only [versions, List.mem_filter, List.mem_filterMap, decide_eq_true_eq]
  refine and_congr_left fun _ => ⟨?_, fun h => ?_⟩
  · rintro ⟨⟨kept, j⟩, hmem, hkept⟩
    obtain ⟨⟨key', source'⟩, rfl, hif⟩ := Option.bind_eq_some_iff.mp hkept
    obtain ⟨rfl, hpair⟩ := Option.ite_none_right_eq_some.mp hif
    obtain ⟨rfl, rfl⟩ := Prod.mk.inj (Option.some.inj hpair)
    exact List.mk_mem_zipIdx_iff_getElem?.mp hmem
  · exact ⟨(some (key, source), i), List.mk_mem_zipIdx_iff_getElem?.mpr h, by simp⟩

/-- The latest version is the one of the greatest index. -/
lemma le_of_getLast?_versions {sources : List (Option (String × List Json))} {key : String}
    {before i j : Nat} {source source' : List Json}
    (hlast : (versions sources key before).getLast? = some (j, source'))
    (hmem : (i, source) ∈ versions sources key before) : i ≤ j := by
  have hplaces : sources.zipIdx.Pairwise fun a b => a.2 < b.2 := by
    refine List.pairwise_map.mp ?_
    rw [List.zipIdx_map_snd]
    exact List.pairwise_lt_range'
  have hsorted : (versions sources key before).Pairwise fun a b => a.1 < b.1 := by
    refine (hplaces.filterMap _ ?_).filter _
    rintro ⟨kept, k⟩ ⟨kept', k'⟩ hlt ⟨_, _⟩ hv ⟨_, _⟩ hv'
    obtain ⟨_, -, hif⟩ := Option.bind_eq_some_iff.mp hv
    obtain ⟨_, -, hif'⟩ := Option.bind_eq_some_iff.mp hv'
    obtain ⟨-, hpair⟩ := Option.ite_none_right_eq_some.mp hif
    obtain ⟨-, hpair'⟩ := Option.ite_none_right_eq_some.mp hif'
    obtain ⟨rfl, -⟩ := Prod.mk.inj (Option.some.inj hpair)
    obtain ⟨rfl, -⟩ := Prod.mk.inj (Option.some.inj hpair')
    exact hlt
  obtain ⟨earlier, heq⟩ := List.getLast?_eq_some_iff.mp hlast
  rw [heq] at hmem hsorted
  obtain hmem | hmem := List.mem_append.mp hmem
  · exact ((List.pairwise_append.mp hsorted).2.2 _ hmem (j, source') (List.mem_singleton_self _)).le
  · exact (Prod.mk.inj (List.mem_singleton.mp hmem)).1.le

/-- A checkpoint expands into its latest version, and from there on into older ones. -/
def expansion (digest : Digest) (sources : List (Option (String × List Json))) : Expansion Json where
  next item before := (versions sources (digest item) before).getLast?
  older h := (mem_versions.mp (List.mem_of_getLast? h)).2

def originalSource (digest : Digest) (records items staged : List Json) :
    Except String (List Json) :=
  checkpoints records >>= fun kept =>
  (kept ++ staged).mapM sourceOf >>= fun sources =>
  .ok ((expansion digest sources).run (Expansion.dated sources.length items) [])

/-! ### Compactions -/

/-- An entry of a view: the item, whether a compaction wrote it, and the entries that no compaction
has written below it. -/
structure Entry where
  item : Json
  summary : Bool
  leaves : List Json

def Entry.ordinary (item : Json) : Entry := ⟨item, false, [item]⟩

/-- A checkpoint, with the item that it writes, if any, and the entries that it keeps. -/
structure Record where
  payload : Json
  mark : Option Json
  source : List Entry

/-- What the coordinator measures and notes. -/
structure Measures where
  before : Json
  after : Json
  modelIdentity : String
  startedAt : Rat
  finishedAt : Rat

/-- `codec.checkpoint_item` of a summary. -/
def stateRecord (digest : Digest) (source : List Json) (summary : String) : Json :=
  .obj [("content", .str ("Current project state:\n" ++ "State record: work-" ++
      String.ofList ((digest (.arr source)).toList.take 24) ++ "\n" ++ summary)),
    ("role", .str "assistant")]

/-- The checkpoint of a summary. -/
def workState (digest : Digest) (source : List Json) (start stop : Nat) (summary : String)
    (m : Measures) : Json :=
  .obj [("after", m.after), ("before", m.before), ("end", .int stop),
    ("finished_at", .float m.finishedAt),
    ("item_digest", .str (digest (stateRecord digest source summary))),
    ("kind", .str "work_state"), ("model_identity", .str m.modelIdentity), ("source", .arr source),
    ("source_digest", .str (digest (.arr source))), ("start", .int start),
    ("started_at", .float m.startedAt), ("text", .str summary)]

/-- The checkpoint of a view whose old outputs were reduced. -/
def outputReduction (digest : Digest) (items : List Json) (m : Measures) : Json :=
  .obj [("after", m.after), ("before", m.before), ("end", .int items.length),
    ("finished_at", .float m.finishedAt), ("kind", .str "output_reduction"),
    ("model_identity", .str m.modelIdentity), ("source", .arr items),
    ("source_digest", .str (digest (.arr items))), ("start", .int 0),
    ("started_at", .float m.startedAt)]

/-- A ledger, its accepted view and checkpoints, and those of the exchange that is under way. -/
structure Work where
  ledger : Ledger
  accepted : List Entry
  committed : List Record
  view : List Entry
  staged : List Record

/-- An empty ledger. -/
def Work.init (identity : String) (windowRef : Option ProtocolWindowRef) : Work :=
  ⟨⟨identity, windowRef, 0, "", .arr [], []⟩, [], [], [], []⟩

def pickEntry (view : List Entry) : Nat ⊕ Json → Option Entry
  | .inl place => view[place]?
  | .inr item => some (.ordinary item)

/-- The entries of a next view: some of the present one, and new items. -/
def pick (view : List Entry) (picks : List (Nat ⊕ Json)) : List Entry :=
  picks.filterMap (pickEntry view)

/-- `_compact`, of a range of the view. -/
def compact (digest : Digest) (w : Work) (start stop : Nat) (summary : String) (m : Measures) :
    Work :=
  let source := (w.view.take stop).drop start
  let items := source.map (·.item)
  let item := stateRecord digest items summary
  { w with
    view := w.view.take start ++ ⟨item, true, source.flatMap (·.leaves)⟩ :: w.view.drop stop
    staged := w.staged ++ [⟨workState digest items start stop summary m, some item, source⟩] }

/-- The checkpoint of a commit: one, or the transaction of several. -/
def journalled (transaction : Bool) (staged : List Record) : Json :=
  match staged, transaction with
  | [], _ => .null
  | [record], false => record.payload
  | staged, _ => .obj [("kind", .str "transaction"), ("segments", .arr (staged.map (·.payload)))]

inductive Turn where
  /-- The view of the exchange changes. -/
  | edit (picks : List (Nat ⊕ Json))
  | compact (start stop : Nat) (summary : String) (m : Measures)
  /-- Old outputs are reduced. -/
  | reduce (picks : List (Nat ⊕ Json)) (m : Measures)
  | commit (transaction : Bool) (a : CommitArgs)
  /-- The exchange fails. -/
  | abandon

/-- A turn of the work on a view. -/
def turn (digest : Digest) (w : Work) : Turn → Option Work
  | .edit picks => some { w with view := pick w.view picks }
  | .compact start stop summary m => some (compact digest w start stop summary m)
  | .reduce picks m =>
    some { w with
      view := pick w.view picks
      staged := w.staged ++
        [⟨outputReduction digest (w.view.map (·.item)) m, none, w.view⟩] }
  | .commit transaction a =>
    (prepare w.ledger { a with
      view := w.view.map (·.item), checkpoint := journalled transaction w.staged }).toOption.map
      fun draft =>
        ⟨w.ledger.accept digest draft, w.view, w.committed ++ w.staged, w.view, []⟩
  | .abandon => some { w with view := w.accepted, staged := [] }

/-! ### Lineages -/

variable {digest : Digest} {rs more : List Record} {r : Record} {e : Entry} {n : Nat} {w : Work}

/-- An entry that no compaction has written, or the summary of an earlier record. -/
inductive Traced (rs : List Record) (n : Nat) (e : Entry) : Prop where
  | ordinary : e.summary = false → e.leaves = [e.item] → Traced rs n e
  | summary (i : Nat) (r : Record) : i < n → rs[i]? = some r → r.mark = some e.item →
      e.leaves = r.source.flatMap (·.leaves) → Traced rs n e

lemma Traced.mono (h : Traced rs n e) {m : Nat} (hle : n ≤ m) : Traced rs m e := by
  cases h with
  | ordinary hsummary hleaves => exact .ordinary hsummary hleaves
  | summary i r hi hr hmark hleaves => exact .summary i r (hi.trans_le hle) hr hmark hleaves

/-- Later records are of no account. -/
lemma traced_append_iff (hn : n ≤ rs.length) : Traced (rs ++ more) n e ↔ Traced rs n e := by
  constructor
  · intro h
    cases h with
    | ordinary hsummary hleaves => exact .ordinary hsummary hleaves
    | summary i r hi hr hmark hleaves =>
      rw [List.getElem?_append_left (hi.trans_le hn)] at hr
      exact .summary i r hi hr hmark hleaves
  · intro h
    cases h with
    | ordinary hsummary hleaves => exact .ordinary hsummary hleaves
    | summary i r hi hr hmark hleaves =>
      exact .summary i r hi (by rwa [List.getElem?_append_left (hi.trans_le hn)]) hmark hleaves

structure Record.Sound (digest : Digest) (r : Record) : Prop where
  single : r.payload ≠ .null ∧ member r.payload "kind" ≠ some (.str "transaction")
  source : sourceOf r.payload = .ok (r.mark.map fun item => (digest item, r.source.map (·.item)))

structure Lineage (digest : Digest) (rs : List Record) : Prop where
  sound : ∀ r ∈ rs, r.Sound digest
  traced : ∀ i r, rs[i]? = some r → ∀ e ∈ r.source, Traced rs i e

lemma Lineage.of_append (h : Lineage digest (rs ++ more)) : Lineage digest rs where
  sound r hr := h.sound r (List.mem_append_left _ hr)
  traced i r hr e he := by
    have hi := (List.getElem?_eq_some_iff.mp hr).1
    refine (traced_append_iff hi.le).mp (h.traced i r ?_ e he)
    rwa [List.getElem?_append_left hi]

lemma Lineage.concat (h : Lineage digest rs) (hr : r.Sound digest)
    (htraced : ∀ e ∈ r.source, Traced rs rs.length e) : Lineage digest (rs ++ [r]) where
  sound r' hr' := by
    obtain hr' | hr' := List.mem_append.mp hr'
    · exact h.sound r' hr'
    · exact List.mem_singleton.mp hr' ▸ hr
  traced i r' hr' e he := by
    obtain hi | rfl | hi := lt_trichotomy i rs.length
    · rw [List.getElem?_append_left hi] at hr'
      exact (traced_append_iff hi.le).mpr (h.traced i r' hr' e he)
    · obtain rfl : r = r' := by simpa using hr'
      exact (traced_append_iff le_rfl).mpr (htraced e he)
    · rw [List.getElem?_eq_none (by simp; omega)] at hr'
      cases hr'

/-- The sources that the journal reads from a lineage. -/
def sources (digest : Digest) (rs : List Record) : List (Option (String × List Json)) :=
  rs.map fun r => r.mark.map fun item => (digest item, r.source.map (·.item))

lemma Lineage.mapM_sourceOf (h : Lineage digest rs) :
    (rs.map (·.payload)).mapM sourceOf = .ok (sources digest rs) := by
  rw [List.mapM_map]
  exact mapM_eq_ok fun r hr => (h.sound r hr).source

lemma sources_eq_some {i : Nat} {key : String} {source : List Json} :
    (sources digest rs)[i]? = some (some (key, source)) ↔ ∃ r, rs[i]? = some r ∧
      ∃ item ∈ r.mark, digest item = key ∧ r.source.map (·.item) = source := by
  simp [sources]

lemma next_eq_none {x : Json} (h : ∀ r ∈ rs, ∀ item ∈ r.mark, digest x ≠ digest item)
    (before : Nat) : (expansion digest (sources digest rs)).next x before = none := by
  refine List.getLast?_eq_none_iff.mpr (List.eq_nil_iff_forall_not_mem.mpr fun version hmem => ?_)
  obtain ⟨r, hr, item, hitem, hkey, -⟩ := sources_eq_some.mp (mem_versions.mp hmem).1
  exact h r (List.mem_of_getElem? hr) item hitem hkey.symm

/-- No two summaries of a lineage are mistaken for each other, and no other entry for a summary. -/
structure Unambiguous (digest : Digest) (rs : List Record) (es : List Entry) : Prop where
  marks : ∀ r ∈ rs, ∀ r' ∈ rs, ∀ item ∈ r.mark, ∀ item' ∈ r'.mark, digest item = digest item' →
    r.source.map (·.item) = r'.source.map (·.item)
  entries : ∀ e ∈ es ++ rs.flatMap (·.source), e.summary = false →
    ∀ r ∈ rs, ∀ item ∈ r.mark, digest e.item ≠ digest item

variable {es : List Entry}

/-- What is below an entry is found from its item alone. -/
theorem Lineage.leaves_eq (h : Lineage digest rs) (hu : Unambiguous digest rs es) (before : Nat)
    (hbefore : before ≤ rs.length) (hn : n ≤ before) (he : e ∈ es ++ rs.flatMap (·.source))
    (htraced : Traced rs n e) :
    (expansion digest (sources digest rs)).leaves before e.item = e.leaves := by
  induction before using Nat.strong_induction_on generalizing n e with
  | _ before ih =>
    cases htraced with
    | ordinary hsummary hleaves =>
      rw [hleaves]
      exact Expansion.leaves_of_none (next_eq_none (hu.entries e he hsummary) before)
    | summary i r hi hr hmark hleaves =>
      have hmem : (i, r.source.map (·.item)) ∈
          versions (sources digest rs) (digest e.item) before :=
        mem_versions.mpr ⟨sources_eq_some.mpr ⟨r, hr, e.item, hmark, rfl, rfl⟩, hi.trans_le hn⟩
      obtain ⟨⟨j, source⟩, hlast⟩ := List.getLast?_isSome.mpr (List.ne_nil_of_mem hmem) |>
        Option.isSome_iff_exists.mp
      have hij := le_of_getLast?_versions hlast hmem
      obtain ⟨hj, hlt⟩ := mem_versions.mp (List.mem_of_getLast? hlast)
      obtain ⟨r', hr', item', hmark', hkey, rfl⟩ := sources_eq_some.mp hj
      -- the latest version has the source of the one that wrote the entry
      have hsource := hu.marks r' (List.mem_of_getElem? hr') r (List.mem_of_getElem? hr) item' hmark'
        e.item hmark hkey
      rw [Expansion.leaves_of_some hlast, hsource, hleaves, List.flatMap_map]
      refine List.flatMap_congr fun e' he' => ?_
      refine ih j hlt (hlt.le.trans hbefore) hij ?_ (h.traced i r hr e' he')
      exact List.mem_append_right _
        (List.mem_flatMap.mpr ⟨r, List.mem_of_getElem? hr, he'⟩)

/-- What is below an entry is no summary. -/
lemma Lineage.not_mark_of_mem_leaves (h : Lineage digest rs) (hu : Unambiguous digest rs es)
    (he : e ∈ es ++ rs.flatMap (·.source)) (htraced : Traced rs n e) {x : Json}
    (hx : x ∈ e.leaves) {item : Json} (hr : r ∈ rs) (hitem : item ∈ r.mark) :
    digest x ≠ digest item := by
  induction n using Nat.strong_induction_on generalizing e with
  | _ n ih =>
    cases htraced with
    | ordinary hsummary hleaves =>
      obtain rfl : x = e.item := by simpa [hleaves] using hx
      exact hu.entries e he hsummary r hr item hitem
    | summary i r' hi hr' hmark hleaves =>
      rw [hleaves] at hx
      obtain ⟨e', he', hx⟩ := List.mem_flatMap.mp hx
      refine ih i hi ?_ (h.traced i r' hr' e' he') hx
      exact List.mem_append_right _ (List.mem_flatMap.mpr ⟨r', List.mem_of_getElem? hr', he'⟩)

/-! ### Runs -/

structure Kept (digest : Digest) (w : Work) : Prop where
  lineage : Lineage digest (w.committed ++ w.staged)
  journal : checkpoints w.ledger.records = .ok (w.committed.map (·.payload))
  view : ∀ e ∈ w.view, Traced (w.committed ++ w.staged) (w.committed ++ w.staged).length e
  accepted : ∀ e ∈ w.accepted, Traced w.committed w.committed.length e

lemma traced_pick {view : List Entry} {picks : List (Nat ⊕ Json)}
    (hview : ∀ e ∈ view, Traced rs n e) : ∀ e ∈ pick view picks, Traced rs n e := by
  intro e he
  obtain ⟨choice, -, hchoice⟩ := List.mem_filterMap.mp he
  cases choice with
  | inl place => exact hview e (List.mem_of_getElem? hchoice)
  | inr item =>
    obtain rfl := Option.some.inj hchoice
    exact .ordinary rfl rfl

lemma sound_workState (hdigest : ∀ value, digest value ≠ "") (source : List Entry)
    (start stop : Nat) (summary : String) (m : Measures) :
    Record.Sound digest ⟨workState digest (source.map (·.item)) start stop summary m,
      some (stateRecord digest (source.map (·.item)) summary), source⟩ where
  single := by simp [workState, member]
  source := by simp [workState, sourceOf, Fields.truthy, Json.truthy, hdigest]

lemma sound_outputReduction (items : List Entry) (m : Measures) :
    Record.Sound digest ⟨outputReduction digest (items.map (·.item)) m, none, items⟩ where
  single := by simp [outputReduction, member]
  source := by simp [outputReduction, sourceOf, Fields.truthy]

lemma segmentsOf_journalled {staged : List Record} (hstaged : ∀ r ∈ staged, r.Sound digest)
    (transaction : Bool) :
    segmentsOf (journalled transaction staged) = .ok (staged.map (·.payload)) := by
  match staged, transaction with
  | [], _ => rfl
  | [r], true => simp [segmentsOf, journalled, member]
  | r :: r' :: rest, _ => simp [segmentsOf, journalled, member]
  | [r], false =>
    obtain ⟨hnull, hkind⟩ := (hstaged r (by simp)).single
    rw [journalled, segmentsOf.eq_2 _ fun h => hnull h, if_neg hkind]
    rfl

lemma rowCheckpoints_rowJson (n : Nat) (chain : String) (a : CommitArgs)
    (ref : Option ProtocolWindowRef) :
    rowCheckpoints (rowJson n chain a ref) = segmentsOf a.checkpoint := by
  simp [rowCheckpoints, member, rowJson]

lemma checkpoints_concat {records : List Json} {row : Json} {kept segments : List Json}
    (hrecords : checkpoints records = .ok kept) (hrow : rowCheckpoints row = .ok segments) :
    checkpoints (records ++ [row]) = .ok (kept ++ segments) := by
  obtain ⟨rows, hrows, rfl⟩ := except_last_eq_ok.mp hrecords
  have hmap : (records ++ [row]).mapM rowCheckpoints = .ok (rows ++ [segments]) := by
    rw [List.mapM_append, hrows]
    simp [bind, Except.bind, hrow, pure, Except.pure]
  rw [checkpoints, hmap]
  simp [bind, Except.bind]

lemma Kept.init (identity : String) (windowRef : Option ProtocolWindowRef) :
    Kept digest (.init identity windowRef) where
  lineage := ⟨by simp [Work.init], by simp [Work.init]⟩
  journal := rfl
  view _ he := by cases he
  accepted _ he := by cases he

/-- A record of entries of the view is staged. -/
lemma Kept.stage (hw : Kept digest w) (hr : r.Sound digest) (hsource : ∀ e ∈ r.source, e ∈ w.view)
    {view : List Entry} (hview : ∀ e ∈ view,
      Traced (w.committed ++ w.staged ++ [r]) ((w.committed ++ w.staged).length + 1) e) :
    Kept digest { w with view, staged := w.staged ++ [r] } where
  lineage := by
    rw [← List.append_assoc]
    exact hw.lineage.concat hr fun e he => hw.view e (hsource e he)
  journal := hw.journal
  view := by
    rw [← List.append_assoc, List.length_append]
    exact hview
  accepted := hw.accepted

lemma Kept.later (hw : Kept digest w) (r : Record) (he : e ∈ w.view) :
    Traced (w.committed ++ w.staged ++ [r]) ((w.committed ++ w.staged).length + 1) e :=
  ((traced_append_iff le_rfl).mpr (hw.view e he)).mono (Nat.le_succ _)

lemma Kept.turn (hdigest : ∀ value, digest value ≠ "") {w' : Work} {t : Turn}
    (hw : Kept digest w) (hturn : turn digest w t = some w') : Kept digest w' := by
  cases t with
  | edit picks =>
    obtain rfl := Option.some.inj hturn
    exact ⟨hw.lineage, hw.journal, traced_pick hw.view, hw.accepted⟩
  | abandon =>
    obtain rfl := Option.some.inj hturn
    have hlineage : Lineage digest (w.committed ++ []) := by
      rw [List.append_nil]
      exact hw.lineage.of_append
    exact ⟨hlineage, hw.journal, by simpa using hw.accepted, hw.accepted⟩
  | reduce picks m =>
    obtain rfl := Option.some.inj hturn
    exact hw.stage (sound_outputReduction w.view m) (fun _ he => he)
      (traced_pick fun _ he => hw.later _ he)
  | compact start stop summary m =>
    obtain rfl := Option.some.inj hturn
    refine hw.stage (sound_workState hdigest _ start stop summary m)
      (fun e he => List.mem_of_mem_take (List.mem_of_mem_drop he)) fun e he => ?_
    obtain he | he := List.mem_append.mp he
    · exact hw.later _ (List.mem_of_mem_take he)
    · obtain rfl | he := List.mem_cons.mp he
      · exact .summary _ _ (Nat.lt_succ_self _) List.getElem?_concat_length rfl rfl
      · exact hw.later _ (List.mem_of_mem_drop he)
  | commit transaction a =>
    obtain ⟨draft, hdraft, rfl⟩ := Option.map_eq_some_iff.mp hturn
    have hrow : rowCheckpoints draft.row = .ok (w.staged.map (·.payload)) := by
      replace hdraft := toOption_eq_some.mp hdraft
      simp only [prepare, except_seq_eq_ok] at hdraft
      obtain rfl := Except.ok.inj hdraft.2.2
      rw [rowCheckpoints_rowJson]
      exact segmentsOf_journalled (fun r hr => hw.lineage.sound r (List.mem_append_right _ hr)) _
    refine ⟨?_, ?_, ?_, hw.view⟩
    · rw [List.append_nil]
      exact hw.lineage
    · rw [List.map_append]
      exact checkpoints_concat hw.journal hrow
    · rw [List.append_nil]
      exact hw.view

lemma Kept.of_reach (hdigest : ∀ value, digest value ≠ "") {identity : String}
    {windowRef : Option ProtocolWindowRef} {ok : Work → Turn → Prop}
    (hw : Steps.Reach (ContextLedger.turn digest) ok (.init identity windowRef) w) :
    Kept digest w :=
  hw.invariant (.init identity windowRef) fun _ _ _ hw _ hturn => hw.turn hdigest hturn

/-- The journal and the staged checkpoints expand as their lineage does. -/
lemma Kept.originalSource_eq (hw : Kept digest w) (items : List Json) :
    originalSource digest w.ledger.records items (w.staged.map (·.payload)) =
      .ok (items.flatMap ((expansion digest (sources digest (w.committed ++ w.staged))).leaves
        (w.committed ++ w.staged).length)) := by
  have hread := hw.lineage.mapM_sourceOf
  rw [List.map_append] at hread
  rw [originalSource, hw.journal]
  simp only [bind, Except.bind, hread, Expansion.run_eq, Expansion.flatMap_leaves_dated,
    List.nil_append]
  simp [sources]

/-- In every run of compactions whose summaries are not mistaken for each other nor other entries
for them, the original source of any entries is the list of the entries below them that no
compaction has written. What no record stands for is its own source. -/
theorem originalSource_eq_leaves (hdigest : ∀ value, digest value ≠ "") (identity : String)
    (windowRef : Option ProtocolWindowRef)
    (hw : Steps.Reach (turn digest) (fun _ _ => True) (.init identity windowRef) w)
    (hu : Unambiguous digest (w.committed ++ w.staged) w.view) :
    (∀ es : List Entry, (∀ e ∈ es, e ∈ w.view ++ (w.committed ++ w.staged).flatMap (·.source)) →
      originalSource digest w.ledger.records (es.map (·.item)) (w.staged.map (·.payload)) =
          .ok (es.flatMap (·.leaves)) ∧
        ∀ x ∈ es.flatMap (·.leaves), ∀ r ∈ w.committed ++ w.staged, ∀ item ∈ r.mark, x ≠ item) ∧
    ∀ items, (∀ x ∈ items, ∀ r ∈ w.committed ++ w.staged, ∀ item ∈ r.mark,
        digest x ≠ digest item) →
      originalSource digest w.ledger.records items (w.staged.map (·.payload)) = .ok items := by
  have hkept := Kept.of_reach hdigest hw
  have htraced (e : Entry) (he : e ∈ w.view ++ (w.committed ++ w.staged).flatMap (·.source)) :
      Traced (w.committed ++ w.staged) (w.committed ++ w.staged).length e := by
    obtain he | he := List.mem_append.mp he
    · exact hkept.view e he
    · obtain ⟨r, hr, he⟩ := List.mem_flatMap.mp he
      obtain ⟨i, hi, rfl⟩ := List.mem_iff_getElem.mp hr
      exact (hkept.lineage.traced i _ (List.getElem?_eq_getElem hi) e he).mono hi.le
  refine ⟨fun es hes => ⟨?_, fun x hx r hr item hitem heq => ?_⟩, fun items hitems => ?_⟩
  · rw [hkept.originalSource_eq, List.flatMap_map]
    refine congrArg _ (List.flatMap_congr fun e he => ?_)
    exact hkept.lineage.leaves_eq hu _ le_rfl le_rfl (hes e he) (htraced e (hes e he))
  · obtain ⟨e, he, hx⟩ := List.mem_flatMap.mp hx
    exact hkept.lineage.not_mark_of_mem_leaves hu (hes e he) (htraced e (hes e he)) hx hr hitem
      (congrArg digest heq)
  · rw [hkept.originalSource_eq]
    exact congrArg _ (Expansion.flatMap_leaves_of_none fun x hx => next_eq_none (hitems x hx) _)

instance (digest : Digest) (rs : List Record) (es : List Entry) :
    Decidable (Unambiguous digest rs es) :=
  decidable_of_iff
    ((∀ r ∈ rs, ∀ r' ∈ rs, ∀ item ∈ r.mark, ∀ item' ∈ r'.mark, digest item = digest item' →
        r.source.map (·.item) = r'.source.map (·.item)) ∧
      ∀ e ∈ es ++ rs.flatMap (·.source), e.summary = false →
        ∀ r ∈ rs, ∀ item ∈ r.mark, digest e.item ≠ digest item)
    ⟨fun h => ⟨h.1, h.2⟩, fun h => ⟨h.marks, h.entries⟩⟩

def textDigest (value : Json) : String :=
  match value, member value "content" with
  | .str s, _ => "text " ++ s
  | _, some (.str content) => "message " ++ content
  | _, _ => "list"

lemma textDigest_ne (value : Json) : textDigest value ≠ "" := by
  unfold textDigest
  split <;> simp [String.append_eq_empty_iff]

/-- A summary of a summary and a later entry, in a transaction that is not committed yet. -/
theorem originalSource_eq_leaves_nested : ∃ w : Work,
    w.committed.length = 1 ∧ w.staged.length = 1 ∧
    originalSource textDigest w.ledger.records (w.view.map (·.item)) (w.staged.map (·.payload)) =
      .ok [.str "a", .str "b", .str "c"] := by
  let m : Measures := ⟨.null, .null, "model", 0, 0⟩
  have hrun : ∃ w, Steps.Reach (turn textDigest) (fun _ _ => True) (.init "" none) w ∧
      Unambiguous textDigest (w.committed ++ w.staged) w.view ∧ w.committed.length = 1 ∧
      w.staged.length = 1 ∧ w.view.flatMap (·.leaves) = [.str "a", .str "b", .str "c"] :=
    Steps.Reach.exists_of_run
      [.edit [.inr (.str "a"), .inr (.str "b")], .compact 0 2 "Goal" m,
        .commit false { view := [] }, .edit [.inl 0, .inr (.str "c")], .compact 0 2 "Goals" m]
      (by decide +kernel)
  obtain ⟨w, hw, hu, hcommitted, hstaged, hleaves⟩ := hrun
  have horiginal := ((originalSource_eq_leaves textDigest_ne "" none hw hu).1 w.view
    fun e he => List.mem_append_left _ he).1
  exact ⟨w, hcommitted, hstaged, hleaves ▸ horiginal⟩

/-- A summary whose record is missing is returned as if it were an original entry. -/
theorem originalSource_missing :
    originalSource textDigest [] [stateRecord textDigest [] "Goal"] [] =
      .ok [stateRecord textDigest [] "Goal"] := by
  have hnone : (expansion textDigest []).next (stateRecord textDigest [] "Goal") 0 = none := rfl
  simp [originalSource, checkpoints, bind, Except.bind, pure, Except.pure, Expansion.run_eq,
    Expansion.dated, Expansion.leaves_of_none hnone]

end ContextLedger

end Codey
