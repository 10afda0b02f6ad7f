import Codey.Lib.Steps
import Codey.Workspace.SnapshotStore
import Mathlib.Algebra.GroupWithZero.Nat
import Mathlib.Algebra.Order.BigOperators.Group.List
import Mathlib.Data.String.Lemmas
import Mathlib.Logic.Function.Basic

/-!
# Runs of the snapshot store

Any sequence of operations, each of which may be interrupted at any of its writes. What a path is
tracked with is the content that was first given for it since it was last removed.
-/

namespace Codey

namespace SnapshotStore

/-! ### Sizes -/

lemma utf8ByteSize_ofList_cons (ch : Char) (text : List Char) :
    (String.ofList (ch :: text)).utf8ByteSize =
      ch.utf8Size + (String.ofList text).utf8ByteSize := by
  rw [← List.singleton_append, String.ofList_append, String.utf8ByteSize_append]
  exact congrArg (· + _) String.utf8ByteSize_singleton

/-- A text does not grow when it is read. -/
lemma utf8ByteSize_universal (text : String) :
    (universal text).utf8ByteSize ≤ text.utf8ByteSize := by
  suffices h : ∀ chars : List Char, (String.ofList (universalNewlines chars)).utf8ByteSize ≤
      (String.ofList chars).utf8ByteSize by
    simpa [universal] using h text.toList
  intro chars
  induction chars with
  | nil => simp [universalNewlines]
  | cons ch rest ih =>
    rw [universalNewlines, utf8ByteSize_ofList_cons]
    have hnewline : '\n'.utf8Size ≤ ch.utf8Size := Char.utf8Size_pos ch
    split_ifs
    · omega
    · rw [utf8ByteSize_ofList_cons]
      omega
    · rw [utf8ByteSize_ofList_cons]
      omega

/-- The first content of every path that is tracked. -/
abbrev Tracked := String → Option (Option String)

def Tracked.content (tracked : Tracked) (rel : String) : Option String :=
  ((tracked rel).getD none).map universal

def Tracked.size (tracked : Tracked) (rel : String) : Nat :=
  contentBytes ((tracked rel).getD none)

lemma contentBytes_map_universal (content : Option String) :
    contentBytes (content.map universal) ≤ contentBytes content := by
  cases content with
  | none => exact le_rfl
  | some text => exact utf8ByteSize_universal text

/-! ### The files of a store -/

variable {host : Host} {d : Disk} {files : Fields} {tracked : Tracked} {rel : String}

def entryMembers (host : Host) (rel : String) (first : Option String) (after : Option String) :
    Fields :=
  (after.map fun digest => ("after_hash", .str digest)).toList ++
    [("baseline", first.elim .null fun _ => .str (host.bodyName rel))]

/-- An entry of the manifest, and the body that it refers to. -/
structure Kept (host : Host) (d : Disk) (tracked : Tracked) (p : String × Json)
    (first after : Option String) : Prop where
  entry : p.2 = .obj (entryMembers host p.1 first after)
  canonical : host.canonical p.1 = some p.1
  afterHash : validAfterHash (after.map .str) = true
  content : tracked p.1 = some first
  body : ∀ text ∈ first, d.bodies (host.bodyName p.1) = some text
  size : contentBytes first ≤ maxSnapshotFileBytes

/-- The manifest lists what is tracked, within the limits. -/
structure Files (host : Host) (d : Disk) (files : Fields) (tracked : Tracked) : Prop where
  manifest : d.manifest = if files = [] then none else some (manifestJson files)
  sorted : files.Sorted
  count : files.length ≤ maxSnapshotFiles
  kept : ∀ p ∈ files, ∃ first after, Kept host d tracked p first after
  complete : ∀ rel, tracked rel ≠ none → ∃ entry, (rel, entry) ∈ files
  total : (files.map (tracked.size ·.1)).sum ≤ maxSnapshotTotalBytes

section Entry

variable (host rel) (first after : Option String)

@[simp] lemma get?_entryMembers_baseline : Fields.get? (entryMembers host rel first after) "baseline" =
    some (first.elim .null fun _ => .str (host.bodyName rel)) := by
  cases after <;> simp [entryMembers]

@[simp] lemma get?_entryMembers_afterHash :
    Fields.get? (entryMembers host rel first after) "after_hash" = after.map .str := by
  cases after <;> simp [entryMembers]

@[simp] lemma entryFields_entryMembers : entryFields (entryMembers host rel first after) = true := by
  cases after <;> simp [entryMembers, entryFields]

lemma set_entryMembers (digest : String) :
    Fields.set (entryMembers host rel first after) "after_hash" (.str digest) =
      entryMembers host rel first (some digest) := by
  have hlt : "after_hash" < "baseline" := by decide
  cases after <;> simp [entryMembers, Fields.set, hlt]

end Entry

/-! ### What a load returns -/

def entryHash (p : String × Json) : List (String × String) :=
  match p.2 with
  | .obj entry => (((Fields.get? entry "after_hash").bind Json.str?).map (Prod.mk p.1)).toList
  | _ => []

def loadedOf (tracked : Tracked) (files : Fields) (acc : Loaded) : Loaded where
  before := acc.before ++ files.map fun p => (p.1, tracked.content p.1)
  hashes := acc.hashes ++ files.flatMap entryHash
  total := acc.total + (files.map fun p => contentBytes (tracked.content p.1)).sum

lemma loadContent_eq {p : String × Json} {first after : Option String}
    (hp : Kept host d tracked p first after) :
    loadContent host d p.1 (first.elim .null fun _ => .str (host.bodyName p.1)) =
      .ok (first.map universal) := by
  cases first with
  | none => rfl
  | some text =>
    have hbody := hp.body text rfl
    have hsize : text.utf8ByteSize ≤ maxSnapshotFileBytes := hp.size
    have huniversal := (utf8ByteSize_universal text).trans hsize
    simp [loadContent, readBody, hbody, hsize, huniversal]

lemma loadEntry_eq {p : String × Json} {first after : Option String} {acc : Loaded}
    (hp : Kept host d tracked p first after) (hcount : acc.before.length < maxSnapshotFiles)
    (htotal : acc.total + contentBytes (tracked.content p.1) ≤ maxSnapshotTotalBytes) :
    loadEntry host d acc p = .ok (loadedOf tracked [p] acc) := by
  have hcontent : tracked.content p.1 = first.map universal := by
    simp [Tracked.content, hp.content]
  rw [hcontent] at htotal
  simp [loadEntry, hp.entry, hcount, checkCanonical, hp.canonical, loadContent_eq hp, hp.afterHash,
    htotal, loadedOf, entryHash, hcontent, bind, Except.bind]

lemma loadedOf_cons (p : String × Json) (files : Fields) (acc : Loaded) :
    loadedOf tracked (p :: files) acc = loadedOf tracked files (loadedOf tracked [p] acc) := by
  simp [loadedOf, Nat.add_assoc]

lemma foldE_loadEntry {acc : Loaded}
    (hkept : ∀ p ∈ files, ∃ first after, Kept host d tracked p first after)
    (hcount : acc.before.length + files.length ≤ maxSnapshotFiles)
    (htotal : acc.total + (files.map fun p => contentBytes (tracked.content p.1)).sum ≤
      maxSnapshotTotalBytes) :
    foldE files (loadEntry host d) acc = .ok (loadedOf tracked files acc) := by
  induction files generalizing acc with
  | nil => simp [loadedOf]
  | cons p files ih =>
    obtain ⟨first, after, hp⟩ := hkept p List.mem_cons_self
    rw [List.length_cons] at hcount
    rw [List.map_cons, List.sum_cons] at htotal
    rw [loadedOf_cons]
    refine foldE_cons_eq_ok.mpr ⟨_, loadEntry_eq hp (by omega) (by omega), ?_⟩
    refine ih (fun q hq => hkept q (List.mem_cons_of_mem _ hq)) ?_ ?_
    · simp only [loadedOf, List.length_append, List.length_map, List.length_singleton]
      omega
    · simp only [loadedOf, List.map_singleton, List.sum_singleton]
      omega

lemma Files.total_content (h : Files host d files tracked) :
    (files.map fun p => contentBytes (tracked.content p.1)).sum ≤ maxSnapshotTotalBytes := by
  refine le_trans (List.sum_le_sum fun p _ => ?_) h.total
  exact contentBytes_map_universal _

lemma Files.readManifest_eq (h : Files host d files tracked) :
    readManifest d = .ok (if files = [] then none
      else some [("files", .obj files), ("schema_version", .int 1)]) := by
  rw [readManifest, h.manifest]
  split_ifs <;> rfl

lemma Files.readFiles_eq (h : Files host d files tracked) :
    readFiles d = .ok (if files = [] then none else some files) := by
  rw [readFiles, h.readManifest_eq]
  split_ifs <;> simp [bind, Except.bind, manifestFilesOrRaise]

theorem Files.load_eq (h : Files host d files tracked) :
    load host d = .ok (loadedOf tracked files {}) := by
  rw [load, h.readManifest_eq]
  split_ifs with hfiles
  · simp [hfiles, loadedOf, bind, Except.bind]
  · have hcount : ({} : Loaded).before.length + files.length ≤ maxSnapshotFiles := by
      simpa using h.count
    have hfold := foldE_loadEntry h.kept hcount (by simpa using h.total_content)
    simpa [bind, Except.bind, manifestFilesOrRaise] using hfold

/-! ### Operations -/

inductive Op where
  | putBaseline (rel : String) (content : Option String)
  | setAfterHash (rel digest : String)
  | remove (rel : String)

def perform (host : Host) (d : Disk) (op : Op) (fault : Option Fault) : Outcome :=
  match op with
  | .putBaseline rel content => putBaseline host d rel content fault
  | .setAfterHash rel digest => setAfterHash host d rel digest fault
  | .remove rel => remove host d rel fault

/-- What an operation makes of what is tracked. The first content of a path is kept. -/
def Op.apply (tracked : Tracked) : Op → Tracked
  | putBaseline rel content =>
    if tracked rel = none then Function.update tracked rel (some content) else tracked
  | setAfterHash _ _ => tracked
  | remove rel => Function.update tracked rel none

/-- A digest of a version, as `path_hash` makes it. -/
def Op.Produced : Op → Prop
  | setAfterHash _ digest => validAfterHash (some (.str digest)) = true
  | putBaseline _ _ | remove _ => True

instance (op : Op) : Decidable op.Produced := by
  cases op <;> unfold Op.Produced <;> infer_instance

/-- Bodies that the manifest does not refer to are of no account. -/
lemma Files.of_bodies (h : Files host d files tracked) {d' : Disk}
    (hmanifest : d'.manifest = d.manifest)
    (hbodies : ∀ p ∈ files, d'.bodies (host.bodyName p.1) = d.bodies (host.bodyName p.1)) :
    Files host d' files tracked where
  manifest := hmanifest.trans h.manifest
  sorted := h.sorted
  count := h.count
  kept p hp := by
    obtain ⟨first, after, hkept⟩ := h.kept p hp
    refine ⟨first, after, { hkept with body := fun text htext => ?_ }⟩
    exact (hbodies p hp).trans (hkept.body text htext)
  complete := h.complete
  total := h.total

lemma Files.getD_readFiles (h : Files host d files tracked) :
    ∃ found, readFiles d = .ok found ∧ found.getD [] = files := by
  refine ⟨_, h.readFiles_eq, ?_⟩
  split_ifs with hfiles <;> simp [hfiles]

lemma Files.get?_eq_none_iff (h : Files host d files tracked) :
    Fields.get? files rel = none ↔ tracked rel = none := by
  rw [Fields.get?_eq_none_iff]
  constructor
  · intro hnone
    by_contra htracked
    obtain ⟨entry, hentry⟩ := h.complete rel htracked
    exact hnone _ hentry rfl
  · rintro hnone p hp rfl
    obtain ⟨first, after, hkept⟩ := h.kept p hp
    exact Option.some_ne_none _ (hkept.content.symm.trans hnone)

/-- The bodies on the disk have the sizes of what is tracked. -/
lemma diskTotalBytes_eq {total start : Nat}
    (hkept : ∀ p ∈ files, ∃ first after, Kept host d tracked p first after)
    (h : diskTotalBytes host d start files = .ok total) (hle : total ≤ maxSnapshotTotalBytes) :
    total = start + (files.map (tracked.size ·.1)).sum := by
  induction files generalizing start with
  | nil =>
    obtain rfl := Except.ok.inj h
    simp
  | cons p files ih =>
    obtain ⟨first, after, hp⟩ := hkept p List.mem_cons_self
    have hsize : tracked.size p.1 = contentBytes first := by simp [Tracked.size, hp.content]
    have hrest (q) (hq : q ∈ files) := hkept q (List.mem_cons_of_mem _ hq)
    obtain ⟨rel, entry⟩ := p
    simp only [diskTotalBytes, show entry = _ from hp.entry, get?_entryMembers_baseline] at h
    cases first with
    | none => simpa [hsize, contentBytes] using ih hrest h
    | some text =>
      simp only [Option.elim, if_true, hp.body text rfl] at h
      split_ifs at h with hlarge
      · obtain rfl := Except.ok.inj h
        omega
      · simpa [hsize, contentBytes, Nat.add_assoc] using ih hrest h

section Put

variable {content : Option String}

/-- What the checks of `put_baseline` establish. -/
structure Puttable (host : Host) (files : Fields) (tracked : Tracked) (rel : String)
    (content : Option String) : Prop where
  canonical : host.canonical rel = some rel
  size : contentBytes content ≤ maxSnapshotFileBytes
  fresh : Fields.get? files rel = none
  count : files.length < maxSnapshotFiles
  total : contentBytes content + (files.map (tracked.size ·.1)).sum ≤ maxSnapshotTotalBytes

lemma checkPut_eq_ok (h : Files host d files tracked) {fault : Option Fault} {found : Option Fields}
    (hcheck : checkPut host d rel content fault = .ok found) :
    found = none ∧ tracked rel ≠ none ∨
      found = some files ∧ Puttable host files tracked rel content := by
  obtain ⟨read, hread, hfiles⟩ := h.getD_readFiles
  simp only [checkPut, except_seq_eq_ok, require_eq_ok, decide_eq_true_eq] at hcheck
  obtain ⟨hcanonical, hsize, -, hcheck⟩ := hcheck
  obtain ⟨read', hread', hcheck⟩ := except_bind_eq_ok.mp hcheck
  obtain rfl : read = read' := Except.ok.inj (hread.symm.trans hread')
  rw [hfiles] at hcheck
  cases hget : Fields.get? files rel with
  | some existing =>
    simp only [hget] at hcheck
    obtain ⟨_, -, hnone⟩ := except_last_eq_ok.mp hcheck
    refine .inl ⟨hnone.symm, fun htracked => ?_⟩
    rw [h.get?_eq_none_iff.mpr htracked] at hget
    cases hget
  | none =>
    simp only [hget, except_seq_eq_ok, require_eq_ok, decide_eq_true_eq] at hcheck
    obtain ⟨hcount, htotal, hfound⟩ := hcheck
    refine .inr ⟨(Except.ok.inj hfound).symm, hcanonical, hsize, hget, hcount, ?_⟩
    cases content with
    | none => simpa [contentBytes] using h.total
    | some text =>
      obtain ⟨total, hdisk, hle⟩ := except_bind_eq_ok.mp htotal
      replace hle := of_decide_eq_true (require_eq_ok.mp hle)
      have hsum := diskTotalBytes_eq h.kept hdisk (by omega)
      simp only [contentBytes, Option.getD_some]
      omega

lemma newEntry_eq (host : Host) (rel : String) (content : Option String) :
    newEntry host rel content = .obj (entryMembers host rel content none) := by
  cases content <;> rfl

/-- The body and the manifest of a new entry. -/
lemma Files.put (h : Files host d files tracked) (hname : Function.Injective host.bodyName)
    (hput : Puttable host files tracked rel content) (fault : Option Fault) :
    Files host (writeManifest (putBody d (host.bodyName rel) content fault)
        (files.set rel (newEntry host rel content)))
      (files.set rel (newEntry host rel content))
      (Function.update tracked rel (some content)) where
  manifest := rfl
  sorted := h.sorted.set rel _
  count := by
    rw [(Fields.set_perm hput.fresh).length_eq]
    exact hput.count
  kept p hp := by
    obtain rfl | hp := List.mem_cons.mp ((Fields.set_perm hput.fresh).mem_iff.mp hp)
    · refine ⟨content, none, newEntry_eq host rel content, hput.canonical, rfl, by simp, ?_,
        hput.size⟩
      rintro text rfl
      simp [writeManifest, putBody, writeBody]
    · have hne : p.1 ≠ rel := Fields.get?_eq_none_iff.mp hput.fresh p hp
      obtain ⟨first, after, hkept⟩ := h.kept p hp
      refine ⟨first, after, { hkept with content := ?_, body := fun text htext => ?_ }⟩
      · rw [Function.update_of_ne hne]
        exact hkept.content
      · rw [← hkept.body text htext]
        cases content with
        | none =>
          simp only [writeManifest, putBody, removeBody]
          split_ifs <;> simp [hname.ne hne]
        | some text => simp [writeManifest, putBody, writeBody, hname.ne hne]
  complete other hother := by
    obtain rfl | heq := eq_or_ne other rel
    · exact ⟨_, (Fields.set_perm hput.fresh).mem_iff.mpr List.mem_cons_self⟩
    · rw [Function.update_of_ne heq] at hother
      obtain ⟨entry, hentry⟩ := h.complete other hother
      exact ⟨entry, (Fields.set_perm hput.fresh).mem_iff.mpr (List.mem_cons_of_mem _ hentry)⟩
  total := by
    have hold : files.map ((Tracked.size (Function.update tracked rel (some content))) ·.1) =
        files.map (tracked.size ·.1) := by
      refine List.map_congr_left fun p hp => ?_
      simp [Tracked.size, Function.update_of_ne (Fields.get?_eq_none_iff.mp hput.fresh p hp)]
    rw [((Fields.set_perm hput.fresh).map _).sum_eq, List.map_cons, List.sum_cons, hold]
    simpa [Tracked.size] using hput.total

lemma Files.of_fresh (h : Files host d files tracked) (hname : Function.Injective host.bodyName)
    (hfresh : Fields.get? files rel = none) {d' : Disk} (hmanifest : d'.manifest = d.manifest)
    (hbodies : ∀ name, name ≠ host.bodyName rel → d'.bodies name = d.bodies name) :
    Files host d' files tracked :=
  h.of_bodies hmanifest fun p hp =>
    hbodies _ (hname.ne (Fields.get?_eq_none_iff.mp hfresh p hp))

end Put

/-- A produced version of a path that is tracked. -/
lemma Files.setAfterHash (h : Files host d files tracked) {digest : String}
    (hdigest : validAfterHash (some (.str digest)) = true) {entry : Fields}
    (hentry : Fields.get? files rel = some (.obj entry)) :
    Files host (writeManifest d (files.set rel (.obj (Fields.set entry "after_hash" (.str digest)))))
      (files.set rel (.obj (Fields.set entry "after_hash" (.str digest)))) tracked := by
  obtain ⟨first, after, hkept⟩ := h.kept _ (Fields.mem_of_get? hentry)
  obtain rfl : entry = entryMembers host rel first after := Json.obj.inj hkept.entry
  rw [set_entryMembers]
  have hreplaced : ∃ a b, files = a ++ (rel, .obj (entryMembers host rel first after)) :: b ∧
      files.set rel (.obj (entryMembers host rel first (some digest))) =
        a ++ (rel, .obj (entryMembers host rel first (some digest))) :: b :=
    h.sorted.exists_set_eq hentry
  obtain ⟨a, b, hfiles, hset⟩ := hreplaced
  have hcount := h.count
  have htotal := h.total
  rw [hfiles] at hcount htotal
  refine ⟨rfl, h.sorted.set rel _, ?_, fun p hp => ?_, fun other hother => ?_, ?_⟩
  · rw [hset]
    simpa using hcount
  · obtain rfl | hp := Fields.mem_set hp
    · exact ⟨first, some digest, { hkept with entry := rfl, afterHash := hdigest }⟩
    · obtain ⟨first', after', hkept'⟩ := h.kept p hp
      exact ⟨first', after', { hkept' with }⟩
  · obtain ⟨entry, hentry⟩ := h.complete other hother
    rw [hfiles] at hentry
    rw [hset]
    obtain hmem | hmem := List.mem_append.mp hentry
    · exact ⟨entry, List.mem_append_left _ hmem⟩
    · obtain heq | hmem := List.mem_cons.mp hmem
      · obtain ⟨rfl, -⟩ := Prod.mk.inj heq
        exact ⟨_, List.mem_append_right _ List.mem_cons_self⟩
      · exact ⟨entry, List.mem_append_right _ (List.mem_cons_of_mem _ hmem)⟩
  · rw [hset]
    simpa using htotal

/-- The removal of an entry. -/
lemma Files.remove (h : Files host d files tracked) (rel : String) :
    Files host (writeManifest d (files.pop rel)) (files.pop rel)
      (Function.update tracked rel none) where
  manifest := rfl
  sorted := h.sorted.pop rel
  count := (Fields.pop_sublist files rel).length_le.trans h.count
  kept p hp := by
    obtain ⟨hp, hne⟩ := Fields.mem_pop.mp hp
    obtain ⟨first, after, hkept⟩ := h.kept p hp
    exact ⟨first, after, { hkept with content := by rw [Function.update_of_ne hne, hkept.content] }⟩
  complete other hother := by
    have hne : other ≠ rel := by
      rintro rfl
      simp at hother
    rw [Function.update_of_ne hne] at hother
    obtain ⟨entry, hentry⟩ := h.complete other hother
    exact ⟨entry, Fields.mem_pop.mpr ⟨hentry, hne⟩⟩
  total := by
    have hold : (files.pop rel).map ((Tracked.size (Function.update tracked rel none)) ·.1) =
        (files.pop rel).map (tracked.size ·.1) := by
      refine List.map_congr_left fun p hp => ?_
      simp [Tracked.size, Function.update_of_ne (Fields.mem_pop.mp hp).2]
    rw [hold]
    exact (((Fields.pop_sublist files rel).map _).sum_le_sum fun _ _ => Nat.zero_le _).trans h.total

/-! ### What an operation leaves -/

/-- An operation that does not replace the manifest leaves what is tracked, and one that does leaves
what it makes of it, with the manifest that it would have written without a fault. -/
inductive Leaves (host : Host) (d : Disk) (files : Fields) (tracked : Tracked) (op : Op)
    (fault : Option Fault) : Prop where
  | kept : (perform host d op fault).published = false →
      Files host (perform host d op fault).disk files tracked →
      ((perform host d op fault).error = none → op.apply tracked = tracked) →
      Leaves host d files tracked op fault
  | published (files' : Fields) : (perform host d op fault).published = true →
      Files host (perform host d op fault).disk files' (op.apply tracked) →
      Files host (perform host d op none).disk files' (op.apply tracked) →
      Leaves host d files tracked op fault

variable {fault : Option Fault}

lemma Leaves.of_disk {op : Op} (h : Files host d files tracked) {e : Failure}
    (hout : perform host d op fault = { disk := d, error := some e }) :
    Leaves host d files tracked op fault :=
  .kept (by rw [hout]) (by rwa [hout]) (by simp [hout])

def written (kept next failed : Disk) : Option (Failure × Bool) → Outcome
  | none => { disk := next, published := true }
  | some (e, true) => { disk := failed, published := true, error := some e }
  | some (e, false) => { disk := kept, error := some e }

/-- An operation whose last write but one is that of the manifest. -/
lemma Leaves.of_written {op : Op} {r : Option (Failure × Bool)}
    {kept next failed clean : Disk} {files' : Fields}
    (hout : perform host d op fault = written kept next failed r)
    (hclean : (∀ e, r ≠ some (e, false)) →
      perform host d op none = { disk := clean, published := true })
    (hkept : Files host kept files tracked) (hnext : Files host next files' (op.apply tracked))
    (hfailed : Files host failed files' (op.apply tracked))
    (hnone : Files host clean files' (op.apply tracked)) :
    Leaves host d files tracked op fault := by
  match r with
  | some (e, false) =>
    refine .kept (by rw [hout]; rfl) (by rw [hout]; exact hkept) fun herror => ?_
    rw [hout] at herror
    cases herror
  | none =>
    refine .published files' (by rw [hout]; rfl) (by rw [hout]; exact hnext) ?_
    rw [hclean (by simp)]
    exact hnone
  | some (e, true) =>
    refine .published files' (by rw [hout]; rfl) (by rw [hout]; exact hfailed) ?_
    rw [hclean (by simp)]
    exact hnone

lemma manifestError_none (h : ∀ e, manifestError host files fault ≠ some (e, false)) :
    manifestError host files none = none := by
  unfold manifestError at h ⊢
  split_ifs at h ⊢ with hsize
  · exact absurd rfl (h _)
  · rfl

lemma leaves_setAfterHash (h : Files host d files tracked) {digest : String}
    (hdigest : validAfterHash (some (.str digest)) = true) (fault : Option Fault) :
    Leaves host d files tracked (.setAfterHash rel digest) fault := by
  cases hcheck : (require (fault ≠ some .start) Failure.os >>= fun _ =>
    updateManifest host d rel digest) with
  | error e =>
    exact .of_disk h (e := e) (by simp only [perform, SnapshotStore.setAfterHash, hcheck])
  | ok files' =>
    have hupdate := (except_seq_eq_ok.mp hcheck).2
    have hfiles' : Files host (writeManifest d files') files' tracked := by
      obtain ⟨read, hread, hread'⟩ := except_bind_eq_ok.mp hupdate
      obtain rfl := Except.ok.inj (h.readFiles_eq.symm.trans hread)
      by_cases hfiles : files = []
      · simp [hfiles] at hread'
      · simp only [hfiles, if_false] at hread'
        split at hread'
        · cases hread'
        · next entry hentry =>
          split_ifs at hread'
          obtain rfl := Except.ok.inj hread'
          exact h.setAfterHash hdigest hentry
        · cases hread'
    have hclean : (require (none ≠ some Fault.start) Failure.os >>= fun _ =>
        updateManifest host d rel digest) = .ok files' := hupdate
    refine .of_written (r := manifestError host files' fault) ?_ (fun hno => ?_) h hfiles'
      hfiles' hfiles'
    · simp only [perform, SnapshotStore.setAfterHash, hcheck]
      rfl
    · simp only [perform, SnapshotStore.setAfterHash, hclean, manifestError_none hno]

section Put

variable {content : Option String} {fault : Option Fault}

lemma checkPut_none {found : Option Fields} (h : checkPut host d rel content fault = .ok found) :
    checkPut host d rel content none = .ok found := by
  simp only [checkPut, except_seq_eq_ok, require_eq_ok] at h ⊢
  exact ⟨h.1, h.2.1, rfl, h.2.2.2⟩

/-- Without an error at the body, the manifest is written. -/
lemma publishBaseline_eq (hbody : ∀ text replaced, content = some text →
    fault ≠ some (.body replaced)) :
    publishBaseline host d rel content files fault =
      written (discardUnpublished (putBody d (host.bodyName rel) content fault) (host.bodyName rel)
          content (swept fault))
        (writeManifest (putBody d (host.bodyName rel) content fault)
          (files.set rel (newEntry host rel content)))
        (writeManifest (putBody d (host.bodyName rel) content fault)
          (files.set rel (newEntry host rel content)))
        (manifestError host (files.set rel (newEntry host rel content)) fault) := by
  unfold publishBaseline written
  split
  · exact absurd rfl (hbody _ _ rfl)
  · exact absurd rfl (hbody _ _ rfl)
  · rfl

lemma manifest_putBody (d : Disk) (name : String) (content : Option String)
    (fault : Option Fault) : (putBody d name content fault).manifest = d.manifest := by
  cases content with
  | none =>
    simp only [putBody, removeBody]
    split_ifs <;> rfl
  | some text => rfl

lemma bodies_putBody (d : Disk) {name other : String} (hne : other ≠ name)
    (content : Option String) (fault : Option Fault) :
    (putBody d name content fault).bodies other = d.bodies other := by
  cases content with
  | none =>
    simp only [putBody, removeBody]
    split_ifs
    · rfl
    · exact if_neg hne
  | some text => exact if_neg hne

lemma leaves_putBaseline (h : Files host d files tracked)
    (hname : Function.Injective host.bodyName) (content : Option String) (fault : Option Fault) :
    Leaves host d files tracked (.putBaseline rel content) fault := by
  cases hcheck : checkPut host d rel content fault with
  | error e => exact .of_disk h (e := e) (by simp only [perform, putBaseline, hcheck])
  | ok found =>
    obtain ⟨rfl, htracked⟩ | ⟨rfl, hput⟩ := checkPut_eq_ok h hcheck
    · have hout : perform host d (.putBaseline rel content) fault = { disk := d } := by
        simp only [perform, putBaseline, hcheck]
      exact .kept (by rw [hout]) (by rwa [hout]) fun _ => if_neg htracked
    have hout : perform host d (.putBaseline rel content) fault =
        publishBaseline host d rel content files fault := by
      simp only [perform, putBaseline, hcheck]
    have hplaced : Files host (putBody d (host.bodyName rel) content fault) files tracked :=
      h.of_fresh hname hput.fresh (manifest_putBody ..) fun _ hne => bodies_putBody d hne content
        fault
    by_cases hbody : ∀ text replaced, content = some text → fault ≠ some (.body replaced)
    · have happly : (Op.putBaseline rel content).apply tracked =
          Function.update tracked rel (some content) := if_pos (h.get?_eq_none_iff.mp hput.fresh)
      refine .of_written (hout.trans (publishBaseline_eq hbody)) (fun hno => ?_) ?_
        (happly ▸ h.put hname hput fault) (happly ▸ h.put hname hput fault)
        (happly ▸ h.put hname hput none)
      · simp only [perform, putBaseline, checkPut_none hcheck]
        rw [publishBaseline_eq (by simp), manifestError_none hno]
        rfl
      · unfold discardUnpublished
        split_ifs
        · exact hplaced.of_fresh hname hput.fresh rfl fun _ hne => if_neg hne
        · exact hplaced
    · push Not at hbody
      obtain ⟨text, replaced, rfl, rfl⟩ := hbody
      cases replaced with
      | false => exact .of_disk h (e := .os) hout
      | true => exact .kept (by rw [hout]; rfl) (by rw [hout]; exact hplaced)
                  (by rw [hout]; simp [publishBaseline])

end Put

lemma removalError_none (h : ∀ e, removalError host files fault ≠ some (e, false)) :
    removalError host files none = none := by
  unfold removalError at h ⊢
  split_ifs at h ⊢
  · rfl
  · exact manifestError_none h

lemma Files.removeBody (h : Files host d files tracked) (hname : Function.Injective host.bodyName)
    (hfresh : Fields.get? files rel = none) (fault : Option Fault) :
    Files host (removeBody d (host.bodyName rel) fault) files tracked := by
  unfold SnapshotStore.removeBody
  split_ifs
  · exact h
  · exact h.of_fresh hname hfresh rfl fun _ hne => if_neg hne

lemma leaves_remove (h : Files host d files tracked)
    (hname : Function.Injective host.bodyName) (fault : Option Fault) :
    Leaves host d files tracked (.remove rel) fault := by
  obtain ⟨found, hread, hfound⟩ := h.getD_readFiles
  by_cases hstart : fault = some .start
  · subst hstart
    exact .of_disk h (e := .os) rfl
  have hout (fault : Option Fault) (hstart : fault ≠ some .start) :
      (require (fault ≠ some .start) Failure.os >>= fun _ => readFiles d) = .ok found := by
    simp [hstart, hread, bind, Except.bind]
  by_cases hget : Fields.get? files rel = none
  · have hkept : perform host d (.remove rel) fault =
        { disk := removeBody d (host.bodyName rel) fault } := by
      simp only [perform, SnapshotStore.remove, hout fault hstart, hfound, hget, if_true]
    refine .kept (by rw [hkept]) (by rw [hkept]; exact h.removeBody hname hget fault) fun _ => ?_
    exact (Function.update_eq_self_iff ..).mpr (h.get?_eq_none_iff.mp hget).symm
  · have hgone : Fields.get? (files.pop rel) rel = none := by simp
    refine .of_written (r := removalError host (files.pop rel) fault) ?_ (fun hno => ?_) h
      ((h.remove rel).removeBody hname hgone fault) (h.remove rel)
      ((h.remove rel).removeBody hname hgone none)
    · simp only [perform, SnapshotStore.remove, hout fault hstart, hfound, hget, if_false]
      rfl
    · simp only [perform, SnapshotStore.remove, hout none (by simp), hfound, hget, if_false,
        removalError_none hno]

theorem leaves (h : Files host d files tracked) (hname : Function.Injective host.bodyName) {op : Op}
    (hop : op.Produced) (fault : Option Fault) : Leaves host d files tracked op fault := by
  cases op with
  | putBaseline rel content => exact leaves_putBaseline h hname content fault
  | setAfterHash rel digest => exact leaves_setAfterHash h hop fault
  | remove rel => exact leaves_remove h hname fault

/-! ### Runs -/

structure State where
  disk : Disk
  tracked : Tracked

/-- An empty store. -/
def State.init : State := ⟨⟨none, fun _ => none⟩, fun _ => none⟩

/-- An operation is made, and is interrupted or not. It took effect when it returned, or when it had
replaced the manifest. -/
def step (host : Host) (s : State) (event : Op × Option Fault) : Option State :=
  let outcome := perform host s.disk event.1 event.2
  some { disk := outcome.disk
         tracked := if outcome.error = none ∨ outcome.published = true then event.1.apply s.tracked
           else s.tracked }

/-- The promises of a store. -/
structure Consistent (host : Host) (s : State) : Prop where
  /-- A load returns the first content of every path that is tracked, within the limits. -/
  loads : ∃ loaded, load host s.disk = .ok loaded ∧
    (∀ rel content, (rel, content) ∈ loaded.before ↔
      ∃ first, s.tracked rel = some first ∧ content = first.map universal) ∧
    (loaded.before.map Prod.fst).Nodup ∧ loaded.before.length ≤ maxSnapshotFiles ∧
    (loaded.before.map (contentBytes ·.2)).sum ≤ maxSnapshotTotalBytes
  /-- An operation that raises has either no effect on a load or, when it had replaced the manifest,
  all of it. -/
  raises : ∀ op fault, op.Produced → (perform host s.disk op fault).error ≠ none →
    load host (perform host s.disk op fault).disk =
      if (perform host s.disk op fault).published then load host (perform host s.disk op none).disk
      else load host s.disk

lemma Files.consistent {s : State} (h : Files host s.disk files s.tracked)
    (hname : Function.Injective host.bodyName) : Consistent host s where
  loads := by
    refine ⟨_, h.load_eq, fun rel content => ?_, ?_, ?_, ?_⟩
    · simp only [loadedOf, List.nil_append, List.mem_map, Prod.mk.injEq]
      constructor
      · rintro ⟨p, hp, rfl, rfl⟩
        obtain ⟨first, after, hkept⟩ := h.kept p hp
        exact ⟨first, hkept.content, by simp [Tracked.content, hkept.content]⟩
      · rintro ⟨first, hfirst, rfl⟩
        obtain ⟨entry, hentry⟩ := h.complete rel (by simp [hfirst])
        exact ⟨(rel, entry), hentry, rfl, by simp [Tracked.content, hfirst]⟩
    · simp only [loadedOf, List.nil_append, List.map_map, Function.comp_def]
      exact List.pairwise_map.mpr (h.sorted.imp fun hlt => hlt.ne)
    · simpa [loadedOf] using h.count
    · simpa [loadedOf, Function.comp_def] using h.total_content
  raises op fault hop herror := by
    cases leaves h hname hop fault with
    | kept hpublished hfiles _ =>
      rw [hfiles.load_eq, hpublished]
      exact h.load_eq.symm
    | published files' hpublished hfiles hnone =>
      rw [hfiles.load_eq, hpublished]
      exact hnone.load_eq.symm

lemma Files.step {s s' : State} {event : Op × Option Fault} (h : Files host s.disk files s.tracked)
    (hname : Function.Injective host.bodyName) (hop : event.1.Produced)
    (hstep : step host s event = some s') : ∃ files', Files host s'.disk files' s'.tracked := by
  obtain rfl := Option.some.inj hstep
  cases leaves h hname hop event.2 with
  | kept hpublished hfiles happly =>
    refine ⟨files, ?_⟩
    split_ifs with heffect
    · rw [happly (heffect.resolve_right (by simp [hpublished]))]
      exact hfiles
    · exact hfiles
  | published files' hpublished hfiles _ =>
    rw [if_pos (.inr hpublished)]
    exact ⟨files', hfiles⟩

lemma Files.init : Files host State.init.disk [] State.init.tracked where
  manifest := rfl
  sorted := .nil
  count := Nat.zero_le _
  kept _ hp := by cases hp
  complete _ h := absurd rfl h
  total := Nat.zero_le _

/-- In every run whose digests are those of versions, wherever its operations are interrupted, the
store keeps its promises. -/
theorem consistent_of_reach (hname : Function.Injective host.bodyName) {s : State}
    (hs : Steps.Reach (step host) (fun _ event => event.1.Produced) .init s) :
    Consistent host s := by
  obtain ⟨files, hfiles⟩ := hs.invariant (I := fun s => ∃ files, Files host s.disk files s.tracked)
    ⟨[], .init⟩ fun _ _ _ h hop hstep => h.elim fun _ h => h.step hname hop hstep
  exact hfiles.consistent hname

def plainHost : Host where
  canonical := some
  bodyName rel := rel ++ ".txt"
  manifestBytes files := 64 + 128 * files.length
  repr rel := rel

lemma bodyName_injective : Function.Injective plainHost.bodyName := fun _ _ h =>
  (String.append_left_inj ".txt").mp h

/-- A crash between body and manifest, the first content after it, and a later one that is not
taken. -/
theorem consistent_of_reach_interrupted : ∃ s : State, Consistent plainHost s ∧
    s.tracked "a" = some (some "second") ∧ s.tracked "b" = some none := by
  have hrun : ∃ s, Steps.Reach (step plainHost) (fun _ event => event.1.Produced) .init s ∧
      s.tracked "a" = some (some "second") ∧ s.tracked "b" = some none :=
    Steps.Reach.exists_of_run
      [(.putBaseline "a" (some "first"), some (.manifest false false)),
        (.putBaseline "a" (some "second"), none), (.putBaseline "a" (some "third"), none),
        (.setAfterHash "a" "missing", none), (.putBaseline "b" none, some (.manifest true false))] rfl
  obtain ⟨s, hs, htracked⟩ := hrun
  exact ⟨s, consistent_of_reach bodyName_injective hs, htracked⟩

/-- A carriage return that was given is not returned. -/
theorem load_ne_first : ¬ ∀ (host : Host) (s : State), Function.Injective host.bodyName →
    Steps.Reach (step host) (fun _ _ => True) .init s →
    ∃ loaded, load host s.disk = .ok loaded ∧
      ∀ rel first, s.tracked rel = some first → (rel, first) ∈ loaded.before := by
  intro hall
  have hrun : ∃ s, Steps.Reach (step plainHost) (fun _ _ => True) .init s ∧
      s.tracked "a" = some (some "x\r\ny") ∧
      load plainHost s.disk = .ok { before := [("a", some "x\ny")], total := 3 } :=
    Steps.Reach.exists_of_run [(.putBaseline "a" (some "x\r\ny"), none)] (by decide +kernel)
  obtain ⟨s, hs, htracked, hload⟩ := hrun
  obtain ⟨loaded, hloaded, hfirst⟩ := hall plainHost s bodyName_injective hs
  obtain rfl := Except.ok.inj (hload.symm.trans hloaded)
  have hmem := hfirst "a" _ htracked
  simp at hmem

end SnapshotStore

end Codey
