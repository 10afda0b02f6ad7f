import Codey.Workspace.BoundedScan

/-!
# What a bounded scan reads

A scan that no bound cuts reads every covered file once, in an order that is fixed by the names up
to their case.
-/

namespace Codey

namespace Workspace

/-- Every entry is one of its directory, and the entries of a directory are smaller than it. -/
theorem Entry.ind {P : Entry → Prop} (missing : P .missing) (symlink : P .symlink)
    (other : P .other) (file : ∀ f, P (.file f))
    (dir : ∀ resolves failed entries, (∀ e ∈ entries, P e.2) → P (.dir resolves failed entries)) :
    ∀ e, P e := by
  intro e
  refine Entry.rec (motive_1 := P) (motive_2 := fun es => ∀ e ∈ es, P e.2)
    (motive_3 := fun x => P x.2) missing symlink other file dir ?_ ?_ ?_ e
  · intro e he
    cases he
  · intro x xs hx hxs e he
    rcases List.mem_cons.mp he with rfl | he
    · exact hx
    · exact hxs e he
  · intro n e he
    exact he

variable (c : Coverage) (maxEntries : Nat)

/-! ### What a tree holds -/

def kept (entries : List (FileName × Entry)) : List (FileName × Entry) :=
  entries.filter fun e => !c.excludes e.1

mutual
def Entry.weight (path : Path) : Entry → Nat × Nat × Nat
  | .file f => if c.ignored path then 0 else (0, 1, f.size)
  | .dir _ _ entries => if c.ignored path then 0 else (1, 0, 0) + weights path entries
  | .missing | .symlink | .other => 0

/-- The sum over the entries of a directory. -/
def weights (path : Path) : List (FileName × Entry) → Nat × Nat × Nat
  | [] => 0
  | (n, e) :: rest =>
    (if c.excludes n then 0 else Entry.weight (path ++ [n]) e) + weights path rest
end

/-- A file that can be read and does not change meanwhile. -/
def FileEntry.Steady (f : FileEntry) : Prop :=
  f.content ≠ none ∧ f.before ≠ none ∧ f.before = f.after

instance (f : FileEntry) : Decidable f.Steady := inferInstanceAs (Decidable (_ ∧ _ ∧ _))

def Listed (failed : Bool) (entries : List (FileName × Entry)) : Prop :=
  failed = false ∧ entries.length < rawCap maxEntries ∧ (kept c entries).length ≤ maxEntries

mutual
/-- An entry whose files and directories can all be read. -/
def Entry.Sound (path : Path) : Entry → Prop
  | .missing => False
  | .symlink | .other => True
  | .file f => f.resolves = true ∧ (c.ignored path = false → f.Steady)
  | .dir resolves failed entries =>
    resolves = true ∧
      (c.ignored path = false → Listed c maxEntries failed entries ∧ AllSound path entries)

def AllSound (path : Path) : List (FileName × Entry) → Prop
  | [] => True
  | (n, e) :: rest => (c.excludes n = false → Entry.Sound (path ++ [n]) e) ∧ AllSound path rest
end

/-- What an entry adds to a scan: a file, or the files below a directory. -/
inductive Part where
  | nothing
  | file (item : Item)
  | dir (items : List Item)

namespace Part

def files : Part → List Item
  | file item => [item]
  | nothing | dir _ => []

def below : Part → List Item
  | dir items => items
  | nothing | file _ => []

end Part

def arrange (parts : List (FileName × Part)) : List Item :=
  let sorted := parts.insertionSort fun x y => c.key x.1 ≤ c.key y.1
  sorted.flatMap (·.2.files) ++ sorted.flatMap (·.2.below)

mutual
/-- The part of an entry in a scan. -/
def Entry.part (path : Path) : Entry → Part
  | .file f =>
    if c.ignored path then .nothing
    else
      match f.content with
      | some content => .file (path, content)
      | none => .nothing
  | .dir _ _ entries => if c.ignored path then .nothing else .dir (arrange c (parts path entries))
  | .missing | .symlink | .other => .nothing

def parts (path : Path) : List (FileName × Entry) → List (FileName × Part)
  | [] => []
  | (n, e) :: rest =>
    if c.excludes n then parts path rest else (n, Entry.part (path ++ [n]) e) :: parts path rest
end

def order (path : Path) (entries : List (FileName × Entry)) : List Item :=
  arrange c (parts c path entries)

variable {c maxEntries} {path : Path} {entries es : List (FileName × Entry)} {b b' : Budget}

lemma kept_cons (e : FileName × Entry) (rest : List (FileName × Entry)) :
    kept c (e :: rest) = if c.excludes e.1 = true then kept c rest else e :: kept c rest := by
  rw [kept, List.filter_cons]
  cases c.excludes e.1 <;> rfl

lemma parts_eq : parts c path entries =
    (kept c entries).map fun e => (e.1, e.2.part c (path ++ [e.1])) := by
  induction entries with
  | nil => rfl
  | cons e rest ih =>
    rw [parts, kept_cons, ih]
    split_ifs <;> rfl

lemma weights_eq : weights c path entries =
    ((kept c entries).map fun e => e.2.weight c (path ++ [e.1])).sum := by
  induction entries with
  | nil => rfl
  | cons e rest ih =>
    rw [weights, kept_cons, ih]
    split_ifs
    · rw [zero_add]
    · rw [List.map_cons, List.sum_cons]

lemma allSound_iff : AllSound c maxEntries path entries ↔
    ∀ e ∈ kept c entries, e.2.Sound c maxEntries (path ++ [e.1]) := by
  induction entries with
  | nil => simp [AllSound, kept]
  | cons e rest ih =>
    rw [AllSound, ih, kept_cons]
    split_ifs with hskip
    · simp [hskip]
    · simp [hskip]

/-! ### Listing a directory -/

/-- A directory is listed to its end, when it is within its bounds. -/
lemma collectLoop_spec (failed : Bool) (rawSeen : Nat) (front rest : List (FileName × Entry))
    (hfront : front.length ≤ maxEntries) :
    ((collectLoop c maxEntries failed rawSeen front rest).entryLimited = false ∧
      (collectLoop c maxEntries failed rawSeen front rest).readFailed = false ↔
      failed = false ∧ (rest = [] ∨ rawSeen + rest.length < rawCap maxEntries) ∧
        (front ++ kept c rest).length ≤ maxEntries) ∧
    ((collectLoop c maxEntries failed rawSeen front rest).entryLimited = false →
      (collectLoop c maxEntries failed rawSeen front rest).paths = front ++ kept c rest) := by
  induction rest generalizing rawSeen front with
  | nil => simpa [collectLoop, kept] using fun _ => hfront
  | cons e rest ih =>
    have hlast : ∀ n, (rest = [] ∨ rawSeen + 1 + rest.length < n) ∧ ¬ n ≤ rawSeen + 1 ↔
        rawSeen + (rest.length + 1) < n := by
      intro n
      constructor
      · rintro ⟨rfl | h, hn⟩
        · simp only [List.length_nil]
          omega
        · omega
      · intro h
        exact ⟨.inr (by omega), by omega⟩
    rw [collectLoop, kept_cons, List.length_cons]
    simp only [List.cons_ne_nil, false_or]
    rw [← hlast]
    split_ifs with hskip hcap hfull hcap
    · simp [hcap]
    · obtain ⟨hok, hpaths⟩ := ih (rawSeen + 1) front hfront
      exact ⟨hok.trans (by simp [hcap]), hpaths⟩
    · simp only [List.length_append, List.length_cons, false_iff, IsEmpty.forall_iff, and_true]
      omega
    · simp [hcap]
    · rw [not_le] at hfull
      obtain ⟨hok, hpaths⟩ := ih (rawSeen + 1) (front ++ [e]) (by
        rw [List.length_append, List.length_singleton]
        omega)
      rw [List.append_assoc] at hok hpaths
      exact ⟨hok.trans (by simp [hcap]), hpaths⟩

/-- No entry that is excluded is collected. -/
lemma excludes_of_mem_collectLoop (failed : Bool) (rawSeen : Nat)
    (front rest : List (FileName × Entry)) (hfront : ∀ e ∈ front, c.excludes e.1 = false) :
    ∀ e ∈ (collectLoop c maxEntries failed rawSeen front rest).paths, c.excludes e.1 = false := by
  induction rest generalizing rawSeen front with
  | nil => exact hfront
  | cons e rest ih =>
    have hmore (hskip : ¬ c.excludes e.1 = true) : ∀ x ∈ front ++ [e], c.excludes x.1 = false := by
      intro x hx
      rcases List.mem_append.mp hx with hx | hx
      · exact hfront x hx
      · obtain rfl := List.mem_singleton.mp hx
        simpa using hskip
    rw [collectLoop]
    split_ifs with hskip
    · exact hfront
    · exact ih _ front hfront
    · exact hfront
    · exact hmore hskip
    · exact ih _ _ (hmore hskip)

lemma collectBoundedDirEntries_spec (maxEntries : Nat) (d : Dir) :
    ((collectBoundedDirEntries c d maxEntries).entryLimited = false ∧
      (collectBoundedDirEntries c d maxEntries).readFailed = false ↔
      Listed c maxEntries d.failed d.entries) ∧
    ((collectBoundedDirEntries c d maxEntries).entryLimited = false →
      (collectBoundedDirEntries c d maxEntries).paths = kept c d.entries) := by
  obtain ⟨hok, hpaths⟩ :=
    collectLoop_spec (c := c) d.failed 0 [] d.entries (Nat.zero_le maxEntries)
  refine ⟨hok.trans ?_, hpaths⟩
  have hcap : 0 < rawCap maxEntries := by
    rw [rawCap]
    omega
  rw [Listed, Nat.zero_add, List.nil_append]
  have hempty : d.entries = [] ∨ d.entries.length < rawCap maxEntries ↔
      d.entries.length < rawCap maxEntries :=
    ⟨fun h => h.elim (fun h => by rw [h]; exact hcap) id, .inr⟩
  rw [hempty]

/-! ### Spending the budget -/

def Budget.HasRoom (b : Budget) (files bytes : Nat) : Prop :=
  b.filesSeen + files ≤ b.maxFiles ∧ ∀ m, b.maxBytes = some m → b.bytesSeen + bytes ≤ m

/-- So many files of so many bytes have been met, and nothing else has happened. -/
structure Spent (b b' : Budget) (files bytes : Nat) : Prop where
  maxFiles : b'.maxFiles = b.maxFiles
  maxDirEntries : b'.maxDirEntries = b.maxDirEntries
  maxBytes : b'.maxBytes = b.maxBytes
  filesSeen : b'.filesSeen = b.filesSeen + files
  bytesSeen : ∀ m, b.maxBytes = some m → b'.bytesSeen = b.bytesSeen + bytes
  limited : b'.limited = b.limited

namespace Spent

variable {b'' : Budget} {files bytes files' bytes' : Nat}

lemma refl (b : Budget) : Spent b b 0 0 := ⟨rfl, rfl, rfl, rfl, fun _ _ => rfl, rfl⟩

lemma trans (h : Spent b b' files bytes) (h' : Spent b' b'' files' bytes') :
    Spent b b'' (files + files') (bytes + bytes') := by
  refine ⟨h'.maxFiles.trans h.maxFiles, h'.maxDirEntries.trans h.maxDirEntries,
    h'.maxBytes.trans h.maxBytes, ?_, fun m hm => ?_, h'.limited.trans h.limited⟩
  · rw [h'.filesSeen, h.filesSeen, Nat.add_assoc]
  · rw [h'.bytesSeen m (h.maxBytes.trans hm), h.bytesSeen m hm, Nat.add_assoc]

lemma hasRoom_iff (h : Spent b b' files bytes) :
    b'.HasRoom files' bytes' ↔ b.HasRoom (files + files') (bytes + bytes') := by
  simp only [Budget.HasRoom, h.filesSeen, h.maxFiles, h.maxBytes]
  refine and_congr (by omega) (forall_congr' fun m => ?_)
  constructor
  · intro hm hmax
    have := hm hmax
    rw [h.bytesSeen m hmax] at this
    omega
  · intro hm hmax
    have := hm hmax
    rw [h.bytesSeen m hmax]
    omega

end Spent

lemma Budget.HasRoom.mono {files bytes files' bytes' : Nat} (h : b.HasRoom files bytes)
    (hfiles : files' ≤ files) (hbytes : bytes' ≤ bytes) : b.HasRoom files' bytes' := by
  refine ⟨(Nat.add_le_add_left hfiles _).trans h.1, fun m hm => ?_⟩
  exact (Nat.add_le_add_left hbytes _).trans (h.2 m hm)

lemma consumeFile_of_hasRoom {f : FileEntry} (h : b.HasRoom 1 f.size) :
    (b.consumeFile f).1 = true ∧ Spent b (b.consumeFile f).2 1 f.size := by
  have hfiles : ¬ b.maxFiles ≤ b.filesSeen := by
    have := h.1
    omega
  unfold Budget.consumeFile
  rw [if_neg hfiles]
  cases hmax : b.maxBytes with
  | none =>
    refine ⟨rfl, rfl, rfl, hmax.symm ▸ rfl, rfl, fun m hm => ?_, rfl⟩
    rw [hmax] at hm
    cases hm
  | some m =>
    have hbytes : ¬ m < b.bytesSeen + f.size := not_lt.mpr (h.2 m hmax)
    dsimp only
    rw [if_neg hbytes]
    exact ⟨rfl, rfl, rfl, hmax.symm ▸ rfl, rfl, fun _ _ => rfl, rfl⟩

lemma consumeFile_of_not_hasRoom {f : FileEntry} (h : ¬ b.HasRoom 1 f.size) :
    (b.consumeFile f).1 = false ∧ (b.consumeFile f).2.limited = true := by
  unfold Budget.consumeFile
  by_cases hfiles : b.maxFiles ≤ b.filesSeen
  · rw [if_pos hfiles]
    exact ⟨rfl, by simp [Budget.limited]⟩
  · rw [if_neg hfiles]
    cases hmax : b.maxBytes with
    | none =>
      refine absurd ⟨by omega, fun m hm => ?_⟩ h
      rw [hmax] at hm
      cases hm
    | some m =>
      dsimp only
      split_ifs with hbytes
      · exact ⟨rfl, by simp [Budget.limited]⟩
      · refine absurd ⟨by omega, fun m' hm => ?_⟩ h
        rw [hmax] at hm
        obtain rfl := Option.some.inj hm
        exact not_lt.mp hbytes

/-! ### One directory -/

def yieldsOf (c : Coverage) (path : Path) (e : FileName × Entry) : List (Path × FileEntry) :=
  match e.2 with
  | .file f => if c.ignored (path ++ [e.1]) then [] else [(path ++ [e.1], f)]
  | _ => []

def dirsOf (c : Coverage) (path : Path) (e : FileName × Entry) : List Dir :=
  match e.2 with
  | .dir _ failed entries =>
    if c.ignored (path ++ [e.1]) then [] else [⟨path ++ [e.1], failed, entries⟩]
  | _ => []

/-- An entry that can be examined, and that has a path. -/
def examined (e : FileName × Entry) : Bool :=
  match e.2 with
  | .missing => false
  | .symlink | .other => true
  | .file f => f.resolves
  | .dir resolves _ _ => resolves

def sizes (files : List (Path × FileEntry)) : Nat := (files.map (·.2.size)).sum

lemma partition_of_hasRoom (hkept : ∀ e ∈ es, c.excludes e.1 = false)
    (hexamined : ∀ e ∈ es, examined e = true)
    (hroom : b.HasRoom (es.flatMap (yieldsOf c path)).length
      (sizes (es.flatMap (yieldsOf c path)))) :
    ∃ b', partitionSortedEntries c path es b =
        .ok ⟨es.flatMap (dirsOf c path), es.flatMap (yieldsOf c path), false, b'⟩ ∧
      Spent b b' (es.flatMap (yieldsOf c path)).length (sizes (es.flatMap (yieldsOf c path))) := by
  induction es generalizing b with
  | nil => exact ⟨b, rfl, Spent.refl b⟩
  | cons e rest ih =>
    obtain ⟨n, e⟩ := e
    obtain ⟨hskip, hrest⟩ := List.forall_mem_cons.mp hkept
    obtain ⟨hseen, hseens⟩ := List.forall_mem_cons.mp hexamined
    have ih := fun {b} => @ih b hrest hseens
    dsimp only at hskip
    cases e with
    | missing => cases hseen
    | symlink => exact ih hroom
    | other => exact ih hroom
    | dir resolves failed entries =>
      obtain rfl : resolves = true := hseen
      obtain ⟨b', hpartition, hspent⟩ := ih hroom
      refine ⟨b', ?_, hspent⟩
      have hnone : yieldsOf c path (n, Entry.dir true failed entries) = [] := rfl
      rw [partitionSortedEntries, List.flatMap_cons, List.flatMap_cons, hnone]
      simp only [hskip, Coverage.allowed, Bool.false_eq_true, if_false, if_true]
      cases hignored : c.ignored (path ++ [n]) with
      | true =>
        have hdir : dirsOf c path (n, Entry.dir true failed entries) = [] := by
          simp [dirsOf, hignored]
        rw [hdir]
        exact hpartition
      | false =>
        have hdir : dirsOf c path (n, Entry.dir true failed entries) =
            [⟨path ++ [n], failed, entries⟩] := by
          simp [dirsOf, hignored]
        rw [hdir]
        exact except_bind_eq_ok.mpr ⟨true, rfl, except_bind_eq_ok.mpr ⟨_, hpartition, rfl⟩⟩
    | file f =>
      have hresolves : f.resolves = true := hseen
      have hnone : dirsOf c path (n, Entry.file f) = [] := rfl
      rw [List.flatMap_cons] at hroom
      rw [partitionSortedEntries, List.flatMap_cons, List.flatMap_cons, hnone]
      simp only [hresolves, Coverage.allowed, if_true]
      cases hignored : c.ignored (path ++ [n]) with
      | true =>
        have hfile : yieldsOf c path (n, Entry.file f) = [] := by simp [yieldsOf, hignored]
        rw [hfile] at hroom ⊢
        exact ih hroom
      | false =>
        have hfile : yieldsOf c path (n, Entry.file f) = [(path ++ [n], f)] := by
          simp [yieldsOf, hignored]
        rw [hfile] at hroom ⊢
        simp only [List.singleton_append, List.length_cons, sizes, List.map_cons,
          List.sum_cons] at hroom ⊢
        rw [Nat.add_comm _ 1] at hroom ⊢
        have hone := hroom.mono (Nat.le_add_right 1 _) (Nat.le_add_right f.size _)
        obtain ⟨hconsumed, hfirst⟩ := consumeFile_of_hasRoom hone
        obtain ⟨b', hpartition, hspent⟩ := ih (hfirst.hasRoom_iff.mpr hroom)
        refine ⟨b', except_bind_eq_ok.mpr ⟨true, rfl, ?_⟩, hfirst.trans hspent⟩
        rw [if_pos rfl, if_pos hconsumed]
        exact except_bind_eq_ok.mpr ⟨_, hpartition, rfl⟩

/-- A directory is read to its end only when there is room for its files. -/
lemma hasRoom_of_partition {p : Partition} (hkept : ∀ e ∈ es, c.excludes e.1 = false)
    (h : partitionSortedEntries c path es b = .ok p) (hlimited : p.budget.limited = false) :
    (∀ e ∈ es, examined e = true) ∧ b.limited = false ∧
      (b.HasRoom 0 0 → b.HasRoom (es.flatMap (yieldsOf c path)).length
        (sizes (es.flatMap (yieldsOf c path)))) := by
  induction es generalizing b p with
  | nil =>
    obtain rfl := Except.ok.inj h
    exact ⟨by simp, hlimited, id⟩
  | cons e rest ih =>
    obtain ⟨n, e⟩ := e
    obtain ⟨hskip, hrest⟩ := List.forall_mem_cons.mp hkept
    have ih := fun {b p} => @ih b p hrest
    dsimp only at hskip
    rw [List.forall_mem_cons]
    cases e with
    | missing =>
      obtain ⟨-, hfalse, -⟩ := ih h hlimited
      simp [Budget.limited] at hfalse
    | symlink =>
      obtain ⟨hseens, hopen, hroom⟩ := ih h hlimited
      exact ⟨⟨rfl, hseens⟩, hopen, hroom⟩
    | other =>
      obtain ⟨hseens, hopen, hroom⟩ := ih h hlimited
      exact ⟨⟨rfl, hseens⟩, hopen, hroom⟩
    | dir resolves failed entries =>
      simp only [partitionSortedEntries, hskip, Bool.false_eq_true, if_false] at h
      obtain ⟨allow, hallow, h⟩ := except_bind_eq_ok.mp h
      have hresolves : resolves = true := by
        cases resolves
        · cases hallow
        · rfl
      have hnone : yieldsOf c path (n, Entry.dir resolves failed entries) = [] := rfl
      rw [List.flatMap_cons, hnone, List.nil_append]
      split_ifs at h
      · obtain ⟨p', hp', rfl⟩ := except_last_eq_ok.mp h
        obtain ⟨hseens, hopen, hroom⟩ := ih hp' hlimited
        exact ⟨⟨hresolves, hseens⟩, hopen, hroom⟩
      · obtain ⟨hseens, hopen, hroom⟩ := ih h hlimited
        exact ⟨⟨hresolves, hseens⟩, hopen, hroom⟩
    | file f =>
      rw [partitionSortedEntries] at h
      obtain ⟨allow, hallow, h⟩ := except_bind_eq_ok.mp h
      have hresolves : f.resolves = true := by
        cases hf : f.resolves with
        | false =>
          rw [Coverage.allowed, hf] at hallow
          cases hallow
        | true => rfl
      rw [Coverage.allowed, if_pos hresolves] at hallow
      obtain rfl := Except.ok.inj hallow
      rw [List.flatMap_cons]
      cases hignored : c.ignored (path ++ [n]) with
      | true =>
        have hfile : yieldsOf c path (n, Entry.file f) = [] := by simp [yieldsOf, hignored]
        rw [hignored] at h
        obtain ⟨hseens, hopen, hroom⟩ := ih h hlimited
        rw [hfile]
        exact ⟨⟨hresolves, hseens⟩, hopen, hroom⟩
      | false =>
        have hfile : yieldsOf c path (n, Entry.file f) = [(path ++ [n], f)] := by
          simp [yieldsOf, hignored]
        rw [hignored, if_pos (by rfl)] at h
        rw [hfile]
        simp only [List.singleton_append, List.length_cons, sizes, List.map_cons, List.sum_cons]
        by_cases hone : b.HasRoom 1 f.size
        · obtain ⟨hconsumed, hfirst⟩ := consumeFile_of_hasRoom hone
          rw [if_pos hconsumed] at h
          obtain ⟨p', hp', rfl⟩ := except_last_eq_ok.mp h
          obtain ⟨hseens, hopen, hroom⟩ := ih hp' hlimited
          have hzero : (b.consumeFile f).2.HasRoom 0 0 := hfirst.hasRoom_iff.mpr hone
          rw [Nat.add_comm _ 1]
          exact ⟨⟨hresolves, hseens⟩, hfirst.limited.symm.trans hopen,
            fun _ => hfirst.hasRoom_iff.mp (hroom hzero)⟩
        · obtain ⟨hnot, hfull⟩ := consumeFile_of_not_hasRoom hone
          rw [if_neg (by simp [hnot]), if_pos hfull] at h
          obtain rfl := Except.ok.inj h
          rw [hfull] at hlimited
          cases hlimited

/-! ### Sums over a directory -/

def itemsOf (y : Path × FileEntry) : List Item := y.2.content.toList.map (Prod.mk y.1)

lemma readFiles_eq_ok {files : List (Path × FileEntry)} {items : List Item} :
    readFiles files = .ok items ↔
      (∀ y ∈ files, y.2.Steady) ∧ items = files.flatMap itemsOf := by
  induction files generalizing items with
  | nil => simp [readFiles, eq_comm]
  | cons y rest ih =>
    obtain ⟨p, f⟩ := y
    rw [readFiles, List.forall_mem_cons, List.flatMap_cons]
    cases hbefore : f.before with
    | none => simp [FileEntry.Steady, hbefore]
    | some before =>
      cases hcontent : f.content with
      | none => simp [FileEntry.Steady, hcontent]
      | some content =>
        cases hafter : f.after with
        | none => simp [FileEntry.Steady, hbefore, hafter]
        | some after =>
          by_cases hsame : before = after
          · simp only [hsame, ne_eq, not_true, if_false]
            rw [except_bind_eq_ok]
            simp [ih, FileEntry.Steady, hbefore, hcontent, hafter, hsame, itemsOf]
            grind
          · simp [FileEntry.Steady, hbefore, hafter, hsame]

/-- A directory with what it holds. -/
def Dir.weight (c : Coverage) (d : Dir) : Nat × Nat × Nat := (1, 0, 0) + weights c d.path d.entries

/-- A directory whose files and directories can all be read. -/
def Dir.Sound (c : Coverage) (maxEntries : Nat) (d : Dir) : Prop :=
  Listed c maxEntries d.failed d.entries ∧ AllSound c maxEntries d.path d.entries

def Dir.order (c : Coverage) (d : Dir) : List Item := Workspace.order c d.path d.entries

/-- The entries of a directory, in the order in which the scan takes them. -/
def Dir.sorted (c : Coverage) (d : Dir) : List (FileName × Entry) :=
  sortEntries c (kept c d.entries)

lemma weight_eq (e : FileName × Entry) : e.2.weight c (path ++ [e.1]) =
    (0, (yieldsOf c path e).length, sizes (yieldsOf c path e)) +
      ((dirsOf c path e).map (Dir.weight c)).sum := by
  obtain ⟨n, e⟩ := e
  cases e with
  | missing => rfl
  | symlink => rfl
  | other => rfl
  | file f =>
    rw [Entry.weight, yieldsOf]
    cases c.ignored (path ++ [n]) with
    | true => rfl
    | false => simp [dirsOf, sizes]
  | dir resolves failed entries =>
    rw [Entry.weight, dirsOf]
    cases c.ignored (path ++ [n]) with
    | true => rfl
    | false => simp [yieldsOf, sizes, Dir.weight]

lemma sound_iff (e : FileName × Entry) : e.2.Sound c maxEntries (path ++ [e.1]) ↔
    examined e = true ∧ (∀ y ∈ yieldsOf c path e, y.2.Steady) ∧
      ∀ d ∈ dirsOf c path e, d.Sound c maxEntries := by
  obtain ⟨n, e⟩ := e
  cases e with
  | missing => simp [Entry.Sound, examined]
  | symlink => simp [Entry.Sound, examined, yieldsOf, dirsOf]
  | other => simp [Entry.Sound, examined, yieldsOf, dirsOf]
  | file f =>
    simp only [Entry.Sound, examined, yieldsOf, dirsOf]
    cases c.ignored (path ++ [n]) <;> simp
  | dir resolves failed entries =>
    simp only [Entry.Sound, examined, yieldsOf, dirsOf]
    cases c.ignored (path ++ [n]) <;> simp [Dir.Sound]

lemma files_part (e : FileName × Entry) :
    (e.2.part c (path ++ [e.1])).files = (yieldsOf c path e).flatMap itemsOf := by
  obtain ⟨n, e⟩ := e
  cases e with
  | missing => rfl
  | symlink => rfl
  | other => rfl
  | file f =>
    rw [Entry.part, yieldsOf]
    cases c.ignored (path ++ [n]) with
    | true => rfl
    | false => cases hcontent : f.content <;> simp [itemsOf, hcontent, Part.files]
  | dir resolves failed entries =>
    rw [Entry.part]
    cases c.ignored (path ++ [n]) <;> rfl

lemma below_part (e : FileName × Entry) :
    (e.2.part c (path ++ [e.1])).below = (dirsOf c path e).flatMap (Dir.order c) := by
  obtain ⟨n, e⟩ := e
  cases e with
  | missing => rfl
  | symlink => rfl
  | other => rfl
  | file f =>
    rw [Entry.part]
    cases c.ignored (path ++ [n]) with
    | true => rfl
    | false => cases hcontent : f.content <;> rfl
  | dir resolves failed entries =>
    rw [Entry.part, dirsOf]
    cases c.ignored (path ++ [n]) <;> simp [Part.below, Dir.order, order]

namespace Dir

variable (d : Dir)

lemma perm_sorted : (d.sorted c).Perm (kept c d.entries) := List.perm_insertionSort _ _

lemma kept_sorted : ∀ e ∈ d.sorted c, c.excludes e.1 = false := by
  intro e he
  have hkept := (List.mem_filter.mp (d.perm_sorted.mem_iff.mp he)).2
  simpa using hkept

lemma weight_sorted : d.weight c =
    (1, ((d.sorted c).flatMap (yieldsOf c d.path)).length,
      sizes ((d.sorted c).flatMap (yieldsOf c d.path))) +
      (((d.sorted c).flatMap (dirsOf c d.path)).map (Dir.weight c)).sum := by
  rw [Dir.weight, weights_eq, ← (d.perm_sorted.map _).sum_eq]
  have hsum (es : List (FileName × Entry)) :
      (es.map fun e => e.2.weight c (d.path ++ [e.1])).sum =
        (0, (es.flatMap (yieldsOf c d.path)).length, sizes (es.flatMap (yieldsOf c d.path))) +
          ((es.flatMap (dirsOf c d.path)).map (Dir.weight c)).sum := by
    induction es with
    | nil => rfl
    | cons e rest ih =>
      rw [List.map_cons, List.sum_cons, ih, weight_eq]
      simp only [List.flatMap_cons, List.length_append, sizes, List.map_append, List.sum_append]
      ext <;> simp <;> omega
  have hone (n m : Nat) : ((1, 0, 0) + (0, n, m) : Nat × Nat × Nat) = (1, n, m) := by simp
  rw [hsum, ← add_assoc, hone]

lemma sound_sorted : d.Sound c maxEntries ↔ Listed c maxEntries d.failed d.entries ∧
    (∀ e ∈ d.sorted c, examined e = true) ∧
      (∀ y ∈ (d.sorted c).flatMap (yieldsOf c d.path), y.2.Steady) ∧
      ∀ d' ∈ (d.sorted c).flatMap (dirsOf c d.path), d'.Sound c maxEntries := by
  rw [Dir.Sound, allSound_iff]
  simp only [← d.perm_sorted.mem_iff, sound_iff, List.mem_flatMap]
  refine and_congr_right fun _ => ?_
  constructor
  · intro h
    exact ⟨fun e he => (h e he).1, fun y ⟨e, he, hy⟩ => (h e he).2.1 y hy,
      fun d' ⟨e, he, hd⟩ => (h e he).2.2 d' hd⟩
  · rintro ⟨hseen, hsteady, hsound⟩ e he
    exact ⟨hseen e he, fun y hy => hsteady y ⟨e, he, hy⟩, fun d' hd => hsound d' ⟨e, he, hd⟩⟩

lemma order_sorted : d.order c =
    ((d.sorted c).flatMap (yieldsOf c d.path)).flatMap itemsOf ++
      ((d.sorted c).flatMap (dirsOf c d.path)).flatMap (Dir.order c) := by
  have hsorted : (parts c d.path d.entries).insertionSort (fun x y => c.key x.1 ≤ c.key y.1) =
      (d.sorted c).map fun e => (e.1, e.2.part c (d.path ++ [e.1])) := by
    rw [parts_eq, Dir.sorted, sortEntries]
    exact (List.map_insertionSort (fun x y : FileName × Entry => c.key x.1 ≤ c.key y.1)
      (fun x y : FileName × Part => c.key x.1 ≤ c.key y.1) _ _ fun _ _ _ _ => Iff.rfl).symm
  rw [Dir.order, Workspace.order, arrange, hsorted]
  simp only [List.flatMap_map, files_part, below_part, List.flatMap_assoc]

end Dir

/-! ### The whole scan -/

def stackWeight (c : Coverage) (stack : List Dir) : Nat × Nat × Nat :=
  (stack.map (Dir.weight c)).sum

variable {room : Nat} {stack : List Dir} {items : List Item}

lemma stackWeight_cons (d : Dir) : stackWeight c (d :: stack) =
    (1, ((d.sorted c).flatMap (yieldsOf c d.path)).length,
      sizes ((d.sorted c).flatMap (yieldsOf c d.path))) +
      stackWeight c ((d.sorted c).flatMap (dirsOf c d.path) ++ stack) := by
  rw [stackWeight, List.map_cons, List.sum_cons, d.weight_sorted, stackWeight, List.map_append,
    List.sum_append, add_assoc]

/-- The step of the walk at a directory that is listed to its end. -/
lemma walk_listed {d : Dir} (hlisted : Listed c b.maxDirEntries d.failed d.entries) :
    walk c (room + 1) (d :: stack) b =
      partitionSortedEntries c d.path (d.sorted c) b >>= fun p =>
      readFiles p.yielded >>= fun items =>
      if p.stop then .ok (items, p.budget)
      else walk c room (p.dirs ++ stack) p.budget >>= fun later =>
        .ok (items ++ later.1, later.2) := by
  obtain ⟨hok, hpaths⟩ := collectBoundedDirEntries_spec b.maxDirEntries d
  obtain ⟨hentries, hread⟩ := hok.mpr hlisted
  rw [walk]
  simp only [hentries, hread, hpaths hentries, Bool.or_false]
  rfl

/-- A scan that has room reads everything in order. -/
lemma walk_of_hasRoom (hsound : ∀ d ∈ stack, d.Sound c b.maxDirEntries)
    (hdirs : (stackWeight c stack).1 ≤ room)
    (hroom : b.HasRoom (stackWeight c stack).2.1 (stackWeight c stack).2.2)
    (hopen : b.limited = false) :
    ∃ b', walk c room stack b = .ok (stack.flatMap (Dir.order c), b') ∧ b'.limited = false := by
  induction room generalizing stack b with
  | zero =>
    cases stack with
    | nil => exact ⟨b, rfl, hopen⟩
    | cons d stack =>
      rw [stackWeight_cons] at hdirs
      simp at hdirs
  | succ room ih =>
    cases stack with
    | nil => exact ⟨b, rfl, hopen⟩
    | cons d stack =>
      obtain ⟨hd, hstack⟩ := List.forall_mem_cons.mp hsound
      obtain ⟨hlisted, hexamined, hsteady, hsub⟩ := d.sound_sorted.mp hd
      rw [stackWeight_cons] at hdirs hroom
      simp only [Prod.fst_add, Prod.snd_add] at hdirs hroom
      have hone := hroom.mono (Nat.le_add_right _ _) (Nat.le_add_right _ _)
      obtain ⟨b', hpartition, hspent⟩ := partition_of_hasRoom d.kept_sorted hexamined hone
      have hnext : ∀ d' ∈ (d.sorted c).flatMap (dirsOf c d.path) ++ stack,
          d'.Sound c b'.maxDirEntries := by
        rw [hspent.maxDirEntries]
        intro d' hd'
        rcases List.mem_append.mp hd' with hd' | hd'
        · exact hsub d' hd'
        · exact hstack d' hd'
      obtain ⟨b'', hwalk, hlimited⟩ := ih hnext (by omega) (hspent.hasRoom_iff.mpr hroom)
        (hspent.limited.trans hopen)
      refine ⟨b'', ?_, hlimited⟩
      rw [walk_listed hlisted]
      refine except_bind_eq_ok.mpr ⟨_, hpartition, ?_⟩
      refine except_bind_eq_ok.mpr ⟨_, readFiles_eq_ok.mpr ⟨hsteady, rfl⟩, ?_⟩
      refine except_bind_eq_ok.mpr ⟨_, hwalk, ?_⟩
      rw [List.flatMap_cons, d.order_sorted, List.flatMap_append, List.append_assoc]

/-- A directory that a scan goes through uncut is listed to its end. -/
lemma listed_of_partition {d : Dir} {p : Partition}
    (h : partitionSortedEntries c d.path
      (sortEntries c (collectBoundedDirEntries c d b.maxDirEntries).paths)
      { b with
        entryLimited := b.entryLimited ||
          (collectBoundedDirEntries c d b.maxDirEntries).entryLimited
        readFailed := b.readFailed || (collectBoundedDirEntries c d b.maxDirEntries).readFailed } =
      .ok p) (hlimited : p.budget.limited = false) :
    Listed c b.maxDirEntries d.failed d.entries ∧ b.limited = false ∧
      partitionSortedEntries c d.path (d.sorted c) b = .ok p := by
  have hcollected : ∀ e ∈ sortEntries c (collectBoundedDirEntries c d b.maxDirEntries).paths,
      c.excludes e.1 = false := fun e he =>
    excludes_of_mem_collectLoop d.failed 0 [] d.entries (by simp) e
      ((List.mem_insertionSort _).mp he)
  obtain ⟨-, hopen, -⟩ := hasRoom_of_partition hcollected h hlimited
  simp only [Budget.limited, Bool.or_eq_false_iff] at hopen
  obtain ⟨⟨⟨⟨hfile, hdir⟩, hentry, hentries⟩, hbyte⟩, hfailed, hread⟩ := hopen
  obtain ⟨hok, hpaths⟩ := collectBoundedDirEntries_spec b.maxDirEntries d
  refine ⟨hok.mp ⟨hentries, hread⟩, ?_, ?_⟩
  · simp [Budget.limited, hfile, hdir, hentry, hbyte, hfailed]
  · simp only [hentries, hread, hpaths hentries, Bool.or_false] at h
    exact h

/-- A scan does not forget that it was cut. -/
lemma limited_of_walk (h : walk c room stack b = .ok (items, b')) (hlimited : b'.limited = false) :
    b.limited = false := by
  induction room generalizing stack b items with
  | zero =>
    cases stack with
    | nil =>
      obtain ⟨-, rfl⟩ := Prod.mk.inj (Except.ok.inj h)
      exact hlimited
    | cons d stack =>
      obtain ⟨-, rfl⟩ := Prod.mk.inj (Except.ok.inj h)
      simp [Budget.limited] at hlimited
  | succ room ih =>
    cases stack with
    | nil =>
      obtain ⟨-, rfl⟩ := Prod.mk.inj (Except.ok.inj h)
      exact hlimited
    | cons d stack =>
      obtain ⟨p, hp, h⟩ := except_bind_eq_ok.mp h
      refine (listed_of_partition hp ?_).2.1
      obtain ⟨read, hread, h⟩ := except_bind_eq_ok.mp h
      split_ifs at h
      · obtain ⟨-, rfl⟩ := Prod.mk.inj (Except.ok.inj h)
        exact hlimited
      · obtain ⟨later, hlater, h⟩ := except_last_eq_ok.mp h
        obtain ⟨-, rfl⟩ := Prod.mk.inj h
        exact ih hlater

/-- A scan that no bound cut had room for everything. -/
lemma hasRoom_of_walk (hb : b.HasRoom 0 0) (h : walk c room stack b = .ok (items, b'))
    (hlimited : b'.limited = false) :
    (∀ d ∈ stack, d.Sound c b.maxDirEntries) ∧ (stackWeight c stack).1 ≤ room ∧
      b.HasRoom (stackWeight c stack).2.1 (stackWeight c stack).2.2 := by
  induction room generalizing stack b items with
  | zero =>
    cases stack with
    | nil => exact ⟨by simp, le_rfl, hb⟩
    | cons d stack =>
      obtain ⟨-, rfl⟩ := Prod.mk.inj (Except.ok.inj h)
      simp [Budget.limited] at hlimited
  | succ room ih =>
    cases stack with
    | nil => exact ⟨by simp, Nat.zero_le _, hb⟩
    | cons d stack =>
      obtain ⟨p, hp, h⟩ := except_bind_eq_ok.mp h
      obtain ⟨read, hread, h⟩ := except_bind_eq_ok.mp h
      have hnot : p.budget.limited = false := by
        split_ifs at h
        · obtain ⟨-, rfl⟩ := Prod.mk.inj (Except.ok.inj h)
          exact hlimited
        · obtain ⟨later, hlater, h⟩ := except_last_eq_ok.mp h
          obtain ⟨-, rfl⟩ := Prod.mk.inj h
          exact limited_of_walk hlater hlimited
      obtain ⟨hlisted, -, hp⟩ := listed_of_partition hp hnot
      obtain ⟨hexamined, -, hroom⟩ := hasRoom_of_partition d.kept_sorted hp hnot
      obtain ⟨b₁, hp', hspent⟩ := partition_of_hasRoom d.kept_sorted hexamined (hroom hb)
      rw [hp] at hp'
      obtain rfl := Except.ok.inj hp'
      obtain ⟨later, hlater, h⟩ := except_last_eq_ok.mp h
      obtain ⟨-, rfl⟩ := Prod.mk.inj h
      have hzero : b₁.HasRoom 0 0 := hspent.hasRoom_iff.mpr (hroom hb)
      obtain ⟨hsound, hdirs, hrest⟩ := ih hzero hlater
      rw [hspent.maxDirEntries] at hsound
      have hsub : d.Sound c b.maxDirEntries :=
        d.sound_sorted.mpr ⟨hlisted, hexamined, (readFiles_eq_ok.mp hread).1,
          fun d' hd' => hsound d' (List.mem_append_left _ hd')⟩
      rw [stackWeight_cons, List.forall_mem_cons]
      refine ⟨⟨hsub, fun d' hd' => hsound d' (List.mem_append_right _ hd')⟩, ?_,
        hspent.hasRoom_iff.mp hrest⟩
      rw [Prod.fst_add, Nat.add_comm]
      exact Nat.succ_le_succ hdirs

end Workspace

end Codey
