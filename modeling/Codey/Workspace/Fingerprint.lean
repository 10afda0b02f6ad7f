import Codey.Lib.Json
import Codey.Workspace.ScanOrder

/-!
# Fingerprints of a workspace

The digest of the covered files of a project. It tells trees apart by what they cover, except
where names in a directory differ only in case, and except for a project whose own directory has
an excluded name.
-/

namespace Codey

namespace Workspace

/-! ### The program -/

def fingerprintExcludedDirs : List String :=
  [".git", ".hg", ".svn", ".codey", ".idea", ".vscode", ".venv", "venv", "node_modules",
    "__pycache__", ".pytest_cache", ".mypy_cache", ".ruff_cache", ".next", ".turbo",
    ".e2e-artifacts", ".agents", ".codex", ".github", "dist", "build", "target", "coverage",
    "codey.egg-info", "reference-projects"]

def maxFingerprintFiles : Nat := 5000
def maxFingerprintDirs : Nat := 500
def maxFingerprintDirEntries : Nat := 1000
def maxFingerprintContentBytes : Nat := 512 * 1024 * 1024
def coverageRuleVersion : Int := 2

/-- What the program takes from the host: the text of a file name, its lower case, the JSON text of
a value, and the bytes of a hexadecimal digest. -/
structure Host where
  name : FileName → String
  lower : String → String
  dumps : Json → List UInt8
  sha256 : List UInt8 → List UInt8

/-- Digests tell contents apart, and no digit is a zero byte. -/
structure Host.Lawful (host : Host) : Prop where
  injective : Function.Injective host.sha256
  digits : ∀ data, 0x00 ∉ host.sha256 data

/-- A project, apart from its files: what is there at its path, the name of its directory, what its
configuration says, and the paths that the caller ignores. -/
structure Project where
  host : Host
  isDir : Bool
  name : FileName
  warnings : List String
  configIgnored : List String
  ignoredPaths : List String

structure Tree where
  failed : Bool
  entries : List (FileName × Entry)
  named : Named entries

def Tree.root (t : Tree) : Dir := ⟨[], t.failed, t.entries⟩

namespace Project

variable (p : Project)

/-- `tuple(sorted(set(ignored_paths) | set(configured.config.ignored_paths)))` -/
def ignores : List String := (p.ignoredPaths ++ p.configIgnored).dedup.insertionSort (· ≤ ·)

def coverage : Coverage where
  name := p.host.name
  lower := p.host.lower
  excludedDirs := fingerprintExcludedDirs
  ignores := p.ignores

def header : List UInt8 :=
  p.host.dumps (.obj [
    ("excluded_dirs", .arr ((fingerprintExcludedDirs.insertionSort (· ≤ ·)).map .str)),
    ("ignored_paths", .arr (p.ignores.map .str)),
    ("version", .int coverageRuleVersion)])

/-- `child.relative_to(root).as_posix()` -/
def relBytes : Path → List UInt8
  | [] => []
  | [n] => n.bytes
  | n :: rest => n.bytes ++ 0x2F :: relBytes rest

/-- `b"file\0"` -/
def fileTag : List UInt8 := [0x66, 0x69, 0x6C, 0x65, 0x00]

def record (x : Item) : List UInt8 :=
  fileTag ++ (relBytes x.1 ++ 0x00 :: (p.host.sha256 x.2 ++ [0x00]))

def startBudget : Budget where
  maxFiles := maxFingerprintFiles
  maxDirEntries := maxFingerprintDirEntries
  maxBytes := some maxFingerprintContentBytes

def iterBoundedFiles (t : Tree) : Except String (List Item × Budget) :=
  if p.coverage.excludes p.name then .ok ([], startBudget)
  else walk p.coverage maxFingerprintDirs [t.root] startBudget

/-- The bound that a scan has met, if any. -/
def cutReason (b : Budget) : Option String :=
  if b.readFailed then some "directory_read_failed"
  else if b.dirLimited then some "directory_limit"
  else if b.fileLimited then some "file_limit"
  else if b.entryLimited then some "directory_entry_limit"
  else if b.byteLimited then some "content_limit"
  else none

/-- `b"sha256:"` -/
def shaTag : List UInt8 := [0x73, 0x68, 0x61, 0x32, 0x35, 0x36, 0x3A]

/-- The digest of files in the order in which they are read. -/
def digest (items : List Item) : List UInt8 :=
  shaTag ++ p.host.sha256 (p.header ++ items.flatMap p.record)

def certify (scan : List Item × Budget) : Except String (List UInt8) :=
  match cutReason scan.2 with
  | some reason => .error reason
  | none => .ok (p.digest scan.1)

def scanWorkspaceFingerprint (t : Tree) : Except String (List UInt8) :=
  if ¬ p.isDir then .error "project_unavailable"
  else if p.warnings ≠ [] then .error "invalid_scan_configuration"
  else p.iterBoundedFiles t >>= p.certify

def workspaceFingerprint (t : Tree) : List UInt8 :=
  (p.scanWorkspaceFingerprint t).toOption.getD []

end Project

/-! ### Records -/

/-- A separator that is in neither front tells where both end. -/
lemma append_separator_inj {sep : UInt8} {x y r s : List UInt8} (hx : sep ∉ x) (hy : sep ∉ y)
    (h : x ++ sep :: r = y ++ sep :: s) : x = y ∧ r = s := by
  induction x generalizing y with
  | nil =>
    cases y with
    | nil => exact ⟨rfl, (List.cons.inj h).2⟩
    | cons b y =>
      obtain rfl := (List.cons.inj h).1
      exact absurd List.mem_cons_self hy
  | cons a x ih =>
    cases y with
    | nil =>
      obtain rfl := (List.cons.inj h).1
      exact absurd List.mem_cons_self hx
    | cons b y =>
      obtain ⟨hab, hrest⟩ := List.cons.inj h
      obtain ⟨hxy, hrs⟩ := ih (fun hmem => hx (List.mem_cons_of_mem _ hmem))
        (fun hmem => hy (List.mem_cons_of_mem _ hmem)) hrest
      exact ⟨by rw [hab, hxy], hrs⟩

namespace Project

lemma relBytes_cons (n m : FileName) (rest : Path) :
    relBytes (n :: m :: rest) = n.bytes ++ 0x2F :: relBytes (m :: rest) := rfl

lemma zero_notMem_relBytes (path : Path) : 0x00 ∉ relBytes path := by
  induction path with
  | nil => exact List.not_mem_nil
  | cons n rest ih =>
    cases rest with
    | nil => exact n.valid.2.1
    | cons m rest =>
      rw [relBytes_cons, List.mem_append, List.mem_cons, not_or, not_or]
      exact ⟨n.valid.2.1, by decide, ih⟩

lemma relBytes_ne_nil (n : FileName) (rest : Path) : relBytes (n :: rest) ≠ [] := by
  cases rest with
  | nil => exact n.valid.1
  | cons m rest => simp [relBytes_cons]

lemma fileName_ext {n m : FileName} (h : n.bytes = m.bytes) : n = m := by
  cases n
  cases m
  congr

lemma relBytes_injective : Function.Injective relBytes := by
  intro path
  induction path with
  | nil =>
    intro other h
    cases other with
    | nil => rfl
    | cons m other => exact absurd h.symm (relBytes_ne_nil m other)
  | cons n rest ih =>
    intro other h
    cases other with
    | nil => exact absurd h (relBytes_ne_nil n rest)
    | cons m other =>
      cases rest with
      | nil =>
        cases other with
        | nil => rw [fileName_ext h]
        | cons k other =>
          have h : n.bytes = m.bytes ++ 0x2F :: relBytes (k :: other) := h
          exact absurd (h ▸ List.mem_append_right _ List.mem_cons_self) n.valid.2.2
      | cons l rest =>
        cases other with
        | nil =>
          have h : n.bytes ++ 0x2F :: relBytes (l :: rest) = m.bytes := h
          exact absurd (h ▸ List.mem_append_right _ List.mem_cons_self) m.valid.2.2
        | cons k other =>
          rw [relBytes_cons, relBytes_cons] at h
          obtain ⟨hbytes, h⟩ := append_separator_inj n.valid.2.2 m.valid.2.2 h
          rw [fileName_ext hbytes, ih h]

variable {p : Project}

/-- The records of a scan can be read back. -/
lemma records_injective (h : p.host.Lawful) :
    Function.Injective fun items : List Item => items.flatMap p.record := by
  intro items
  induction items with
  | nil =>
    intro others heq
    cases others with
    | nil => rfl
    | cons y others => simp [record, fileTag] at heq
  | cons x items ih =>
    intro others heq
    cases others with
    | nil => simp [record, fileTag] at heq
    | cons y others =>
      simp only [List.flatMap_cons, record, List.append_assoc, List.append_cancel_left_eq,
        List.cons_append, List.nil_append] at heq
      obtain ⟨hpath, heq⟩ :=
        append_separator_inj (zero_notMem_relBytes x.1) (zero_notMem_relBytes y.1) heq
      obtain ⟨hdigest, heq⟩ :=
        append_separator_inj (h.digits x.2) (h.digits y.2) heq
      rw [ih heq, Prod.ext (relBytes_injective hpath) (h.injective hdigest)]

/-! ### When there is a fingerprint -/

/-- The tree is within the bounds of the scan, and all of it that the scan meets can be read. -/
structure Scannable (p : Project) (t : Tree) : Prop where
  sound : t.root.Sound p.coverage maxFingerprintDirEntries
  dirs : (t.root.weight p.coverage).1 ≤ maxFingerprintDirs
  files : (t.root.weight p.coverage).2.1 ≤ maxFingerprintFiles
  bytes : (t.root.weight p.coverage).2.2 ≤ maxFingerprintContentBytes

lemma cutReason_eq_none {b : Budget} : cutReason b = none ↔ b.limited = false := by
  unfold cutReason Budget.limited
  split_ifs with h₁ h₂ h₃ h₄ h₅ <;> simp_all

lemma digest_inj (h : p.host.Lawful) {items items' : List Item} :
    p.digest items = p.digest items' ↔ items = items' := by
  refine ⟨fun heq => ?_, fun heq => by rw [heq]⟩
  exact records_injective h (List.append_cancel_left
    (h.injective (List.append_cancel_left heq)))

lemma hasRoom_start {n : Nat × Nat × Nat} : startBudget.HasRoom n.2.1 n.2.2 ↔
    n.2.1 ≤ maxFingerprintFiles ∧ n.2.2 ≤ maxFingerprintContentBytes := by
  simp [Budget.HasRoom, startBudget]

lemma stackWeight_root (t : Tree) : stackWeight p.coverage [t.root] = t.root.weight p.coverage := by
  simp [stackWeight]

/-- A scan within its bounds reads the covered files in order. -/
lemma Scannable.walk {t : Tree} (h : p.Scannable t) : ∃ b,
    Workspace.walk p.coverage maxFingerprintDirs [t.root] startBudget =
      .ok (order p.coverage [] t.entries, b) ∧ b.limited = false := by
  have hsound : ∀ d ∈ [t.root], d.Sound p.coverage startBudget.maxDirEntries :=
    List.forall_mem_singleton.mpr h.sound
  have hdirs : (stackWeight p.coverage [t.root]).1 ≤ maxFingerprintDirs := by
    rw [stackWeight_root]
    exact h.dirs
  have hroom : startBudget.HasRoom (stackWeight p.coverage [t.root]).2.1
      (stackWeight p.coverage [t.root]).2.2 := by
    rw [stackWeight_root, hasRoom_start]
    exact ⟨h.files, h.bytes⟩
  obtain ⟨b, hwalk, hlimited⟩ := walk_of_hasRoom hsound hdirs hroom rfl
  rw [List.flatMap_singleton] at hwalk
  exact ⟨b, hwalk, hlimited⟩

lemma scannable_of_walk {t : Tree} {items : List Item} {b : Budget}
    (h : Workspace.walk p.coverage maxFingerprintDirs [t.root] startBudget = .ok (items, b))
    (hlimited : b.limited = false) : p.Scannable t := by
  have hzero : startBudget.HasRoom 0 0 := ⟨Nat.zero_le _, fun _ _ => Nat.zero_le _⟩
  obtain ⟨hsound, hdirs, hroom⟩ := hasRoom_of_walk hzero h hlimited
  rw [stackWeight_root] at hdirs hroom
  obtain ⟨hfiles, hbytes⟩ := hasRoom_start.mp hroom
  exact ⟨hsound _ List.mem_cons_self, hdirs, hfiles, hbytes⟩

lemma digest_ne_nil (items : List Item) : p.digest items ≠ [] := by
  simp [digest, shaTag]

/-- Whether a project can have a fingerprint at all. -/
def available (p : Project) : Bool := p.isDir && p.warnings.isEmpty

lemma workspaceFingerprint_of_not_available (h : p.available = false) (t : Tree) :
    p.workspaceFingerprint t = [] := by
  rw [available, Bool.and_eq_false_iff] at h
  rw [workspaceFingerprint, scanWorkspaceFingerprint]
  rcases h with h | h
  · simp [h, Except.toOption]
  · have hwarned : p.warnings ≠ [] := by simpa using h
    by_cases hdir : p.isDir = true
    · simp [hdir, hwarned, Except.toOption]
    · simp [hdir, Except.toOption]

lemma certify_of_not_limited {scan : List Item × Budget} (h : scan.2.limited = false) :
    p.certify scan = .ok (p.digest scan.1) := by
  rw [certify, cutReason_eq_none.mpr h]

lemma certify_of_limited (p : Project) (scan : List Item × Budget) (h : scan.2.limited = true) :
    ∃ reason, p.certify scan = .error reason := by
  cases hcut : cutReason scan.2 with
  | none =>
    rw [cutReason_eq_none, h] at hcut
    cases hcut
  | some reason => exact ⟨reason, by rw [certify, hcut]⟩

lemma scanWorkspaceFingerprint_of_available (h : p.available = true) (t : Tree) :
    p.scanWorkspaceFingerprint t = p.iterBoundedFiles t >>= p.certify := by
  rw [available, Bool.and_eq_true] at h
  have hwarned : p.warnings = [] := by simpa using h.2
  rw [scanWorkspaceFingerprint]
  simp only [h.1, hwarned, not_true, if_false, ne_eq]

lemma workspaceFingerprint_of_limited {t : Tree} {items : List Item} {b : Budget}
    (hscan : p.iterBoundedFiles t = .ok (items, b)) (hlimited : b.limited = true) :
    p.workspaceFingerprint t = [] := by
  cases h : p.available with
  | false => exact workspaceFingerprint_of_not_available h t
  | true =>
    obtain ⟨reason, hcertify⟩ := certify_of_limited p (items, b) hlimited
    rw [workspaceFingerprint, scanWorkspaceFingerprint_of_available h, hscan]
    change (p.certify (items, b)).toOption.getD [] = []
    rw [hcertify]
    rfl

lemma workspaceFingerprint_of_excluded (h : p.available = true)
    (hname : p.coverage.excludes p.name = true) (t : Tree) :
    p.workspaceFingerprint t = p.digest [] := by
  rw [workspaceFingerprint, scanWorkspaceFingerprint_of_available h, iterBoundedFiles,
    if_pos hname]
  rfl

lemma workspaceFingerprint_of_scannable (h : p.available = true)
    (hname : p.coverage.excludes p.name = false) {t : Tree} (ht : p.Scannable t) :
    p.workspaceFingerprint t = p.digest (order p.coverage [] t.entries) := by
  obtain ⟨b, hwalk, hlimited⟩ := ht.walk
  rw [workspaceFingerprint, scanWorkspaceFingerprint_of_available h, iterBoundedFiles,
    if_neg (by simp [hname]), hwalk]
  change (p.certify (order p.coverage [] t.entries, b)).toOption.getD [] = _
  rw [certify_of_not_limited hlimited]
  rfl

lemma scannable_of_workspaceFingerprint (h : p.available = true)
    (hname : p.coverage.excludes p.name = false) {t : Tree} (ht : p.workspaceFingerprint t ≠ []) :
    p.Scannable t := by
  have hscan : p.iterBoundedFiles t =
      Workspace.walk p.coverage maxFingerprintDirs [t.root] startBudget := by
    rw [iterBoundedFiles, if_neg (by simp [hname])]
  cases hwalk : Workspace.walk p.coverage maxFingerprintDirs [t.root] startBudget with
  | error reason =>
    refine absurd ?_ ht
    rw [workspaceFingerprint, scanWorkspaceFingerprint_of_available h, hscan, hwalk]
    rfl
  | ok scan =>
    obtain ⟨items, b⟩ := scan
    refine scannable_of_walk hwalk ?_
    rw [Bool.eq_false_iff]
    exact fun hlimited => ht (workspaceFingerprint_of_limited (hscan.trans hwalk) hlimited)

/-! ### What a fingerprint tells -/

/-- The fingerprint of a tree stands for its covered files, and there is none when the scan was
cut. -/
structure Faithful (p : Project) (t : Tree) : Prop where
  uncut : ∀ items b, p.iterBoundedFiles t = .ok (items, b) → b.limited = true →
    p.workspaceFingerprint t = []
  exact : ∀ t', p.workspaceFingerprint t ≠ [] → p.workspaceFingerprint t' ≠ [] →
    (p.workspaceFingerprint t' = p.workspaceFingerprint t ↔
      ∀ x, Covered p.coverage [] t'.entries x ↔ Covered p.coverage [] t.entries x)

def CoversNothing (p : Project) : Prop :=
  ∀ n, p.coverage.excludes n = true ∨ p.coverage.ignored [n] = true

/-- The fingerprint of a tree is faithful, unless the directory of the project has an excluded name
or two covered files are tied. -/
def Told (p : Project) (t : Tree) : Prop :=
  p.available = true →
    if p.coverage.excludes p.name then p.CoversNothing
    else p.Scannable t → Untied p.coverage t.entries

def reversedTree (t : Tree) : Tree :=
  ⟨t.failed, Workspace.reversed t.entries, named_reversed t.named⟩

lemma scannable_reversed {t : Tree} (h : p.Scannable t) : p.Scannable (reversedTree t) := by
  have hweight : (reversedTree t).root.weight p.coverage = t.root.weight p.coverage := by
    rw [Dir.weight, Dir.weight]
    exact congrArg _ (weights_reversed _ _)
  obtain ⟨⟨hlisted, hsound⟩, hdirs, hfiles, hbytes⟩ := h
  rw [← hweight] at hdirs hfiles hbytes
  exact ⟨⟨listed_reversed.mpr hlisted, allSound_reversed hsound⟩, hdirs, hfiles, hbytes⟩

def emptyTree : Tree := ⟨false, [], List.nodup_nil, trivial⟩

def loneTree (n : FileName) : Tree :=
  ⟨false, [(n, .file ⟨0, true, some (0, 0), some [], some (0, 0)⟩)], List.nodup_singleton n,
    trivial, trivial⟩

lemma not_covered_of_coversNothing (h : p.CoversNothing) {es : List (FileName × Entry)} {x : Item} :
    ¬ Covered p.coverage [] es x := by
  intro hx
  cases hx with
  | file _ hkept hallowed _ | dir _ hkept hallowed _ =>
    rcases h _ with hskip | hignored
    · rw [hskip] at hkept
      cases hkept
    · rw [List.nil_append, hignored] at hallowed
      cases hallowed

/-- In a directory of an excluded name, no two trees are told apart. -/
lemma faithful_iff_of_excluded (h : p.available = true) (hname : p.coverage.excludes p.name = true)
    (t : Tree) : p.Faithful t ↔ p.CoversNothing := by
  have hone := workspaceFingerprint_of_excluded h hname
  constructor
  · intro hfaithful n
    by_contra hcovers
    rw [not_or, Bool.not_eq_true, Bool.not_eq_true] at hcovers
    obtain ⟨hkept, hallowed⟩ := hcovers
    have hall : ∀ t' : Tree, ∀ x, Covered p.coverage [] t'.entries x ↔
        Covered p.coverage [] t.entries x := fun t' =>
      (hfaithful.exact t' (by rw [hone]; exact digest_ne_nil [])
        (by rw [hone]; exact digest_ne_nil [])).mp ((hone t').trans (hone t).symm)
    have hlone : Covered p.coverage [] (loneTree n).entries ([n], []) :=
      .file List.mem_cons_self hkept hallowed rfl
    have hempty := (hall emptyTree _).mpr ((hall (loneTree n) _).mp hlone)
    cases hempty with
    | file hmem | dir hmem => cases hmem
  · intro hnothing
    refine ⟨fun items b hscan hlimited => workspaceFingerprint_of_limited hscan hlimited,
      fun t' _ _ => ?_⟩
    rw [hone, hone]
    exact ⟨fun _ x => iff_of_false (not_covered_of_coversNothing hnothing)
      (not_covered_of_coversNothing hnothing), fun _ => rfl⟩

/-- The fingerprint of a tree stands for its covered files exactly when the rest of the project
allows it. -/
theorem faithful_iff_told (hhost : p.host.Lawful) (t : Tree) : p.Faithful t ↔ p.Told t := by
  unfold Told
  cases h : p.available with
  | false =>
    refine ⟨fun _ hfalse => absurd hfalse (by simp), fun _ => ?_⟩
    have hnone := workspaceFingerprint_of_not_available h t
    exact ⟨fun _ _ _ _ => hnone, fun _ hsome => absurd hnone hsome⟩
  | true =>
    refine Iff.trans ?_ ⟨fun htold _ => htold, fun htold => htold rfl⟩
    cases hname : p.coverage.excludes p.name with
    | true =>
      rw [if_pos rfl]
      exact faithful_iff_of_excluded h hname t
    | false =>
      rw [if_neg (by simp)]
      have hsome (t' : Tree) (ht : p.Scannable t') : p.workspaceFingerprint t' ≠ [] := by
        rw [workspaceFingerprint_of_scannable h hname ht]
        exact digest_ne_nil _
      constructor
      · intro hfaithful ht
        have ht' := scannable_reversed ht
        have heq := (hfaithful.exact (reversedTree t) (hsome t ht) (hsome _ ht')).mpr
          fun x => covered_reversed_iff
        rw [workspaceFingerprint_of_scannable h hname ht,
          workspaceFingerprint_of_scannable h hname ht', digest_inj hhost] at heq
        exact fun x y hx hy => not_tied_of_order_eq t.named heq hx hy
      · intro huntied
        refine ⟨fun items b hscan hlimited => workspaceFingerprint_of_limited hscan hlimited,
          fun t' hf hf' => ?_⟩
        have ht := scannable_of_workspaceFingerprint h hname hf
        have ht' := scannable_of_workspaceFingerprint h hname hf'
        rw [workspaceFingerprint_of_scannable h hname ht,
          workspaceFingerprint_of_scannable h hname ht', digest_inj hhost]
        constructor
        · intro heq x
          rw [← mem_order_iff, ← mem_order_iff, heq]
        · intro hsame
          exact (order_eq_of_untied t.named t'.named (huntied ht) fun x => (hsame x).symm).symm

end Project

/-! ### One project -/

def bytesOf (text : String) : List UInt8 := text.toList.map fun ch => UInt8.ofNat ch.toNat

/-- The coverage rules without ignored paths, as they are written into the digest. -/
def plainHeader : List UInt8 :=
  bytesOf ("\x7b\"excluded_dirs\": [\".agents\", \".codex\", \".codey\", \".e2e-artifacts\", \".git\", " ++
    "\".github\", \".hg\", \".idea\", \".mypy_cache\", \".next\", \".pytest_cache\", " ++
    "\".ruff_cache\", \".svn\", \".turbo\", \".venv\", \".vscode\", \"__pycache__\", \"build\", " ++
    "\"codey.egg-info\", \"coverage\", \"dist\", \"node_modules\", \"reference-projects\", " ++
    "\"target\", \"venv\"], \"ignored_paths\": [], \"version\": 2\x7d")

def emptyDigest : List UInt8 :=
  bytesOf "e3b0c44298fc1c149afbf4c8996fb92427ae41e4649b934ca495991b7852b855"

def letterRecords (letters : List UInt8) : List UInt8 :=
  plainHeader ++ letters.flatMap fun letter =>
    Project.fileTag ++ letter :: 0x00 :: (emptyDigest ++ [0x00])

def spread (b : UInt8) : List UInt8 :=
  [UInt8.ofNat (b.toNat / 16 + 0x67), UInt8.ofNat (b.toNat % 16 + 0x67)]

/-- The digests of the inputs below, and a text of its own for every other input. -/
def knownDigest (data : List UInt8) : List UInt8 :=
  if data = [] then emptyDigest
  else if data = letterRecords [0x61, 0x41] then
    bytesOf "06134e2aab435184d53ef578b664898d0da06e3ecf93bd4e1364f6c561ab8cdc"
  else if data = letterRecords [0x41, 0x61] then
    bytesOf "6296ff8c6723ab1502543bc2293209820e2a079338eecb119dac5c967750caae"
  else 0x78 :: data.flatMap spread

def gather : List UInt8 → List UInt8
  | a :: b :: rest => UInt8.ofNat ((a.toNat - 0x67) * 16 + (b.toNat - 0x67)) :: gather rest
  | _ => []

/-- What a digest was made from. -/
def digested (digest : List UInt8) : List UInt8 :=
  if digest = emptyDigest then []
  else if digest = bytesOf "06134e2aab435184d53ef578b664898d0da06e3ecf93bd4e1364f6c561ab8cdc" then
    letterRecords [0x61, 0x41]
  else if digest = bytesOf "6296ff8c6723ab1502543bc2293209820e2a079338eecb119dac5c967750caae" then
    letterRecords [0x41, 0x61]
  else gather digest.tail

lemma gather_flatMap_spread (data : List UInt8) : gather (data.flatMap spread) = data := by
  induction data with
  | nil => rfl
  | cons b data ih =>
    have hlt := b.toNat_lt
    have hhigh : (UInt8.ofNat (b.toNat / 16 + 0x67)).toNat = b.toNat / 16 + 0x67 := by
      rw [UInt8.toNat_ofNat']
      omega
    have hlow : (UInt8.ofNat (b.toNat % 16 + 0x67)).toNat = b.toNat % 16 + 0x67 := by
      rw [UInt8.toNat_ofNat']
      omega
    have hbyte : (b.toNat / 16 + 0x67 - 0x67) * 16 + (b.toNat % 16 + 0x67 - 0x67) = b.toNat := by
      omega
    rw [List.flatMap_cons, spread, List.cons_append, List.cons_append, List.nil_append, gather, ih,
      hhigh, hlow, hbyte, UInt8.ofNat_toNat]

lemma digested_knownDigest (data : List UInt8) : digested (knownDigest data) = data := by
  unfold knownDigest
  split_ifs with hempty hlower hupper
  · rw [digested, if_pos rfl, hempty]
  · rw [digested, if_neg (by decide), if_pos rfl, hlower]
  · rw [digested, if_neg (by decide), if_neg (by decide), if_pos rfl, hupper]
  · have hne (digest : List UInt8) (h : digest.head? ≠ some 0x78) :
        (0x78 :: data.flatMap spread) ≠ digest := by
      rintro rfl
      exact h rfl
    rw [digested, if_neg (hne _ (by decide)), if_neg (hne _ (by decide)),
      if_neg (hne _ (by decide))]
    exact gather_flatMap_spread data

def plainHost : Host where
  name n := String.ofList (n.bytes.map fun b => Char.ofNat b.toNat)
  lower text := String.ofList (text.toList.map Char.toLower)
  dumps _ := plainHeader
  sha256 := knownDigest

lemma plainHost_lawful : plainHost.Lawful := by
  refine ⟨Function.LeftInverse.injective digested_knownDigest, fun data => ?_⟩
  change 0x00 ∉ knownDigest data
  unfold knownDigest
  split_ifs
  · decide
  · decide
  · decide
  · rw [List.mem_cons, List.mem_flatMap]
    rintro (h | ⟨b, -, h⟩)
    · cases h
    · have hlt := b.toNat_lt
      simp only [spread, List.mem_cons, List.not_mem_nil, or_false] at h
      rcases h with h | h
      · have h := congrArg UInt8.toNat h
        rw [UInt8.toNat_ofNat'] at h
        change 0 = _ at h
        omega
      · have h := congrArg UInt8.toNat h
        rw [UInt8.toNat_ofNat'] at h
        change 0 = _ at h
        omega

def plainProject : Project where
  host := plainHost
  isDir := true
  name := ⟨[0x70], by decide⟩
  warnings := []
  configIgnored := []
  ignoredPaths := []

def emptyFile : Entry := .file ⟨0, true, some (0, 0), some [], some (0, 0)⟩

/-- Two empty files, `a` and `A`. -/
def casedTree : Tree where
  failed := false
  entries := [(⟨[0x61], by decide⟩, emptyFile), (⟨[0x41], by decide⟩, emptyFile)]
  named := ⟨by decide, trivial, trivial, trivial⟩

/-- Two empty files, `a` and `b`. -/
def plainTree : Tree where
  failed := false
  entries := [(⟨[0x61], by decide⟩, emptyFile), (⟨[0x62], by decide⟩, emptyFile)]
  named := ⟨by decide, trivial, trivial, trivial⟩

/-- The fingerprint of two files, whose names differ in more than case. -/
theorem faithful_iff_told_plain :
    plainHost.Lawful ∧ plainProject.Faithful plainTree ∧ plainProject.Told plainTree := by
  have hname : plainProject.coverage.excludes plainProject.name = false := by decide +kernel
  have horder : (order plainProject.coverage [] plainTree.entries).map Prod.fst =
      [[⟨[0x61], by decide⟩], [⟨[0x62], by decide⟩]] := by decide +kernel
  have hkey : plainProject.coverage.key ⟨[0x61], by decide⟩ ≠
      plainProject.coverage.key ⟨[0x62], by decide⟩ := by decide +kernel
  have htold : plainProject.Told plainTree := by
    intro _
    rw [if_neg (by simp [hname])]
    intro _ x y hx hy
    have hx := List.mem_map_of_mem (f := Prod.fst) (mem_order_iff.mpr hx)
    have hy := List.mem_map_of_mem (f := Prod.fst) (mem_order_iff.mpr hy)
    rw [horder] at hx hy
    simp only [List.mem_cons, List.not_mem_nil, or_false] at hx hy
    rcases hx with hx | hx <;> rcases hy with hy | hy <;> simp [hx, hy, Tied, hkey, hkey.symm]
  exact ⟨plainHost_lawful, (Project.faithful_iff_told plainHost_lawful plainTree).mpr htold, htold⟩

lemma scannable_cased : plainProject.Scannable casedTree := by
  have hwalk : walk plainProject.coverage maxFingerprintDirs [casedTree.root]
      Project.startBudget = .ok ([([⟨[0x61], by decide⟩], []), ([⟨[0x41], by decide⟩], [])],
        { Project.startBudget with filesSeen := 2 }) := by
    decide +kernel
  exact Project.scannable_of_walk hwalk rfl

/-- The fingerprint of two files, whose names differ only in case, depends on the order in which
their directory is enumerated. -/
theorem not_faithful_cased :
    ¬ ∀ (p : Project) (t : Tree), p.host.Lawful → p.Faithful t := by
  intro h
  have hfaithful := h plainProject casedTree plainHost_lawful
  have havailable : plainProject.available = true := rfl
  have hname : plainProject.coverage.excludes plainProject.name = false := by decide +kernel
  have hprint := Project.workspaceFingerprint_of_scannable havailable hname scannable_cased
  have hback := Project.workspaceFingerprint_of_scannable havailable hname
    (Project.scannable_reversed scannable_cased)
  have hsame := (hfaithful.exact (Project.reversedTree casedTree)
    (by rw [hprint]; exact Project.digest_ne_nil _)
    (by rw [hback]; exact Project.digest_ne_nil _)).mpr fun x => covered_reversed_iff
  rw [hprint, hback, Project.digest_inj plainHost_lawful] at hsame
  have hother : order plainProject.coverage [] (Project.reversedTree casedTree).entries ≠
      order plainProject.coverage [] casedTree.entries := by
    decide +kernel
  exact hother hsame

end Workspace

end Codey
