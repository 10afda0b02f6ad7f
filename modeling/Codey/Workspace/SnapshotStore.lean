import Codey.Lib.Check
import Codey.Lib.Fields
import Codey.Lib.Lines

/-!
# The snapshot store

The first-write baselines of a project: a body file for the content of each path, and a manifest
that refers to the bodies. The loader refuses whatever is inconsistent.
-/

namespace Codey

namespace SnapshotStore

def maxSnapshotFileBytes : Nat := 512 * 1024
def maxSnapshotFiles : Nat := 200
def maxSnapshotTotalBytes : Nat := 32 * 1024 * 1024
def maxSnapshotManifestBytes : Nat := 4 * 1024 * 1024

inductive Failure where
  | corruption (reason : String)
  | value (message : String)
  | os
  deriving DecidableEq

/-- The workspace and the digests that the store looks paths up with. -/
structure Host where
  /-- The path of a name under the root, unless joining them raises. -/
  canonical : String → Option String
  /-- The file name of the body of a path. -/
  bodyName : String → String
  /-- The size of a manifest with these files, as it is written. -/
  manifestBytes : Fields → Nat
  repr : String → String

/-- The files of the store. -/
structure Disk where
  manifest : Option Json
  bodies : String → Option String

/-! ### Loading -/

def readManifest (d : Disk) : Except Failure (Option Fields) :=
  match d.manifest with
  | none => .ok none
  | some (.obj payload) => .ok (some payload)
  | some _ => .error (.corruption "not a dict")

def manifestFilesOrRaise (payload : Fields) : Except Failure Fields :=
  if payload.get? "schema_version" = some (.int 1) then
    match payload.get? "files" with
    | some (.obj files) => .ok files
    | _ => .error (.corruption "manifest files not a dict")
  else .error (.corruption "manifest schema_version")

/-- The digest of a produced version, when an entry has one. -/
def validAfterHash (digest : Option Json) : Bool :=
  match digest with
  | none | some .null => true
  | some (.str digest) => digest = "missing" || "sha256:".toList.isPrefixOf digest.toList
  | some _ => false

def entryFields (entry : Fields) : Bool :=
  entry.all fun member => member.1 = "baseline" || member.1 = "after_hash"

def universal (text : String) : String := String.ofList (universalNewlines text.toList)

/-- `read_text_bounded`, of a body. -/
def readBody (d : Disk) (name : String) : Option String :=
  (d.bodies name).bind fun text =>
    if text.utf8ByteSize ≤ maxSnapshotFileBytes then some (universal text) else none

def contentBytes (content : Option String) : Nat := (content.getD "").utf8ByteSize

structure Loaded where
  before : List (String × Option String) := []
  hashes : List (String × String) := []
  total : Nat := 0
  deriving DecidableEq

/-- The content that an entry refers to. -/
def loadContent (host : Host) (d : Disk) (rel : String) (ref : Json) :
    Except Failure (Option String) :=
  match ref with
  | .null => .ok none
  | ref =>
    if ref = .str (host.bodyName rel) then
      match readBody d (host.bodyName rel) with
      | none => .error (.corruption "baseline body unavailable")
      | some body =>
        if body.utf8ByteSize ≤ maxSnapshotFileBytes then .ok (some body)
        else .error (.corruption "baseline body exceeds budget")
    else .error (.corruption "baseline reference mismatch")

/-- `_safe_join` and `relative_to`, which have to give the name back. -/
def checkCanonical (host : Host) (rel : String) : Except Failure Unit :=
  match host.canonical rel with
  | none => .error (.corruption "invalid baseline path")
  | some canonical => require (canonical = rel) (.corruption "noncanonical baseline path")

/-- One turn of the loader. -/
def loadEntry (host : Host) (d : Disk) (acc : Loaded) (item : String × Json) :
    Except Failure Loaded :=
  require (acc.before.length < maxSnapshotFiles)
    (.corruption "baseline entry limit or path type") >>= fun _ =>
  match item.2 with
  | .obj entry =>
    require (entryFields entry) (.corruption "unknown baseline entry fields") >>= fun _ =>
    match Fields.get? entry "baseline" with
    | none => .error (.corruption "missing baseline reference")
    | some ref =>
      checkCanonical host item.1 >>= fun _ =>
      loadContent host d item.1 ref >>= fun content =>
      require (validAfterHash (Fields.get? entry "after_hash"))
        (.corruption "invalid produced version") >>= fun _ =>
      require (acc.total + contentBytes content ≤ maxSnapshotTotalBytes)
        (.corruption "baseline total budget exceeded") >>= fun _ =>
      .ok { before := acc.before ++ [(item.1, content)]
            hashes := acc.hashes ++ (((Fields.get? entry "after_hash").bind Json.str?).map
              (Prod.mk item.1)).toList
            total := acc.total + contentBytes content }
  | _ => .error (.corruption "baseline entry must be an object")

def load (host : Host) (d : Disk) : Except Failure Loaded :=
  readManifest d >>= fun payload =>
  match payload with
  | none => .ok {}
  | some payload => manifestFilesOrRaise payload >>= fun files => foldE files (loadEntry host d) {}

/-! ### Writing -/

/-- Where an operation is interrupted. A write raises before the file is replaced or after it. -/
inductive Fault where
  /-- The lock, or reading the manifest. -/
  | start
  | body (replaced : Bool)
  /-- The manifest; a body that it does not refer to may be removed then. -/
  | manifest (replaced swept : Bool)
  /-- The removal of a body, whose errors are suppressed. -/
  | bodyKept
  deriving DecidableEq

/-- What an operation leaves: the files, whether the manifest was replaced, and the error. -/
structure Outcome where
  disk : Disk
  published : Bool := false
  error : Option Failure := none

def removeBody (d : Disk) (name : String) (fault : Option Fault) : Disk :=
  if fault = some .bodyKept then d
  else { d with bodies := fun other => if other = name then none else d.bodies other }

def writeBody (d : Disk) (name text : String) : Disk :=
  { d with bodies := fun other => if other = name then some text else d.bodies other }

def manifestJson (files : Fields) : Json := .obj [("files", .obj files), ("schema_version", .int 1)]

/-- `write_json_atomic`, of the manifest, or its deletion with the last entry. -/
def writeManifest (d : Disk) (files : Fields) : Disk :=
  { d with manifest := if files = [] then none else some (manifestJson files) }

/-- The entry that a path has already, and its content. -/
def persistedBaseline (host : Host) (d : Disk) (rel : String) (existing : Json) :
    Except Failure (Option String) :=
  match existing with
  | .obj entry =>
    match Fields.get? entry "baseline" with
    | none => .error (.corruption ("baseline entry schema: " ++ host.repr rel))
    | some ref =>
      require (entryFields entry)
        (.corruption ("baseline entry schema: " ++ host.repr rel)) >>= fun _ =>
      require (ref = .null || ref = .str (host.bodyName rel))
        (.corruption ("baseline body name: " ++ host.repr rel)) >>= fun _ =>
      require (validAfterHash (Fields.get? entry "after_hash"))
        (.corruption ("baseline after_hash: " ++ host.repr rel)) >>= fun _ =>
      match ref, readBody d (host.bodyName rel) with
      | .null, _ => .ok none
      | _, none => .error (.corruption ("baseline body unreadable: " ++ host.repr rel))
      | _, some body =>
        if body.utf8ByteSize ≤ maxSnapshotFileBytes then .ok (some body)
        else .error (.corruption ("baseline body too large: " ++ host.repr rel))
  | _ => .error (.corruption ("baseline entry not an object: " ++ host.repr rel))

/-- The sizes of the bodies that a manifest refers to, as they stand on the disk. -/
def diskTotalBytes (host : Host) (d : Disk) : Nat → Fields → Except Failure Nat
  | total, [] => .ok total
  | total, (rel, entry) :: rest =>
    match entry with
    | .obj members =>
      match Fields.get? members "baseline" with
      | none | some .null => diskTotalBytes host d total rest
      | some (.str name) =>
        if name = host.bodyName rel then
          match d.bodies name with
          | none => .error (.corruption ("baseline body missing: " ++ host.repr rel))
          | some text =>
            if maxSnapshotTotalBytes < total + text.utf8ByteSize then .ok (total + text.utf8ByteSize)
            else diskTotalBytes host d (total + text.utf8ByteSize) rest
        else .error (.corruption ("baseline body name: " ++ host.repr rel))
      | some _ => .error (.corruption ("baseline body name: " ++ host.repr rel))
    | _ => diskTotalBytes host d total rest

def readFiles (d : Disk) : Except Failure (Option Fields) :=
  readManifest d >>= fun payload =>
  match payload with
  | none => .ok none
  | some payload => manifestFilesOrRaise payload >>= fun files => .ok (some files)

/-- What `put_baseline` checks before it writes. It returns the files of a manifest without the
path, or none for a path that is in it. -/
def checkPut (host : Host) (d : Disk) (rel : String) (content : Option String)
    (fault : Option Fault) :
    Except Failure (Option Fields) :=
  require (host.canonical rel = some rel)
    (.value ("unsafe snapshot path: " ++ host.repr rel)) >>= fun _ =>
  require (contentBytes content ≤ maxSnapshotFileBytes)
    (.value ("snapshot too large: " ++ host.repr rel)) >>= fun _ =>
  require (fault ≠ some .start) .os >>= fun _ =>
  readFiles d >>= fun found =>
  let files := found.getD []
  match Fields.get? files rel with
  | some existing => persistedBaseline host d rel existing >>= fun _ => .ok none
  | none =>
    require (files.length < maxSnapshotFiles) (.value "snapshot file limit reached") >>= fun _ =>
    (match content with
      | none => .ok ()
      | some text => diskTotalBytes host d 0 files >>= fun total =>
        require (total + text.utf8ByteSize ≤ maxSnapshotTotalBytes)
          (.value "snapshot size limit reached")) >>= fun _ =>
    .ok (some files)

def putBody (d : Disk) (name : String) (content : Option String) (fault : Option Fault) : Disk :=
  match content with
  | none => removeBody d name fault
  | some text => writeBody d name text

/-- The entry that `put_baseline` makes. -/
def newEntry (host : Host) (rel : String) (content : Option String) : Json :=
  .obj [("baseline", content.elim .null fun _ => .str (host.bodyName rel))]

/-- The files after a manifest that was not written: the body may be removed. -/
def discardUnpublished (d : Disk) (name : String) (content : Option String) (swept : Bool) : Disk :=
  if swept = true ∧ content ≠ none then removeBody d name none else d

/-- The error of writing a manifest, and whether the file was replaced before it. -/
def manifestError (host : Host) (files : Fields) (fault : Option Fault) : Option (Failure × Bool) :=
  if maxSnapshotManifestBytes < host.manifestBytes files then
    some (.value "local state is too large", false)
  else
    match fault with
    | some (.manifest replaced _) => some (.os, replaced)
    | _ => none

/-- Whether a body that no manifest refers to is removed after an error. -/
def swept : Option Fault → Bool
  | some (.manifest _ swept) => swept
  | _ => true

/-- The two writes of `put_baseline`. -/
def publishBaseline (host : Host) (d : Disk) (rel : String) (content : Option String)
    (files : Fields) (fault : Option Fault) : Outcome :=
  let name := host.bodyName rel
  let placed := putBody d name content fault
  match content, fault with
  | some _, some (.body false) => { disk := d, error := some .os }
  | some _, some (.body true) => { disk := placed, error := some .os }
  | content, fault =>
    let files := files.set rel (newEntry host rel content)
    match manifestError host files fault with
    | none => { disk := writeManifest placed files, published := true }
    | some (e, true) => { disk := writeManifest placed files, published := true, error := some e }
    | some (e, false) =>
      { disk := discardUnpublished placed name content (swept fault), error := some e }

def putBaseline (host : Host) (d : Disk) (rel : String) (content : Option String)
    (fault : Option Fault) : Outcome :=
  match checkPut host d rel content fault with
  | .error e => { disk := d, error := some e }
  | .ok none => { disk := d }
  | .ok (some files) => publishBaseline host d rel content files fault

/-- The files with a new digest in the entry of a path. -/
def updateManifest (host : Host) (d : Disk) (rel digest : String) : Except Failure Fields :=
  readFiles d >>= fun found =>
  match found with
  | none => .error (.corruption "missing manifest for update")
  | some files =>
    match Fields.get? files rel with
    | none => .error (.corruption ("missing baseline entry: " ++ host.repr rel))
    | some (.obj entry) =>
      if (Fields.get? entry "baseline").isSome then
        .ok (files.set rel (.obj (Fields.set entry "after_hash" (.str digest))))
      else .error (.corruption ("baseline entry schema: " ++ host.repr rel))
    | some _ => .error (.corruption ("baseline entry schema: " ++ host.repr rel))

def setAfterHash (host : Host) (d : Disk) (rel digest : String) (fault : Option Fault) : Outcome :=
  match require (fault ≠ some .start) .os >>= fun _ => updateManifest host d rel digest with
  | .error e => { disk := d, error := some e }
  | .ok files =>
    match manifestError host files fault with
    | none => { disk := writeManifest d files, published := true }
    | some (e, true) => { disk := writeManifest d files, published := true, error := some e }
    | some (e, false) => { disk := d, error := some e }

/-- The error of removing an entry: of the manifest that is left, or of the deletion of the last
one. -/
def removalError (host : Host) (files : Fields) (fault : Option Fault) : Option (Failure × Bool) :=
  if files = [] then
    match fault with
    | some (.manifest replaced _) => some (.os, replaced)
    | _ => none
  else manifestError host files fault

def remove (host : Host) (d : Disk) (rel : String) (fault : Option Fault) : Outcome :=
  match require (fault ≠ some .start) .os >>= fun _ => readFiles d with
  | .error e => { disk := d, error := some e }
  | .ok found =>
    let files := found.getD []
    if Fields.get? files rel = none then { disk := removeBody d (host.bodyName rel) fault }
    else
      let left := files.pop rel
      match removalError host left fault with
      | none =>
        { disk := removeBody (writeManifest d left) (host.bodyName rel) fault, published := true }
      | some (e, true) => { disk := writeManifest d left, published := true, error := some e }
      | some (e, false) => { disk := d, error := some e }

end SnapshotStore

end Codey
