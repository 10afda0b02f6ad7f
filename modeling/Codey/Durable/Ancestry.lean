import Mathlib.Data.List.Sort
import Codey.Durable.Mutation

/-!
# Entry paths and history edits

The path of entries that a conversation shows, through the caps of the conversations it was forked
from, and the checks of a history edit against that path. The reads are parameters: a store binds
them to its transaction.
-/

namespace Codey

/-! ### Paths -/

/-- The conversations from `current` up to its root, each with the entry it is read from. `fuel`
bounds the walk by the number of conversations: a longer one repeats one of them. -/
def ancestry (parent : String → Except Error (Option String × Option String)) :
    Nat → List String → String → Option String → Except Error (List (String × Option String))
  | 0, _, _, _ => .error (.valueError "conversation ancestry cycle")
  | fuel + 1, seen, current, cap => do
    require (!seen.contains current) (.valueError "conversation ancestry cycle")
    match ← parent current with
    | (none, none) => pure [(current, cap)]
    | (none, some _) => .error (.valueError "conversation cap has no parent")
    | (some above, cap') => do
      let rest ← ancestry parent fuel (current :: seen) above cap'
      pure ((current, cap) :: rest)

/-- The entries of one conversation from its root to `leaf`, listed from the leaf. -/
def localPathUp (entries : List EntryDraft) :
    Nat → List String → String → Except Error (List EntryDraft)
  | 0, _, _ => .error (.valueError "conversation entry parent cycle")
  | fuel + 1, seen, current => do
    require (!seen.contains current) (.valueError "conversation entry parent cycle")
    match entries.find? (·.entryId = current) with
    | none => .error (.keyError current)
    | some entry => match entry.parentId with
      | none => pure [entry]
      | some above => do
        let rest ← localPathUp entries fuel (current :: seen) above
        pure (entry :: rest)

def localPath (entries : List EntryDraft) (leaf : String) : Except Error (List EntryDraft) := do
  let up ← localPathUp entries (entries.length + 1) [] leaf
  pure up.reverse

def pathThrough (path : List EntryDraft) (entryId : String) : Option (List EntryDraft) :=
  match path with
  | [] => none
  | e :: path => if e.entryId = entryId then some [e] else (pathThrough path entryId).map (e :: ·)

/-- The inherited prefix that a local tail continues: a replacement input may rewind it. -/
def inheritedPrefix (path : List EntryDraft) (root : EntryDraft) :
    Except Error (List EntryDraft) :=
  if root.payload.truthy "edited_entry_id" then
    match root.payload.get? "edit_parent_entry_id" with
    | none | some .null => .ok []
    | some bridge => match bridge.str?.bind (pathThrough path) with
      | some kept => .ok kept
      | none => .error (.keyError "edit parent is not visible")
  else .ok path

/-- Extend an inherited path by one conversation of the ancestry. -/
def extendPath (entries : String → Except Error (List EntryDraft)) (path : List EntryDraft)
    (scope : String × Option String) : Except Error (List EntryDraft) :=
  match scope.2 with
  | none => .ok path
  | some leaf => do
    let own ← entries scope.1
    if own.any (·.entryId = leaf) then do
      let tail ← localPath own leaf
      let kept ← match tail with
        | [] => .ok path
        | root :: _ => inheritedPrefix path root
      pure (kept ++ tail)
    else match pathThrough path leaf with
      | some kept => pure kept
      | none => .error (.keyError ("entry " ++ leaf ++ " is not visible from conversation "
          ++ scope.1))

def contextPath (entries : String → Except Error (List EntryDraft))
    (parent : String → Except Error (Option String × Option String)) (fuel : Nat)
    (conversationId : String) (leafId : Option String) : Except Error (List EntryDraft) := do
  let scopes ← ancestry parent fuel [] conversationId leafId
  foldE scopes.reverse (extendPath entries) []

/-! ### Edits -/

/-- The task ids that wrote the given entries, sorted, each once. -/
def writers (entries : List EntryDraft) : List String :=
  (entries.filterMap EntryDraft.writer).dedup.insertionSort (· ≤ ·)

/-- The parent of the edited entry on the path, and the tasks whose turns the edit removes. -/
def editParent (entryId : Option String) (path : List EntryDraft) (busy : Bool) :
    Except Error (Option String × List String) := do
  require (!busy) (.commitConflict "Stop the current task before editing a message.")
  let index := path.findIdx fun e => some e.entryId = entryId
  match path[index]? with
  | some edited => do
    require (edited.kind = "user_message")
      (.commitConflict "The message is no longer on the current conversation branch.")
    pure ((path.take index).getLast?.map (·.entryId), writers (path.drop index))
  | none => .error (.commitConflict "The message is no longer on the current conversation branch.")

/-- An optional text under a key; `None` and a missing key are the same. -/
def optionalTextIs (payload : Fields) (key : String) (value : Option String) : Bool :=
  (payload.get? key).getD .null = (value.map Json.str).getD .null

/-- Check a history edit and return the local parent of its replacement input. -/
def validateEdit (m : MutationData) (path : List EntryDraft) (busy : Bool) :
    Except Error (Option String) := do
  let (parent, replaced) ← editParent m.editedEntryId path busy
  require (m.replacedRunIds = replaced) (.commitConflict "conversation branch changed")
  require (m.entries.head?.all fun e => optionalTextIs e.payload "edited_entry_id" m.editedEntryId)
    (.commitConflict "replacement input must identify its source")
  require (m.entries.head?.all fun e => optionalTextIs e.payload "edit_parent_entry_id" parent)
    (.commitConflict "replacement input must identify its prefix")
  pure (parent.filter fun id =>
    path.any fun e => e.conversationId = m.conversationId && e.entryId = id)

/-- A late writer cannot append a removed turn onto the new branch. -/
def validateEntryOwners (entries path : List EntryDraft) (tasks : List TaskCheckpoint) :
    Except Error Unit :=
  checkAll tasks fun task =>
    require (!(entries.any (·.writer = some task.taskId)) || !task.state.truthy "input_entry_id"
        || (((task.state.get? "input_entry_id").bind Json.str?).any fun source =>
          path.any (·.entryId = source)))
      (.commitConflict "task input is outside the active conversation branch")

end Codey
