import Mathlib.Data.List.Basic

/-!
# Opcodes

Edits that turn one list into another, in groups that leave out what stays the same between them.
-/

namespace Codey

inductive OpcodeTag where
  | equal
  | replace
  | delete
  | insert
  deriving DecidableEq, Repr

/-- One edit: the range of the old list and the range of the new one that stands in its place. -/
structure Opcode where
  tag : OpcodeTag
  i1 : Nat
  i2 : Nat
  j1 : Nat
  j2 : Nat
  deriving DecidableEq, Repr

variable {α : Type}

/-- `xs[start:stop]` -/
def slice (xs : List α) (start stop : Nat) : List α := (xs.take stop).drop start

lemma length_slice {xs : List α} {start stop : Nat} (h : stop ≤ xs.length) :
    (slice xs start stop).length = stop - start := by
  simp [slice, h]

lemma mem_of_mem_slice {xs : List α} {start stop : Nat} {x : α} (h : x ∈ slice xs start stop) :
    x ∈ xs :=
  List.mem_of_mem_take (List.mem_of_mem_drop h)

/-! ### What an edit keeps, deletes and inserts -/

def Opcode.kept (a : List α) (op : Opcode) : List α :=
  if op.tag = .equal then slice a op.i1 op.i2 else []

def Opcode.deleted (a : List α) (op : Opcode) : List α :=
  if op.tag = .replace ∨ op.tag = .delete then slice a op.i1 op.i2 else []

def Opcode.inserted (b : List α) (op : Opcode) : List α :=
  if op.tag = .replace ∨ op.tag = .insert then slice b op.j1 op.j2 else []

def deletions (a : List α) (groups : List (List Opcode)) : List α :=
  groups.flatMap fun group => group.flatMap (Opcode.deleted a)

def insertions (b : List α) (groups : List (List Opcode)) : List α :=
  groups.flatMap fun group => group.flatMap (Opcode.inserted b)

/-! ### Edits from one list to another -/

variable (a b : List α)

/-- The ranges lie in the lists, and the tag says what they are. -/
structure Opcode.Sound (op : Opcode) : Prop where
  old : op.i1 ≤ op.i2 ∧ op.i2 ≤ a.length
  new : op.j1 ≤ op.j2 ∧ op.j2 ≤ b.length
  equal : op.tag = .equal → slice a op.i1 op.i2 = slice b op.j1 op.j2
  delete : op.tag = .delete → op.j1 = op.j2
  insert : op.tag = .insert → op.i1 = op.i2

/-- Edits of which each starts where the one before it stops. -/
inductive Leads : Nat → Nat → List Opcode → Nat → Nat → Prop
  | nil (i j : Nat) : Leads i j [] i j
  | cons {op : Opcode} {ops : List Opcode} {i j : Nat} (sound : op.Sound a b)
      (rest : Leads op.i2 op.j2 ops i j) : Leads op.i1 op.j1 (op :: ops) i j

/-- Groups of edits that turn the one list into the other from a place on: the lists are equal
between the groups and behind them. -/
inductive Patches : Nat → Nat → List (List Opcode) → Prop
  | done {i j : Nat} (old : i ≤ a.length) (new : j ≤ b.length) (equal : a.drop i = b.drop j) :
      Patches i j []
  | group {op : Opcode} {ops : List Opcode} {groups : List (List Opcode)} {i j i' j' : Nat}
      (old : i ≤ op.i1) (new : j ≤ op.j1) (equal : slice a i op.i1 = slice b j op.j1)
      (edits : Leads a b op.i1 op.j1 (op :: ops) i' j') (rest : Patches i' j' groups) :
      Patches i j ((op :: ops) :: groups)

variable {a b}

/-- An edit turns what it deletes into what it inserts. -/
lemma Opcode.Sound.length {op : Opcode} (h : op.Sound a b) :
    op.i2 - op.i1 + (op.inserted b).length = op.j2 - op.j1 + (op.deleted a).length := by
  have hold : (slice a op.i1 op.i2).length = op.i2 - op.i1 := length_slice h.old.2
  have hnew : (slice b op.j1 op.j2).length = op.j2 - op.j1 := length_slice h.new.2
  cases htag : op.tag with
  | equal =>
    have := congrArg List.length (h.equal htag)
    simp only [Opcode.inserted, Opcode.deleted, htag, reduceCtorEq, or_self, if_false,
      List.length_nil]
    omega
  | replace =>
    simp only [Opcode.inserted, Opcode.deleted, htag, true_or, if_true]
    omega
  | delete =>
    have := h.delete htag
    simp only [Opcode.inserted, Opcode.deleted, htag, reduceCtorEq, or_self, or_true, if_false,
      if_true, List.length_nil]
    omega
  | insert =>
    have := h.insert htag
    simp only [Opcode.inserted, Opcode.deleted, htag, reduceCtorEq, or_self, or_true, if_false,
      if_true, List.length_nil]
    omega

lemma Leads.le {ops : List Opcode} {i j i' j' : Nat} (h : Leads a b i j ops i' j') :
    i ≤ i' ∧ j ≤ j' := by
  induction h with
  | nil => exact ⟨Nat.le_refl _, Nat.le_refl _⟩
  | cons sound _ ih => exact ⟨Nat.le_trans sound.old.1 ih.1, Nat.le_trans sound.new.1 ih.2⟩

lemma Leads.length {ops : List Opcode} {i j i' j' : Nat} (h : Leads a b i j ops i' j') :
    i' - i + (ops.flatMap (Opcode.inserted b)).length =
      j' - j + (ops.flatMap (Opcode.deleted a)).length := by
  induction h with
  | nil => simp
  | cons sound rest ih =>
    have hop := sound.length
    have hold := sound.old
    have hnew := sound.new
    have hrest := rest.le
    simp only [List.flatMap_cons, List.length_append]
    omega

/-- The inserted lines are as many more than the deleted ones as the new list is longer than the
old one. -/
theorem Patches.length {groups : List (List Opcode)} {i j : Nat} (h : Patches a b i j groups) :
    i ≤ a.length ∧ j ≤ b.length ∧
      a.length - i + (insertions b groups).length = b.length - j + (deletions a groups).length := by
  induction h with
  | done old new equal =>
    have := congrArg List.length equal
    simp only [List.length_drop] at this
    simp [insertions, deletions, old, new, this]
  | @group op ops groups i j i' j' old new equal edits rest ih =>
    obtain ⟨hi', hj', ih⟩ := ih
    have hle := edits.le
    have hedits := edits.length
    have hgap := congrArg List.length equal
    rw [length_slice (by omega), length_slice (by omega)] at hgap
    simp only [insertions, deletions] at ih
    simp only [insertions, deletions, List.flatMap_cons, List.length_append] at ih hedits ⊢
    omega

/-- The coarsest edit: everything at once, if anything changed. -/
def coarseOpcodes [DecidableEq α] (a b : List α) : List (List Opcode) :=
  if a = b then []
  else
    let tag : OpcodeTag := if a = [] then .insert else if b = [] then .delete else .replace
    [[⟨tag, 0, a.length, 0, b.length⟩]]

/-- One edit of everything. -/
lemma patches_whole {tag : OpcodeTag} (hequal : tag ≠ .equal) (hdelete : tag = .delete → b = [])
    (hinsert : tag = .insert → a = []) :
    Patches a b 0 0 [[⟨tag, 0, a.length, 0, b.length⟩]] := by
  have hsound : Opcode.Sound a b ⟨tag, 0, a.length, 0, b.length⟩ :=
    { old := ⟨Nat.zero_le _, Nat.le_refl _⟩
      new := ⟨Nat.zero_le _, Nat.le_refl _⟩
      equal := fun h => absurd h hequal
      delete := fun h => by simp [hdelete h]
      insert := fun h => by simp [hinsert h] }
  exact .group (Nat.le_refl _) (Nat.le_refl _) rfl (.cons hsound (.nil _ _))
    (.done (Nat.le_refl _) (Nat.le_refl _) (by simp))

lemma patches_coarseOpcodes [DecidableEq α] (a b : List α) :
    Patches a b 0 0 (coarseOpcodes a b) := by
  rw [coarseOpcodes]
  split_ifs with hequal hold hnew
  · exact .done (Nat.zero_le _) (Nat.zero_le _) (by rw [hequal])
  · exact patches_whole (by simp) (by simp) fun _ => hold
  · exact patches_whole (by simp) (fun _ => hnew) (by simp)
  · exact patches_whole (by simp) (by simp) (by simp)

end Codey
