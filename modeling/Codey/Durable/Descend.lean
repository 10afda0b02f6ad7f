import Codey.Durable.Sites

/-!
# The descent over owned tasks

`_owned_descendants` reads the ownership tree in several transactions. What it has listed when it
ends is closed under ownership, as far as the store can have changed in between.
-/

namespace Codey

open Prog (Stable Guards guards_bind)

namespace Session

variable {R : World → World → Prop} {T : Terms} {K : World → Prop}

/-- The children of `x` have been seen: they are all in `seen`. -/
def ClosedAt (R : World → World → Prop) (K : World → Prop) (seen : List String) (x : String) :
    Prop :=
  ∀ w, K w → ∃ s, Seen R s w.store ∧ ∀ child ∈ s.ownedDependents x, child.taskId ∈ seen

def RowAt (R : World → World → Prop) (K : World → Prop) (row : TaskCheckpoint) : Prop :=
  ∀ w, K w → ∃ s, Seen R s w.store ∧ s.tasks.get? row.taskId = some row

variable {K' : World → Prop}

lemma RowAt.mono {row : TaskCheckpoint} (h : RowAt R K row) (hK : ∀ w, K' w → K w) :
    RowAt R K' row := fun w hw => h w (hK w hw)

/-- The invariant of the descent: a task that was seen is still open, or its children were seen
and its row is listed. -/
structure Visiting (R : World → World → Prop) (opened : String → Prop)
    (found : List String × List TaskCheckpoint) (K : World → Prop) : Prop where
  done : ∀ x ∈ found.1, opened x ∨ (ClosedAt R K found.1 x ∧ ∃ row ∈ found.2, row.taskId = x)
  rows : ∀ row ∈ found.2, RowAt R K row

lemma ClosedAt.mono {seen seen' : List String} {x : String} (h : ClosedAt R K seen x)
    (hK : ∀ w, K' w → K w) (hseen : seen ⊆ seen') : ClosedAt R K' seen' x := by
  intro w hw
  obtain ⟨s, hs, hclosed⟩ := h w (hK w hw)
  exact ⟨s, hs, fun child hchild => hseen (hclosed child hchild)⟩

variable {found : List String × List TaskCheckpoint} {opened : String → Prop}

lemma Visiting.mono (h : Visiting R opened found K) (hK : ∀ w, K' w → K w) :
    Visiting R opened found K' where
  done x hx := (h.done x hx).imp_right fun ⟨hc, hrow⟩ => ⟨hc.mono hK (List.Subset.refl _), hrow⟩
  rows row hrow := (h.rows row hrow).mono hK

lemma Visiting.enter (h : Visiting R opened found K) (id : String) :
    Visiting R (fun x => x = id ∨ opened x) (id :: found.1, found.2) K where
  done x hx := by
    rcases List.mem_cons.mp hx with rfl | hx
    · exact Or.inl (Or.inl rfl)
    · rcases h.done x hx with hopen | ⟨hc, hrow⟩
      · exact Or.inl (Or.inr hopen)
      · exact Or.inr ⟨hc.mono (fun _ hw => hw) (List.subset_cons_self _ _), hrow⟩
  rows := h.rows

/-- List a task when its children were seen. -/
lemma Visiting.leave {child : TaskCheckpoint}
    (h : Visiting R (fun x => x = child.taskId ∨ opened x) found K)
    (hclosed : ClosedAt R K found.1 child.taskId) (hrow : RowAt R K child) :
    Visiting R opened (found.1, found.2 ++ [child]) K where
  done x hx := by
    rcases h.done x hx with (rfl | hopen) | ⟨hc, row, hrow, heq⟩
    · exact Or.inr ⟨hclosed, child, by simp, rfl⟩
    · exact Or.inl hopen
    · exact Or.inr ⟨hc, row, by simp [hrow], heq⟩
  rows row hmem := by
    rcases List.mem_append.mp hmem with hmem | hmem
    · exact h.rows row hmem
    · obtain rfl := List.mem_singleton.mp hmem
      exact hrow

/-- What a part of the descent ensures. -/
structure Visited (R : World → World → Prop) (opened : String → Prop)
    (K : World → Prop) (found found' : List String × List TaskCheckpoint) (K' : World → Prop) :
    Prop where
  stable : Stable R K'
  sub : ∀ w, K' w → K w
  grows : found.1 ⊆ found'.1
  visiting : Visiting R opened found' K'

lemma guards_visitChildren {visit : String → List String × List TaskCheckpoint →
      Op (List String × List TaskCheckpoint)}
    (hvisit : ∀ (id : String) (found : List String × List TaskCheckpoint) (opened : String → Prop)
      (K : World → Prop), Stable R K → Visiting R opened found K → opened id →
      Guards R (Commits (Site T)) K (visit id found) fun found' K' =>
        Visited R opened K found found' K' ∧ ClosedAt R K' found'.1 id)
    {children : List TaskCheckpoint}
    (hK : Stable R K) (hv : Visiting R opened found K)
    (hrows : ∀ child ∈ children, RowAt R K child) :
    Guards R (Commits (Site T)) K (visitChildren visit children found) fun found' K' =>
      Visited R opened K found found' K' ∧ ∀ child ∈ children, child.taskId ∈ found'.1 := by
  induction children generalizing found K with
  | nil => exact ⟨⟨hK, fun _ hw => hw, List.Subset.refl _, hv⟩, by simp⟩
  | cons child children ih =>
    unfold visitChildren
    split
    · rename_i hseen
      have hseen : child.taskId ∈ found.1 := by simpa using hseen
      refine Guards.imp (ih hK hv fun c hc => hrows c (by simp [hc])) ?_
      rintro found' K' ⟨hvisited, hall⟩
      refine ⟨hvisited, fun c hc => ?_⟩
      rcases List.mem_cons.mp hc with rfl | hc
      · exact hvisited.grows hseen
      · exact hall c hc
    · refine guards_bind (Guards.imp
        (hvisit child.taskId _ _ K hK (hv.enter child.taskId) (Or.inl rfl)) ?_)
      rintro found₁ K₁ ⟨hvisited, hclosed⟩
      have hrow := (hrows child (by simp)).mono hvisited.sub
      have hsub : found.1 ⊆ found₁.1 :=
        List.Subset.trans (List.subset_cons_self _ _) hvisited.grows
      refine Guards.imp (ih hvisited.stable (hvisited.visiting.leave hclosed hrow)
        fun c hc => (hrows c (by simp [hc])).mono hvisited.sub) ?_
      rintro found' K' ⟨hvisited', hall⟩
      refine ⟨⟨hvisited'.stable, fun w hw => hvisited.sub w (hvisited'.sub w hw),
        List.Subset.trans hsub hvisited'.grows, hvisited'.visiting⟩, fun c hc => ?_⟩
      rcases List.mem_cons.mp hc with rfl | hc
      · exact hvisited'.grows (hvisited.grows (by simp))
      · exact hall c hc

lemma guards_visitOwned (F : Frame R T) (depth : Nat) {id : String}
    (found : List String × List TaskCheckpoint) (opened : String → Prop) (hK : Stable R K)
    (hv : Visiting R opened found K) (hid : opened id) :
    Guards R (Commits (Site T)) K (visitOwned depth id found) fun found' K' =>
      Visited R opened K found found' K' ∧ ClosedAt R K' found'.1 id := by
  induction depth generalizing id found opened K with
  | zero => exact Prog.guards_throw
  | succ depth ih =>
    refine guards_bind (guards_look fun w hw => ?_)
    have hsub : ∀ w', R w w' → K w' := fun w' => hK w w' hw
    refine Guards.imp (guards_visitChildren (fun _ _ _ _ hK hv hid => ih _ _ hK hv hid)
      (F.stable w) (hv.mono hsub) ?_) ?_
    · intro child hchild w' hw'
      refine ⟨w.store, ⟨w, w', hw', rfl, rfl⟩, ?_⟩
      exact Table.mem_rows_iff.mp (List.mem_filter.mp hchild).1
    · rintro found' K' ⟨hvisited, hall⟩
      refine ⟨⟨hvisited.stable, fun w' hw' => hsub w' (hvisited.sub w' hw'), hvisited.grows,
        hvisited.visiting⟩, fun w' hw' => ?_⟩
      exact ⟨w.store, ⟨w, w', hvisited.sub w' hw', rfl, rfl⟩, hall⟩

lemma guards_ownedDescendants (F : Frame R T) {depth : Nat} {id : String} (hK : Stable R K) :
    Guards R (Commits (Site T)) K (ownedDescendants depth id) fun _ _ => True := by
  refine guards_bind (Guards.imp (guards_visitOwned F depth ([], [])
    (fun x => x = id) hK ⟨by simp, by simp⟩ rfl) fun _ _ _ => trivial)

/-- When no live descendant is left, the owned work has drained. -/
lemma guards_liveOwnedDescendants (F : Frame R T) (depth : Nat) (id : String) (hK : Stable R K) :
    Guards R (Commits (Site T)) K (liveOwnedDescendants depth id) fun live K' =>
      Stable R K' ∧ (∀ w, K' w → K w) ∧
      (live = [] → ∀ w, K' w → Drained (Seen R) w.store id) := by
  unfold liveOwnedDescendants ownedDescendants
  simp only [Prog.bind_eq, Prog.bind_assoc, Prog.pure_eq, Prog.ret_bind]
  refine guards_bind (Guards.imp (guards_visitOwned F depth ([], [])
    (fun x => x = id) hK ⟨by simp, by simp⟩ rfl) ?_)
  rintro found K' ⟨hvisited, hclosed⟩
  refine ⟨hvisited.stable, hvisited.sub, fun hlive w hw => ?_⟩
  refine ⟨fun x => x = id ∨ x ∈ found.1, Or.inl rfl, ?_, ?_⟩
  · intro x hx
    have hx : ClosedAt R K' found.1 x := by
      rcases hx with rfl | hx
      · exact hclosed
      · rcases hvisited.visiting.done x hx with rfl | ⟨hc, -⟩
        · exact hclosed
        · exact hc
    obtain ⟨s, hs, hall⟩ := hx w hw
    exact ⟨s, hs, fun child hchild => Or.inr (hall child hchild)⟩
  · intro y hy
    rcases hy with rfl | hy
    · exact Or.inl rfl
    rcases hvisited.visiting.done y hy with rfl | ⟨-, row, hrow, rfl⟩
    · exact Or.inl rfl
    obtain ⟨s, hs, hget⟩ := hvisited.visiting.rows row hrow w hw
    refine Or.inr ⟨s, row, hs, hget, ?_⟩
    have := List.filter_eq_nil_iff.mp hlive row hrow
    simpa using this

end Session

end Codey
