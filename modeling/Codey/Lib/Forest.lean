import Mathlib.Data.List.Nodup
import Mathlib.Data.List.Perm.Subperm
import Codey.Lib.Table

/-!
# Parent links

Vertices that are added one after the other, each under a parent that is there already. From every
vertex the parent links lead up to a root, and vertices that are added later do not change the way.
-/

namespace Codey

variable {α : Type}

/-! ### The way up -/

/-- The vertices on the way from a vertex to its root, the vertex first. -/
inductive Climb (up : α → Option α) : α → List α → Prop where
  | root {a : α} : up a = none → Climb up a [a]
  | step {a b : α} {l : List α} : up a = some b → Climb up b l → Climb up a (a :: l)

namespace Climb

variable {up : α → Option α} {a b : α} {l l' : List α}

lemma mem (h : Climb up a l) : a ∈ l := by
  cases h <;> simp

lemma unique (h : Climb up a l) (h' : Climb up a l') : l = l' := by
  induction h generalizing l' with
  | root hroot =>
    cases h' with
    | root _ => rfl
    | step hstep _ => simp [hroot] at hstep
  | step hstep _ ih =>
    cases h' with
    | root hroot => simp [hstep] at hroot
    | step hstep' h' =>
      obtain rfl := Option.some.inj (hstep.symm.trans hstep')
      rw [ih h']

/-- From every vertex on the way, the rest of the way is its own way up. -/
lemma rest (h : Climb up a l) (hb : b ∈ l) : ∃ l', Climb up b l' ∧ l' <:+ l := by
  induction h with
  | root hroot =>
    obtain rfl := List.mem_singleton.mp hb
    exact ⟨_, .root hroot, List.suffix_rfl⟩
  | @step a c l hstep h ih =>
    rcases List.mem_cons.mp hb with rfl | hb
    · exact ⟨_, .step hstep h, List.suffix_rfl⟩
    · obtain ⟨l', hl', hsuffix⟩ := ih hb
      exact ⟨l', hl', hsuffix.trans (List.suffix_cons a l)⟩

/-- The way up does not come back to its start. -/
lemma notMem_rest (hstep : up a = some b) (h : Climb up b l) : a ∉ l := by
  intro ha
  obtain ⟨l', hl', hsuffix⟩ := h.rest ha
  have := hl'.unique (.step hstep h)
  rw [this] at hsuffix
  have := hsuffix.length_le
  simp only [List.length_cons] at this
  omega

lemma nodup (h : Climb up a l) : l.Nodup := by
  induction h with
  | root => exact List.nodup_singleton _
  | step hstep h ih => exact List.nodup_cons.mpr ⟨notMem_rest hstep h, ih⟩

end Climb

/-! ### Growth -/

/-- Each vertex comes after its parent. -/
def Grown (known : List α) : List (α × Option α) → Prop
  | [] => True
  | (a, parent) :: links => (∀ p, parent = some p → p ∈ known) ∧ Grown (a :: known) links

lemma Grown.mono {known known' : List α} {links : List (α × Option α)} (h : Grown known links)
    (hsub : ∀ x ∈ known, x ∈ known') : Grown known' links := by
  induction links generalizing known known' with
  | nil => trivial
  | cons link links ih =>
    refine ⟨fun p hp => hsub p (h.1 p hp), ih h.2 fun x hx => ?_⟩
    rcases List.mem_cons.mp hx with rfl | hx
    · exact List.mem_cons_self
    · exact List.mem_cons_of_mem _ (hsub x hx)

lemma grown_append {known : List α} {links links' : List (α × Option α)} :
    Grown known (links ++ links') ↔
      Grown known links ∧ Grown ((links.map Prod.fst).reverse ++ known) links' := by
  induction links generalizing known with
  | nil => simp [Grown]
  | cons link links ih => simp [Grown, ih, and_assoc]

/-- A vertex stands behind its parent. -/
lemma Grown.behind {known : List α} {links : List (α × Option α)} (h : Grown known links)
    {before after : List (α × Option α)} {a p : α} (hsplit : links = before ++ (a, some p) :: after) :
    p ∈ before.map Prod.fst ∨ p ∈ known := by
  rw [hsplit, grown_append] at h
  simpa using h.2.1 p rfl

/-- Removing vertices leaves the others grown, when no vertex that stays is a child of one that
goes. -/
lemma Grown.filter {known : List α} {links : List (α × Option α)} {keep : α × Option α → Bool}
    (stays : α → Prop) (h : Grown known links)
    (hstays : ∀ link ∈ links, stays link.1 → keep link = true)
    (hparent : ∀ link ∈ links, keep link = true → ∀ p, link.2 = some p → stays p)
    {known' : List α} (hknown : ∀ x ∈ known, stays x → x ∈ known') :
    Grown known' (links.filter keep) := by
  induction links generalizing known known' with
  | nil => trivial
  | cons link links ih =>
    obtain ⟨a, parent⟩ := link
    have hrest := @ih _ h.2 (fun link hlink => hstays link (by simp [hlink]))
      (fun link hlink => hparent link (by simp [hlink]))
    by_cases hkeep : keep (a, parent) = true
    · rw [List.filter_cons_of_pos hkeep]
      refine ⟨fun p hp => hknown p (h.1 p hp) (hparent _ (by simp) hkeep p hp), hrest ?_⟩
      intro x hx hx'
      rcases List.mem_cons.mp hx with rfl | hx
      · exact List.mem_cons_self
      · exact List.mem_cons_of_mem _ (hknown x hx hx')
    · rw [List.filter_cons_of_neg hkeep]
      refine hrest fun x hx hx' => ?_
      rcases List.mem_cons.mp hx with rfl | hx
      · exact absurd (hstays _ (by simp) hx') hkeep
      · exact hknown x hx hx'

/-- Every grown vertex has a way up. -/
lemma Grown.climb {up : α → Option α} {known : List α} {links : List (α × Option α)}
    (h : Grown known links) (hup : ∀ link ∈ links, up link.1 = link.2)
    (hknown : ∀ x ∈ known, ∃ l, Climb up x l) : ∀ link ∈ links, ∃ l, Climb up link.1 l := by
  induction links generalizing known with
  | nil => simp
  | cons link links ih =>
    have hfirst : ∃ l, Climb up link.1 l := by
      obtain ⟨a, parent⟩ := link
      have hlink := hup (a, parent) (by simp)
      cases parent with
      | none => exact ⟨_, .root hlink⟩
      | some p =>
        obtain ⟨l, hl⟩ := hknown p (h.1 p rfl)
        exact ⟨_, .step hlink hl⟩
    intro other hother
    rcases List.mem_cons.mp hother with rfl | hother
    · exact hfirst
    · refine ih h.2 (fun link hlink => hup link (by simp [hlink])) (fun x hx => ?_) other hother
      rcases List.mem_cons.mp hx with rfl | hx
      · exact hfirst
      · exact hknown x hx

/-! ### Tables of vertices -/

namespace Table

variable {κ ν : Type} [DecidableEq κ] {key : ν → κ} (parent : ν → Option κ) (t : Table key)

/-- The parent of a stored vertex. -/
def up (k : κ) : Option κ := (t.get? k).bind parent

/-- The vertices of a table with their parents, in insertion order. -/
def links : List (κ × Option κ) := t.rows.map fun v => (key v, parent v)

variable {parent t}

/-- Every row of a grown table has a way up through stored rows. -/
lemma exists_climb (h : Grown [] (t.links parent)) {k : κ} {v : ν} (hv : t.get? k = some v) :
    ∃ l, Climb (t.up parent) k l := by
  have hup : ∀ link ∈ t.links parent, t.up parent link.1 = link.2 := by
    intro link hlink
    obtain ⟨w, hw, rfl⟩ := List.mem_map.mp hlink
    simp [up, mem_rows_iff.mp hw]
  have hlink : (k, parent v) ∈ t.links parent :=
    List.mem_map.mpr ⟨v, mem_of_get? hv, by rw [key_of_get? hv]⟩
  exact h.climb hup (by simp) _ hlink

/-- Every vertex on the way up is stored, when parents are. -/
lemma mem_climb (hparent : ∀ k p, t.up parent k = some p → (t.get? p).isSome = true) {k : κ}
    {l : List κ} (hk : (t.get? k).isSome = true) (h : Climb (t.up parent) k l) :
    ∀ x ∈ l, (t.get? x).isSome = true := by
  induction h with
  | root =>
    intro x hx
    rwa [List.mem_singleton.mp hx]
  | step hstep _ ih =>
    intro x hx
    rcases List.mem_cons.mp hx with rfl | hx
    · exact hk
    · exact ih (hparent _ _ hstep) x hx

/-- A way up is no longer than the table. -/
lemma length_climb_le (hparent : ∀ k p, t.up parent k = some p → (t.get? p).isSome = true) {k : κ}
    {l : List κ} (hk : (t.get? k).isSome = true) (h : Climb (t.up parent) k l) :
    l.length ≤ t.rows.length := by
  have hsub : l ⊆ t.rows.map key := by
    intro x hx
    obtain ⟨v, hv⟩ := Option.isSome_iff_exists.mp (mem_climb hparent hk h x hx)
    exact List.mem_map.mpr ⟨v, mem_of_get? hv, key_of_get? hv⟩
  simpa using (h.nodup.subperm hsub).length_le

/-- The parent of a grown vertex is stored. -/
lemma isSome_of_up (h : Grown [] (t.links parent)) (k p : κ) (hk : t.up parent k = some p) :
    (t.get? p).isSome = true := by
  obtain ⟨v, hv, hp⟩ := Option.bind_eq_some_iff.mp hk
  have hlink : (key v, some p) ∈ t.links parent :=
    List.mem_map.mpr ⟨v, mem_of_get? hv, by rw [hp]⟩
  obtain ⟨before, after, hsplit⟩ := List.append_of_mem hlink
  have hmem := (h.behind hsplit).resolve_right List.not_mem_nil
  obtain ⟨link, hbefore, rfl⟩ := List.mem_map.mp hmem
  have hlink' : link ∈ t.links parent := by
    rw [hsplit]
    exact List.mem_append_left _ hbefore
  obtain ⟨w, hw, rfl⟩ := List.mem_map.mp hlink'
  simp [mem_rows_iff.mp hw]

/-- Rows that stay with their parents are grown. -/
lemma grown_filter (h : Grown [] (t.links parent)) {keep : ν → Bool}
    (hclosed : ∀ v ∈ t.rows, keep v = true → ∀ p w, parent v = some p → t.get? p = some w →
      keep w = true) : Grown [] ((t.filter keep).links parent) := by
  have hlinks : (t.filter keep).links parent =
      (t.links parent).filter fun link => (t.get? link.1).any keep := by
    unfold links
    rw [rows_filter, List.filter_map]
    congr 1
    refine List.filter_congr fun v hv => ?_
    simp [mem_rows_iff.mp hv]
  rw [hlinks]
  refine h.filter (fun k => (t.get? k).any keep = true) (fun _ _ hstays => hstays) ?_
    (by simp)
  intro link hlink hkeep p hp
  obtain ⟨v, hv, rfl⟩ := List.mem_map.mp hlink
  rw [mem_rows_iff.mp hv, Option.any_some] at hkeep
  have hup : t.up parent (key v) = some p := by
    rw [up, mem_rows_iff.mp hv]
    exact hp
  obtain ⟨w, hw⟩ := Option.isSome_iff_exists.mp (isSome_of_up h _ p hup)
  rw [hw, Option.any_some]
  exact hclosed v hv hkeep p w hp hw

lemma map_putRows {β : Type} {f : ν → β} {v : ν} {ws : List ν}
    (h : ∀ w ∈ ws, key w = key v → f w = f v) (hmem : ∃ w ∈ ws, key w = key v) :
    (putRows key v ws).map f = ws.map f := by
  induction ws with
  | nil => simp at hmem
  | cons w ws ih =>
    by_cases hw : key w = key v
    · simp [putRows, hw, h w (by simp) hw]
    · obtain ⟨x, hx, hkey⟩ := hmem
      have hx : x ∈ ws := (List.mem_cons.mp hx).resolve_left fun heq => hw (heq ▸ hkey)
      simp [putRows, hw, ih (fun w hw => h w (by simp [hw])) ⟨x, hx, hkey⟩]

/-- A row that is replaced in place keeps what the new row shares with it. -/
lemma map_rows_put {β : Type} {f : ν → β} {v w : ν} (hget : t.get? (key v) = some w)
    (hf : f w = f v) : (t.put v).rows.map f = t.rows.map f := by
  refine map_putRows (fun x hx hkey => ?_) ⟨w, mem_of_get? hget, key_of_get? hget⟩
  have := mem_rows_iff.mp hx
  rw [hkey, hget] at this
  rw [← Option.some.inj this, hf]

end Table

end Codey
