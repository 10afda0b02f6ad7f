import Mathlib.Data.List.Basic
import Mathlib.Data.List.DropRight
import Mathlib.Data.List.Infix
import Mathlib.Data.List.TakeWhile

/-!
# POSIX paths

The components of a path and `posixpath.normpath`. A path that is written from its components is
read back as them.
-/

namespace Codey

namespace PosixPath

abbrev Text := List Char

/-- The components that `normpath` has kept, with the next one. -/
def push (rooted : Bool) (comps : List Text) (comp : Text) : List Text :=
  if comp = [] ∨ comp = ['.'] then comps
  else if comp ≠ ['.', '.'] ∨ (rooted = false ∧ comps = []) ∨ comps.getLast? = some ['.', '.'] then
    comps ++ [comp]
  else comps.dropLast

/-- The slashes that a path begins with: POSIX tells two of them from one and from more. -/
def rootSlashes : Text → Nat
  | '/' :: '/' :: '/' :: _ => 1
  | '/' :: '/' :: _ => 2
  | '/' :: _ => 1
  | _ => 0

def normpath (path : Text) : Text :=
  let slashes := rootSlashes path
  let comps := (path.splitOn '/').foldl (push (0 < slashes)) []
  let text := List.replicate slashes '/' ++ ['/'].intercalate comps
  if text = [] then ['.'] else text

/-- The components of a path that name something. -/
def parts (path : Text) : List Text := (path.splitOn '/').filter fun part => part ≠ [] ∧ part ≠ ['.']

/-- A component that names something. -/
structure Named (comp : Text) : Prop where
  nonempty : comp ≠ []
  dot : comp ≠ ['.']
  slash : '/' ∉ comp

/-- The path of some components. -/
def render (comps : List Text) : Text := if comps = [] then ['.'] else ['/'].intercalate comps

variable {comps : List Text} {cs : Text}

lemma slash_notMem_splitOn : ∀ segment ∈ cs.splitOn '/', '/' ∉ segment := by
  induction cs with
  | nil => simp
  | cons ch cs ih =>
    rw [List.splitOn_cons_eq_if_modifyHead]
    by_cases hch : ch = '/'
    · simpa [hch] using ih
    · obtain ⟨first, rest, hsplit⟩ := List.exists_cons_of_ne_nil (List.splitOn_ne_nil '/' cs)
      rw [hsplit] at ih ⊢
      simp only [beq_iff_eq, hch, if_false, List.modifyHead_cons, List.mem_cons] at ih ⊢
      rintro segment (rfl | hsegment)
      · simp only [List.mem_cons, not_or]
        exact ⟨fun h => hch h.symm, ih first (Or.inl rfl)⟩
      · exact ih segment (Or.inr hsegment)

/-! ### Components -/

lemma parts_of_named (h : ∀ comp ∈ comps, Named comp) :
    comps.filter (fun part => part ≠ [] ∧ part ≠ ['.']) = comps := by
  rw [List.filter_eq_self]
  intro comp hcomp
  simpa using ⟨(h comp hcomp).nonempty, (h comp hcomp).dot⟩

/-- The components of what is written from named ones. -/
theorem parts_render (h : ∀ comp ∈ comps, Named comp) : parts (render comps) = comps := by
  unfold render
  split_ifs with hnil
  · subst hnil
    rfl
  · rw [parts, List.splitOn_intercalate '/' (fun comp hcomp => (h comp hcomp).slash) hnil]
    exact parts_of_named h

/-- The components of a path below another one. -/
theorem parts_append (front back : Text) :
    parts (front ++ '/' :: back) = parts front ++ parts back := by
  rw [parts, List.splitOn_append_cons_self, List.filter_append, parts, parts]

/-! ### `normpath` -/

lemma named_push {rooted : Bool} {comp : Text} (h : ∀ c ∈ comps, Named c) (hslash : '/' ∉ comp) :
    ∀ c ∈ push rooted comps comp, Named c := by
  unfold push
  split_ifs with hskip hkeep
  · exact h
  · obtain ⟨hnil, hdot⟩ := not_or.mp hskip
    rw [List.forall_mem_append, List.forall_mem_singleton]
    exact ⟨h, hnil, hdot, hslash⟩
  · exact fun c hc => h c (List.mem_of_mem_dropLast hc)

lemma named_foldl_push {rooted : Bool} {segments : List Text} (h : ∀ c ∈ comps, Named c)
    (hslash : ∀ segment ∈ segments, '/' ∉ segment) :
    ∀ c ∈ segments.foldl (push rooted) comps, Named c := by
  induction segments generalizing comps with
  | nil => exact h
  | cons segment segments ih =>
    exact ih (named_push h (hslash segment (by simp))) fun s hs => hslash s (by simp [hs])

/-- What `normpath` leaves. -/
theorem exists_normpath (path : Text) :
    ∃ slashes comps, (∀ c ∈ comps, Named c) ∧ normpath path =
      if List.replicate slashes '/' ++ ['/'].intercalate comps = [] then ['.']
      else List.replicate slashes '/' ++ ['/'].intercalate comps :=
  ⟨rootSlashes path, _, named_foldl_push (by simp) slash_notMem_splitOn, rfl⟩

/-! ### Dots and slashes at the front -/

/-- `text.lstrip("./")` -/
def lstripDots (text : Text) : Text := text.dropWhile fun ch => ch = '.' ∨ ch = '/'

/-- The components of a text after `lstrip("./")`. -/
def stripComps : List Text → List Text
  | [] => []
  | comp :: comps => if lstripDots comp = [] then stripComps comps else lstripDots comp :: comps

lemma lstripDots_append (front back : Text) :
    lstripDots (front ++ back) =
      if lstripDots front = [] then lstripDots back else lstripDots front ++ back := by
  unfold lstripDots
  rw [List.dropWhile_append]
  by_cases hempty : front.dropWhile (fun ch => decide (ch = '.' ∨ ch = '/')) = []
  · rw [hempty, if_pos rfl]
    rfl
  · rw [if_neg hempty, if_neg (by simpa using hempty)]

lemma lstripDots_replicate (n : Nat) (text : Text) :
    lstripDots (List.replicate n '/' ++ text) = lstripDots text := by
  have hslashes : lstripDots (List.replicate n '/') = [] := by
    rw [lstripDots, List.dropWhile_eq_nil_iff]
    intro ch hch
    simp [List.eq_of_mem_replicate hch]
  rw [lstripDots_append, if_pos hslashes]

lemma lstripDots_intercalate (comps : List Text) :
    lstripDots (['/'].intercalate comps) = ['/'].intercalate (stripComps comps) := by
  induction comps with
  | nil => rfl
  | cons comp comps ih =>
    cases comps with
    | nil =>
      rw [List.intercalate_singleton, stripComps]
      split_ifs with hempty
      · exact hempty
      · rw [List.intercalate_singleton]
    | cons next comps =>
      rw [List.intercalate_cons_cons, List.append_assoc, lstripDots_append, stripComps]
      split_ifs with hempty
      · rw [← ih]
        exact lstripDots_replicate 1 _
      · rw [List.intercalate_cons_cons, List.append_assoc]

lemma named_stripComps (h : ∀ c ∈ comps, Named c) : ∀ c ∈ stripComps comps, Named c := by
  induction comps with
  | nil => exact h
  | cons comp comps ih =>
    rw [stripComps]
    split_ifs with hempty
    · exact ih fun c hc => h c (List.mem_cons_of_mem _ hc)
    · rintro c (_ | ⟨_, hc⟩)
      · refine ⟨hempty, fun hdot => ?_, fun hslash => ?_⟩
        · -- what is left does not begin with a dot
          have hagain : lstripDots (lstripDots comp) = lstripDots comp :=
            List.dropWhile_idempotent _ _
          rw [hdot] at hagain
          cases hagain
        · exact (h comp (by simp)).slash ((List.dropWhile_sublist _).subset hslash)
      · exact h c (List.mem_cons_of_mem _ hc)

/-- The loop that drops `../` at the front. -/
def dropUps : Text → Text
  | '.' :: '.' :: '/' :: rest => dropUps rest
  | text => text

lemma lstripDots_dropUps (text : Text) : lstripDots (dropUps text) = lstripDots text := by
  induction text using dropUps.induct with
  | case1 rest ih =>
    rw [dropUps, ih]
    rfl
  | case2 text hne => rw [dropUps.eq_2 text hne]

/-- What is left of a normal path without the dots and slashes at its front. -/
theorem exists_lstripDots_normpath (path : Text) :
    ∃ comps, (∀ c ∈ comps, Named c) ∧
      lstripDots (normpath path) = ['/'].intercalate comps := by
  obtain ⟨slashes, comps, hcomps, hnorm⟩ := exists_normpath path
  rw [hnorm]
  split_ifs with hempty
  · exact ⟨[], by simp, rfl⟩
  · refine ⟨stripComps comps, named_stripComps hcomps, ?_⟩
    rw [lstripDots_replicate, lstripDots_intercalate]

end PosixPath

end Codey
