import Mathlib.Data.List.Basic
import Mathlib.Data.List.DropRight

/-!
# Lines

The lines of a text, cut at every character at which `str.splitlines` cuts.
-/

namespace Codey

/-- The characters that end a line for `str.splitlines`. -/
def lineBreak (ch : Char) : Bool := [10, 11, 12, 13, 28, 29, 30, 133, 8232, 8233].contains ch.toNat

/-- Puts a character in front of the first line. -/
def consLine (ch : Char) : List (List Char) → List (List Char)
  | [] => [[ch]]
  | line :: lines => (ch :: line) :: lines

/-- `str.splitlines`: a carriage return and the newline after it are one break. -/
def splitLines : List Char → List (List Char)
  | [] => []
  | ch :: rest =>
    if ch = '\r' ∧ rest.head? = some '\n' then splitLines rest
    else if lineBreak ch then [] :: splitLines rest
    else consLine ch (splitLines rest)

/-- The lines into which a text falls once a newline is put after it. -/
def pieces (text : List Char) : List (List Char) := splitLines (text ++ ['\n'])

/-- The texts, each with its newline. -/
def unlines (texts : List (List Char)) : List Char := texts.flatMap (· ++ ['\n'])

/-- Whether nothing in the text ends a line. -/
def Unbroken (text : List Char) : Prop := ∀ ch ∈ text, lineBreak ch = false

instance (text : List Char) : Decidable (Unbroken text) :=
  decidable_of_iff (text.all fun ch => !lineBreak ch) (by simp [Unbroken])

variable {ch : Char} {text rest front : List Char} {texts : List (List Char)}

@[simp] lemma splitLines_nil : splitLines [] = [] := rfl

@[simp] lemma unlines_nil : unlines [] = [] := rfl

@[simp] lemma unlines_cons : unlines (text :: texts) = text ++ '\n' :: unlines texts := by
  simp [unlines]

@[simp] lemma unbroken_nil : Unbroken [] := by simp [Unbroken]

@[simp] lemma unbroken_cons : Unbroken (ch :: text) ↔ lineBreak ch = false ∧ Unbroken text := by
  simp [Unbroken]

lemma splitLines_crlf : splitLines ('\r' :: '\n' :: rest) = splitLines ('\n' :: rest) := by
  rw [splitLines]
  simp

lemma splitLines_cons_of_unbroken (h : lineBreak ch = false) :
    splitLines (ch :: rest) = consLine ch (splitLines rest) := by
  have hcr : ch ≠ '\r' := by
    rintro rfl
    exact absurd h (by decide)
  simp [splitLines, hcr, h]

lemma splitLines_ne_nil (h : text ≠ []) : splitLines text ≠ [] := by
  induction text with
  | nil => exact absurd rfl h
  | cons ch rest ih =>
    simp only [splitLines]
    split_ifs with hcr
    · apply ih
      rintro rfl
      simp at hcr
    · simp
    · cases splitLines rest <;> simp [consLine]

lemma pieces_ne_nil (text : List Char) : pieces text ≠ [] := splitLines_ne_nil (by simp)

lemma consLine_append {lines more : List (List Char)} (h : lines ≠ []) :
    consLine ch (lines ++ more) = consLine ch lines ++ more := by
  cases lines with
  | nil => exact absurd rfl h
  | cons line lines => rfl

/-- No line reaches beyond a newline. -/
lemma splitLines_append_newline (text rest : List Char) :
    splitLines (text ++ '\n' :: rest) = pieces text ++ splitLines rest := by
  induction text with
  | nil => simp [pieces, splitLines, lineBreak]
  | cons ch text ih =>
    have hhead : (text ++ '\n' :: rest).head? = (text ++ ['\n']).head? := by cases text <;> rfl
    simp only [List.cons_append, splitLines, pieces, hhead] at ih ⊢
    split_ifs
    · exact ih
    · rw [ih, List.cons_append]
    · rw [ih, consLine_append (splitLines_ne_nil (by simp))]

lemma splitLines_unlines (texts : List (List Char)) :
    splitLines (unlines texts) = texts.flatMap pieces := by
  induction texts with
  | nil => rfl
  | cons text texts ih => rw [unlines_cons, splitLines_append_newline, ih, List.flatMap_cons]

/-- Whether a text ends with a newline matters for one empty line at most. -/
lemma pieces_eq_or (text : List Char) :
    pieces text = splitLines text ∨ pieces text = splitLines text ++ [[]] := by
  induction text with
  | nil => exact .inr rfl
  | cons ch rest ih =>
    cases rest with
    | nil =>
      have hnl : splitLines ['\n'] = [[]] := rfl
      simp only [pieces, List.cons_append, List.nil_append, splitLines.eq_2 ch, hnl,
        splitLines_nil]
      by_cases hcr : ch = '\r'
      · subst hcr
        exact .inl rfl
      · by_cases hbreak : lineBreak ch
        · simp [hcr, hbreak]
        · simp [hcr, hbreak, consLine]
    | cons next rest =>
      simp only [pieces, List.cons_append] at ih ⊢
      by_cases hcr : ch = '\r' ∧ next = '\n'
      · obtain ⟨rfl, rfl⟩ := hcr
        rwa [splitLines_crlf, splitLines_crlf]
      · by_cases hbreak : lineBreak ch
        · rcases ih with h | h
          · exact .inl (by simp [splitLines.eq_2 ch, hcr, hbreak, h])
          · exact .inr (by simp [splitLines.eq_2 ch, hcr, hbreak, h])
        · have hne : splitLines (next :: rest) ≠ [] := splitLines_ne_nil (by simp)
          rcases ih with h | h
          · exact .inl (by simp [splitLines.eq_2 ch, hcr, hbreak, h])
          · exact .inr (by simp [splitLines.eq_2 ch, hcr, hbreak, h, consLine_append hne])

/-- A front without a break stays in front of the first line. -/
lemma pieces_append (h : Unbroken front) (text : List Char) :
    ∃ first later, pieces text = first :: later ∧
      pieces (front ++ text) = (front ++ first) :: later := by
  induction front with
  | nil =>
    obtain ⟨first, later, hp⟩ := List.exists_cons_of_ne_nil (pieces_ne_nil text)
    exact ⟨first, later, hp, hp⟩
  | cons ch front ih =>
    obtain ⟨hch, hfront⟩ := unbroken_cons.mp h
    obtain ⟨first, later, hp, hf⟩ := ih hfront
    refine ⟨first, later, hp, ?_⟩
    rw [pieces] at hf
    rw [pieces, List.cons_append, List.cons_append, splitLines_cons_of_unbroken hch, hf]
    rfl

/-- The lines of a text have no breaks in them. -/
lemma unbroken_of_mem_splitLines {line : List Char} (h : line ∈ splitLines text) :
    Unbroken line := by
  induction text generalizing line with
  | nil => simp at h
  | cons ch rest ih =>
    simp only [splitLines] at h
    split_ifs at h with hcr hbreak
    · exact ih h
    · rcases List.mem_cons.mp h with rfl | h
      · exact unbroken_nil
      · exact ih h
    · have hch : lineBreak ch = false := by simpa using hbreak
      cases hs : splitLines rest with
      | nil =>
        rw [hs, consLine, List.mem_singleton] at h
        subst h
        simpa using hch
      | cons first lines =>
        rw [hs, consLine] at h
        rcases List.mem_cons.mp h with rfl | h
        · exact unbroken_cons.mpr ⟨hch, ih (by simp [hs])⟩
        · exact ih (by simp [hs, h])

/-! ### Carriage returns at the end -/

/-- `str.rstrip` of carriage returns. -/
def rstripCr (text : List Char) : List Char := text.rdropWhile (· == '\r')

lemma rstripCr_of_unbroken (h : Unbroken text) : rstripCr text = text := by
  rw [rstripCr, List.rdropWhile_eq_self_iff]
  intro hne hcr
  have := h _ (List.getLast_mem hne)
  rw [beq_iff_eq.mp hcr] at this
  exact absurd this (by decide)

lemma exists_rstripCr (text : List Char) :
    ∃ n, text = rstripCr text ++ List.replicate n '\r' := by
  refine ⟨(text.rtakeWhile (· == '\r')).length, ?_⟩
  have hrep : text.rtakeWhile (· == '\r') =
      List.replicate (text.rtakeWhile (· == '\r')).length '\r' := by
    apply List.eq_replicate_of_mem
    intro ch hch
    simpa using List.mem_rtakeWhile_imp hch
  rw [← hrep]
  exact List.rdropWhile_append_rtakeWhile.symm

lemma pieces_replicate_cr (n : Nat) :
    pieces (List.replicate n '\r') = [] :: List.replicate (n - 1) [] := by
  induction n with
  | zero => rfl
  | succ n ih =>
    cases n with
    | zero => rfl
    | succ n =>
      rw [pieces, List.replicate_succ, List.cons_append, splitLines, if_neg, if_pos (by decide)]
      · rw [pieces] at ih
        rw [ih]
        rfl
      · simp [List.replicate_succ]

/-- Carriage returns at the end of a line add nothing to it but empty lines after it. -/
lemma pieces_of_unbroken_rstripCr (h : Unbroken (rstripCr text)) :
    ∃ n, pieces text = rstripCr text :: List.replicate n [] := by
  obtain ⟨n, hn⟩ := exists_rstripCr text
  obtain ⟨first, later, hp, hf⟩ := pieces_append h (List.replicate n '\r')
  rw [pieces_replicate_cr] at hp
  obtain ⟨rfl, rfl⟩ := List.cons.inj hp
  refine ⟨n - 1, ?_⟩
  rw [← hn, List.append_nil] at hf
  exact hf

/-! ### Lines with their newlines -/

/-- The lines of a text, each with the newline that ends it. -/
def newlineLines : List Char → List (List Char)
  | [] => []
  | ch :: rest =>
    if ch = '\n' then [ch] :: newlineLines rest else consLine ch (newlineLines rest)

lemma flatten_consLine (ch : Char) (lines : List (List Char)) :
    (consLine ch lines).flatten = ch :: lines.flatten := by
  cases lines <;> rfl

lemma flatten_newlineLines (text : List Char) : (newlineLines text).flatten = text := by
  induction text with
  | nil => rfl
  | cons ch rest ih =>
    rw [newlineLines]
    split_ifs
    · rw [List.flatten_cons, ih]
      rfl
    · rw [flatten_consLine, ih]

/-- What a text file reads: a carriage return, and the newline after it, become one newline. -/
def universalNewlines : List Char → List Char
  | [] => []
  | ch :: rest =>
    if ch = '\r' then
      if rest.head? = some '\n' then universalNewlines rest else '\n' :: universalNewlines rest
    else ch :: universalNewlines rest

lemma cr_notMem_universalNewlines (text : List Char) : '\r' ∉ universalNewlines text := by
  induction text with
  | nil => exact List.not_mem_nil
  | cons ch rest ih =>
    rw [universalNewlines]
    split_ifs with hcr hlf
    · exact ih
    · rw [List.mem_cons, not_or]
      exact ⟨by decide, ih⟩
    · rw [List.mem_cons, not_or]
      exact ⟨fun h => hcr h.symm, ih⟩

/-- A text without carriage returns is read as it is. -/
lemma universalNewlines_eq_self (h : '\r' ∉ text) : universalNewlines text = text := by
  induction text with
  | nil => rfl
  | cons ch rest ih =>
    rw [List.mem_cons, not_or] at h
    rw [universalNewlines, if_neg (Ne.symm h.1), ih h.2]

end Codey
