import Mathlib.Data.List.DropRight
import Mathlib.Data.List.Infix
import Mathlib.Data.List.TakeWhile
import Mathlib.Algebra.BigOperators.Group.List.Basic
import Mathlib.Algebra.GroupWithZero.Nat

/-!
# Text

Blank characters, stripping and joining.
-/

namespace Codey

/-- The characters that `str.strip` removes. -/
def blank (ch : Char) : Bool :=
  [9, 10, 11, 12, 13, 28, 29, 30, 31, 32, 133, 160, 5760, 8192, 8193, 8194, 8195, 8196, 8197, 8198,
    8199, 8200, 8201, 8202, 8232, 8233, 8239, 8287, 12288].contains ch.toNat

/-- `str.strip` on the characters of a text. -/
def strip (cs : List Char) : List Char := (cs.dropWhile blank).rdropWhile blank

/-- `part in text` -/
def occursIn (part text : List Char) : Bool := text.tails.any part.isPrefixOf

lemma occursIn_iff {part text : List Char} : occursIn part text = true ↔ part <:+: text := by
  simp only [occursIn, List.any_eq_true, List.mem_tails, List.isPrefixOf_iff_prefix]
  constructor
  · rintro ⟨tail, htail, hpart⟩
    exact hpart.isInfix.trans htail.isInfix
  · rintro ⟨front, back, rfl⟩
    exact ⟨part ++ back, ⟨front, by simp⟩, part.prefix_append back⟩

variable {cs : List Char}

lemma strip_sublist (cs : List Char) : (strip cs).Sublist cs :=
  (List.rdropWhile_prefix blank _).sublist.trans (List.dropWhile_sublist blank)

/-- A text that neither begins nor ends with a blank is left as it is. -/
lemma strip_eq_self_iff :
    strip cs = cs ↔ (∀ ch ∈ cs.head?, blank ch = false) ∧ ∀ ch ∈ cs.getLast?, blank ch = false := by
  have hhead : cs.dropWhile blank = cs ↔ ∀ ch ∈ cs.head?, blank ch = false := by
    cases cs with
    | nil => simp
    | cons ch cs => simp
  have hlast : cs.rdropWhile blank = cs ↔ ∀ ch ∈ cs.getLast?, blank ch = false := by
    rw [List.rdropWhile_eq_self_iff]
    rcases List.eq_nil_or_concat cs with rfl | ⟨init, last, rfl⟩
    · simp
    · simp
  constructor
  · intro h
    have hle : (strip cs).length ≤ (cs.dropWhile blank).length :=
      (List.rdropWhile_prefix blank _).length_le
    rw [h] at hle
    have hdrop : cs.dropWhile blank = cs :=
      (List.dropWhile_sublist blank).eq_of_length_le hle
    rw [strip, hdrop] at h
    exact ⟨hhead.mp hdrop, hlast.mp h⟩
  · rintro ⟨hfirst, hfinal⟩
    rw [strip, hhead.mpr hfirst, hlast.mpr hfinal]

/-- A stripped text neither begins nor ends with a blank. -/
lemma blank_ends_strip (text : List Char) :
    (∀ ch ∈ (strip text).head?, blank ch = false) ∧
      ∀ ch ∈ (strip text).getLast?, blank ch = false := by
  constructor
  · intro ch hch
    obtain ⟨rest, hrest⟩ := List.head?_eq_some_iff.mp hch
    obtain ⟨more, hmore⟩ := List.rdropWhile_prefix blank (text.dropWhile blank)
    have hfirst := List.head?_dropWhile_not blank text
    rw [← hmore, show (text.dropWhile blank).rdropWhile blank = ch :: rest from hrest] at hfirst
    simpa using hfirst
  · intro ch hch
    have hne : (text.dropWhile blank).rdropWhile blank ≠ [] := by
      rintro hnil
      rw [strip, hnil] at hch
      cases hch
    have hlast := List.rdropWhile_last_not blank (text.dropWhile blank) hne
    rw [strip, List.getLast?_eq_some_getLast hne] at hch
    rw [← Option.some.inj hch]
    simpa using hlast

lemma strip_strip (text : List Char) : strip (strip text) = strip text :=
  strip_eq_self_iff.mpr (blank_ends_strip text)

lemma strip_eq_nil_iff {text : List Char} : strip text = [] ↔ ∀ ch ∈ text, blank ch = true := by
  rw [strip, List.rdropWhile_eq_nil_iff]
  constructor
  · intro h ch hch
    by_contra hblank
    rw [← List.takeWhile_append_dropWhile (p := blank) (l := text), List.mem_append] at hch
    rcases hch with hch | hch
    · exact hblank (List.mem_takeWhile_imp hch)
    · exact hblank (h ch hch)
  · exact fun h ch hch => h ch ((List.dropWhile_sublist blank).subset hch)

/-- The length of a joined text: each part with its separator, less the last one. -/
lemma length_intercalate (sep : Char) {parts : List (List Char)} (h : parts ≠ []) :
    ([sep].intercalate parts).length + 1 = (parts.map fun part => part.length + 1).sum := by
  induction parts with
  | nil => exact absurd rfl h
  | cons part parts ih =>
    cases parts with
    | nil => simp
    | cons next parts =>
      have ih := ih (List.cons_ne_nil _ _)
      rw [List.intercalate_cons_cons, List.map_cons, List.sum_cons, ← ih]
      simp only [List.length_append, List.length_singleton]
      omega

end Codey
