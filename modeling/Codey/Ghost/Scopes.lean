import Codey.Lib.Text
import Mathlib.Data.List.Basic

/-!
# Scopes of Ghost memory

Texts are clipped before they are kept, and a scope is named by a project or a session.
-/

namespace Codey

namespace Ghost

/-! ### Clipped texts -/

/-- The two replacements of carriage returns. -/
def unixNewlines : List Char → List Char
  | '\r' :: '\n' :: rest => '\n' :: unixNewlines rest
  | '\r' :: rest => '\n' :: unixNewlines rest
  | ch :: rest => ch :: unixNewlines rest
  | [] => []

def truncatedTextSuffix : List Char := "...".toList

def clipSignalText (text : String) (limit : Nat := 600) : String :=
  let chars := strip (unixNewlines text.toList)
  if chars.length ≤ limit then String.ofList chars
  else if limit ≤ truncatedTextSuffix.length then String.ofList (chars.take limit)
  else
    String.ofList
      ((chars.take (limit - truncatedTextSuffix.length)).rdropWhile blank ++ truncatedTextSuffix)

lemma cr_notMem_unixNewlines (text : List Char) : '\r' ∉ unixNewlines text := by
  induction text using unixNewlines.induct with
  | case1 rest ih =>
    rw [unixNewlines, List.mem_cons, not_or]
    exact ⟨by decide, ih⟩
  | case2 rest hrest ih =>
    rw [unixNewlines.eq_2 rest hrest, List.mem_cons, not_or]
    exact ⟨by decide, ih⟩
  | case3 ch rest hcrlf hcr ih =>
    rw [unixNewlines.eq_3 ch rest hcrlf hcr, List.mem_cons, not_or]
    exact ⟨fun h => hcr h.symm, ih⟩
  | case4 => exact List.not_mem_nil

lemma unixNewlines_eq_self {text : List Char} (h : '\r' ∉ text) : unixNewlines text = text := by
  induction text using unixNewlines.induct with
  | case1 rest ih => exact absurd List.mem_cons_self h
  | case2 rest hrest ih => exact absurd List.mem_cons_self h
  | case3 ch rest hcrlf hcr ih =>
    rw [unixNewlines.eq_3 ch rest hcrlf hcr, ih fun hmem => h (List.mem_cons_of_mem _ hmem)]
  | case4 => rfl

/-- A text that was clipped is left as it is. -/
lemma clipSignalText_idem (text : String) {limit : Nat} (hlimit : 3 < limit) :
    clipSignalText (clipSignalText text limit) limit = clipSignalText text limit := by
  have hkept : ∀ chars : List Char, '\r' ∉ chars → strip chars = chars → chars.length ≤ limit →
      clipSignalText (String.ofList chars) limit = String.ofList chars := by
    intro chars hcr hstrip hlen
    simp only [clipSignalText, String.toList_ofList, unixNewlines_eq_self hcr, hstrip]
    rw [if_pos hlen]
  have hcr : '\r' ∉ strip (unixNewlines text.toList) :=
    fun hmem => cr_notMem_unixNewlines _ ((strip_sublist _).subset hmem)
  have hsuffix : truncatedTextSuffix.length = 3 := rfl
  rw [clipSignalText.eq_1 text]
  split_ifs with hshort htiny
  · exact hkept _ hcr (strip_strip _) hshort
  · omega
  · generalize hfront : (List.take (limit - truncatedTextSuffix.length)
      (strip (unixNewlines text.toList))).rdropWhile blank = front
    have hbegins : front <+: strip (unixNewlines text.toList) := by
      rw [← hfront]
      exact (List.rdropWhile_prefix blank _).trans (List.take_prefix _ _)
    have hlen : front.length ≤ limit - truncatedTextSuffix.length := by
      rw [← hfront]
      exact (List.rdropWhile_prefix blank _).length_le.trans (List.length_take_le _ _)
    apply hkept
    · rw [List.mem_append, not_or]
      exact ⟨fun hmem => hcr (hbegins.subset hmem), by decide⟩
    · rw [strip_eq_self_iff]
      constructor
      · intro ch hch
        cases front with
        | nil =>
          obtain rfl : '.' = ch := Option.some.inj hch
          rfl
        | cons first front =>
          obtain rfl : first = ch := Option.some.inj hch
          obtain ⟨more, hmore⟩ := hbegins
          exact (blank_ends_strip _).1 first (by rw [← hmore]; rfl)
      · intro ch hch
        rw [List.getLast?_append] at hch
        obtain rfl : '.' = ch := Option.some.inj hch
        rfl
    · rw [List.length_append]
      omega

/-! ### Scopes -/

/-- `SIGNAL_SCOPES` -/
inductive Scope where
  | user | project | session
deriving DecidableEq, Repr

def Scope.all : List Scope := [.user, .project, .session]

lemma Scope.mem_all (scope : Scope) : scope ∈ Scope.all := by cases scope <;> decide

def Scope.name : Scope → String
  | .user => "user"
  | .project => "project"
  | .session => "session"

@[simp] lemma Scope.name_inj {a b : Scope} : a.name = b.name ↔ a = b := by
  cases a <;> cases b <;> decide

/-- The file system, as far as project names depend on it: `Path(text).expanduser().resolve()`,
which may raise. -/
structure Host where
  resolve : String → Option String

variable (host : Host)

def normalizeProject (value : String) : String :=
  let text := String.ofList (strip value.toList)
  if text = "" then "" else clipSignalText ((host.resolve text).getD text) 240

def sessionRef (value : String) : String := clipSignalText value 120

/-- `_control_scope_ref`, which raises when the reference is missing. -/
def controlScopeRef (scope : Scope) (project session : String) : Option String :=
  match scope with
  | .user => some ""
  | .project => if normalizeProject host project = "" then none else normalizeProject host project
  | .session => if sessionRef session = "" then none else sessionRef session

end Ghost

end Codey
