import Codey.Policies.ShellAnalysis

/-!
# Command names

The names that `cmd.exe` finds in a text, and those of them that the lexer may read otherwise.
-/

namespace Codey

namespace Policies

/-! ### What `cmd.exe` reads -/

/-- Where `cmd.exe` is in a command: before its name (perhaps right behind a separator that ended
the target of a redirection), in its name, in a redirection before its name (whose target has begun
or not), or after its name. -/
inductive Place where
  | before (glued : Bool)
  | name (raw literal : List Char)
  | target (begun : Bool)
  | after (found : List Char)

def Place.found? : Place → Option (List Char)
  | .name _ literal => some literal
  | .after found => some found
  | _ => none

/-- What `cmd.exe` has read: whether it is within quotes, whether nothing but blanks has come since
a redirection, and the names that it has found. Each of them says whether its command is oddly
written: `odd` notes that of the command at hand, and `lost` that one of the line ends or operators
so far does not part the words for the lexer. -/
structure Reader where
  quoted : Bool := false
  awaiting : Bool := false
  place : Place := .before false
  odd : Bool := false
  lost : Bool := false
  names : List (List Char × Bool) := []

def separator (ch : Char) : Bool := ch = ',' || ch = ';' || ch = '='

def lineEnd (ch : Char) : Bool := ch = '\r' || ch = '\n'

/-- A digit right before a redirection says what is redirected. -/
def handle : List Char → Bool
  | [ch] => ch.isDigit
  | _ => false

namespace Reader

variable (r : Reader)

/-- The end of a command. For the lexer a line end within quotes is none, and a redirection takes its
target from behind an operator. -/
def close : Reader where
  lost := r.lost || r.quoted || r.awaiting
  names := r.names ++ (r.place.found?.map fun name => (name, r.odd || r.lost || r.quoted)).toList

/-- The end of a word. For the lexer it ends a target that consists of separators. -/
def finish : Reader :=
  match r.place with
  | .name _ literal => { r with place := .after literal }
  | .target false => { r with odd := r.odd || !r.awaiting }
  | .after _ => r
  | _ => { r with place := .before false }

/-- One more character of a word. -/
def push (ch : Char) : Reader :=
  match r.place with
  | .before glued => { r with awaiting := false, odd := r.odd || glued, place := .name [ch] [ch] }
  | .name raw literal =>
    { r with awaiting := false, place := .name (raw ++ [ch]) (literal ++ [ch]) }
  | .target _ => { r with awaiting := false, place := .target true }
  | .after _ => { r with awaiting := false }

/-- A quotation mark belongs to a word, but not to what the word reads as. -/
def quote : Reader :=
  match r.place with
  | .before glued =>
    { r with quoted := !r.quoted, awaiting := false, odd := r.odd || glued, place := .name ['"'] [] }
  | .name raw literal =>
    { r with quoted := !r.quoted, awaiting := false, place := .name (raw ++ ['"']) literal }
  | .target _ => { r with quoted := !r.quoted, awaiting := false, place := .target true }
  | .after _ => { r with quoted := !r.quoted, awaiting := false }

/-- A redirection. The lexer takes a number of any length before it for its handle. -/
def redirect : Reader :=
  match r.place with
  | .name raw literal =>
    if handle raw then { r with awaiting := true, place := .target false }
    else { r with awaiting := true, odd := r.odd || decimal raw, place := .after literal }
  | .after _ => { r with awaiting := true }
  | _ => { r with awaiting := true, place := .target false }

/-- A separator ends a word. For the lexer it is part of one. -/
def separate : Reader :=
  match r.place with
  | .before glued => { r with awaiting := false, odd := r.odd || !glued }
  | .name _ literal => { r with awaiting := false, odd := true, place := .after literal }
  | .target begun =>
    { r with awaiting := false, place := if begun then .before true else .target false }
  | .after _ => { r with awaiting := false }

/-- An `@` before the name is not part of it. For the lexer it is. -/
def mention : Reader :=
  match r.place with
  | .before glued => { r with awaiting := false, odd := r.odd || !glued }
  | _ => r.push '@'

/-- The turn for one character: how many characters after it belong to it as well, and what
`cmd.exe` has read then. A line end is the end of a command even within quotes. -/
def next (ch : Char) (cs : List Char) : Nat × Reader :=
  if lineEnd ch then (0, r.close)
  else if ch = '"' then (0, r.quote)
  else if r.quoted then (0, r.push ch)
  else if ch = '&' || ch = '|' then (if cs.head? = some ch then 1 else 0, r.close)
  else if ch = '<' || ch = '>' then
    if cs.head? = some ch then (if cs.tail.head? = some '&' then 2 else 1, r.redirect)
    else (if cs.head? = some '&' then 1 else 0, r.redirect)
  else if blank ch then (0, r.finish)
  else if separator ch then (0, r.separate)
  else if ch = '@' then (0, r.mention)
  else (0, r.push ch)

end Reader

/-- What `cmd.exe` reads in a text. The number says how many characters have been read already. -/
def cmdRead : Nat → List Char → Reader → Reader
  | _, [], r => r
  | taken + 1, _ :: cs, r => cmdRead taken cs r
  | 0, ch :: cs, r => cmdRead (r.next ch cs).1 cs (r.next ch cs).2

/-- The commands that `cmd.exe` finds in a text: their names, and whether they are oddly written. -/
def cmdCommands (command : String) : List (List Char × Bool) :=
  (cmdRead 0 command.toList {}).close.names

/-- The names that `cmd.exe` finds in a text. -/
def cmdNames (command : String) : List String :=
  (cmdCommands command).map fun found => String.ofList found.1

/-- The names of the commands that are oddly written. -/
def oddNames (command : String) : List String :=
  ((cmdCommands command).filter (·.2)).map fun found => String.ofList found.1

/-! ### The lexer reads plain commands alike -/

def ShellWord.Reads (word : ShellWord) (name : List Char) : Prop :=
  word.literal = none ∨ word.literal = some (String.ofList name)

def ShellCommand.Named (row : ShellCommand) (name : List Char) : Prop :=
  ∃ word words, row.words = word :: words ∧ word.Reads name

/-- Where the lexer is in a command is where `cmd.exe` is. -/
def Place.At (s : Lexer) : Place → Prop
  | .before false => s.words = [] ∧ s.target = none ∧ s.raw = [] ∧ s.literal = []
  | .before true => s.words = [] ∧ s.target ≠ none ∧ s.raw ≠ []
  | .name raw literal => s.words = [] ∧ s.target = none ∧ s.raw = raw ∧ s.literal = literal ∧
      raw ≠ []
  | .target begun => s.words = [] ∧ s.target ≠ none ∧ (begun = true → s.raw ≠ [])
  | .after found => ∃ word words, s.words = word :: words ∧ word.Reads found

/-- Every command that is not oddly written is listed under its name. -/
def Listed (s : Lexer) (r : Reader) : Prop :=
  ∀ name, (name, false) ∈ r.names → ∃ row ∈ s.commands, row.Named name

/-- The lexer and `cmd.exe` have read alike what is not oddly written. -/
structure Alike (s : Lexer) (r : Reader) : Prop where
  listed : Listed s r
  quoted : s.quoted = r.quoted
  empty : s.raw = [] → s.literal = []
  awaiting : r.awaiting = true ↔ s.target ≠ none ∧ s.raw = []
  place : r.odd = false → r.place.At s

/-- The lexer has put one more character into a word. -/
structure Pushed (s s' : Lexer) (ch : Char) : Prop where
  words : s'.words = s.words
  target : s'.target = s.target
  raw : s'.raw = s.raw ++ [ch]
  literal : s'.literal = s.literal ++ [ch]
  commands : s'.commands = s.commands
  quoted : s'.quoted = s.quoted

lemma cmdWord_reads (raw literal : List Char) : (cmdWord raw literal).Reads literal := by
  unfold cmdWord ShellWord.Reads
  dsimp only
  split_ifs
  · exact Or.inr rfl
  · exact Or.inl rfl

lemma alike_init : Alike {} {} :=
  ⟨by simp [Listed], rfl, fun _ => rfl, by simp, fun _ => ⟨rfl, rfl, rfl, rfl⟩⟩

namespace Reader

variable (r : Reader)

lemma push_frame (ch : Char) : (r.push ch).lost = r.lost ∧ (r.push ch).names = r.names := by
  cases hr : r.place <;> simp [push, hr]

lemma quote_frame : r.quote.lost = r.lost ∧ r.quote.names = r.names := by
  cases hr : r.place <;> simp [quote, hr]

lemma separate_frame : r.separate.lost = r.lost ∧ r.separate.names = r.names := by
  cases hr : r.place <;> simp [separate, hr]

lemma mention_frame : r.mention.lost = r.lost ∧ r.mention.names = r.names := by
  cases hr : r.place <;> simp [mention, push, hr]

lemma redirect_frame : r.redirect.quoted = r.quoted ∧ r.redirect.awaiting = true ∧
    r.redirect.lost = r.lost ∧ r.redirect.names = r.names := by
  cases hr : r.place with
  | name raw literal =>
    simp only [redirect, hr]
    split_ifs <;> exact ⟨rfl, rfl, rfl, rfl⟩
  | before | target | after => simp [redirect, hr]

lemma finish_frame : r.finish.quoted = r.quoted ∧ r.finish.awaiting = r.awaiting ∧
    r.finish.lost = r.lost ∧ r.finish.names = r.names := by
  cases hr : r.place with
  | target begun => cases begun <;> simp [finish, hr]
  | before | name | after => simp [finish, hr]

end Reader

namespace Alike

variable {s s' : Lexer} {r : Reader} {ch : Char}

/-- A word that goes on. -/
lemma grown (h : Alike s r) {r' : Reader} (hcommands : s'.commands = s.commands)
    (hraw : s'.raw ≠ []) (hquoted : s'.quoted = r'.quoted) (hawaiting : r'.awaiting = false)
    (hnames : r'.names = r.names) (hplace : r'.odd = false → r'.place.At s') : Alike s' r' := by
  refine ⟨?_, hquoted, fun he => absurd he hraw, ?_, hplace⟩
  · rw [Listed, hcommands, hnames]
    exact h.listed
  · simp [hawaiting, hraw]

lemma push (h : Alike s r) (hp : Pushed s s' ch) : Alike s' (r.push ch) := by
  have hraw : s'.raw ≠ [] := by simp [hp.raw]
  have hquoted := hp.quoted.trans h.quoted
  have hplace := h.place
  obtain ⟨quoted, awaiting, place, odd, lost, names⟩ := r
  cases place with
  | before glued =>
    refine h.grown hp.commands hraw hquoted rfl rfl fun hodd => ?_
    obtain ⟨hodd, rfl⟩ := Bool.or_eq_false_iff.mp hodd
    obtain ⟨hwords, htarget, hraw, hliteral⟩ := hplace hodd
    exact ⟨hp.words.trans hwords, hp.target.trans htarget, by rw [hp.raw, hraw, List.nil_append],
      by rw [hp.literal, hliteral, List.nil_append], List.cons_ne_nil _ _⟩
  | name raw literal =>
    refine h.grown hp.commands hraw hquoted rfl rfl fun hodd => ?_
    obtain ⟨hwords, htarget, hraw, hliteral, -⟩ := hplace hodd
    exact ⟨hp.words.trans hwords, hp.target.trans htarget, by rw [hp.raw, hraw],
      by rw [hp.literal, hliteral], by simp⟩
  | target begun =>
    refine h.grown hp.commands hraw hquoted rfl rfl fun hodd => ?_
    obtain ⟨hwords, htarget, -⟩ := hplace hodd
    exact ⟨hp.words.trans hwords, hp.target.trans_ne htarget, fun _ => hraw⟩
  | after found =>
    refine h.grown hp.commands hraw hquoted rfl rfl fun hodd => ?_
    obtain ⟨word, words, hwords, hreads⟩ := hplace hodd
    exact ⟨word, words, hp.words.trans hwords, hreads⟩

lemma quote (h : Alike s r) : Alike s.quote r.quote := by
  have hraw : s.quote.raw ≠ [] := by simp [Lexer.quote]
  have hquoted : s.quote.quoted = !r.quoted := congrArg not h.quoted
  have hplace := h.place
  obtain ⟨quoted, awaiting, place, odd, lost, names⟩ := r
  cases place with
  | before glued =>
    refine h.grown rfl hraw hquoted rfl rfl fun hodd => ?_
    obtain ⟨hodd, rfl⟩ := Bool.or_eq_false_iff.mp hodd
    obtain ⟨hwords, htarget, hraw, hliteral⟩ := hplace hodd
    exact ⟨hwords, htarget, by simp [Lexer.quote, hraw], hliteral, List.cons_ne_nil _ _⟩
  | name raw literal =>
    refine h.grown rfl hraw hquoted rfl rfl fun hodd => ?_
    obtain ⟨hwords, htarget, hraw, hliteral, -⟩ := hplace hodd
    exact ⟨hwords, htarget, by simp [Lexer.quote, hraw], hliteral, by simp⟩
  | target begun =>
    refine h.grown rfl hraw hquoted rfl rfl fun hodd => ?_
    obtain ⟨hwords, htarget, -⟩ := hplace hodd
    exact ⟨hwords, htarget, fun _ => hraw⟩
  | after found => exact h.grown rfl hraw hquoted rfl rfl hplace

lemma separate (h : Alike s r) (hp : Pushed s s' ch) : Alike s' r.separate := by
  have hraw : s'.raw ≠ [] := by simp [hp.raw]
  have hquoted := hp.quoted.trans h.quoted
  have hplace := h.place
  obtain ⟨quoted, awaiting, place, odd, lost, names⟩ := r
  cases place with
  | before glued =>
    -- only behind a target that has not ended for the lexer
    refine h.grown hp.commands hraw hquoted rfl rfl fun hodd => ?_
    obtain ⟨hodd, hglued⟩ := Bool.or_eq_false_iff.mp hodd
    obtain rfl : glued = true := by simpa using hglued
    obtain ⟨hwords, htarget, -⟩ := hplace hodd
    exact ⟨hp.words.trans hwords, hp.target.trans_ne htarget, hraw⟩
  | name raw literal =>
    exact h.grown hp.commands hraw hquoted rfl rfl fun hodd => absurd hodd (by simp [Reader.separate])
  | target begun =>
    refine h.grown hp.commands hraw hquoted rfl rfl fun hodd => ?_
    obtain ⟨hwords, htarget, -⟩ := hplace hodd
    have hwords := hp.words.trans hwords
    have htarget := hp.target.trans_ne htarget
    cases begun with
    | true => exact ⟨hwords, htarget, hraw⟩
    | false => exact ⟨hwords, htarget, fun _ => hraw⟩
  | after found =>
    refine h.grown hp.commands hraw hquoted rfl rfl fun hodd => ?_
    obtain ⟨word, words, hwords, hreads⟩ := hplace hodd
    exact ⟨word, words, hp.words.trans hwords, hreads⟩

lemma mention (h : Alike s r) (hp : Pushed s s' '@') : Alike s' r.mention := by
  cases hr : r.place with
  | before glued =>
    have hsame : r.mention = r.separate := by rw [Reader.mention, Reader.separate, hr]
    exact hsame ▸ h.separate hp
  | name | target | after =>
    have hsame : r.mention = r.push '@' := by rw [Reader.mention, hr]
    exact hsame ▸ h.push hp

lemma finish_of_empty (hraw : s.raw = []) : s.finish = s := if_pos hraw

lemma finish_of_target {operator : String} (hraw : s.raw ≠ [])
    (htarget : s.target = some operator) :
    s.finish.words = s.words ∧ s.finish.target = none ∧ s.finish.raw = [] ∧
      s.finish.literal = [] ∧ s.finish.commands = s.commands ∧ s.finish.quoted = s.quoted := by
  simp [Lexer.finish, hraw, htarget]

lemma finish_of_word (hraw : s.raw ≠ []) (htarget : s.target = none) :
    s.finish.words = s.words ++ [cmdWord s.raw s.literal] ∧ s.finish.target = none ∧
      s.finish.raw = [] ∧ s.finish.literal = [] ∧ s.finish.commands = s.commands ∧
      s.finish.quoted = s.quoted := by
  simp [Lexer.finish, hraw, htarget]

/-- What the end of a word does, whatever the word is for. -/
lemma finish_frame (s : Lexer) : s.finish.raw = [] ∧ s.finish.commands = s.commands ∧
    s.finish.quoted = s.quoted ∧ (s.raw ≠ [] → s.finish.target = none ∧ s.finish.literal = []) ∧
    ∃ words, s.finish.words = s.words ++ words := by
  by_cases hraw : s.raw = []
  · rw [finish_of_empty hraw]
    exact ⟨hraw, rfl, rfl, fun hne => absurd hraw hne, [], (List.append_nil _).symm⟩
  cases htarget : s.target with
  | none =>
    obtain ⟨hwords, hnone, hraw', hliteral, hcommands, hquoted⟩ := finish_of_word hraw htarget
    exact ⟨hraw', hcommands, hquoted, fun _ => ⟨hnone, hliteral⟩, _, hwords⟩
  | some operator =>
    obtain ⟨hwords, hnone, hraw', hliteral, hcommands, hquoted⟩ := finish_of_target hraw htarget
    exact ⟨hraw', hcommands, hquoted, fun _ => ⟨hnone, hliteral⟩, [], by simp [hwords]⟩

/-- Where the lexer is at the end of a word. -/
lemma finish_place (h : Alike s r) (hodd : r.finish.odd = false) :
    r.finish.place.At s.finish := by
  have hplace := h.place
  have hawaiting := h.awaiting
  obtain ⟨-, -, -, hended, words', hwords'⟩ := finish_frame s
  obtain ⟨quoted, awaiting, place, odd, lost, names⟩ := r
  cases place with
  | before glued =>
    cases glued with
    | false =>
      obtain ⟨hwords, htarget, hraw, hliteral⟩ := hplace hodd
      rw [finish_of_empty hraw]
      exact ⟨hwords, htarget, hraw, hliteral⟩
    | true =>
      obtain ⟨hwords, htarget, hraw⟩ := hplace hodd
      obtain ⟨operator, htarget⟩ := Option.ne_none_iff_exists'.mp htarget
      obtain ⟨hsame, hnone, hraw', hliteral, -⟩ := finish_of_target hraw htarget
      exact ⟨hsame.trans hwords, hnone, hraw', hliteral⟩
  | name raw literal =>
    obtain ⟨hwords, htarget, rfl, rfl, hraw⟩ := hplace hodd
    obtain ⟨hone, -⟩ := finish_of_word hraw htarget
    exact ⟨cmdWord s.raw s.literal, [], by rw [hone, hwords, List.nil_append], cmdWord_reads _ _⟩
  | target begun =>
    cases begun with
    | true =>
      obtain ⟨hwords, htarget, hraw⟩ := hplace hodd
      obtain ⟨operator, htarget⟩ := Option.ne_none_iff_exists'.mp htarget
      obtain ⟨hsame, hnone, hraw', hliteral, -⟩ := finish_of_target (hraw rfl) htarget
      exact ⟨hsame.trans hwords, hnone, hraw', hliteral⟩
    | false =>
      -- the target has not begun for the lexer either
      obtain ⟨hodd, hawaits⟩ := Bool.or_eq_false_iff.mp hodd
      obtain rfl : awaiting = true := by simpa using hawaits
      obtain ⟨hwords, htarget, hraw⟩ := hplace hodd
      rw [finish_of_empty (hawaiting.mp rfl).2]
      exact ⟨hwords, htarget, hraw⟩
  | after found =>
    obtain ⟨word, words, hwords, hreads⟩ := hplace hodd
    exact ⟨word, words ++ words', by rw [hwords', hwords, List.cons_append], hreads⟩

lemma finish (h : Alike s r) : Alike s.finish r.finish := by
  obtain ⟨hraw, hcommands, hquoted, hended, -⟩ := finish_frame s
  obtain ⟨hquoted', hawaiting', -, hnames'⟩ := r.finish_frame
  refine ⟨?_, hquoted.trans (h.quoted.trans hquoted'.symm), fun _ => ?_, ?_, h.finish_place⟩
  · rw [Listed, hnames', hcommands]
    exact h.listed
  · by_cases hbegun : s.raw = []
    · rw [finish_of_empty hbegun]
      exact h.empty hbegun
    · exact (hended hbegun).2
  · rw [hawaiting', h.awaiting]
    by_cases hbegun : s.raw = []
    · rw [finish_of_empty hbegun]
    · simp [hbegun, (hended hbegun).1]

lemma close_frame (s : Lexer) : s.close.words = [] ∧ s.close.target = s.target ∧
    s.close.raw = s.raw ∧ s.close.literal = s.literal ∧ s.close.quoted = s.quoted ∧
    s.commands ⊆ s.close.commands := by
  unfold Lexer.close
  split_ifs with hwords
  · exact ⟨hwords, rfl, rfl, rfl, rfl, fun _ => id⟩
  · exact ⟨rfl, rfl, rfl, rfl, rfl, List.subset_append_left _ _⟩

/-- A command that ends is listed, unless it is oddly written. -/
lemma close_listed (h : Alike s r) : Listed s.finish.close r.close := by
  intro name hname
  obtain hname | hname := List.mem_append.mp hname
  · rw [← r.finish_frame.2.2.2] at hname
    obtain ⟨row, hrow, hnamed⟩ := h.finish.listed name hname
    exact ⟨row, (close_frame s.finish).2.2.2.2.2 hrow, hnamed⟩
  simp only [Option.mem_toList, Option.map_eq_some_iff, Prod.mk.injEq, Bool.or_eq_false_iff]
    at hname
  obtain ⟨found, hfound, rfl, ⟨hodd, -⟩, -⟩ := hname
  -- the end of its last word leaves the lexer behind its name
  have hafter : r.finish.place = .after found ∧ r.finish.odd = false := by
    obtain ⟨quoted, awaiting, place, odd, lost, names⟩ := r
    cases place with
    | name raw literal => exact ⟨congrArg _ (Option.some.inj hfound), hodd⟩
    | after => exact ⟨congrArg _ (Option.some.inj hfound), hodd⟩
    | before | target => cases hfound
  have hplace := h.finish.place hafter.2
  rw [hafter.1] at hplace
  obtain ⟨word, words, hwords, hreads⟩ := hplace
  refine ⟨{ words := s.finish.words }, ?_, word, words, hwords, hreads⟩
  rw [Lexer.close, if_neg (by simp [hwords])]
  exact List.mem_append_right _ (List.mem_singleton_self _)

/-- After the end of a command the lexer and `cmd.exe` are at the beginning of the next. -/
lemma close (h : Alike s r) (hlost : r.close.lost = false) : Alike s.finish.close r.close := by
  have hends := Bool.or_eq_false_iff.mp hlost
  have hquoted := (Bool.or_eq_false_iff.mp hends.1).2
  obtain ⟨hraw, -, hsame, hended, -⟩ := finish_frame s
  obtain ⟨hwords, htarget, hraw', hliteral, hquoted', -⟩ := close_frame s.finish
  have hnone : s.finish.target = none := by
    by_cases hbegun : s.raw = []
    · rw [finish_of_empty hbegun]
      by_contra hsome
      exact absurd (h.awaiting.mpr ⟨hsome, hbegun⟩) (by simp [hends.2])
    · exact (hended hbegun).1
  have hempty : s.finish.close.literal = [] := hliteral.trans (h.finish.empty hraw)
  refine ⟨h.close_listed, ?_, fun _ => hempty, ?_, fun _ => ?_⟩
  · rw [hquoted', hsame, h.quoted, hquoted]
    rfl
  · simp [Reader.close, htarget, hnone]
  · exact ⟨hwords, htarget.trans hnone, hraw'.trans hraw, hempty⟩

lemma redirect_words (s : Lexer) (operator : List Char) : (s.redirect operator).words =
    if decimal s.raw then s.words else s.finish.words := by
  unfold Lexer.redirect
  split_ifs <;> rfl

/-- A redirection whose target has not ended brings no word into the command. -/
lemma redirect_words_of_target (hwords : s.words = []) (htarget : s.target ≠ none)
    (operator : List Char) : (s.redirect operator).words = [] := by
  rw [redirect_words]
  split_ifs
  · exact hwords
  by_cases hraw : s.raw = []
  · rw [finish_of_empty hraw, hwords]
  · obtain ⟨old, htarget⟩ := Option.ne_none_iff_exists'.mp htarget
    exact (finish_of_target hraw htarget).1.trans hwords

lemma decimal_of_handle {raw : List Char} (h : handle raw = true) : decimal raw = true := by
  obtain _ | ⟨ch, _ | _⟩ := raw
  · cases h
  · have hch : ch.isDigit = true := h
    rw [Char.isDigit, Bool.and_eq_true, decide_eq_true_eq, decide_eq_true_eq] at hch
    have hleast : 48 ≤ ch.toNat := hch.1
    have hmost : ch.toNat ≤ 57 := hch.2
    simp only [decimal, List.isEmpty_cons, Bool.not_false, Bool.true_and, List.all_cons,
      List.all_nil, Bool.and_true, List.any_eq_true, Bool.and_eq_true, decide_eq_true_eq]
    exact ⟨48, List.mem_cons_self, hleast, Nat.lt_succ_of_le hmost⟩
  · cases h

/-- Where the lexer is after a redirection. -/
lemma redirect_place (h : Alike s r) (operator : List Char) (hodd : r.redirect.odd = false) :
    r.redirect.place.At (s.redirect operator) := by
  have htarget' : (s.redirect operator).target ≠ none := by
    unfold Lexer.redirect
    split_ifs <;> exact Option.some_ne_none _
  have hplace := h.place
  obtain ⟨quoted, awaiting, place, odd, lost, names⟩ := r
  cases place with
  | before glued =>
    cases glued with
    | false =>
      obtain ⟨hwords, -, hraw, -⟩ := hplace hodd
      refine ⟨?_, htarget', fun hfalse => absurd hfalse (by decide)⟩
      rw [redirect_words, hraw, finish_of_empty hraw, hwords, ite_self]
    | true =>
      obtain ⟨hwords, htarget, -⟩ := hplace hodd
      exact ⟨redirect_words_of_target hwords htarget _, htarget',
        fun hfalse => absurd hfalse (by decide)⟩
  | name raw literal =>
    unfold Reader.redirect at hodd ⊢
    dsimp only at hodd ⊢
    split_ifs at hodd ⊢ with hhandle
    · obtain ⟨hwords, -, rfl, -⟩ := hplace hodd
      refine ⟨?_, htarget', fun hfalse => absurd hfalse (by decide)⟩
      rw [redirect_words, if_pos (decimal_of_handle hhandle), hwords]
    · -- the lexer takes the name for a name too
      obtain ⟨hodd, hdecimal⟩ := Bool.or_eq_false_iff.mp hodd
      obtain ⟨hwords, htarget, rfl, rfl, hraw⟩ := hplace hodd
      refine ⟨cmdWord s.raw s.literal, [], ?_, cmdWord_reads _ _⟩
      rw [redirect_words, if_neg (by simp [hdecimal]), (finish_of_word hraw htarget).1, hwords,
        List.nil_append]
  | target begun =>
    obtain ⟨hwords, htarget, -⟩ := hplace hodd
    exact ⟨redirect_words_of_target hwords htarget _, htarget',
      fun hfalse => absurd hfalse (by decide)⟩
  | after found =>
    obtain ⟨word, words, hwords, hreads⟩ := hplace hodd
    obtain ⟨-, -, -, -, words', hwords'⟩ := finish_frame s
    rw [Reader.redirect]
    by_cases hdecimal : decimal s.raw = true
    · exact ⟨word, words, by rw [redirect_words, if_pos hdecimal, hwords], hreads⟩
    · refine ⟨word, words ++ words', ?_, hreads⟩
      rw [redirect_words, if_neg hdecimal, hwords', hwords, List.cons_append]

lemma redirect (h : Alike s r) (operator : List Char) : Alike (s.redirect operator) r.redirect := by
  obtain ⟨hraw, hcommands, hquoted, -, -⟩ := finish_frame s
  have hfields : (s.redirect operator).commands = s.commands ∧
      (s.redirect operator).quoted = s.quoted ∧ (s.redirect operator).raw = [] ∧
      (s.redirect operator).literal = [] ∧ (s.redirect operator).target ≠ none := by
    unfold Lexer.redirect
    split_ifs
    · exact ⟨rfl, rfl, rfl, rfl, Option.some_ne_none _⟩
    · exact ⟨hcommands, hquoted, hraw, h.finish.empty hraw, Option.some_ne_none _⟩
  obtain ⟨hcommands', hquoted', hraw', hliteral', htarget'⟩ := hfields
  obtain ⟨hquoted'', hawaiting, -, hnames⟩ := r.redirect_frame
  refine ⟨?_, hquoted'.trans (h.quoted.trans hquoted''.symm), fun _ => hliteral', ?_,
    h.redirect_place operator⟩
  · rw [Listed, hnames, hcommands']
    exact h.listed
  · simp [hawaiting, hraw', htarget']

/-- A character that the lexer takes for nothing else is one of a word. -/
lemma pushed_of_next {cs : List Char} {taken : Nat} (hquote : ch ≠ '"')
    (hplain : s.quoted = true ∨ (ch ≠ '&' ∧ ch ≠ '|' ∧ lineEnd ch = false ∧ ch ≠ '<' ∧ ch ≠ '>' ∧
      blank ch = false))
    (hnext : s.next ch cs = some (taken, s')) : taken = 0 ∧ Pushed s s' ch := by
  unfold Lexer.next at hnext
  by_cases hcaret : ch = '^'
  · rw [if_pos hcaret] at hnext
    cases hnext
    exact ⟨rfl, rfl, rfl, rfl, rfl, rfl, rfl⟩
  rw [if_neg hcaret, if_neg hquote] at hnext
  by_cases hgroup : (!s.quoted && (ch = '(' || ch = ')')) = true
  · rw [if_pos hgroup] at hnext
    cases hnext
    exact ⟨rfl, rfl, rfl, rfl, rfl, rfl, rfl⟩
  rw [if_neg hgroup] at hnext
  have hoperator : (!s.quoted && (ch = '&' || ch = '|' || ch = '\r' || ch = '\n')) = false := by
    obtain hquoted | ⟨hand, hor, hline, -⟩ := hplain
    · simp [hquoted]
    · simp only [lineEnd, Bool.or_eq_false_iff, decide_eq_false_iff_not] at hline
      simp [hand, hor, hline]
  have hredirect : (!s.quoted && (ch = '<' || ch = '>')) = false := by
    obtain hquoted | ⟨-, -, -, hless, hgreater, -⟩ := hplain
    · simp [hquoted]
    · simp [hless, hgreater]
  have hblank : (!s.quoted && blank ch) = false := by
    obtain hquoted | ⟨-, -, -, -, -, hblank⟩ := hplain
    · simp [hquoted]
    · simp [hblank]
  rw [hoperator, hredirect, hblank] at hnext
  simp only [Bool.false_eq_true, if_false] at hnext
  cases hnext
  exact ⟨rfl, rfl, rfl, rfl, rfl, rfl, rfl⟩

lemma next_operator (hquoted : s.quoted = false) (hch : ch = '&' ∨ ch = '|') (cs : List Char) :
    s.next ch cs =
      if cs.head? = some ch then some (1, s.operator [ch, ch]) else some (0, s.operator [ch]) := by
  obtain rfl | rfl := hch <;> simp [Lexer.next, hquoted]

lemma next_lineEnd (hquoted : s.quoted = false) (hch : lineEnd ch = true) (cs : List Char) :
    s.next ch cs = some (0, s.operator [ch]) := by
  simp only [lineEnd, Bool.or_eq_true, decide_eq_true_eq] at hch
  obtain rfl | rfl := hch <;> simp [Lexer.next, hquoted]

lemma next_redirect (hquoted : s.quoted = false) (hch : ch = '<' ∨ ch = '>') (cs : List Char) :
    s.next ch cs =
      if cs.head? = some ch then
        if ch = '<' then none
        else if cs.tail.head? = some '&' then some (2, s.redirect [ch, ch, '&'])
        else some (1, s.redirect [ch, ch])
      else if cs.head? = some '&' then some (1, s.redirect [ch, '&'])
      else some (0, s.redirect [ch]) := by
  obtain rfl | rfl := hch <;> simp [Lexer.next, hquoted]

lemma next_blank (hquoted : s.quoted = false) (hblank : blank ch = true)
    (hline : lineEnd ch = false) (cs : List Char) : s.next ch cs = some (0, s.finish) := by
  have hne : ∀ other, blank other = false → ch ≠ other := by
    rintro other hother rfl
    rw [hblank] at hother
    cases hother
  simp only [lineEnd, Bool.or_eq_false_iff, decide_eq_false_iff_not] at hline
  simp [Lexer.next, hquoted, hblank, hline, hne '^' (by decide), hne '"' (by decide),
    hne '(' (by decide), hne ')' (by decide), hne '&' (by decide), hne '|' (by decide),
    hne '<' (by decide), hne '>' (by decide)]

/-- What one turn keeps, until the two are lost to each other. -/
def Kept (s' : Lexer) (taken : Nat) (next : Nat × Reader) : Prop :=
  Listed s' next.2 ∧ (next.2.lost = false → next.1 = taken ∧ Alike s' next.2)

lemma kept (h : Alike s r) (taken : Nat) : Kept s taken (taken, r) := ⟨h.listed, fun _ => ⟨rfl, h⟩⟩

lemma kept_operator (h : Alike s r) (operator : List Char) (taken : Nat) :
    Kept (s.operator operator) taken (taken, r.close) := by
  refine ⟨h.close_listed, fun hlost => ⟨rfl, ?_⟩⟩
  obtain ⟨hlisted, hquoted, hempty, hawaiting, hplace⟩ := h.close hlost
  exact ⟨hlisted, hquoted, hempty, hawaiting, hplace⟩

/-- One character. -/
lemma next (h : Alike s r) {cs : List Char} {taken : Nat} (hnext : s.next ch cs = some (taken, s')) :
    Kept s' taken (r.next ch cs) := by
  by_cases hquote : ch = '"'
  · subst hquote
    have hnext : some (0, s.quote) = some (taken, s') := hnext
    cases hnext
    exact h.quote.kept 0
  by_cases hquoted : r.quoted = true
  · -- within quotes everything is part of a word for the lexer
    obtain ⟨rfl, hp⟩ := pushed_of_next hquote (Or.inl (h.quoted.trans hquoted)) hnext
    rw [Reader.next]
    split_ifs
    · refine ⟨fun name hname => ?_, fun hlost => absurd hlost (by simp [Reader.close, hquoted])⟩
      simp only [Reader.close, hquoted, Bool.or_true, List.mem_append, Option.mem_toList,
        Option.map_eq_some_iff, Prod.mk.injEq, Bool.true_eq_false, and_false, exists_false,
        or_false] at hname
      exact hp.commands ▸ h.listed name hname
    · exact (h.push hp).kept 0
  have hunquoted : r.quoted = false := by simpa using hquoted
  have hsquoted : s.quoted = false := h.quoted.trans hunquoted
  rw [Reader.next, if_neg hquote, if_neg hquoted]
  by_cases hline : lineEnd ch = true
  · rw [next_lineEnd hsquoted hline] at hnext
    cases hnext
    rw [if_pos hline]
    exact h.kept_operator _ 0
  rw [if_neg hline]
  by_cases hoperator : ch = '&' ∨ ch = '|'
  · rw [if_pos (by simpa using hoperator)]
    rw [next_operator hsquoted hoperator] at hnext
    split_ifs at hnext ⊢
    all_goals
      cases hnext
      exact h.kept_operator _ _
  rw [if_neg (by simpa using hoperator)]
  by_cases hredirect : ch = '<' ∨ ch = '>'
  · rw [if_pos (by simpa using hredirect)]
    rw [next_redirect hsquoted hredirect] at hnext
    split_ifs at hnext ⊢
    all_goals
      cases hnext
      exact (h.redirect _).kept _
  rw [if_neg (by simpa using hredirect)]
  by_cases hblank : blank ch = true
  · rw [next_blank hsquoted hblank (by simpa using hline)] at hnext
    cases hnext
    rw [if_pos hblank]
    exact h.finish.kept 0
  -- whatever is left is part of a word for the lexer
  rw [if_neg hblank]
  have hword : ch ≠ '&' ∧ ch ≠ '|' ∧ lineEnd ch = false ∧ ch ≠ '<' ∧ ch ≠ '>' ∧ blank ch = false := by
    simp only [not_or] at hoperator hredirect
    exact ⟨hoperator.1, hoperator.2, by simpa using hline, hredirect.1, hredirect.2,
      by simpa using hblank⟩
  obtain ⟨rfl, hp⟩ := pushed_of_next hquote (Or.inr hword) hnext
  split_ifs with hseparator hat
  · exact (h.separate hp).kept 0
  · subst hat
    exact (h.mention hp).kept 0
  · exact (h.push hp).kept 0

/-! ### Whole texts -/

lemma commands_subset_finish (s : Lexer) : s.commands ⊆ s.finish.commands := by
  rw [(finish_frame s).2.1]
  exact fun _ => id

/-- Commands that are listed stay listed. -/
lemma commands_subset_next {cs : List Char} {taken : Nat}
    (hnext : s.next ch cs = some (taken, s')) : s.commands ⊆ s'.commands := by
  have hfinish := commands_subset_finish s
  have hoperator : ∀ operator, s.commands ⊆ (s.operator operator).commands := fun operator =>
    List.Subset.trans hfinish (close_frame s.finish).2.2.2.2.2
  have hredirect : ∀ operator, s.commands ⊆ (s.redirect operator).commands := by
    intro operator
    unfold Lexer.redirect
    split_ifs
    · exact fun _ => id
    · exact hfinish
  unfold Lexer.next at hnext
  split_ifs at hnext
  all_goals
    cases hnext
    first
    | exact fun _ => id
    | exact hoperator _
    | exact hredirect _
    | exact hfinish

lemma commands_subset_lex {taken : Nat} {cs : List Char} (hlex : cmdLex taken cs s = some s') :
    s.commands ⊆ s'.commands := by
  induction cs generalizing taken s with
  | nil =>
    cases taken <;> (cases hlex; exact fun _ => id)
  | cons ch cs ih =>
    cases taken with
    | succ taken => exact ih hlex
    | zero =>
      rw [cmdLex] at hlex
      split at hlex
      · cases hlex
      · next taken s'' hnext => exact List.Subset.trans (commands_subset_next hnext) (ih hlex)

end Alike

section Lost

variable {r : Reader}

/-- Once the two are lost to each other, every command counts as oddly written. -/
lemma lost_next (hlost : r.lost = true) (ch : Char) (cs : List Char) :
    (r.next ch cs).2.lost = true ∧
      ∀ name, (name, false) ∈ (r.next ch cs).2.names → (name, false) ∈ r.names := by
  have hclose : r.close.lost = true ∧
      ∀ name, (name, false) ∈ r.close.names → (name, false) ∈ r.names := by
    simp [Reader.close, hlost]
  have hsame : ∀ r' : Reader, r'.lost = r.lost ∧ r'.names = r.names → r'.lost = true ∧
      ∀ name, (name, false) ∈ r'.names → (name, false) ∈ r.names :=
    fun r' h => ⟨h.1.trans hlost, fun _ hname => h.2 ▸ hname⟩
  unfold Reader.next
  split_ifs
  all_goals first
    | exact hclose
    | exact hsame _ r.redirect_frame.2.2
    | exact hsame _ (r.push_frame ch)
    | exact hsame _ r.quote_frame
    | exact hsame _ r.finish_frame.2.2
    | exact hsame _ r.separate_frame
    | exact hsame _ r.mention_frame

lemma lost_read (hlost : r.lost = true) {taken : Nat} {cs : List Char} {name : List Char}
    (hname : (name, false) ∈ (cmdRead taken cs r).close.names) : (name, false) ∈ r.names := by
  induction cs generalizing taken r with
  | nil =>
    have hname : (name, false) ∈ r.close.names := by cases taken <;> exact hname
    simpa [Reader.close, hlost] using hname
  | cons ch cs ih =>
    cases taken with
    | succ taken => exact ih hlost hname
    | zero => exact (lost_next hlost ch cs).2 name (ih (lost_next hlost ch cs).1 hname)

end Lost

/-- Every command that is not oddly written is listed under its name. -/
lemma Alike.read {s s' : Lexer} {r : Reader} (h : Alike s r) {taken : Nat} {cs : List Char}
    (hlex : cmdLex taken cs s = some s') :
    Listed s'.finish.close (cmdRead taken cs r).close := by
  induction cs generalizing taken s r with
  | nil =>
    cases taken <;> (cases hlex; exact h.close_listed)
  | cons ch cs ih =>
    cases taken with
    | succ taken => exact ih h hlex
    | zero =>
      rw [cmdLex] at hlex
      split at hlex
      · cases hlex
      · next taken s'' hnext =>
        obtain ⟨hlisted, halike⟩ := h.next hnext
        cases hlost : (r.next ch cs).2.lost with
        | false =>
          obtain ⟨htaken, h''⟩ := halike hlost
          exact ih h'' (htaken ▸ hlex)
        | true =>
          -- what was listed before stays listed
          intro name hname
          obtain ⟨row, hrow, hnamed⟩ := hlisted name (lost_read hlost hname)
          refine ⟨row, ?_, hnamed⟩
          have hended := List.Subset.trans (commands_subset_lex hlex) (commands_subset_finish s')
          exact (close_frame s'.finish).2.2.2.2.2 (hended hrow)

/-! ### The names of an analysed text -/

/-- The name is that of a listed command, and of no evaluator. -/
def NameListed (lib : Library) (analysis : ShellAnalysis) (name : String) : Prop :=
  evaluator lib name = false ∧
    ∃ row ∈ analysis.commands, row.words.head?.bind (·.literal) = some name

instance (lib : Library) (analysis : ShellAnalysis) (name : String) :
    Decidable (NameListed lib analysis name) :=
  inferInstanceAs (Decidable (_ ∧ ∃ row ∈ analysis.commands, _))

/-- Every name that `cmd.exe` finds in the text is that of a listed command, and of no
evaluator. -/
def NamesListed (lib : Library) (command : String) (analysis : ShellAnalysis) : Prop :=
  ∀ name ∈ cmdNames command, NameListed lib analysis name

variable {command : String}

/-- A command of `cmd.exe` that may be granted was parsed. -/
lemma exists_lexed {lib : Library} {others : String → ShellSpec → String → ShellAnalysis}
    {shell : ShellSpec} (hkind : shell.kind = .cmd)
    (hreusable : (analyzeShell lib others command shell).reusable = true) :
    ∃ s, cmdLex 0 command.toList {} = some s ∧
      (analyzeShell lib others command shell).commands = s.finish.close.commands ∧
      (analyzeShell lib others command shell).dynamic =
        s.finish.close.commands.any fun row => dynamicName lib row.words := by
  have hparsed : (analyzeShell lib others command shell).status = .parsed := by
    simp only [ShellAnalysis.reusable, Bool.and_eq_true, decide_eq_true_eq] at hreusable
    exact hreusable.1.1.1.1.1
  unfold analyzeShell at hparsed ⊢
  dsimp only at hparsed ⊢
  split_ifs at hparsed ⊢
  unfold cmdAnalysis at hparsed ⊢
  cases hlex : cmdLex 0 command.toList {} with
  | none =>
    rw [hlex] at hparsed
    cases hparsed
  | some s => exact ⟨s, rfl, rfl, rfl⟩

/-- In a text that may be granted the name of every command that is not oddly written is listed. -/
lemma nameListed_of_plain {lib : Library} {others : String → ShellSpec → String → ShellAnalysis}
    {shell : ShellSpec} (hkind : shell.kind = .cmd)
    (hreusable : (analyzeShell lib others command shell).reusable = true) {name : List Char}
    (hname : (name, false) ∈ cmdCommands command) :
    NameListed lib (analyzeShell lib others command shell) (String.ofList name) := by
  obtain ⟨s, hlex, hcommands, hdynamic⟩ := exists_lexed hkind hreusable
  simp only [ShellAnalysis.reusable, Bool.and_eq_true, Bool.not_eq_true', List.all_eq_true]
    at hreusable
  obtain ⟨⟨⟨⟨⟨-, hstatic⟩, -⟩, -⟩, hfixed⟩, -⟩ := hreusable
  rw [hdynamic] at hstatic
  rw [hcommands] at hfixed
  obtain ⟨row, hrow, word, words, hwords, hreads⟩ := alike_init.read hlex name hname
  -- the first word of the command is not expanded
  have hliteral : word.literal = some (String.ofList name) := by
    refine hreads.resolve_left fun hnone => ?_
    have hword := hfixed row hrow word (by simp [hwords])
    simp [ShellWord.fixed, hnone] at hword
  have hhead : row.words.head?.bind (·.literal) = some (String.ofList name) := by
    rw [hwords]
    exact hliteral
  refine ⟨?_, row, hcommands ▸ hrow, hhead⟩
  have hnot := List.any_eq_false.mp hstatic row hrow
  simpa [dynamicName, hhead] using hnot

/-- So the names are listed when those of the oddly written commands are. -/
lemma namesListed_iff {lib : Library} {others : String → ShellSpec → String → ShellAnalysis}
    {shell : ShellSpec} (hkind : shell.kind = .cmd)
    (hreusable : (analyzeShell lib others command shell).reusable = true) :
    NamesListed lib command (analyzeShell lib others command shell) ↔
      ∀ name ∈ oddNames command, NameListed lib (analyzeShell lib others command shell) name := by
  constructor
  · intro h name hname
    obtain ⟨found, hfound, rfl⟩ := List.mem_map.mp hname
    exact h _ (List.mem_map_of_mem (List.mem_of_mem_filter hfound))
  · intro h name hname
    obtain ⟨⟨found, odd⟩, hfound, rfl⟩ := List.mem_map.mp hname
    cases odd with
    | false => exact nameListed_of_plain hkind hreusable hfound
    | true => exact h _ (List.mem_map_of_mem (List.mem_filter.mpr ⟨hfound, rfl⟩))

end Policies

end Codey
