import Codey.Lib.Check
import Codey.Lib.JsonText
import Codey.Lib.Lines
import Codey.Lib.Text
import Codey.Lib.Utf8

/-!
# Reading a file in pages

The tool that shows a model a page of a file and says where the next one begins. The pages of a
file, one after the other, show each of its lines once; a line too long for a page is a page of its
own, which is no part of the text.
-/

namespace Codey

namespace ReadFile

def readDefaultLines : Nat := 300
def readMaxLines : Nat := 600
def readMaxChars : Nat := 16000

def longLineMarker : String :=
  "\n[... middle of overlong line omitted; not a complete old_string ...]\n"

/-! ### Arguments -/

/-- The number that an argument gives: a number, or the digits of one. The host reads no more than
4300 digits. -/
def parsedInt : Json → Option Int
  | .int n => some n
  | .str s =>
    let digits := strip s.toList
    if digits ≠ [] ∧ digits.all Char.isDigit ∧ digits.length ≤ 4300 then
      some (JsonText.natural digits)
    else none
  | _ => none

def boundedPositiveInt (value : Json) (name : String) (maximum : Option Nat) :
    Except String Nat :=
  match parsedInt value with
  | none => .error s!"{name} must be a positive integer"
  | some parsed =>
    if parsed < 1 then .error s!"{name} must be a positive integer"
    else
      match maximum with
      | none => .ok parsed.toNat
      | some maximum =>
        if (maximum : Int) < parsed then .error s!"{name} must be at most {maximum}"
        else .ok parsed.toNat

/-! ### Texts -/

def rstrip (cs : List Char) : List Char := cs.rdropWhile blank

def lstrip (cs : List Char) : List Char := cs.dropWhile blank

/-- Both ends of a text that is longer than a limit. -/
def clipMiddle (text : List Char) (limit : Nat) (marker : List Char) : List Char × Bool :=
  if text.length ≤ limit then (text, false)
  else if limit = 0 then ([], true)
  else if limit ≤ marker.length then (marker.take limit, true)
  else
    let available := limit - marker.length
    let head := (available + 1) / 2
    let tail := available - head
    let clipped := rstrip (text.take head) ++ marker
    (if tail = 0 then clipped else clipped ++ lstrip (text.rtake tail), true)

/-- A character in a JSON string. -/
def jsonChar (ch : Char) : List Char :=
  if ch = '"' then ['\\', '"']
  else if ch = '\\' then ['\\', '\\']
  else if ch = '\n' then ['\\', 'n']
  else if ch = '\r' then ['\\', 'r']
  else if ch = '\t' then ['\\', 't']
  else if ch = '\x08' then ['\\', 'b']
  else if ch = '\x0c' then ['\\', 'f']
  else if ch.toNat < 32 then
    ['\\', 'u', '0', '0', Nat.digitChar (ch.toNat / 16), Nat.digitChar (ch.toNat % 16)]
  else [ch]

def readFileNextCall (rel : String) (offset limit : Nat) : List Char :=
  "\x7b\"tool\":\"read_file\",\"args\":\x7b\"path\":\"".toList ++ rel.toList.flatMap jsonChar ++
    s!"\",\"offset\":{offset},\"limit\":{limit}".toList ++ "\x7d\x7d".toList

def appendPageMetadata (content metadata : List Char) : List Char :=
  content ++ (if content.getLast? = some '\n' then [] else ['\n']) ++ "\n[".toList ++ metadata ++
    [']']

/-! ### Pages -/

/-- The value that the tool answers with. There is no next page at offset 0. -/
structure ReadPage where
  path : String
  text : List Char
  startLine : Nat
  endLine : Nat
  totalLines : Nat
  nextOffset : Nat
  textComplete : Bool
  deriving DecidableEq

structure ReadOutcome where
  value : ReadPage
  display : List Char
  truncated : Bool
  deriving DecidableEq

def readPageOutcome (rel : String) (content display : List Char) (start end_ total : Nat)
    (textComplete truncated : Bool) : ReadOutcome where
  value :=
    { path := rel, text := content, startLine := start, endLine := end_, totalLines := total
      nextOffset := if end_ < total then end_ + 1 else 0, textComplete }
  display
  truncated

/-- The loop over the lines of the file, which counts them and keeps those of the page. -/
def scanLines (startLine lineLimit : Nat) :
    List (List Char) → Nat → List (List Char) → Nat × List (List Char)
  | lines, total, [] => (total, lines)
  | lines, total, raw :: rest =>
    if startLine ≤ total + 1 ∧ total + 1 < startLine + lineLimit then
      scanLines startLine lineLimit (lines ++ [raw]) (total + 1) rest
    else scanLines startLine lineLimit lines (total + 1) rest

/-- The loop that fills a page: the first line always has room. -/
def selectLines : List (List Char) → Nat → List (List Char) → List (List Char)
  | selected, _, [] => selected
  | selected, chars, line :: rest =>
    if selected ≠ [] ∧ readMaxChars < chars + line.length then selected
    else selectLines (selected ++ [line]) (chars + line.length) rest

/-- The pointer to the next page in what is shown. -/
def nextText (rel : String) (nextOffset total lineLimit : Nat) : List Char :=
  if nextOffset ≤ total then
    s!"; next offset={nextOffset}; next call: ".toList ++ readFileNextCall rel nextOffset lineLimit
  else []

def formatReadFilePage (rel : String) (startLine lineLimit total : Nat)
    (lines : List (List Char)) : Except String ReadOutcome :=
  if total = 0 then
    if startLine ≠ 1 then .error s!"offset {startLine} exceeds {rel} total lines 0"
    else .ok (readPageOutcome rel [] [] 1 0 0 true false)
  else if total < startLine then
    .error s!"offset {startLine} exceeds {rel} total lines {total}"
  else
    let first := lines.headD []
    if readMaxChars < first.length then
      let preview := (clipMiddle first readMaxChars longLineMarker.toList).1
      let metadata := s!"read_file page: line {startLine} of {total} exceeds {readMaxChars} chars; preview only, not a complete old_string".toList ++
        nextText rel (startLine + 1) total lineLimit
      .ok (readPageOutcome rel preview (appendPageMetadata preview metadata) startLine startLine
        total false true)
    else
      let selected := selectLines [] 0 lines
      let content := selected.flatten
      let endLine := startLine + selected.length - 1
      if ¬ (1 < startLine ∨ endLine < total) then
        .ok (readPageOutcome rel content content startLine endLine total true false)
      else
        let metadata := s!"read_file page: lines {startLine}-{endLine} of {total}".toList ++
          nextText rel (endLine + 1) total lineLimit
        .ok (readPageOutcome rel content (appendPageMetadata content metadata) startLine endLine
          total true true)

def fileText (content : List UInt8) : List Char := universalNewlines (Utf8.decode content)

/-- `read_file`, of a file that has passed the checks of its path. -/
def readFile (rel : String) (content : List UInt8) (offset limit : Option Json) :
    Except String ReadOutcome := do
  let startLine ← boundedPositiveInt (offset.getD (.int 1)) "offset" none
  let lineLimit ← boundedPositiveInt (limit.getD (.int readDefaultLines)) "limit"
    (some readMaxLines)
  if ¬ Utf8.Valid content then throw s!"not utf-8 text: {rel}"
  let (total, lines) := scanLines startLine lineLimit [] 0 (newlineLines (fileText content))
  formatReadFilePage rel startLine lineLimit total lines

/-- The pages met by a reader who follows the next offset of each. -/
def readPages (rel : String) (content : List UInt8) (limit : Option Json) :
    Nat → Nat → Option (List ReadOutcome)
  | 0, _ => none
  | fuel + 1, offset =>
    match readFile rel content (some (.int offset)) limit with
    | .error _ => none
    | .ok page =>
      if page.value.nextOffset = 0 then some [page]
      else (readPages rel content limit fuel page.value.nextOffset).map (page :: ·)

def ReadPage.lineNumbers (page : ReadPage) : List Nat :=
  List.range' page.startLine (page.endLine + 1 - page.startLine)

def ReadPage.linesOf (page : ReadPage) (lines : List (List Char)) : List (List Char) :=
  (lines.drop (page.startLine - 1)).take (page.endLine + 1 - page.startLine)

/-! ### One page -/

variable {rel : String} {startLine lineLimit total : Nat} {front rest : List (List Char)}

lemma scanLines_inside (h : startLine ≤ total + 1) (lines rest : List (List Char)) :
    scanLines startLine lineLimit lines total rest =
      (total + rest.length, lines ++ rest.take (startLine + lineLimit - 1 - total)) := by
  induction rest generalizing lines total with
  | nil => simp [scanLines]
  | cons raw rest ih =>
    have hlength : total + (raw :: rest).length = total + 1 + rest.length := by
      rw [List.length_cons]
      omega
    rw [scanLines, hlength]
    by_cases hroom : total + 1 < startLine + lineLimit
    · obtain ⟨k, hk⟩ : ∃ k, startLine + lineLimit - 1 - total = k + 1 :=
        ⟨startLine + lineLimit - 2 - total, by omega⟩
      have hk' : startLine + lineLimit - 1 - (total + 1) = k := by omega
      rw [if_pos ⟨h, hroom⟩, ih (by omega), hk, hk', List.take_succ_cons, List.append_assoc]
      rfl
    · have hnone : startLine + lineLimit - 1 - total = 0 := by omega
      have hnone' : startLine + lineLimit - 1 - (total + 1) = 0 := by omega
      rw [if_neg (fun h => hroom h.2), ih (by omega), hnone, hnone', List.take_zero,
        List.take_zero]

/-- The lines before a page are counted only. -/
lemma scanLines_append (hfront : total + front.length + 1 = startLine) :
    scanLines startLine lineLimit [] total (front ++ rest) =
      (total + (front ++ rest).length, rest.take lineLimit) := by
  induction front generalizing total with
  | nil =>
    rw [List.length_nil] at hfront
    have htake : startLine + lineLimit - 1 - total = lineLimit := by omega
    rw [List.nil_append, scanLines_inside (by omega), htake]
    rfl
  | cons raw front ih =>
    rw [List.length_cons] at hfront
    have hbefore : ¬ (startLine ≤ total + 1 ∧ total + 1 < startLine + lineLimit) := by omega
    rw [List.cons_append, scanLines, if_neg hbefore, ih (by omega), List.length_cons]
    congr 1
    omega

/-- Behind the first line, a page takes lines as long as they fit. -/
lemma selectLines_more {selected : List (List Char)} (hselected : selected ≠ []) (chars : Nat)
    (lines : List (List Char)) : ∃ more later, lines = more ++ later ∧
      selectLines selected chars lines = selected ++ more ∧
      ∀ line ∈ more, line.length ≤ readMaxChars := by
  induction lines generalizing selected chars with
  | nil => exact ⟨[], [], rfl, by simp [selectLines], by simp⟩
  | cons line lines ih =>
    rw [selectLines]
    by_cases hfull : readMaxChars < chars + line.length
    · exact ⟨[], line :: lines, rfl, by rw [if_pos ⟨hselected, hfull⟩, List.append_nil], by simp⟩
    · obtain ⟨more, later, rfl, hselect, hmore⟩ :=
        ih (by simp : selected ++ [line] ≠ []) (chars + line.length)
      refine ⟨line :: more, later, rfl, ?_, ?_⟩
      · rw [if_neg fun h => hfull h.2, hselect, List.append_assoc]
        rfl
      · intro l hl
        rcases List.mem_cons.mp hl with rfl | hl
        · omega
        · exact hmore l hl

lemma selectLines_cons (line : List Char) (lines : List (List Char)) :
    ∃ more later, lines = more ++ later ∧ selectLines [] 0 (line :: lines) = line :: more ∧
      ∀ l ∈ more, l.length ≤ readMaxChars := by
  obtain ⟨more, later, hlines, hselect, hmore⟩ :=
    selectLines_more (List.cons_ne_nil line []) (0 + line.length) lines
  exact ⟨more, later, hlines, by simpa [selectLines] using hselect, hmore⟩

/-- A page shows lines of the file, which come after those before it and before those after. -/
structure Shows (page : ReadPage) (front shown later : List (List Char)) : Prop where
  startLine : page.startLine = front.length + 1
  endLine : page.endLine = front.length + shown.length
  totalLines : page.totalLines = (front ++ shown ++ later).length
  nextOffset : page.nextOffset = if later = [] then 0 else front.length + shown.length + 1
  complete : page.textComplete = true ↔ ∀ line ∈ shown, line.length ≤ readMaxChars
  text : page.textComplete = true → page.text = shown.flatten
  preview : page.textComplete = false → shown.length = 1

namespace Shows

variable {page : ReadPage} {shown later : List (List Char)}

lemma linesOf (h : Shows page front shown later) :
    page.linesOf (front ++ shown ++ later) = shown := by
  have hcount : front.length + shown.length + 1 - (front.length + 1) = shown.length := by omega
  rw [ReadPage.linesOf, h.startLine, h.endLine, List.append_assoc, Nat.add_sub_cancel,
    List.drop_left, hcount, List.take_left]

lemma lineNumbers (h : Shows page front shown later) :
    page.lineNumbers = List.range' (front.length + 1) shown.length := by
  have hcount : front.length + shown.length + 1 - (front.length + 1) = shown.length := by omega
  rw [ReadPage.lineNumbers, h.startLine, h.endLine, hcount]

/-- What a page adds to the text of the file. -/
lemma flatten_filter (h : Shows page front shown later) :
    (if page.textComplete = true then page.text else []) =
      (shown.filter (·.length ≤ readMaxChars)).flatten := by
  cases hcomplete : page.textComplete with
  | true =>
    have hall := h.complete.mp hcomplete
    rw [if_pos rfl, h.text hcomplete, List.filter_eq_self.mpr]
    simpa using hall
  | false =>
    obtain ⟨line, rfl⟩ := List.length_eq_one_iff.mp (h.preview hcomplete)
    have hlong : ¬ line.length ≤ readMaxChars := by
      intro hle
      have := h.complete.mpr (by simpa using hle)
      rw [hcomplete] at this
      cases this
    simp [hlong]

end Shows

/-- Where a page ends tells whether there is a next one. -/
lemma shows_readPageOutcome {shown later : List (List Char)} {content display : List Char}
    {complete truncated : Bool} (htotal : total = (front ++ shown ++ later).length)
    (hcomplete : complete = true ↔ ∀ line ∈ shown, line.length ≤ readMaxChars)
    (htext : complete = true → content = shown.flatten)
    (hpreview : complete = false → shown.length = 1) :
    Shows (readPageOutcome rel content display (front.length + 1) (front.length + shown.length)
      total complete truncated).value front shown later := by
  refine ⟨rfl, rfl, htotal, ?_, hcomplete, htext, hpreview⟩
  subst htotal
  cases later with
  | nil => simp [readPageOutcome]
  | cons line later => simp [readPageOutcome]

/-- A page of a file that has lines left. -/
lemma exists_formatReadFilePage (rel : String) (front : List (List Char)) (hlimit : 0 < lineLimit)
    (hrest : rest ≠ []) :
    ∃ page shown later, rest = shown ++ later ∧ shown ≠ [] ∧
      formatReadFilePage rel (front.length + 1) lineLimit (front ++ rest).length
        (rest.take lineLimit) = .ok page ∧ Shows page.value front shown later := by
  obtain ⟨line, rest, rfl⟩ := List.exists_cons_of_ne_nil hrest
  obtain ⟨k, rfl⟩ : ∃ k, lineLimit = k + 1 := ⟨lineLimit - 1, by omega⟩
  have hsome : (front ++ line :: rest).length ≠ 0 := by simp
  have hinside : ¬ (front ++ line :: rest).length < front.length + 1 := by simp
  unfold formatReadFilePage
  rw [if_neg hsome, if_neg hinside, List.take_succ_cons]
  by_cases hlong : readMaxChars < line.length
  · have hshows (content display : List Char) : Shows (readPageOutcome rel content display
        (front.length + 1) (front.length + [line].length) (front ++ line :: rest).length false
        true).value front [line] rest :=
      shows_readPageOutcome (by simp) (by simpa using hlong) (fun h => by cases h) fun _ => rfl
    exact ⟨_, [line], rest, rfl, by simp, if_pos hlong, hshows _ _⟩
  · obtain ⟨more, later, hlines, hselect, hmore⟩ := selectLines_cons line (rest.take k)
    have hrest : line :: rest = (line :: more) ++ (later ++ rest.drop k) := by
      rw [List.cons_append, ← List.append_assoc, ← hlines, List.take_append_drop]
    have hfit : ∀ l ∈ line :: more, l.length ≤ readMaxChars := by
      intro l hl
      rcases List.mem_cons.mp hl with rfl | hl
      · omega
      · exact hmore l hl
    have hend : front.length + 1 + (line :: more).length - 1 =
        front.length + (line :: more).length := by omega
    have hshows (display : List Char) (truncated : Bool) : Shows (readPageOutcome rel
        (line :: more).flatten display (front.length + 1) (front.length + (line :: more).length)
        (front ++ line :: rest).length true truncated).value front (line :: more)
        (later ++ rest.drop k) :=
      shows_readPageOutcome (by rw [hrest, List.append_assoc]) ⟨fun _ => hfit, fun _ => rfl⟩
        (fun _ => rfl) fun h => by cases h
    dsimp only
    rw [if_neg (by simpa using hlong), hselect, hend]
    split_ifs
    all_goals exact ⟨_, line :: more, later ++ rest.drop k, hrest, by simp, rfl, hshows _ _⟩

/-! ### All pages -/

lemma boundedPositiveInt_int {n : Nat} (name : String) (h : 0 < n) :
    boundedPositiveInt (.int n) name none = .ok n := by
  have hpos : ¬ (n : Int) < 1 := by omega
  simp [boundedPositiveInt, parsedInt, hpos]

lemma boundedPositiveInt_pos {value : Json} {name : String} {maximum : Option Nat} {n : Nat}
    (h : boundedPositiveInt value name maximum = .ok n) : 0 < n := by
  unfold boundedPositiveInt at h
  split at h
  · cases h
  · rename_i parsed _
    split_ifs at h with hlow
    have hpos : 0 < parsed.toNat := by omega
    split at h
    · obtain rfl := Except.ok.inj h
      exact hpos
    · split_ifs at h
      obtain rfl := Except.ok.inj h
      exact hpos

variable {content : List UInt8} {limit : Option Json}

def AcceptsLimit (limit : Option Json) (lineLimit : Nat) : Prop :=
  boundedPositiveInt (limit.getD (.int readDefaultLines)) "limit" (some readMaxLines) =
    .ok lineLimit

lemma readFile_eq (rel : String) (front rest : List (List Char))
    (hlimit : AcceptsLimit limit lineLimit) (hvalid : Utf8.Valid content)
    (hlines : newlineLines (fileText content) = front ++ rest) :
    readFile rel content (some (.int (front.length + 1 : Nat))) limit =
      formatReadFilePage rel (front.length + 1) lineLimit (front ++ rest).length
        (rest.take lineLimit) := by
  have hscan : scanLines (front.length + 1) lineLimit [] 0 (front ++ rest) =
      ((front ++ rest).length, rest.take lineLimit) := by
    rw [scanLines_append (by omega), Nat.zero_add]
  simp only [readFile, Option.getD_some, boundedPositiveInt_int "offset" (Nat.succ_pos _)]
  rw [AcceptsLimit] at hlimit
  simp only [hlimit, hvalid, not_true, if_false, hlines]
  change formatReadFilePage rel (front.length + 1) lineLimit
    (scanLines (front.length + 1) lineLimit [] 0 (front ++ rest)).1
    (scanLines (front.length + 1) lineLimit [] 0 (front ++ rest)).2 = _
  rw [hscan]

lemma readFile_of_not_valid (rel : String) (hlimit : AcceptsLimit limit lineLimit)
    (hvalid : ¬ Utf8.Valid content) :
    readFile rel content (some (.int 1)) limit = .error s!"not utf-8 text: {rel}" := by
  rw [AcceptsLimit] at hlimit
  have hone : boundedPositiveInt (.int 1) "offset" none = .ok 1 :=
    boundedPositiveInt_int "offset" Nat.one_pos
  simp only [readFile, Option.getD_some, hone, hlimit, hvalid, not_false_iff, if_true]
  rfl

/-- The pages from a line on. -/
lemma exists_readPages (rel : String) (front : List (List Char))
    (hlimit : AcceptsLimit limit lineLimit) (hvalid : Utf8.Valid content) {fuel : Nat}
    (hrest : rest ≠ []) (hfuel : rest.length ≤ fuel)
    (hlines : newlineLines (fileText content) = front ++ rest) :
    ∃ pages, readPages rel content limit fuel (front.length + 1) = some pages ∧
      pages.flatMap (·.value.lineNumbers) = List.range' (front.length + 1) rest.length ∧
      (∀ page ∈ pages, ∃ before shown later, front ++ rest = before ++ shown ++ later ∧
        Shows page.value before shown later) ∧
      (pages.filter (·.value.textComplete)).flatMap (·.value.text) =
        (rest.filter (·.length ≤ readMaxChars)).flatten := by
  induction fuel generalizing front rest with
  | zero => exact absurd (List.length_eq_zero_iff.mp (by omega)) hrest
  | succ fuel ih =>
    obtain ⟨page, shown, later, rfl, hne, hpage, hshows⟩ :=
      exists_formatReadFilePage rel front (boundedPositiveInt_pos hlimit) hrest
    rw [← readFile_eq rel _ _ hlimit hvalid hlines] at hpage
    have hnumbers := hshows.lineNumbers
    have htext := hshows.flatten_filter
    have hpos : 0 < shown.length := List.length_pos_iff.mpr hne
    have hwhole : front ++ (shown ++ later) = front ++ shown ++ later := by
      rw [List.append_assoc]
    by_cases hlater : later = []
    · subst hlater
      have hlast : page.value.nextOffset = 0 := hshows.nextOffset.trans (if_pos rfl)
      refine ⟨[page], ?_, ?_, ?_, ?_⟩
      · simp only [readPages, hpage, hlast, if_true]
      · simpa using hnumbers
      · simpa using ⟨front, shown, [], by simp, hshows⟩
      · rw [List.append_nil, ← htext]
        cases hcomplete : page.value.textComplete <;> simp [hcomplete]
    · have hnext : page.value.nextOffset = (front ++ shown).length + 1 := by
        rw [hshows.nextOffset, if_neg hlater, List.length_append]
      have hrest : later.length ≤ fuel := by
        rw [List.length_append] at hfuel
        omega
      obtain ⟨pages, hpages, hranges, hparts, htexts⟩ := ih _ hlater hrest (hlines.trans hwhole)
      refine ⟨page :: pages, ?_, ?_, ?_, ?_⟩
      · simp only [readPages, hpage]
        rw [if_neg (by omega), hnext, hpages]
        rfl
      · rw [List.flatMap_cons, hnumbers, hranges, List.length_append, List.length_append,
          ← List.range'_append_1]
        congr 2
        omega
      · intro p hp
        rcases List.mem_cons.mp hp with rfl | hp
        · exact ⟨front, shown, later, hwhole, hshows⟩
        · rw [hwhole]
          exact hparts p hp
      · rw [List.filter_append, List.flatten_append, ← htexts, ← htext]
        cases hcomplete : page.value.textComplete <;> simp [hcomplete]

lemma readPages_mono {fuel more offset : Nat} {pages : List ReadOutcome} (hle : fuel ≤ more)
    (h : readPages rel content limit fuel offset = some pages) :
    readPages rel content limit more offset = some pages := by
  induction fuel generalizing more offset pages with
  | zero => cases h
  | succ fuel ih =>
    obtain ⟨more, rfl⟩ : ∃ k, more = k + 1 := ⟨more - 1, by omega⟩
    rw [readPages] at h ⊢
    cases hpage : readFile rel content (some (.int offset)) limit with
    | error message =>
      rw [hpage] at h
      cases h
    | ok page =>
      rw [hpage] at h
      dsimp only at h ⊢
      split_ifs at h ⊢ with hlast
      · exact h
      · obtain ⟨later, hlater, rfl⟩ := Option.map_eq_some_iff.mp h
        rw [ih (by omega) hlater]
        rfl

lemma readPages_of_empty (rel : String) (hlimit : AcceptsLimit limit lineLimit)
    (hvalid : Utf8.Valid content) (hlines : newlineLines (fileText content) = []) :
    readPages rel content limit 1 1 = some [readPageOutcome rel [] [] 1 0 0 true false] := by
  have hpage : readFile rel content (some (.int (1 : Nat))) limit =
      .ok (readPageOutcome rel [] [] 1 0 0 true false) :=
    readFile_eq rel [] [] hlimit hvalid hlines
  simp only [readPages, hpage]
  rfl

def completeText (pages : List ReadOutcome) : List Char :=
  (pages.filter (·.value.textComplete)).flatMap (·.value.text)

/-- The pages show every line once and in order. Those that are complete show their lines as they
are; the others show one line, which is too long for a page. -/
structure Exact (lines : List (List Char)) (pages : List ReadOutcome) : Prop where
  numbers : pages.flatMap (·.value.lineNumbers) = List.range' 1 lines.length
  complete : ∀ page ∈ pages, page.value.textComplete = true ↔
    ∀ line ∈ page.value.linesOf lines, line.length ≤ readMaxChars
  text : ∀ page ∈ pages, page.value.textComplete = true →
    page.value.text = (page.value.linesOf lines).flatten
  alone : ∀ page ∈ pages, page.value.textComplete = false →
    (page.value.linesOf lines).length = 1
  whole : completeText pages = (lines.filter (·.length ≤ readMaxChars)).flatten

lemma exists_exact (rel : String) (hlimit : AcceptsLimit limit lineLimit)
    (hvalid : Utf8.Valid content) : ∃ pages,
      (∀ fuel, (newlineLines (fileText content)).length < fuel →
        readPages rel content limit fuel 1 = some pages) ∧
      Exact (newlineLines (fileText content)) pages := by
  by_cases hempty : newlineLines (fileText content) = []
  · refine ⟨_, fun fuel hfuel => readPages_mono (by omega)
      (readPages_of_empty rel hlimit hvalid hempty), ?_⟩
    rw [hempty]
    refine ⟨rfl, ?_, ?_, ?_, rfl⟩
    all_goals simp [readPageOutcome, ReadPage.linesOf]
  · obtain ⟨pages, hpages, hnumbers, hparts, hwhole⟩ :=
      exists_readPages rel [] hlimit hvalid hempty le_rfl rfl
    refine ⟨pages, fun fuel hfuel => readPages_mono (by omega) hpages, hnumbers, ?_, ?_, ?_, hwhole⟩
    all_goals
      intro page hpage
      obtain ⟨before, shown, later, hlines, hshows⟩ := hparts page hpage
      rw [List.nil_append] at hlines
      rw [hlines, hshows.linesOf]
    · exact hshows.complete
    · exact hshows.text
    · exact hshows.preview

/-- Whoever follows the next offset of each page comes to an end, has met every line once and in
order, and has the text of the file but for the lines that are too long for a page. A file that is
not text has no page. -/
theorem readPages_exact (rel : String) (content : List UInt8) {limit : Option Json}
    {lineLimit : Nat} (hlimit : AcceptsLimit limit lineLimit) :
    (Utf8.Valid content → ∃ pages,
      (∀ fuel, (newlineLines (fileText content)).length < fuel →
        readPages rel content limit fuel 1 = some pages) ∧
      Exact (newlineLines (fileText content)) pages ∧
      ((∀ line ∈ newlineLines (fileText content), line.length ≤ readMaxChars) →
        completeText pages = fileText content)) ∧
    (¬ Utf8.Valid content →
      readFile rel content (some (.int 1)) limit = .error s!"not utf-8 text: {rel}") := by
  refine ⟨fun hvalid => ?_, readFile_of_not_valid rel hlimit⟩
  obtain ⟨pages, hpages, hexact⟩ := exists_exact rel hlimit hvalid
  refine ⟨pages, hpages, hexact, fun hfit => ?_⟩
  have hall : (newlineLines (fileText content)).filter (·.length ≤ readMaxChars) =
      newlineLines (fileText content) := List.filter_eq_self.mpr (by simpa using hfit)
  rw [hexact.whole, hall, flatten_newlineLines]

/-- A file of three lines, one for each page. -/
theorem readPages_exact_pages :
    AcceptsLimit (some (.int 1)) 1 ∧ ∃ pages, pages.length = 3 ∧
      (∀ fuel, 3 < fuel → readPages "a.txt" [0x41, 0x0D, 0x0A, 0x42, 0x0D, 0x43] (some (.int 1))
        fuel 1 = some pages) ∧
      Exact [['A', '\n'], ['B', '\n'], ['C']] pages := by
  have hlimit : AcceptsLimit (some (.int 1)) 1 := rfl
  refine ⟨hlimit, ?_⟩
  obtain ⟨pages, hpages, hexact, -⟩ :=
    (readPages_exact "a.txt" [0x41, 0x0D, 0x0A, 0x42, 0x0D, 0x43] hlimit).1 (by decide)
  have hlines : newlineLines (fileText [0x41, 0x0D, 0x0A, 0x42, 0x0D, 0x43]) =
      [['A', '\n'], ['B', '\n'], ['C']] := by decide
  rw [hlines] at hpages hexact
  have hlength : (readPages "a.txt" [0x41, 0x0D, 0x0A, 0x42, 0x0D, 0x43] (some (.int 1)) 4 1).map
      List.length = some 3 := by decide +kernel
  rw [hpages 4 (by decide)] at hlength
  exact ⟨pages, Option.some.inj hlength, hpages, hexact⟩

lemma feed_replicate (n : Nat) :
    Utf8.feed {} (List.replicate n 0x78) = (List.replicate n (some 'x'), {}) := by
  induction n with
  | zero => rfl
  | succ n ih =>
    have hx : Utf8.step {} 0x78 = ([some 'x'], {}) := by decide
    rw [List.replicate_succ, Utf8.feed, hx, ih]
    rfl

lemma newlineLines_replicate (n : Nat) :
    newlineLines (List.replicate (n + 1) 'x') = [List.replicate (n + 1) 'x'] := by
  have hx : ¬ 'x' = '\n' := by decide
  induction n with
  | zero => rfl
  | succ n ih =>
    rw [List.replicate_succ, newlineLines, if_neg hx, ih]
    rfl

lemma units_replicate (n : Nat) :
    Utf8.units (List.replicate n 0x78) = List.replicate n (some 'x') := by
  rw [Utf8.units, feed_replicate]
  exact List.append_nil _

lemma valid_replicate (n : Nat) : Utf8.Valid (List.replicate n 0x78) := by
  rw [Utf8.Valid, units_replicate]
  intro h
  cases (List.mem_replicate.mp h).2

lemma fileText_replicate (n : Nat) :
    fileText (List.replicate n 0x78) = List.replicate n 'x' := by
  rw [fileText, Utf8.decode, units_replicate, List.map_replicate, Option.getD_some]
  refine universalNewlines_eq_self fun h => ?_
  exact absurd (List.mem_replicate.mp h).2 (by decide)

/-- The pages of a file with a line that is too long do not make up its text. -/
theorem completeText_ne_fileText : ¬ ∀ (rel : String) (content : List UInt8)
    (limit : Option Json) (lineLimit : Nat), AcceptsLimit limit lineLimit →
    Utf8.Valid content → ∃ fuel pages, readPages rel content limit fuel 1 = some pages ∧
      completeText pages = fileText content := by
  intro h
  obtain ⟨fuel, pages, hpages, htext⟩ :=
    h "long.txt" (List.replicate (16000 + 1) 0x78) none 300 rfl (valid_replicate _)
  have hlimit : AcceptsLimit none 300 := rfl
  obtain ⟨pages', hpages', hexact⟩ := exists_exact "long.txt" hlimit (valid_replicate (16000 + 1))
  -- both readers meet the same pages
  have hsame := readPages_mono (Nat.le_max_left fuel
    ((newlineLines (fileText (List.replicate (16000 + 1) 0x78))).length + 1)) hpages
  rw [hpages' _ (by omega)] at hsame
  obtain rfl := Option.some.inj hsame
  have hlong : ¬ 16000 + 1 ≤ readMaxChars := by decide
  rw [hexact.whole, fileText_replicate, newlineLines_replicate] at htext
  simp only [List.filter_cons, List.length_replicate, hlong, decide_false, Bool.false_eq_true,
    if_false, List.filter_nil, List.flatten_nil] at htext
  exact List.cons_ne_nil _ _ htext.symm

end ReadFile

end Codey
