import Codey.Lib.JsonText
import Codey.Lib.Text

/-!
# Scanner of JSON objects

The scan for braces outside strings that finds the objects of a reply, and what it finds in a text
of objects with blanks between them.
-/

namespace Codey

namespace Protocols

open JsonText

/-- A span of a text, start and exclusive end. -/
abbrev Span := Nat × Nat

/-- The variables of the scan. -/
structure Scan where
  inString : Bool := false
  escaped : Bool := false
  depth : Nat := 0
  start : Option Nat := none
  spans : List Span := []
  index : Nat := 0

namespace Scan

/-- The scan of the next character. -/
def step (s : Scan) (ch : Char) : Scan :=
  if s.inString then
    if s.escaped then { s with index := s.index + 1, escaped := false }
    else if ch = '\\' then { s with index := s.index + 1, escaped := true }
    else if ch = '"' then { s with index := s.index + 1, inString := false }
    else { s with index := s.index + 1 }
  else if ch = '"' then { s with index := s.index + 1, inString := true }
  else if ch = '\x7b' then
    { s with
      index := s.index + 1, depth := s.depth + 1
      start := if s.depth = 0 then some s.index else s.start }
  else if ch = '\x7d' ∧ s.depth ≠ 0 then
    match if s.depth = 1 then s.start else none with
    | some start =>
      { s with
        index := s.index + 1, depth := 0, start := none
        spans := s.spans ++ [(start, s.index + 1)] }
    | none => { s with index := s.index + 1, depth := s.depth - 1 }
  else { s with index := s.index + 1 }

def run (s : Scan) (text : List Char) : Scan := text.foldl step s

/-- Only the place in the text has changed. -/
def skip (s : Scan) (n : Nat) : Scan := { s with index := s.index + n }

@[simp] lemma run_nil (s : Scan) : s.run [] = s := rfl

@[simp] lemma run_cons (s : Scan) (ch : Char) (text : List Char) :
    s.run (ch :: text) = (s.step ch).run text := rfl

@[simp] lemma run_append (s : Scan) (front back : List Char) :
    s.run (front ++ back) = (s.run front).run back := List.foldl_append

@[simp] lemma skip_skip (s : Scan) (m n : Nat) : (s.skip m).skip n = s.skip (m + n) := by
  simp [skip, Nat.add_assoc]

variable {s : Scan} {text : List Char}

/-- Inside a string nothing but its end counts. -/
lemma run_quoted (h : Quoted text) (hin : s.inString = true) (hesc : s.escaped = false) :
    s.run text = s.skip text.length := by
  induction h generalizing s with
  | nil => rfl
  | @plain ch rest hquote hslash _ ih =>
    have hstep : s.step ch = s.skip 1 := by
      rw [step, if_pos hin, if_neg (by simp [hesc]), if_neg hslash, if_neg hquote]
      rfl
    rw [run_cons, hstep, ih (s := s.skip 1) hin hesc, skip_skip, List.length_cons, Nat.add_comm]
  | @escape ch rest _ ih =>
    have hstep : (s.step '\\').step ch = s.skip 2 := by
      obtain ⟨inString, escaped, depth, start, spans, index⟩ := s
      obtain rfl : inString = true := hin
      obtain rfl : escaped = false := hesc
      rfl
    rw [run_cons, run_cons, hstep, ih (s := s.skip 2) hin hesc, skip_skip, List.length_cons,
      List.length_cons, Nat.add_comm]

lemma step_plain {ch : Char} (hin : s.inString = false) (h : JsonText.plain ch = true) :
    s.step ch = s.skip 1 := by
  simp only [JsonText.plain, Bool.and_eq_true, decide_eq_true_eq] at h
  obtain ⟨⟨hquote, hopen⟩, hclose⟩ := h
  rw [step, if_neg (by simp [hin]), if_neg hquote, if_neg hopen, if_neg fun h => hclose h.1]
  rfl

lemma run_plain (hin : s.inString = false) (h : ∀ ch ∈ text, JsonText.plain ch = true) :
    s.run text = s.skip text.length := by
  induction text generalizing s with
  | nil => rfl
  | cons ch text ih =>
    have hhead : s.step ch = s.skip 1 := step_plain hin (h ch List.mem_cons_self)
    rw [run_cons, hhead, ih (s := s.skip 1) hin fun c hc => h c (List.mem_cons_of_mem _ hc),
      skip_skip,
      List.length_cons, Nat.add_comm]

lemma run_string {body : List Char} (h : Quoted body) (hin : s.inString = false)
    (hesc : s.escaped = false) : s.run ('"' :: body ++ ['"']) = s.skip (body.length + 2) := by
  obtain ⟨inString, escaped, depth, start, spans, index⟩ := s
  obtain rfl : inString = false := hin
  obtain rfl : escaped = false := hesc
  have hopen : (Scan.mk false false depth start spans index).step '"' =
      Scan.mk true false depth start spans (index + 1) := rfl
  rw [List.cons_append, run_cons, hopen, run_append, run_quoted h rfl rfl]
  simp only [skip, run_cons, run_nil, step, Nat.add_assoc, Nat.add_comm 1]
  rfl

/-- Inside an object what is balanced is passed over. -/
lemma run_balanced (h : Balanced text) (hin : s.inString = false) (hesc : s.escaped = false)
    (hdepth : s.depth ≠ 0) : s.run text = s.skip text.length := by
  induction h generalizing s with
  | nil => rfl
  | plain hplain _ ih =>
    rw [run_cons, step_plain hin hplain, ih (s := s.skip 1) hin hesc hdepth, skip_skip,
      List.length_cons, Nat.add_comm]
  | @quoted body rest hbody _ ih =>
    have hsplit : '"' :: body ++ '"' :: rest = ('"' :: body ++ ['"']) ++ rest := by simp
    rw [hsplit, run_append, run_string hbody hin hesc,
      ih (s := s.skip (body.length + 2)) hin hesc hdepth, skip_skip]
    congr 1
    simp only [List.length_append, List.length_cons, List.length_nil]
  | @braces inner rest _ _ ihinner ih =>
    obtain ⟨inString, escaped, depth, start, spans, index⟩ := s
    obtain rfl : inString = false := hin
    obtain rfl : escaped = false := hesc
    obtain ⟨d, rfl⟩ := Nat.exists_eq_succ_of_ne_zero hdepth
    have hopen : (Scan.mk false false (d + 1) start spans index).step '\x7b' =
        Scan.mk false false (d + 2) start spans (index + 1) := rfl
    have hclose (i : Nat) : (Scan.mk false false (d + 2) start spans i).step '\x7d' =
        Scan.mk false false (d + 1) start spans (i + 1) := rfl
    rw [List.cons_append, run_cons, hopen, run_append, ihinner rfl rfl (by simp), run_cons]
    simp only [skip]
    rw [hclose, ih rfl rfl (by simp)]
    simp only [skip, List.length_cons, List.length_append]
    congr 1
    omega

/-- An object is found. -/
lemma run_object {inner : List Char} (h : Balanced inner) (spans : List Span) (index : Nat) :
    (Scan.mk false false 0 none spans index).run ('\x7b' :: inner ++ ['\x7d']) =
      Scan.mk false false 0 none (spans ++ [(index, index + (inner.length + 2))])
        (index + (inner.length + 2)) := by
  have hopen : (Scan.mk false false 0 none spans index).step '\x7b' =
      Scan.mk false false 1 (some index) spans (index + 1) := rfl
  have hclose (i : Nat) : (Scan.mk false false 1 (some index) spans i).step '\x7d' =
      Scan.mk false false 0 none (spans ++ [(index, i + 1)]) (i + 1) := rfl
  rw [List.cons_append, run_cons, hopen, run_append, run_balanced h rfl rfl (by simp), run_cons]
  simp only [skip]
  rw [hclose, run_nil]
  have hend : index + 1 + inner.length + 1 = index + (inner.length + 2) := by omega
  rw [hend]

end Scan

def balancedJsonSpans (text : List Char) : List Span := (Scan.run {} text).spans

/-! ### Spans in order -/

/-- `text[start:stop]` -/
def slice (text : List Char) (start stop : Nat) : List Char := (text.drop start).take (stop - start)

/-- The spans follow each other between two places. -/
def Ordered : Nat → List Span → Nat → Prop
  | origin, [], limit => origin ≤ limit
  | origin, (start, stop) :: spans, limit => origin ≤ start ∧ start ≤ stop ∧ Ordered stop spans limit

variable {spans : List Span}

lemma Ordered.mono {origin limit limit' : Nat} (h : Ordered origin spans limit)
    (hle : limit ≤ limit') : Ordered origin spans limit' := by
  induction spans generalizing origin with
  | nil => exact h.trans hle
  | cons span spans ih => exact ⟨h.1, h.2.1, ih h.2.2⟩

lemma Ordered.snoc {origin limit start stop : Nat} (h : Ordered origin spans limit)
    (hstart : limit ≤ start) (hstop : start ≤ stop) :
    Ordered origin (spans ++ [(start, stop)]) stop := by
  induction spans generalizing origin with
  | nil => exact ⟨h.trans hstart, hstop, le_rfl⟩
  | cons span spans ih => exact ⟨h.1, h.2.1, ih h.2.2⟩

/-- The spans so far end before the object that is open. -/
structure Scan.Sound (s : Scan) : Prop where
  ordered : Ordered 0 s.spans (s.start.getD s.index)
  start : s.start.getD s.index ≤ s.index

lemma Scan.Sound.step {s : Scan} (h : s.Sound) (ch : Char) : (s.step ch).Sound := by
  obtain ⟨inString, escaped, depth, start, spans, index⟩ := s
  obtain ⟨hordered, hstart⟩ := h
  simp only at hordered hstart
  have hnext : Scan.Sound (Scan.mk inString escaped depth start spans (index + 1)) := by
    cases start with
    | none => exact ⟨hordered.mono (Nat.le_succ _), le_rfl⟩
    | some place => exact ⟨hordered, hstart.trans (Nat.le_succ _)⟩
  unfold Scan.step
  split_ifs with hin hesc hslash hquote hquote hopen hdepth hclose hone
  · exact ⟨hnext.ordered, hnext.start⟩
  · exact ⟨hnext.ordered, hnext.start⟩
  · exact ⟨hnext.ordered, hnext.start⟩
  · exact ⟨hnext.ordered, hnext.start⟩
  · exact ⟨hnext.ordered, hnext.start⟩
  · exact ⟨hordered.mono hstart, Nat.le_succ _⟩
  · exact ⟨hnext.ordered, hnext.start⟩
  · split
    · rename_i place hplace
      simp only at hplace
      subst hplace
      exact ⟨hordered.snoc le_rfl (hstart.trans (Nat.le_succ _)), le_rfl⟩
    · exact ⟨hnext.ordered, hnext.start⟩
  · exact ⟨hnext.ordered, hnext.start⟩
  · exact ⟨hnext.ordered, hnext.start⟩

lemma Scan.Sound.run {s : Scan} (h : s.Sound) (text : List Char) : (s.run text).Sound := by
  induction text generalizing s with
  | nil => exact h
  | cons ch text ih => exact ih (h.step ch)

lemma Scan.run_index (s : Scan) (text : List Char) : (s.run text).index = s.index + text.length := by
  induction text generalizing s with
  | nil => rfl
  | cons ch text ih =>
    have hstep : (s.step ch).index = s.index + 1 := by
      unfold Scan.step
      split_ifs <;> try rfl
      all_goals split <;> rfl
    rw [Scan.run_cons, ih, hstep, List.length_cons, Nat.add_assoc, Nat.add_comm 1]

lemma balancedJsonSpans_ordered (text : List Char) :
    Ordered 0 (balancedJsonSpans text) text.length := by
  have hsound : (Scan.run {} text).Sound := Scan.Sound.run ⟨le_rfl, le_rfl⟩ text
  have hindex := Scan.run_index {} text
  rw [Nat.zero_add] at hindex
  exact hsound.ordered.mono (hindex ▸ hsound.start)

/-- What has been read so far has a brace at every start. -/
structure Scan.Opens (done : List Char) (s : Scan) : Prop where
  index : s.index = done.length
  spans : ∀ span ∈ s.spans, span.1 < span.2 ∧ done[span.1]? = some '\x7b'
  start : ∀ place, s.start = some place → done[place]? = some '\x7b'

lemma Scan.Opens.step {done : List Char} {s : Scan} (h : s.Opens done) (ch : Char) :
    (s.step ch).Opens (done ++ [ch]) := by
  obtain ⟨inString, escaped, depth, start, spans, index⟩ := s
  obtain ⟨rfl, hspans, hstart⟩ := h
  simp only at hspans hstart
  have hkeep {place : Nat} (h : done[place]? = some '\x7b') :
      (done ++ [ch])[place]? = some '\x7b' :=
    (List.getElem?_append_left (List.getElem?_eq_some_iff.mp h).1).trans h
  have hnext : Scan.Opens (done ++ [ch]) (Scan.mk inString escaped depth start spans
      (done.length + 1)) :=
    ⟨by simp, fun span hspan => ⟨(hspans span hspan).1, hkeep (hspans span hspan).2⟩,
      fun place hplace => hkeep (hstart place hplace)⟩
  unfold Scan.step
  split_ifs with hin hesc hslash hquote hquote hopen hdepth hclose hone
  · exact ⟨hnext.index, hnext.spans, hnext.start⟩
  · exact ⟨hnext.index, hnext.spans, hnext.start⟩
  · exact ⟨hnext.index, hnext.spans, hnext.start⟩
  · exact ⟨hnext.index, hnext.spans, hnext.start⟩
  · exact ⟨hnext.index, hnext.spans, hnext.start⟩
  · refine ⟨hnext.index, hnext.spans, fun place hplace => ?_⟩
    obtain rfl := Option.some.inj hplace
    simp [hopen]
  · exact ⟨hnext.index, hnext.spans, hnext.start⟩
  · split
    · rename_i place hplace
      simp only at hplace
      refine ⟨hnext.index, fun span hspan => ?_, fun _ hnone => by cases hnone⟩
      rcases List.mem_append.mp hspan with hspan | hspan
      · exact hnext.spans span hspan
      · obtain rfl := List.mem_singleton.mp hspan
        exact ⟨Nat.lt_succ_of_lt (List.getElem?_eq_some_iff.mp (hstart place hplace)).1,
          hkeep (hstart place hplace)⟩
    · exact ⟨hnext.index, hnext.spans, hnext.start⟩
  · exact ⟨hnext.index, hnext.spans, hnext.start⟩
  · exact ⟨hnext.index, hnext.spans, hnext.start⟩

lemma Scan.Opens.run {done : List Char} {s : Scan} (h : s.Opens done) (text : List Char) :
    (s.run text).Opens (done ++ text) := by
  induction text generalizing done s with
  | nil => rwa [List.append_nil]
  | cons ch text ih =>
    have hsplit : done ++ ch :: text = done ++ [ch] ++ text := by simp
    rw [hsplit]
    exact ih (h.step ch)

variable {text : List Char}

lemma slice_of_span {span : Span} (h : span ∈ balancedJsonSpans text) :
    (slice text span.1 span.2).head? = some '\x7b' := by
  have hopens : (Scan.run {} text).Opens text :=
    Scan.Opens.run (show Scan.Opens [] {} from ⟨rfl, by simp, by simp⟩) text
  obtain ⟨hlt, hbrace⟩ := hopens.spans span h
  obtain ⟨n, hn⟩ := Nat.exists_eq_succ_of_ne_zero (Nat.sub_ne_zero_of_lt hlt)
  rw [slice, hn, List.head?_take, if_neg (Nat.succ_ne_zero n), List.head?_drop, hbrace]

/-! ### Sequences -/

/-- White space only. -/
def Blank (text : List Char) : Prop := ∀ ch ∈ text, blank ch = true

/-- The texts one after the other, with blanks only around and between them. -/
inductive Sequence : List (List Char) → List Char → Prop where
  | nil {trail : List Char} : Blank trail → Sequence [] trail
  | cons {lead part rest : List Char} {parts : List (List Char)} :
      Blank lead → Sequence parts rest → Sequence (part :: parts) (lead ++ part ++ rest)

/-- What stands before, between and behind the spans. -/
def gaps (source : List Char) : Nat → List Span → List (List Char)
  | origin, [] => [source.drop origin]
  | origin, (start, stop) :: spans => slice source origin start :: gaps source stop spans

variable {source : List Char}

lemma slice_append_drop {origin start : Nat} (h : origin ≤ start) :
    slice source origin start ++ source.drop start = source.drop origin := by
  have hdrop : source.drop start = (source.drop origin).drop (start - origin) := by
    rw [List.drop_drop, Nat.add_sub_cancel' h]
  rw [slice, hdrop, List.take_append_drop]

/-- Spans with blanks between them cut a sequence out. -/
lemma sequence_of_gaps {origin : Nat} (hordered : Ordered origin spans source.length)
    (hgaps : ∀ gap ∈ gaps source origin spans, Blank gap) :
    Sequence (spans.map fun span => slice source span.1 span.2) (source.drop origin) := by
  induction spans generalizing origin with
  | nil => exact .nil (hgaps _ List.mem_cons_self)
  | cons span spans ih =>
    obtain ⟨start, stop⟩ := span
    obtain ⟨hstart, hstop, hrest⟩ := hordered
    rw [List.map_cons, ← slice_append_drop hstart, ← slice_append_drop hstop, ← List.append_assoc]
    exact .cons (hgaps _ List.mem_cons_self)
      (ih hrest fun gap hgap => hgaps gap (List.mem_cons_of_mem _ hgap))

/-- An object as it is spelled. -/
def Braced (part : List Char) : Prop := ∃ inner, part = '\x7b' :: inner ++ ['\x7d'] ∧ Balanced inner

lemma plain_of_blank {ch : Char} (h : blank ch = true) : JsonText.plain ch = true := by
  simp only [JsonText.plain, Bool.and_eq_true, decide_eq_true_eq]
  refine ⟨⟨?_, ?_⟩, ?_⟩ <;> rintro rfl <;> exact absurd h (by decide)

lemma slice_append (front part rest : List Char) :
    slice (front ++ part ++ rest) front.length (front.length + part.length) = part := by
  rw [slice, List.append_assoc, List.drop_left, Nat.add_sub_cancel_left, List.take_left]

variable {parts : List (List Char)}

/-- The scan finds the objects of a sequence and nothing else. -/
lemma run_sequence (h : Sequence parts text) (hparts : ∀ part ∈ parts, Braced part)
    (front : List Char) (spans : List Span) :
    ∃ found, (Scan.mk false false 0 none spans front.length).run text =
        Scan.mk false false 0 none (spans ++ found) (front.length + text.length) ∧
      found.map (fun span => slice (front ++ text) span.1 span.2) = parts ∧
      ∀ gap ∈ gaps (front ++ text) front.length found, Blank gap := by
  induction h generalizing front spans with
  | @nil trail htrail =>
    refine ⟨[], ?_, rfl, ?_⟩
    · rw [Scan.run_plain rfl fun ch hch => plain_of_blank (htrail ch hch), List.append_nil]
      rfl
    · simpa [gaps] using htrail
  | @cons lead part rest parts hlead hrest ih =>
    obtain ⟨inner, rfl, hinner⟩ := hparts part List.mem_cons_self
    generalize hpart : '\x7b' :: inner ++ ['\x7d'] = part at *
    have hlength : part.length = inner.length + 2 := by rw [← hpart]; simp
    have hfound := Scan.run_object hinner spans (front.length + lead.length)
    rw [hpart, ← hlength] at hfound
    obtain ⟨found, hrun, hslices, hgaps⟩ := ih
      (fun other hother => hparts other (List.mem_cons_of_mem _ hother)) (front ++ lead ++ part)
      (spans ++ [(front.length + lead.length, front.length + lead.length + part.length)])
    simp only [List.length_append] at hrun hslices hgaps
    refine ⟨(front.length + lead.length, front.length + lead.length + part.length) :: found,
      ?_, ?_, ?_⟩
    · rw [Scan.run_append, Scan.run_append,
        Scan.run_plain rfl fun ch hch => plain_of_blank (hlead ch hch)]
      simp only [Scan.skip]
      rw [hfound, hrun, List.append_assoc, List.singleton_append]
      simp only [List.length_append, Nat.add_assoc]
    · have hsplit : front ++ (lead ++ part ++ rest) = front ++ lead ++ part ++ rest := by simp
      have hslice := slice_append (front ++ lead) part rest
      rw [List.length_append] at hslice
      rw [hsplit, List.map_cons, hslice, hslices]
    · have hsplit : front ++ (lead ++ part ++ rest) = front ++ lead ++ part ++ rest := by simp
      rw [hsplit]
      intro gap hgap
      rcases List.mem_cons.mp hgap with rfl | hgap
      · have hslice := slice_append front lead (part ++ rest)
        rw [← List.append_assoc] at hslice
        rwa [hslice]
      · exact hgaps gap hgap

lemma Braced.blank_ends {part : List Char} (h : Braced part) :
    part ≠ [] ∧ (∀ ch ∈ part.head?, blank ch = false) ∧ ∀ ch ∈ part.getLast?, blank ch = false := by
  obtain ⟨inner, rfl, -⟩ := h
  refine ⟨by simp, ?_, ?_⟩
  · intro ch hch
    obtain rfl : '\x7b' = ch := by simpa using hch
    decide
  · intro ch hch
    rw [List.getLast?_append, List.getLast?_singleton] at hch
    obtain rfl : '\x7d' = ch := by simpa using hch
    decide

/-- Blanks at the end go no further than a character that is none. -/
lemma rdropWhile_append_of_last {front : List Char} (h : ∀ ch ∈ front.getLast?, blank ch = false)
    (back : List Char) : (front ++ back).rdropWhile blank = front ++ back.rdropWhile blank := by
  induction back using List.reverseRecOn with
  | nil =>
    rw [List.append_nil, List.rdropWhile_nil, List.append_nil, List.rdropWhile_eq_self_iff]
    intro hne
    simpa using h _ (List.getLast?_eq_some_getLast hne)
  | append_singleton back ch ih =>
    rw [← List.append_assoc, List.rdropWhile_concat, List.rdropWhile_concat]
    split_ifs
    · exact ih
    · rw [List.append_assoc]

lemma Sequence.dropWhile (h : Sequence parts text) (hparts : ∀ part ∈ parts, Braced part) :
    Sequence parts (text.dropWhile blank) := by
  cases h with
  | nil htrail =>
    rw [List.dropWhile_eq_nil_iff.mpr htrail]
    exact .nil (by simp [Blank])
  | @cons lead part rest parts hlead hrest =>
    obtain ⟨hne, hhead, -⟩ := (hparts part List.mem_cons_self).blank_ends
    have hdrop : (lead ++ part ++ rest).dropWhile blank = [] ++ part ++ rest := by
      rw [List.append_assoc, List.dropWhile_append_of_pos hlead, List.nil_append]
      cases part with
      | nil => exact absurd rfl hne
      | cons ch part => exact List.dropWhile_cons_of_neg (by simpa using hhead ch rfl)
    rw [hdrop]
    exact .cons (by simp [Blank]) hrest

lemma Sequence.rdropWhile (h : Sequence parts text) (hparts : ∀ part ∈ parts, Braced part) :
    Sequence parts (text.rdropWhile blank) := by
  induction h with
  | nil htrail => exact .nil fun ch hch => htrail ch ((List.rdropWhile_prefix blank _).subset hch)
  | @cons lead part rest parts hlead hrest ih =>
    obtain ⟨hne, -, hlast⟩ := (hparts part List.mem_cons_self).blank_ends
    have hdrop : (lead ++ part ++ rest).rdropWhile blank = lead ++ part ++ rest.rdropWhile blank := by
      refine rdropWhile_append_of_last (fun ch hch => hlast ch ?_) rest
      rwa [List.getLast?_append_of_ne_nil _ hne] at hch
    rw [hdrop]
    exact .cons hlead (ih fun other hother => hparts other (List.mem_cons_of_mem _ hother))

lemma Sequence.strip (h : Sequence parts text) (hparts : ∀ part ∈ parts, Braced part) :
    Sequence parts (Codey.strip text) :=
  (h.dropWhile hparts).rdropWhile hparts

/-- What is said of the gaps is said of the ends of the text and of every two spans in a row. -/
lemma forall_gaps_iff {P : List Char → Prop} (origin : Nat) (first : Span) (rest : List Span) :
    (∀ gap ∈ gaps source origin (first :: rest), P gap) ↔
      P (slice source origin first.1) ∧
      P (source.drop ((first :: rest).getLast (List.cons_ne_nil _ _)).2) ∧
      ∀ pair ∈ (first :: rest).zip rest, P (slice source pair.1.2 pair.2.1) := by
  induction rest generalizing origin first with
  | nil => simp [gaps]
  | cons next rest ih =>
    have hgaps : gaps source origin (first :: next :: rest) =
        slice source origin first.1 :: gaps source first.2 (next :: rest) := rfl
    rw [hgaps, List.forall_mem_cons, ih, List.getLast_cons (List.cons_ne_nil _ _), List.zip_cons_cons,
      List.forall_mem_cons]
    tauto

theorem balancedJsonSpans_sequence {parts : List (List Char)} {text : List Char}
    (h : Sequence parts text) (hparts : ∀ part ∈ parts, Braced part) :
    (balancedJsonSpans text).map (fun span => slice text span.1 span.2) = parts ∧
      ∀ gap ∈ gaps text 0 (balancedJsonSpans text), Blank gap := by
  obtain ⟨found, hrun, hslices, hgaps⟩ := run_sequence h hparts [] []
  have hspans : balancedJsonSpans text = found := by
    rw [balancedJsonSpans]
    exact congrArg Scan.spans hrun
  rw [hspans]
  exact ⟨hslices, hgaps⟩

end Protocols

end Codey
