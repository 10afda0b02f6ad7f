import Mathlib.Data.List.DropRight
import Codey.Lib.Utf8

/-!
# Bounded output capture

The output of a child process in chunks: the first bytes and the last bytes are kept, the others
are counted. The edges of the gap are trimmed so that no character is shown in part.
-/

namespace Codey

open Utf8 (continuation decode units Valid)

structure CapturedText where
  text : String
  totalBytes : Nat
  truncated : Bool
  omittedBytes : Nat
  decodingErrors : Bool
  deriving DecidableEq

/-- `_safe_limit` of an integer. -/
def safeLimit (value : Int) : Nat := value.toNat

def expectedLength (start : UInt8) : Option Nat :=
  if 0xC2 ≤ start && start ≤ 0xDF then some 2
  else if 0xE0 ≤ start && start ≤ 0xEF then some 3
  else if 0xF0 ≤ start && start ≤ 0xF4 then some 4
  else none

/-- The continuation bytes at the end, four at most. -/
def trailingRun (data : List UInt8) : Nat := ((data.reverse.take 4).takeWhile continuation).length

def trimTrailingIncomplete (data : List UInt8) : List UInt8 :=
  match data.getLast? with
  | none => data
  | some last =>
    if trailingRun data = 0 then
      if last ≤ 0x7F || (0xC2 ≤ last && last ≤ 0xF4) then
        if 0xC2 ≤ last then data.dropLast else data
      else data
    else if data.length ≤ trailingRun data then []
    else match expectedLength (data.getD (data.length - (trailingRun data + 1)) 0) with
      | some expected =>
        if trailingRun data + 1 < expected then data.take (data.length - (trailingRun data + 1))
        else data
      | none => data.take (data.length - trailingRun data)

/-- `_trim_leading_incomplete`: the continuation bytes at the front, four at most, are dropped. -/
def trimLeadingIncomplete (data : List UInt8) : List UInt8 :=
  data.drop ((data.take 4).takeWhile continuation).length

/-- What is kept of a stream. The decoder is gone once it has met an error. -/
structure BoundedByteCapture where
  headLimit : Nat
  tailLimit : Nat
  head : List UInt8 := []
  tail : List (List UInt8) := []
  tailLen : Nat := 0
  total : Nat := 0
  decoder : Option Utf8.State := some {}

def strictFeed (decoder : Option Utf8.State) (chunk : List UInt8) : Option Utf8.State :=
  decoder.bind fun s => if none ∈ (Utf8.feed s chunk).1 then none else some (Utf8.feed s chunk).2

/-- The loop that drops the oldest bytes beyond a limit. -/
def trimTail (limit : Nat) : List (List UInt8) → Nat → List (List UInt8) × Nat
  | [], size => ([], size)
  | left :: rest, size =>
    if limit < size then
      if left.length ≤ size - limit then trimTail limit rest (size - left.length)
      else (left.drop (size - limit) :: rest, limit)
    else (left :: rest, size)

namespace BoundedByteCapture

def pushTail (c : BoundedByteCapture) (view : List UInt8) : BoundedByteCapture :=
  let trimmed := trimTail c.tailLimit (c.tail ++ [view]) (c.tailLen + view.length)
  { c with tail := trimmed.1, tailLen := trimmed.2 }

def feed (c : BoundedByteCapture) (chunk : List UInt8) : BoundedByteCapture :=
  if chunk = [] then c
  else
    let c := { c with total := c.total + chunk.length, decoder := strictFeed c.decoder chunk }
    if c.head.length < c.headLimit then
      let need := c.headLimit - c.head.length
      let c := { c with head := c.head ++ chunk.take need }
      if chunk.drop need = [] then c else c.pushTail (chunk.drop need)
    else c.pushTail chunk

end BoundedByteCapture

def encodingWarning : String :=
  "[encoding warning: invalid UTF-8; displayed text is lossy. " ++
    "Configure the program to emit UTF-8.]\n"

def omissionMarker (omitted : Nat) : String :=
  "\n[... omitted " ++ toString omitted ++ " bytes of output; showing head and tail only ...]\n"

/-- What is shown of a stream that has ended. -/
def BoundedByteCapture.finish (c : BoundedByteCapture) : CapturedText :=
  let errors := c.decoder.all (·.owed ≠ 0)
  let warning := if errors then encodingWarning else ""
  let tail := c.tail.flatten
  if c.total ≤ c.head.length + tail.length then
    ⟨warning ++ String.ofList (decode (c.head ++ tail)), c.total, false, 0, errors⟩
  else
    let head := trimTrailingIncomplete c.head
    let tail := trimLeadingIncomplete tail
    let omitted := c.total - head.length - tail.length
    ⟨warning ++ String.ofList (decode head) ++ omissionMarker omitted ++
      String.ofList (decode tail), c.total, true, omitted, errors⟩

/-- The result for a stream that was read in chunks. -/
def capture (headLimit tailLimit : Int) (chunks : List (List UInt8)) : CapturedText :=
  (chunks.foldl BoundedByteCapture.feed
    { headLimit := safeLimit headLimit, tailLimit := safeLimit tailLimit }).finish

/-! ### What is kept -/

variable {data : List UInt8}

lemma rtake_append_rtake (n : Nat) (l l' : List UInt8) :
    (l.rtake n ++ l').rtake n = (l ++ l').rtake n := by
  simp only [List.rtake, List.length_append, List.length_drop, List.drop_append, List.drop_drop]
  congr 2
  · omega
  · omega

lemma trimTail_flatten (limit : Nat) (tail : List (List UInt8)) :
    (trimTail limit tail tail.flatten.length).1.flatten = tail.flatten.rtake limit ∧
      (trimTail limit tail tail.flatten.length).2 = (tail.flatten.rtake limit).length := by
  induction tail with
  | nil => simp [trimTail, List.rtake]
  | cons left rest ih =>
    unfold trimTail
    simp only [List.flatten_cons, List.length_append]
    split_ifs with hlong hall
    · have hsize : left.length + rest.flatten.length - left.length = rest.flatten.length := by omega
      have hdrop : (left ++ rest.flatten).rtake limit = rest.flatten.rtake limit := by
        simp only [List.rtake, List.length_append, List.drop_append]
        rw [List.drop_eq_nil_of_le (by omega), List.nil_append]
        congr 1
        omega
      rw [hsize, hdrop]
      exact ih
    · have hdrop : (left ++ rest.flatten).rtake limit =
          left.drop (left.length + rest.flatten.length - limit) ++ rest.flatten := by
        simp only [List.rtake, List.length_append, List.drop_append]
        congr 1
        rw [show left.length + rest.flatten.length - limit - left.length = 0 by omega,
          List.drop_zero]
      rw [hdrop]
      refine ⟨rfl, ?_⟩
      simp only [List.length_append, List.length_drop]
      omega
    · have hdrop : (left ++ rest.flatten).rtake limit = left ++ rest.flatten := by
        rw [List.rtake, List.length_append, Nat.sub_eq_zero_of_le (by omega), List.drop_zero]
      rw [hdrop]
      exact ⟨rfl, by rw [List.length_append]⟩

namespace BoundedByteCapture

/-- What is kept after the bytes of `data`. -/
structure Holds (c : BoundedByteCapture) (data : List UInt8) : Prop where
  head : c.head = data.take c.headLimit
  tail : c.tail.flatten = (data.drop c.headLimit).rtake c.tailLimit
  tailLen : c.tailLen = c.tail.flatten.length
  total : c.total = data.length
  decoder : c.decoder = strictFeed (some {}) data

variable {c : BoundedByteCapture}

lemma pushTail_holds (view : List UInt8) (hlen : c.tailLen = c.tail.flatten.length) :
    (c.pushTail view).tail.flatten = (c.tail.flatten ++ view).rtake c.tailLimit ∧
      (c.pushTail view).tailLen = (c.pushTail view).tail.flatten.length := by
  have hflatten : (c.tail ++ [view]).flatten = c.tail.flatten ++ view := by simp
  obtain ⟨hbytes, hsize⟩ := trimTail_flatten c.tailLimit (c.tail ++ [view])
  rw [hflatten, List.length_append, ← hlen] at hbytes hsize
  refine ⟨hbytes, ?_⟩
  change (trimTail _ _ _).2 = (trimTail _ _ _).1.flatten.length
  rw [hsize, hbytes]

lemma strictFeed_append (data chunk : List UInt8) :
    strictFeed (some {}) (data ++ chunk) = strictFeed (strictFeed (some {}) data) chunk := by
  simp only [strictFeed, Option.bind_some, Utf8.feed_append, List.mem_append]
  by_cases herror : none ∈ (Utf8.feed {} data).1
  · simp [herror]
  · simp [herror]

/-- A head that has room holds all bytes so far, and the tail none. -/
lemma Holds.room (h : c.Holds data) (hroom : c.head.length < c.headLimit) (chunk : List UInt8) :
    c.tail.flatten = [] ∧
    c.head ++ chunk.take (c.headLimit - c.head.length) = (data ++ chunk).take c.headLimit ∧
    (data ++ chunk).drop c.headLimit = chunk.drop (c.headLimit - c.head.length) := by
  have hshort : data.length < c.headLimit := by
    rw [h.head, List.length_take] at hroom
    omega
  have hall : c.head = data := by rw [h.head, List.take_of_length_le hshort.le]
  refine ⟨?_, ?_, ?_⟩
  · rw [h.tail, List.drop_eq_nil_of_le hshort.le, List.rtake_nil]
  · rw [hall, List.take_append, List.take_of_length_le hshort.le]
  · rw [List.drop_append, List.drop_eq_nil_of_le hshort.le, hall, List.nil_append]

/-- One more chunk. -/
lemma Holds.feed (h : c.Holds data) (chunk : List UInt8) :
    (c.feed chunk).Holds (data ++ chunk) ∧ (c.feed chunk).headLimit = c.headLimit ∧
      (c.feed chunk).tailLimit = c.tailLimit := by
  have hdecoder : strictFeed c.decoder chunk = strictFeed (some {}) (data ++ chunk) := by
    rw [h.decoder, strictFeed_append]
  have htotal : c.total + chunk.length = (data ++ chunk).length := by
    rw [h.total, List.length_append]
  unfold BoundedByteCapture.feed
  dsimp only
  split_ifs with hnil hroom hfits
  · subst hnil
    simpa using h
  · obtain ⟨hempty, hhead, hrest⟩ := h.room hroom chunk
    refine ⟨⟨hhead, ?_, h.tailLen, htotal, hdecoder⟩, rfl, rfl⟩
    change c.tail.flatten = ((data ++ chunk).drop c.headLimit).rtake c.tailLimit
    rw [hrest, hfits, hempty, List.rtake_nil]
  · obtain ⟨hempty, hhead, hrest⟩ := h.room hroom chunk
    obtain ⟨hbytes, hsize⟩ := pushTail_holds (chunk.drop (c.headLimit - c.head.length))
      (c := { c with
        total := c.total + chunk.length, decoder := strictFeed c.decoder chunk
        head := c.head ++ chunk.take (c.headLimit - c.head.length) }) h.tailLen
    refine ⟨⟨hhead, ?_, hsize, htotal, hdecoder⟩, rfl, rfl⟩
    rw [hbytes]
    change (c.tail.flatten ++ _).rtake _ = ((data ++ chunk).drop c.headLimit).rtake c.tailLimit
    rw [hrest, hempty, List.nil_append]
  · have hlong : c.headLimit ≤ data.length := by
      rw [h.head, List.length_take] at hroom
      omega
    obtain ⟨hbytes, hsize⟩ := pushTail_holds chunk
      (c := { c with total := c.total + chunk.length, decoder := strictFeed c.decoder chunk })
      h.tailLen
    refine ⟨⟨?_, ?_, hsize, htotal, hdecoder⟩, rfl, rfl⟩
    · change c.head = (data ++ chunk).take c.headLimit
      rw [h.head, List.take_append_of_le_length hlong]
    · rw [hbytes]
      change (c.tail.flatten ++ chunk).rtake _ =
        ((data ++ chunk).drop c.headLimit).rtake c.tailLimit
      rw [h.tail, rtake_append_rtake, List.drop_append_of_le_length hlong]

lemma Holds.foldl (h : c.Holds data) (chunks : List (List UInt8)) :
    (chunks.foldl BoundedByteCapture.feed c).Holds (data ++ chunks.flatten) ∧
      (chunks.foldl BoundedByteCapture.feed c).headLimit = c.headLimit ∧
      (chunks.foldl BoundedByteCapture.feed c).tailLimit = c.tailLimit := by
  induction chunks generalizing c data with
  | nil => simpa using h
  | cons chunk chunks ih =>
    obtain ⟨hfeed, hheadLimit, htailLimit⟩ := h.feed chunk
    obtain ⟨hrest, hheads, htails⟩ := ih hfeed
    rw [List.flatten_cons, ← List.append_assoc]
    exact ⟨hrest, hheads.trans hheadLimit, htails.trans htailLimit⟩

end BoundedByteCapture

/-- What is shown of a stream that consists of `data`. -/
def rendered (headLimit tailLimit : Nat) (data : List UInt8) : CapturedText :=
  let warning := if Valid data then "" else encodingWarning
  if data.length ≤ headLimit + tailLimit then
    ⟨warning ++ String.ofList (decode data), data.length, false, 0, !decide (Valid data)⟩
  else
    let head := trimTrailingIncomplete (data.take headLimit)
    let tail := trimLeadingIncomplete ((data.drop headLimit).rtake tailLimit)
    let omitted := data.length - head.length - tail.length
    ⟨warning ++ String.ofList (decode head) ++ omissionMarker omitted ++
      String.ofList (decode tail), data.length, true, omitted, !decide (Valid data)⟩

lemma strictFeed_all (data : List UInt8) :
    (strictFeed (some {}) data).all (·.owed ≠ 0) = !decide (Valid data) := by
  simp only [strictFeed, Option.bind_some]
  unfold Valid units Utf8.finish
  by_cases herror : none ∈ (Utf8.feed {} data).1
  · simp [herror]
  · by_cases howed : (Utf8.feed {} data).2.owed = 0
    · simp [herror, howed]
    · simp [herror, howed]

/-- The result depends on the bytes alone. -/
lemma capture_eq (headLimit tailLimit : Int) (chunks : List (List UInt8)) :
    capture headLimit tailLimit chunks =
      rendered (safeLimit headLimit) (safeLimit tailLimit) chunks.flatten := by
  have hstart : BoundedByteCapture.Holds
      { headLimit := safeLimit headLimit, tailLimit := safeLimit tailLimit } [] :=
    ⟨by simp, by simp, rfl, rfl, rfl⟩
  obtain ⟨h, hheadLimit, htailLimit⟩ := hstart.foldl chunks
  rw [List.nil_append] at h
  unfold capture
  generalize chunks.foldl BoundedByteCapture.feed _ = c at h hheadLimit htailLimit
  generalize chunks.flatten = data at h
  dsimp only at hheadLimit htailLimit
  obtain ⟨hhead, htail, -, htotal, hdecoder⟩ := h
  rw [hheadLimit] at hhead htail
  rw [htailLimit] at htail
  generalize safeLimit headLimit = H at hhead htail ⊢
  generalize safeLimit tailLimit = T at htail ⊢
  have hlength : (data.take H).length + ((data.drop H).rtake T).length =
      min data.length (H + T) := by
    simp only [List.length_take, List.rtake, List.length_drop]
    omega
  unfold BoundedByteCapture.finish rendered
  rw [hdecoder, strictFeed_all, htotal, hhead, htail]
  have hwarning : (if (!decide (Valid data)) = true then encodingWarning else "") =
      if Valid data then "" else encodingWarning := by
    by_cases hvalid : Valid data <;> simp [hvalid]
  dsimp only
  rw [hwarning]
  by_cases hfits : data.length ≤ H + T
  · have hwhole : data.take H ++ (data.drop H).rtake T = data := by
      rw [List.rtake, List.length_drop, Nat.sub_eq_zero_of_le (by omega), List.drop_zero,
        List.take_append_drop]
    rw [if_pos (by omega), if_pos hfits, hwhole]
  · rw [if_neg (by omega), if_neg hfits]

/-! ### The edges of the gap -/

/-- The bytes before a run of four continuation bytes at the end are the front of a character that
the first of the four continue. -/
def Severed (head : List UInt8) : Prop :=
  5 ≤ head.length ∧ (∀ b ∈ head.rtake 5, continuation b = true) ∧
    0 < (Utf8.feed {} (head.rdrop 4)).2.owed ∧
    (Utf8.feed (Utf8.feed {} (head.rdrop 4)).2 (head.rtake 4)).1.head? ≠
      some (some (Char.ofNat 0xFFFD))

instance (head : List UInt8) : Decidable (Severed head) :=
  inferInstanceAs (Decidable (_ ∧ _ ∧ _ ∧ _))

/-- The bytes that are counted at the end, and what is before them. -/
lemma trailingRun_spec (data : List UInt8) : ∃ front run, data = front ++ run ∧
    run.length = trailingRun data ∧ (∀ b ∈ run, continuation b = true) ∧ run.length ≤ 4 ∧
    ∀ b, front.getLast? = some b → continuation b = true → run.length = 4 := by
  have hsplit : data.reverse = (data.reverse.take 4).takeWhile continuation ++
      ((data.reverse.take 4).dropWhile continuation ++ data.reverse.drop 4) := by
    rw [← List.append_assoc, List.takeWhile_append_dropWhile, List.take_append_drop]
  refine ⟨((data.reverse.take 4).dropWhile continuation ++ data.reverse.drop 4).reverse,
    ((data.reverse.take 4).takeWhile continuation).reverse, ?_, ?_, ?_, ?_, ?_⟩
  · rw [← List.reverse_append, ← hsplit, List.reverse_reverse]
  · rw [List.length_reverse, trailingRun]
  · intro b hb
    exact List.mem_takeWhile_imp (List.mem_reverse.mp hb)
  · rw [List.length_reverse]
    exact (List.takeWhile_sublist _).length_le.trans (by simp)
  · intro b hlast hb
    rw [List.getLast?_reverse, List.head?_append] at hlast
    cases hdrop : (data.reverse.take 4).dropWhile continuation with
    | nil =>
      rw [hdrop, List.head?_nil, Option.none_or] at hlast
      have htake : (data.reverse.take 4).takeWhile continuation = data.reverse.take 4 := by
        have := List.takeWhile_append_dropWhile (p := continuation) (l := data.reverse.take 4)
        rwa [hdrop, List.append_nil] at this
      have hlong : data.reverse.drop 4 ≠ [] := by
        rintro hnil
        rw [hnil] at hlast
        cases hlast
      rw [Ne, List.drop_eq_nil_iff] at hlong
      rw [List.length_reverse, htake, List.length_take]
      omega
    | cons x xs =>
      have hx := List.head_dropWhile_not continuation (l := data.reverse.take 4)
        (by rw [hdrop]; simp)
      simp only [hdrop, List.head_cons] at hx
      rw [hdrop, List.head?_cons, Option.some_or] at hlast
      rw [Option.some.inj hlast, hb] at hx
      cases hx

lemma owed_first (b : UInt8) : (Utf8.first b).2.owed = (expectedLength b).elim 0 (· - 1) := by
  unfold Utf8.first expectedLength
  simp only [Bool.and_eq_true, decide_eq_true_eq, UInt8.le_iff_toNat_le, ← UInt8.toNat_inj]
  have := b.toNat_lt
  simp only [UInt8.toNat_ofNat]
  split_ifs <;> first | rfl | omega

variable {b : UInt8}

lemma expectedLength_of_continuation (hb : continuation b = true) : expectedLength b = none := by
  simp only [continuation, Bool.and_eq_true, decide_eq_true_eq, UInt8.le_iff_toNat_le] at hb
  unfold expectedLength
  simp only [Bool.and_eq_true, decide_eq_true_eq, UInt8.le_iff_toNat_le, UInt8.toNat_ofNat] at hb ⊢
  rw [if_neg (by omega), if_neg (by omega), if_neg (by omega)]

lemma owed_lead (front : List UInt8) (hb : continuation b = false) :
    (Utf8.feed {} (front ++ [b])).2.owed = (expectedLength b).elim 0 (· - 1) := by
  rw [Utf8.feed_append]
  change (Utf8.step (Utf8.feed {} front).2 b).2.owed = _
  rw [Utf8.step_lead (Utf8.sound_feed front Utf8.sound_start) hb, owed_first]

/-- The front is cut between two characters, or before a byte that continues none, or before four
bytes of a longer run of continuation bytes. -/
lemma trimTrailingIncomplete_spec (data : List UInt8) : ∃ dropped,
    data = trimTrailingIncomplete data ++ dropped ∧
    ((Utf8.feed {} (trimTrailingIncomplete data)).2.owed = 0 ∨
      (∃ b bs, dropped = b :: bs ∧ continuation b = false) ∨
      dropped.length = 4 ∧ (∀ b ∈ dropped, continuation b = true) ∧
        ∃ b, (trimTrailingIncomplete data).getLast? = some b ∧ continuation b = true) := by
  obtain ⟨front, run, hdata, hrun, hcont, hfour, hlonger⟩ := trailingRun_spec data
  unfold trimTrailingIncomplete
  rw [← hrun]
  cases hlast : data.getLast? with
  | none =>
    rw [List.getLast?_eq_none_iff] at hlast
    exact ⟨[], by simp, Or.inl (by rw [hlast]; rfl)⟩
  | some last =>
    dsimp only
    by_cases hnone : run.length = 0
    · obtain rfl := List.length_eq_zero_iff.mp hnone
      rw [List.append_nil] at hdata
      have hlead : continuation last = false := by
        by_contra hb
        rw [Bool.not_eq_false] at hb
        have := hlonger last (hdata ▸ hlast) hb
        cases this
      obtain ⟨init, hinit⟩ := List.getLast?_eq_some_iff.mp hlast
      rw [if_pos hnone]
      split_ifs with hknown hstart
      · refine ⟨[last], ?_, Or.inr (Or.inl ⟨last, [], rfl, hlead⟩)⟩
        rw [hinit, List.dropLast_concat]
      all_goals
        refine ⟨[], (List.append_nil _).symm, Or.inl ?_⟩
        rw [hinit, owed_lead _ hlead]
        simp only [Bool.or_eq_true, Bool.and_eq_true, decide_eq_true_eq] at hknown
        unfold expectedLength
        simp only [Bool.and_eq_true, decide_eq_true_eq, UInt8.le_iff_toNat_le,
          UInt8.toNat_ofNat] at *
        rw [if_neg (by omega), if_neg (by omega), if_neg (by omega)]
        rfl
    · rw [if_neg hnone]
      by_cases hshort : data.length ≤ run.length
      · rw [if_pos hshort]
        exact ⟨data, rfl, Or.inl rfl⟩
      · rw [if_neg hshort]
        rcases List.eq_nil_or_concat front with rfl | ⟨init, start, rfl⟩
        · exact absurd (by rw [hdata]; simp) hshort
        rw [List.concat_eq_append] at hdata hlonger
        have hlength : data.length = init.length + 1 + run.length := by
          rw [hdata, List.length_append, List.length_append, List.length_singleton]
        have hstart : data.getD (data.length - (run.length + 1)) 0 = start := by
          rw [show data.length - (run.length + 1) = init.length by omega, hdata]
          simp
        have hinit : data.take (data.length - (run.length + 1)) = init := by
          rw [show data.length - (run.length + 1) = init.length by omega, hdata]
          simp
        have hall : data.take (data.length - run.length) = init ++ [start] := by
          rw [show data.length - run.length = (init ++ [start]).length by simp; omega, hdata,
            List.take_left]
        rw [hstart]
        by_cases hb : continuation start = true
        · rw [expectedLength_of_continuation hb, hall]
          refine ⟨run, hdata, Or.inr (Or.inr ⟨?_, hcont, start, by simp, hb⟩)⟩
          exact hlonger start (by simp) hb
        · rw [Bool.not_eq_true] at hb
          have howed := owed_lead init hb
          cases hlen : expectedLength start with
          | none =>
            rw [hlen] at howed
            dsimp only
            rw [hall]
            exact ⟨run, hdata, Or.inl howed⟩
          | some expected =>
            rw [hlen] at howed
            dsimp only
            split_ifs with hless
            · rw [hinit]
              refine ⟨start :: run, ?_, Or.inr (Or.inl ⟨start, run, rfl, hb⟩)⟩
              rw [hdata, List.append_assoc, List.singleton_append]
            · refine ⟨[], (List.append_nil _).symm, Or.inl ?_⟩
              have hrest := Utf8.owed_feed (s := (Utf8.feed {} (init ++ [start])).2) hcont
              rw [howed] at hrest
              rw [hdata, Utf8.feed_append]
              change _ ≤ expected - 1 - run.length at hrest
              exact Nat.le_zero.mp (hrest.trans (by omega))

/-- The tail is cut between two characters, or before a byte that continues none. -/
lemma units_trimLeadingIncomplete (front tail : List UInt8) : ∃ dropped,
    tail = dropped ++ trimLeadingIncomplete tail ∧
    units (front ++ tail) = units (front ++ dropped) ++ units (trimLeadingIncomplete tail) := by
  have hsplit : tail = (tail.take 4).takeWhile continuation ++
      ((tail.take 4).dropWhile continuation ++ tail.drop 4) := by
    rw [← List.append_assoc, List.takeWhile_append_dropWhile, List.take_append_drop]
  have hrest : trimLeadingIncomplete tail =
      (tail.take 4).dropWhile continuation ++ tail.drop 4 := by
    unfold trimLeadingIncomplete
    conv_lhs => rw [hsplit]
    rw [List.drop_left']
    rw [← hsplit]
  refine ⟨(tail.take 4).takeWhile continuation, by rw [hrest, ← hsplit], ?_⟩
  conv_lhs => rw [hsplit, ← List.append_assoc]
  rw [hrest]
  cases hdrop : (tail.take 4).dropWhile continuation with
  | cons x xs =>
    have hx := List.head_dropWhile_not continuation (l := tail.take 4) (by rw [hdrop]; simp)
    simp only [hdrop, List.head_cons] at hx
    exact Utf8.units_append_of_lead hx
  | nil =>
    have htake : (tail.take 4).takeWhile continuation = tail.take 4 := by
      have := List.takeWhile_append_dropWhile (p := continuation) (l := tail.take 4)
      rwa [hdrop, List.append_nil] at this
    rw [List.nil_append]
    cases hlong : tail.drop 4 with
    | nil => simp [units, Utf8.feed, Utf8.finish]
    | cons x xs =>
      -- four continuation bytes leave nothing owed
      refine Utf8.units_append_of_owed ?_
      have hlen : (tail.take 4).length = 4 := by
        rw [List.length_take]
        have : tail.drop 4 ≠ [] := by rw [hlong]; simp
        rw [Ne, List.drop_eq_nil_iff] at this
        omega
      have hcont : ∀ b ∈ (tail.take 4).takeWhile continuation, continuation b = true :=
        fun b hb => List.mem_takeWhile_imp hb
      have hfour := Utf8.owed_feed (s := (Utf8.feed {} front).2) hcont
      have hthree := (Utf8.sound_feed front Utf8.sound_start).owed
      rw [Utf8.feed_append]
      rw [htake, hlen] at hfour
      rw [htake]
      exact Nat.le_zero.mp (hfour.trans (by omega))

/-- A head that is severed loses the four bytes that complete its last character. -/
lemma trimTrailingIncomplete_severed (h : Severed data) :
    trimTrailingIncomplete data = data.rdrop 4 := by
  obtain ⟨hlen, hcont, -⟩ := h
  have hreverse : ∀ b ∈ data.reverse.take 5, continuation b = true := by
    intro b hb
    refine hcont b ?_
    rw [List.rtake_eq_reverse_take_reverse]
    exact List.mem_reverse.mpr hb
  have hrun : trailingRun data = 4 := by
    unfold trailingRun
    rw [List.takeWhile_eq_self_iff.mpr, List.length_take, List.length_reverse]
    · omega
    · exact fun b hb => hreverse b (List.mem_of_mem_take (i := 4) (by
        rw [List.take_take]
        exact hb))
  have hlast : ∃ last, data.getLast? = some last := by
    cases hlast : data.getLast? with
    | none =>
      rw [List.getLast?_eq_none_iff.mp hlast] at hlen
      cases hlen
    | some last => exact ⟨last, rfl⟩
  obtain ⟨last, hlast⟩ := hlast
  have hstart : continuation (data.getD (data.length - 5) 0) = true := by
    rw [List.getD_eq_getElem?_getD, List.getElem?_eq_getElem (by omega), Option.getD_some]
    refine hcont _ ?_
    rw [List.rtake, List.mem_drop_iff_getElem]
    exact ⟨0, by omega, by simp⟩
  unfold trimTrailingIncomplete
  rw [hlast, hrun]
  dsimp only
  rw [if_neg (by decide), if_neg (by omega), expectedLength_of_continuation hstart]
  rfl

/-- Four continuation bytes after an incomplete character that ends with one complete it. -/
lemma exists_severed_char {front dropped : List UInt8} (hlen : dropped.length = 4)
    (hcont : ∀ b ∈ dropped, continuation b = true) (hlast : front.getLast? = some b)
    (hb : continuation b = true) (howed : 0 < (Utf8.feed {} front).2.owed) :
    ∃ ch rest, (Utf8.feed (Utf8.feed {} front).2 dropped).1 = some ch :: rest := by
  obtain ⟨init, rfl⟩ := List.getLast?_eq_some_iff.mp hlast
  have hstate : (Utf8.feed {} (init ++ [b])).2 = (Utf8.step (Utf8.feed {} init).2 b).2 := by
    rw [Utf8.feed_append]
    rfl
  rw [hstate] at howed ⊢
  obtain ⟨hlow, hhigh⟩ := Utf8.bounds_step (s := (Utf8.feed {} init).2) hb
  refine Utf8.exists_char hlow hhigh howed hcont ?_
  have hless := Utf8.owed_step (s := (Utf8.feed {} init).2) hb
  have hthree := (Utf8.sound_feed init Utf8.sound_start).owed
  omega

/-- A head that is cut after an incomplete character is severed when the four bytes complete a
character other than the replacement character. -/
lemma severed_iff {front dropped : List UInt8} (hlen : dropped.length = 4)
    (hcont : ∀ b ∈ dropped, continuation b = true) (hlast : front.getLast? = some b)
    (hb : continuation b = true) (howed : 0 < (Utf8.feed {} front).2.owed) {ch : Char}
    {rest : List (Option Char)}
    (hchar : (Utf8.feed (Utf8.feed {} front).2 dropped).1 = some ch :: rest) :
    Severed (front ++ dropped) ↔ ch ≠ Char.ofNat 0xFFFD := by
  obtain ⟨init, rfl⟩ := List.getLast?_eq_some_iff.mp hlast
  have hdrop : (init ++ [b] ++ dropped).rdrop 4 = init ++ [b] := by
    rw [← hlen, List.rdrop, List.length_append, Nat.add_sub_cancel, List.take_left]
  have htake : (init ++ [b] ++ dropped).rtake 4 = dropped := by
    rw [← hlen, List.rtake, List.length_append, Nat.add_sub_cancel, List.drop_left]
  have hfive : (init ++ [b] ++ dropped).rtake 5 = b :: dropped := by
    have : (init ++ [b] ++ dropped).length - 5 = init.length := by
      simp only [List.length_append, List.length_singleton]
      omega
    rw [List.rtake, this, List.append_assoc, List.drop_left]
    rfl
  unfold Severed
  rw [hdrop, htake, hfive, hchar]
  simp only [List.head?_cons, ne_eq, Option.some.injEq]
  constructor
  · exact fun h => h.2.2.2
  · refine fun h => ⟨?_, ?_, howed, h⟩
    · simp only [List.length_append, List.length_singleton]
      omega
    · intro x hx
      rcases List.mem_cons.mp hx with rfl | hx
      · exact hb
      · exact hcont x hx

/-- What is read of the head is what is read first of all bytes, unless the head is severed. -/
lemma decode_trimTrailingIncomplete (data rest : List UInt8) :
    decode (trimTrailingIncomplete data) <+: decode (data ++ rest) ↔ ¬ Severed data := by
  obtain ⟨dropped, hdata, hcut⟩ := trimTrailingIncomplete_spec data
  have hall : data ++ rest = trimTrailingIncomplete data ++ (dropped ++ rest) := by
    rw [← List.append_assoc, ← hdata]
  have hclean : units (trimTrailingIncomplete data ++ (dropped ++ rest)) =
      units (trimTrailingIncomplete data) ++ units (dropped ++ rest) →
      decode (trimTrailingIncomplete data) <+: decode (data ++ rest) := fun hunits =>
    ⟨decode (dropped ++ rest), by rw [← Utf8.decode_append hunits, ← hall]⟩
  have hwhole : (Utf8.feed {} (trimTrailingIncomplete data)).2.owed = 0 →
      (decode (trimTrailingIncomplete data) <+: decode (data ++ rest) ↔ ¬ Severed data) := by
    intro howed
    refine iff_of_true (hclean (Utf8.units_append_of_owed howed)) fun hsevered => ?_
    have hpos := hsevered.2.2.1
    rw [← trimTrailingIncomplete_severed hsevered, howed] at hpos
    cases hpos
  rcases hcut with howed | ⟨b, bs, rfl, hb⟩ | ⟨hlen, hcont, b, hlast, hb⟩
  · exact hwhole howed
  · refine iff_of_true (hclean (Utf8.units_append_of_lead hb)) fun hsevered => ?_
    have htrim := trimTrailingIncomplete_severed hsevered
    have hbs : data.rtake 4 = b :: bs := by
      have hsplit : data.rdrop 4 ++ data.rtake 4 = data := List.take_append_drop _ _
      conv_rhs at hsplit => rw [hdata, htrim]
      exact List.append_cancel_left hsplit
    have hmem : b ∈ data.rtake 5 := by
      have : b ∈ data.rtake 4 := by simp [hbs]
      exact (List.drop_sublist_drop_left data (by omega)).mem this
    rw [hsevered.2.1 b hmem] at hb
    cases hb
  · by_cases howed : (Utf8.feed {} (trimTrailingIncomplete data)).2.owed = 0
    · exact hwhole howed
    · have hpos := Nat.pos_of_ne_zero howed
      obtain ⟨ch, more, hchar⟩ := exists_severed_char hlen hcont hlast hb hpos
      have hiff := severed_iff hlen hcont hlast hb hpos hchar
      rw [← hdata] at hiff
      rw [hiff, not_not, hall]
      unfold decode units
      rw [Utf8.feed_append, Utf8.feed_append, hchar]
      simp only [Utf8.finish, if_neg howed, List.map_append, List.map_cons, List.map_nil,
        List.append_assoc, List.cons_append, Option.getD_none, Option.getD_some,
        List.prefix_append_right_inj, List.cons_prefix_cons, List.nil_prefix, and_true]
      exact eq_comm

/-- The head of bytes without error is without error. -/
lemma valid_trimTrailingIncomplete {rest : List UInt8} (hvalid : Valid (data ++ rest)) :
    Valid (trimTrailingIncomplete data) := by
  obtain ⟨dropped, hdata, hcut⟩ := trimTrailingIncomplete_spec data
  have hall : data ++ rest = trimTrailingIncomplete data ++ (dropped ++ rest) := by
    rw [← List.append_assoc, ← hdata]
  rw [hall] at hvalid
  have hclean : units (trimTrailingIncomplete data ++ (dropped ++ rest)) =
      units (trimTrailingIncomplete data) ++ units (dropped ++ rest) →
      Valid (trimTrailingIncomplete data) := fun hunits hnone =>
    hvalid (hunits ▸ List.mem_append_left _ hnone)
  rcases hcut with howed | ⟨b, bs, rfl, hb⟩ | ⟨hlen, hcont, -⟩
  · exact hclean (Utf8.units_append_of_owed howed)
  · exact hclean (Utf8.units_append_of_lead hb)
  · -- four continuation bytes in a row are one too many
    exfalso
    refine hvalid ?_
    have hthree :=
      (Utf8.sound_feed (trimTrailingIncomplete data) Utf8.sound_start).owed
    unfold units
    rw [Utf8.feed_append, Utf8.feed_append]
    refine List.mem_append_left _ (List.mem_append_right _ (List.mem_append_left _ ?_))
    exact Utf8.none_mem_feed hcont (by omega)

/-- What the result for a stream says is exact, and what it shows of the stream is the front and
the end of its text. -/
structure Faithful (headLimit tailLimit : Nat) (data : List UInt8) (c : CapturedText) : Prop where
  total : c.totalBytes = data.length
  truncated : c.truncated = decide (headLimit + tailLimit < data.length)
  errors : c.decodingErrors = !decide (Valid data)
  whole : c.truncated = false → c.omittedBytes = 0 ∧
    c.text = (if Valid data then "" else encodingWarning) ++ String.ofList (decode data)
  cut : c.truncated = true →
    let head := trimTrailingIncomplete (data.take headLimit)
    let tail := trimLeadingIncomplete ((data.drop headLimit).rtake tailLimit)
    c.omittedBytes + head.length + tail.length = data.length ∧
    c.text = (if Valid data then "" else encodingWarning) ++ String.ofList (decode head) ++
      omissionMarker c.omittedBytes ++ String.ofList (decode tail) ∧
    decode head <+: decode data ∧ decode tail <:+ decode data ∧
    (decode head).length + (decode tail).length ≤ (decode data).length ∧
    (Valid data → Valid head ∧ Valid tail)

/-- The result depends on the bytes and not on the chunks they came in, and it is exact, unless the
front is cut inside a run of continuation bytes that begins inside a character. -/
theorem capture_faithful_iff (headLimit tailLimit : Int) (chunks : List (List UInt8)) :
    ((∀ chunks', chunks'.flatten = chunks.flatten →
        capture headLimit tailLimit chunks' = capture headLimit tailLimit chunks) ∧
      Faithful (safeLimit headLimit) (safeLimit tailLimit) chunks.flatten
        (capture headLimit tailLimit chunks)) ↔
    ¬ (safeLimit headLimit + safeLimit tailLimit < chunks.flatten.length ∧
      Severed (chunks.flatten.take (safeLimit headLimit))) := by
  have hsame : ∀ chunks' : List (List UInt8), chunks'.flatten = chunks.flatten →
      capture headLimit tailLimit chunks' =
        rendered (safeLimit headLimit) (safeLimit tailLimit) chunks.flatten := by
    intro chunks' hflatten
    rw [capture_eq, hflatten]
  rw [capture_eq]
  generalize safeLimit headLimit = H at *
  generalize safeLimit tailLimit = T at *
  generalize chunks.flatten = data at *
  have hhead := decode_trimTrailingIncomplete (data.take H) (data.drop H)
  rw [List.take_append_drop] at hhead
  constructor
  · rintro ⟨-, hfaithful⟩ ⟨hlong, hsevered⟩
    have hcut := hfaithful.cut (hfaithful.truncated.trans (by simpa using hlong))
    exact hhead.mp hcut.2.2.1 hsevered
  · intro hsound
    refine ⟨hsame, ?_⟩
    unfold rendered
    by_cases hfits : data.length ≤ H + T
    · rw [if_pos hfits]
      refine ⟨rfl, ?_, rfl, fun _ => ⟨rfl, rfl⟩, fun h => by cases h⟩
      simpa using hfits
    · rw [if_neg hfits]
      have hlong : H + T < data.length := by omega
      refine ⟨rfl, (decide_eq_true hlong).symm, rfl, fun h => by (cases h), fun _ => ?_⟩
      -- the bytes between the head and the tail
      obtain ⟨gap, hgap⟩ : ∃ gap, data.drop H = gap ++ (data.drop H).rtake T :=
        ⟨_, (List.take_append_drop _ _).symm⟩
      obtain ⟨dropped, htail, hunits⟩ :=
        units_trimLeadingIncomplete (data.take H ++ gap) ((data.drop H).rtake T)
      have hdata : data = data.take H ++ (gap ++ dropped) ++
          trimLeadingIncomplete ((data.drop H).rtake T) := by
        conv_lhs => rw [← List.take_append_drop H data, hgap, htail]
        simp only [List.append_assoc]
      have hread : units data = units (data.take H ++ (gap ++ dropped)) ++
          units (trimLeadingIncomplete ((data.drop H).rtake T)) := by
        rw [← List.append_assoc, ← hunits, List.append_assoc, ← hgap, List.take_append_drop]
      have hdecode : decode data = decode (data.take H ++ (gap ++ dropped)) ++
          decode (trimLeadingIncomplete ((data.drop H).rtake T)) := by
        rw [decode, hread, List.map_append]
        rfl
      have hprefix := (decode_trimTrailingIncomplete (data.take H) (gap ++ dropped)).mpr
        fun h => hsound ⟨hlong, h⟩
      obtain ⟨lost, hlost, -⟩ := trimTrailingIncomplete_spec (data.take H)
      dsimp only
      refine ⟨?_, rfl, hhead.mpr fun h => hsound ⟨hlong, h⟩, ⟨_, hdecode.symm⟩, ?_, ?_⟩
      · have hlength := congrArg List.length hdata
        have hlost := congrArg List.length hlost
        simp only [List.length_append] at hlength hlost
        omega
      · rw [hdecode, List.length_append]
        exact Nat.add_le_add_right hprefix.length_le _
      · intro hvalid
        rw [← List.take_append_drop H data] at hvalid
        refine ⟨valid_trimTrailingIncomplete hvalid, fun hnone => hvalid ?_⟩
        rw [List.take_append_drop]
        rw [hread]
        exact List.mem_append_right _ hnone

/-- The head of a stream that is not UTF-8 may show a replacement character where the text of the
stream has a character. -/
theorem capture_severed : ¬ ∀ (headLimit tailLimit : Int) (chunks : List (List UInt8)),
    Faithful (safeLimit headLimit) (safeLimit tailLimit) chunks.flatten
      (capture headLimit tailLimit chunks) := by
  intro h
  have hcut := (h 6 0 [[0xF0, 0x90, 0x80, 0x80, 0x80, 0x80, 0x41]]).cut (by decide +kernel)
  have hprefix : ¬ decode (trimTrailingIncomplete [0xF0, 0x90, 0x80, 0x80, 0x80, 0x80]) <+:
      decode [0xF0, 0x90, 0x80, 0x80, 0x80, 0x80, 0x41] := by
    decide +kernel
  exact hprefix hcut.2.2.1

end Codey
