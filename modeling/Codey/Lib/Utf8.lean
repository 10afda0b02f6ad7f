import Mathlib.Data.List.Basic
import Mathlib.Data.UInt

/-!
# UTF-8

The decoder that reads one byte at a time, with the maximal part of a broken sequence read as one
error. Where a sequence of bytes may be cut without changing what is read.
-/

namespace Codey

namespace Utf8

def continuation (b : UInt8) : Bool := 0x80 ≤ b && b ≤ 0xBF

/-- The bytes still owed to a character, the bounds of the next one and the bits read so far. -/
structure State where
  owed : Nat := 0
  low : UInt8 := 0x80
  high : UInt8 := 0xBF
  value : Nat := 0
  deriving DecidableEq

/-- A byte between two characters. An error is read as `none`. -/
def first (b : UInt8) : List (Option Char) × State :=
  if b ≤ 0x7F then ([some (Char.ofNat b.toNat)], {})
  else if 0xC2 ≤ b && b ≤ 0xDF then ([], ⟨1, 0x80, 0xBF, b.toNat - 0xC0⟩)
  else if b = 0xE0 then ([], ⟨2, 0xA0, 0xBF, 0⟩)
  else if b = 0xED then ([], ⟨2, 0x80, 0x9F, 0xD⟩)
  else if 0xE1 ≤ b && b ≤ 0xEF then ([], ⟨2, 0x80, 0xBF, b.toNat - 0xE0⟩)
  else if b = 0xF0 then ([], ⟨3, 0x90, 0xBF, 0⟩)
  else if b = 0xF4 then ([], ⟨3, 0x80, 0x8F, 4⟩)
  else if 0xF1 ≤ b && b ≤ 0xF3 then ([], ⟨3, 0x80, 0xBF, b.toNat - 0xF0⟩)
  else ([none], {})

/-- A byte in any state: one that does not continue a character ends it with an error. -/
def step (s : State) (b : UInt8) : List (Option Char) × State :=
  if s.owed = 0 then first b
  else if s.low ≤ b && b ≤ s.high then
    if s.owed = 1 then ([some (Char.ofNat (s.value * 64 + (b.toNat - 0x80)))], {})
    else ([], ⟨s.owed - 1, 0x80, 0xBF, s.value * 64 + (b.toNat - 0x80)⟩)
  else (none :: (first b).1, (first b).2)

def feed (s : State) : List UInt8 → List (Option Char) × State
  | [] => ([], s)
  | b :: bs => ((step s b).1 ++ (feed (step s b).2 bs).1, (feed (step s b).2 bs).2)

/-- What the end of the bytes reads. -/
def finish (s : State) : List (Option Char) := if s.owed = 0 then [] else [none]

/-- The characters and the errors of a sequence of bytes. -/
def units (bs : List UInt8) : List (Option Char) := (feed {} bs).1 ++ finish (feed {} bs).2

/-- The text, with a replacement character for every error. -/
def decode (bs : List UInt8) : List Char := (units bs).map (·.getD (Char.ofNat 0xFFFD))

/-- The bytes are without error. -/
def Valid (bs : List UInt8) : Prop := none ∉ units bs

instance (bs : List UInt8) : Decidable (Valid bs) := inferInstanceAs (Decidable (none ∉ units bs))

/-! ### States -/

/-- The states that are met. -/
structure State.Sound (s : State) : Prop where
  start : s.owed = 0 → s = {}
  owed : s.owed ≤ 3
  low : 0x80 ≤ s.low
  high : s.high ≤ 0xBF

variable {s : State} {b : UInt8} {bs bs' : List UInt8}

lemma sound_start : State.Sound {} := ⟨fun _ => rfl, by decide, by decide, by decide⟩

lemma sound_pending {owed value : Nat} {low high : UInt8} (hpos : 0 < owed) (howed : owed ≤ 3)
    (hlow : 0x80 ≤ low) (hhigh : high ≤ 0xBF) : State.Sound ⟨owed, low, high, value⟩ :=
  ⟨fun h => absurd h (Nat.pos_iff_ne_zero.mp hpos), howed, hlow, hhigh⟩

lemma sound_first (b : UInt8) : (first b).2.Sound := by
  unfold first
  split_ifs
  all_goals first
    | exact sound_start
    | exact sound_pending (by decide) (by decide) (by decide) (by decide)

lemma sound_step (h : s.Sound) (b : UInt8) : (step s b).2.Sound := by
  unfold step
  split_ifs with h₀ hin h₁
  · exact sound_first b
  · exact sound_start
  · have := h.owed
    exact sound_pending (by omega) (by omega) (by decide) (by decide)
  · exact sound_first b

lemma sound_feed (bs : List UInt8) (h : s.Sound) : (feed s bs).2.Sound := by
  induction bs generalizing s with
  | nil => exact h
  | cons b bs ih => exact ih (sound_step h b)

lemma feed_append (s : State) (bs bs' : List UInt8) :
    feed s (bs ++ bs') =
      ((feed s bs).1 ++ (feed (feed s bs).2 bs').1, (feed (feed s bs).2 bs').2) := by
  induction bs generalizing s with
  | nil => simp [feed]
  | cons b bs ih => simp [feed, ih]

/-- A byte that continues no character ends the one before it. -/
lemma step_lead (h : s.Sound) (hb : continuation b = false) :
    step s b = (finish s ++ (first b).1, (first b).2) := by
  have hout : (s.low ≤ b && b ≤ s.high) = false := by
    rw [Bool.eq_false_iff]
    intro hin
    simp only [Bool.and_eq_true, decide_eq_true_eq] at hin
    have : continuation b = true := by
      simp only [continuation, Bool.and_eq_true, decide_eq_true_eq]
      exact ⟨UInt8.le_trans h.low hin.1, UInt8.le_trans hin.2 h.high⟩
    rw [this] at hb
    cases hb
  unfold step finish
  rw [hout, if_neg Bool.false_ne_true]
  split_ifs
  · rfl
  · rfl

/-- A continuation byte between two characters is an error. -/
lemma first_continuation (hb : continuation b = true) : first b = ([none], {}) := by
  simp only [continuation, Bool.and_eq_true, decide_eq_true_eq, UInt8.le_iff_toNat_le,
    UInt8.toNat_ofNat] at hb
  unfold first
  simp only [Bool.and_eq_true, decide_eq_true_eq, UInt8.le_iff_toNat_le, UInt8.toNat_ofNat,
    ← UInt8.toNat_inj]
  rw [if_neg (by omega), if_neg (by omega), if_neg (by omega), if_neg (by omega),
    if_neg (by omega), if_neg (by omega), if_neg (by omega), if_neg (by omega)]

/-- A byte that may continue a character leaves less of it owed. -/
lemma owed_step (hb : continuation b = true) : (step s b).2.owed ≤ s.owed - 1 := by
  have hfirst : (first b).2.owed = 0 := by rw [first_continuation hb]
  unfold step
  split_ifs with h₀ hin h₁
  · omega
  · exact Nat.zero_le _
  · exact le_rfl
  · change (first b).2.owed ≤ _
    omega

lemma owed_feed (hbs : ∀ b ∈ bs, continuation b = true) :
    (feed s bs).2.owed ≤ s.owed - bs.length := by
  induction bs generalizing s with
  | nil => simp [feed]
  | cons b bs ih =>
    have hstep := owed_step (s := s) (hbs b (by simp))
    have hrest := ih (s := (step s b).2) fun x hx => hbs x (by simp [hx])
    change (feed (step s b).2 bs).2.owed ≤ _
    rw [List.length_cons]
    omega

/-- The bounds of the byte after one that may continue a character. -/
lemma bounds_step (hb : continuation b = true) :
    (step s b).2.low = 0x80 ∧ (step s b).2.high = 0xBF := by
  unfold step
  rw [first_continuation hb]
  split_ifs
  · exact ⟨rfl, rfl⟩
  · exact ⟨rfl, rfl⟩
  · exact ⟨rfl, rfl⟩
  · exact ⟨rfl, rfl⟩

/-- Enough continuation bytes complete a character. -/
lemma exists_char (hlow : s.low = 0x80) (hhigh : s.high = 0xBF) (howed : 0 < s.owed)
    (hbs : ∀ b ∈ bs, continuation b = true) (hlen : s.owed ≤ bs.length) :
    ∃ ch rest, (feed s bs).1 = some ch :: rest := by
  induction bs generalizing s with
  | nil =>
    rw [List.length_nil] at hlen
    omega
  | cons b bs ih =>
    have hb : (s.low ≤ b && b ≤ s.high) = true := by
      rw [hlow, hhigh]
      exact hbs b (by simp)
    by_cases hone : s.owed = 1
    · refine ⟨Char.ofNat (s.value * 64 + (b.toNat - 0x80)), (feed (step s b).2 bs).1, ?_⟩
      simp only [feed, step, if_neg howed.ne', hb, if_true, if_pos hone, List.singleton_append]
    · have hstep : step s b = ([], ⟨s.owed - 1, 0x80, 0xBF, s.value * 64 + (b.toNat - 0x80)⟩) := by
        simp only [step, if_neg howed.ne', hb, if_true, if_neg hone]
      obtain ⟨ch, rest, hrest⟩ := ih (s := (step s b).2) (by rw [hstep]) (by rw [hstep])
        (by rw [hstep]; change 0 < s.owed - 1; omega) (fun x hx => hbs x (by simp [hx]))
        (by rw [hstep]; rw [List.length_cons] at hlen; change s.owed - 1 ≤ _; omega)
      refine ⟨ch, rest, ?_⟩
      change (step s b).1 ++ (feed (step s b).2 bs).1 = _
      rw [hrest, hstep, List.nil_append]

/-- More continuation bytes than a character is owed are an error. -/
lemma none_mem_feed (hbs : ∀ b ∈ bs, continuation b = true) (hlen : s.owed < bs.length) :
    none ∈ (feed s bs).1 := by
  induction bs generalizing s with
  | nil =>
    rw [List.length_nil] at hlen
    omega
  | cons b bs ih =>
    have hb := hbs b (by simp)
    change none ∈ (step s b).1 ++ (feed (step s b).2 bs).1
    by_cases hzero : s.owed = 0
    · refine List.mem_append_left _ ?_
      have hstep : step s b = first b := if_pos hzero
      rw [hstep, first_continuation hb]
      exact List.mem_singleton_self none
    · refine List.mem_append_right _ (ih (fun x hx => hbs x (by simp [hx])) ?_)
      have := owed_step (s := s) hb
      rw [List.length_cons] at hlen
      omega

/-! ### Cuts -/

/-- A cut between two characters. -/
lemma units_append_of_owed (h : (feed {} bs).2.owed = 0) :
    units (bs ++ bs') = units bs ++ units bs' := by
  have hstart := (sound_feed bs sound_start).start h
  unfold units
  rw [feed_append, hstart]
  simp [finish]

/-- A cut before a byte that continues no character. -/
lemma units_append_of_lead (hb : continuation b = false) :
    units (bs ++ b :: bs') = units bs ++ units (b :: bs') := by
  have hstep := step_lead (sound_feed bs sound_start) hb
  have hfirst : step {} b = first b := rfl
  unfold units
  rw [feed_append]
  simp only [feed, hstep, hfirst, List.append_assoc]

lemma decode_append (h : units (bs ++ bs') = units bs ++ units bs') :
    decode (bs ++ bs') = decode bs ++ decode bs' := by
  rw [decode, h, List.map_append, decode, decode]

end Utf8

end Codey
