import Mathlib.Data.List.ReduceOption
import Mathlib.Data.List.TakeDrop
import Mathlib.Algebra.BigOperators.Group.List.Basic
import Codey.Lib.Utf8

/-!
# Cuts of an encoded text

The bytes of a text, and what is read when they are cut at any place and errors are left out: the
longest beginning, or the longest end, whose bytes are all there.
-/

namespace Codey

namespace Utf8

/-- The bytes of a text. -/
def encode (cs : List Char) : List UInt8 := cs.flatMap String.utf8EncodeChar

/-- The number of bytes of a text. -/
def size (cs : List Char) : Nat := (cs.map Char.utf8Size).sum

/-- The text of some bytes with the errors left out. -/
def decodeIgnore (bs : List UInt8) : List Char := (units bs).reduceOption

/-- The longest beginning of a text within some bytes. -/
def front : Nat → List Char → List Char
  | _, [] => []
  | n, c :: cs => if c.utf8Size ≤ n then c :: front (n - c.utf8Size) cs else []

/-- The longest end of a text within some bytes. -/
def back (n : Nat) : List Char → List Char
  | [] => []
  | c :: cs => if size (c :: cs) ≤ n then c :: cs else back n cs

variable {c : Char} {cs ds : List Char} {n k : Nat} {s : State}

@[simp] lemma encode_nil : encode [] = [] := rfl

@[simp] lemma encode_cons (c : Char) (cs : List Char) :
    encode (c :: cs) = String.utf8EncodeChar c ++ encode cs := rfl

@[simp] lemma encode_append (cs ds : List Char) : encode (cs ++ ds) = encode cs ++ encode ds :=
  List.flatMap_append

@[simp] lemma size_nil : size [] = 0 := rfl

@[simp] lemma size_cons (c : Char) (cs : List Char) : size (c :: cs) = c.utf8Size + size cs := by
  simp [size]

@[simp] lemma size_append (cs ds : List Char) : size (cs ++ ds) = size cs + size ds := by
  simp [size]

@[simp] lemma length_encode (cs : List Char) : (encode cs).length = size cs := by
  induction cs with
  | nil => rfl
  | cons c cs ih => simp [ih]

lemma size_eq_zero_iff : size cs = 0 ↔ cs = [] := by
  cases cs with
  | nil => simp
  | cons c cs =>
    have := c.utf8Size_pos
    simp only [size_cons, reduceCtorEq, iff_false]
    omega

/-! ### Reading a character -/

lemma first_one (h : n ≤ 0x7F) : first (UInt8.ofNat n) = ([some (Char.ofNat n)], {}) := by
  have hbyte : (UInt8.ofNat n).toNat = n := by
    rw [UInt8.toNat_ofNat', Nat.mod_eq_of_lt (by omega)]
  rw [first, if_pos (by rw [UInt8.le_iff_toNat_le, hbyte]; exact h), hbyte]

lemma first_two : ∀ n < 32, 2 ≤ n → first (UInt8.ofNat (n + 0xC0)) = ([], ⟨1, 0x80, 0xBF, n⟩) := by
  decide

lemma first_three : ∀ n < 16, first (UInt8.ofNat (n + 0xE0)) =
    ([], ⟨2, if n = 0 then 0xA0 else 0x80, if n = 13 then 0x9F else 0xBF, n⟩) := by
  decide

lemma first_four : ∀ n ≤ 4, first (UInt8.ofNat (n + 0xF0)) =
    ([], ⟨3, if n = 0 then 0x90 else 0x80, if n = 4 then 0x8F else 0xBF, n⟩) := by
  decide

/-- A byte within the bounds of the state. -/
lemma step_within (howed : s.owed ≠ 0) (hn : n < 64) (hlow : s.low.toNat ≤ n + 0x80)
    (hhigh : n + 0x80 ≤ s.high.toNat) :
    step s (UInt8.ofNat (n + 0x80)) =
      if s.owed = 1 then ([some (Char.ofNat (s.value * 64 + n))], {})
      else ([], ⟨s.owed - 1, 0x80, 0xBF, s.value * 64 + n⟩) := by
  have hbyte : (UInt8.ofNat (n + 0x80)).toNat = n + 0x80 := by
    rw [UInt8.toNat_ofNat', Nat.mod_eq_of_lt (by omega)]
  have hin : (s.low ≤ UInt8.ofNat (n + 0x80) && UInt8.ofNat (n + 0x80) ≤ s.high) = true := by
    simp only [Bool.and_eq_true, decide_eq_true_eq, UInt8.le_iff_toNat_le, hbyte]
    exact ⟨hlow, hhigh⟩
  rw [step, if_neg howed, if_pos hin, hbyte]
  simp

lemma step_tail (howed : s.owed ≠ 0) (hn : n < 64) (hlow : s.low = 0x80) (hhigh : s.high = 0xBF) :
    step s (UInt8.ofNat (n + 0x80)) =
      if s.owed = 1 then ([some (Char.ofNat (s.value * 64 + n))], {})
      else ([], ⟨s.owed - 1, 0x80, 0xBF, s.value * 64 + n⟩) := by
  refine step_within howed hn ?_ ?_
  · rw [hlow]
    exact Nat.le_add_left _ _
  · rw [hhigh]
    change n + 128 ≤ 191
    omega

/-- The bytes end a character that is read in part, and nothing is read before the last of them. -/
inductive Reads (c : Char) : State → List UInt8 → Prop where
  | last {s : State} {b : UInt8} : step s b = ([some c], {}) → Reads c s [b]
  | next {s s' : State} {b : UInt8} {bs : List UInt8} :
      step s b = ([], s') → s'.owed ≠ 0 → continuation (bs.headD 0x80) = true → Reads c s' bs →
      Reads c s (b :: bs)

lemma Reads.feed {bs : List UInt8} (h : Reads c s bs) : feed s bs = ([some c], {}) := by
  induction h with
  | last hstep => simp [Utf8.feed, hstep]
  | next hstep _ _ _ ih => simp [Utf8.feed, hstep, ih]

/-- A cut inside the character leaves it owed. -/
lemma Reads.feed_take {bs : List UInt8} (h : Reads c s bs) (hk : k < bs.length) (hpos : 0 < k) :
    ∃ s', Utf8.feed s (bs.take k) = ([], s') ∧ s'.owed ≠ 0 := by
  induction h generalizing k with
  | last => simp only [List.length_singleton] at hk; omega
  | @next s s' b bs hstep howed _ _ ih =>
    obtain ⟨k, rfl⟩ : ∃ j, k = j + 1 := ⟨k - 1, by omega⟩
    simp only [List.take_succ_cons, Utf8.feed, hstep, List.nil_append]
    rcases Nat.eq_zero_or_pos k with rfl | hk'
    · exact ⟨s', by simp [Utf8.feed], howed⟩
    · obtain ⟨s'', hfeed, howed'⟩ := ih (by simpa using hk) hk'
      exact ⟨s'', by rw [hfeed], howed'⟩

/-- Every byte of the character but its first one continues it. -/
lemma Reads.continuation_drop {bs : List UInt8} (h : Reads c s bs) (hpos : 0 < k) :
    ∀ b ∈ bs.drop k, continuation b = true := by
  have htail : ∀ b ∈ bs.tail, continuation b = true := by
    clear hpos
    induction h with
    | last => simp
    | next _ _ hhead hrest ih =>
      cases hrest with
      | last => simpa using hhead
      | next =>
        rintro b (_ | ⟨_, hb⟩)
        · exact hhead
        · exact ih b hb
  intro b hb
  rw [← Nat.succ_pred_eq_of_pos hpos, ← List.drop_tail] at hb
  exact htail b (List.mem_of_mem_drop hb)

lemma continuation_tail : ∀ n < 64, continuation (UInt8.ofNat (n + 0x80)) = true := by decide

lemma ofNat_toNat {v : Nat} (h : c.val.toNat = v) : Char.ofNat v = c := by
  subst h
  exact Char.ofNat_toNat c

lemma reads_two {v : Nat} (h : c.val.toNat = v) (hlow : 0x7F < v) (hhigh : v ≤ 0x7FF) :
    Reads c {} [UInt8.ofNat (v / 64 % 32 + 0xC0), UInt8.ofNat (v % 64 + 0x80)] := by
  refine .next (first_two _ (by omega) (by omega)) one_ne_zero (continuation_tail _ (by omega)) ?_
  refine .last ?_
  rw [step_tail one_ne_zero (by omega) rfl rfl, if_pos rfl]
  have hvalue : v / 64 % 32 * 64 + v % 64 = v := by omega
  rw [hvalue, ofNat_toNat h]

lemma reads_three {v : Nat} (h : c.val.toNat = v) (hlow : 0x7FF < v) (hhigh : v ≤ 0xFFFF)
    (hvalid : v < 0xD800 ∨ 0xDFFF < v) :
    Reads c {} [UInt8.ofNat (v / 4096 % 16 + 0xE0), UInt8.ofNat (v / 64 % 64 + 0x80),
      UInt8.ofNat (v % 64 + 0x80)] := by
  refine .next (first_three _ (by omega)) two_ne_zero (continuation_tail _ (by omega)) ?_
  have hsecond : step ⟨2, if v / 4096 % 16 = 0 then 0xA0 else 0x80,
      if v / 4096 % 16 = 13 then 0x9F else 0xBF, v / 4096 % 16⟩ (UInt8.ofNat (v / 64 % 64 + 0x80)) =
      ([], ⟨1, 0x80, 0xBF, v / 4096 % 16 * 64 + v / 64 % 64⟩) := by
    refine (step_within two_ne_zero (by omega) ?_ ?_).trans (if_neg (by simp))
    · -- the second byte of a character below 0x1000
      dsimp only
      split_ifs
      · change 160 ≤ _
        omega
      · change 128 ≤ _
        omega
    · -- the second byte of a character below the surrogates
      dsimp only
      split_ifs
      · change _ ≤ 159
        omega
      · change _ ≤ 191
        omega
  refine .next hsecond one_ne_zero (continuation_tail _ (by omega)) (.last ?_)
  rw [step_tail one_ne_zero (by omega) rfl rfl, if_pos rfl]
  have hvalue : (v / 4096 % 16 * 64 + v / 64 % 64) * 64 + v % 64 = v := by omega
  rw [hvalue, ofNat_toNat h]

lemma reads_four {v : Nat} (h : c.val.toNat = v) (hlow : 0xFFFF < v) (hhigh : v < 0x110000) :
    Reads c {} [UInt8.ofNat (v / 262144 % 8 + 0xF0), UInt8.ofNat (v / 4096 % 64 + 0x80),
      UInt8.ofNat (v / 64 % 64 + 0x80), UInt8.ofNat (v % 64 + 0x80)] := by
  refine .next (first_four _ (by omega)) three_ne_zero (continuation_tail _ (by omega)) ?_
  have hsecond : step ⟨3, if v / 262144 % 8 = 0 then 0x90 else 0x80,
      if v / 262144 % 8 = 4 then 0x8F else 0xBF, v / 262144 % 8⟩
      (UInt8.ofNat (v / 4096 % 64 + 0x80)) =
      ([], ⟨2, 0x80, 0xBF, v / 262144 % 8 * 64 + v / 4096 % 64⟩) := by
    refine (step_within three_ne_zero (by omega) ?_ ?_).trans (if_neg (by simp))
    · -- the second byte of a character below 0x40000
      dsimp only
      split_ifs
      · change 144 ≤ _
        omega
      · change 128 ≤ _
        omega
    · -- the second byte of one of the last characters
      dsimp only
      split_ifs
      · change _ ≤ 143
        omega
      · change _ ≤ 191
        omega
  refine .next hsecond two_ne_zero (continuation_tail _ (by omega)) ?_
  have hthird : step ⟨2, 0x80, 0xBF, v / 262144 % 8 * 64 + v / 4096 % 64⟩
      (UInt8.ofNat (v / 64 % 64 + 0x80)) =
      ([], ⟨1, 0x80, 0xBF, (v / 262144 % 8 * 64 + v / 4096 % 64) * 64 + v / 64 % 64⟩) := by
    exact (step_tail two_ne_zero (by omega) rfl rfl).trans (if_neg (by simp))
  refine .next hthird one_ne_zero (continuation_tail _ (by omega)) (.last ?_)
  rw [step_tail one_ne_zero (by omega) rfl rfl, if_pos rfl]
  have hvalue : ((v / 262144 % 8 * 64 + v / 4096 % 64) * 64 + v / 64 % 64) * 64 + v % 64 = v := by
    omega
  rw [hvalue, ofNat_toNat h]

/-- The bytes of a character are read as that character, at the last of them. -/
lemma reads_char (c : Char) : Reads c {} (String.utf8EncodeChar c) := by
  have hvalid : c.val.toNat < 0xD800 ∨ 0xDFFF < c.val.toNat ∧ c.val.toNat < 0x110000 := c.valid
  simp only [String.utf8EncodeChar]
  split_ifs with hone htwo hthree
  · refine .last ((first_one hone).trans ?_)
    rw [ofNat_toNat rfl]
  · exact reads_two rfl (by omega) htwo
  · exact reads_three rfl (by omega) hthree (hvalid.imp_right And.left)
  · exact reads_four rfl (by omega) (by omega)

/-! ### Cuts of a text -/

lemma units_nil : units [] = [] := rfl

/-- A whole character before other bytes. -/
lemma units_char (c : Char) (bs : List UInt8) :
    units (String.utf8EncodeChar c ++ bs) = some c :: units bs := by
  have hfeed := (reads_char c).feed
  rw [units_append_of_owed (by rw [hfeed]), units, hfeed]
  simp [finish]

/-- A beginning of a character that is not the whole of it. -/
lemma decodeIgnore_take_char (hk : k < c.utf8Size) :
    decodeIgnore ((String.utf8EncodeChar c).take k) = [] := by
  rcases Nat.eq_zero_or_pos k with rfl | hpos
  · rfl
  · obtain ⟨s, hfeed, howed⟩ := (reads_char c).feed_take (by simpa using hk) hpos
    simp [decodeIgnore, units, hfeed, finish, howed, List.reduceOption]

/-- Bytes that continue nothing are errors. -/
lemma units_continuation {bs : List UInt8} (h : ∀ b ∈ bs, continuation b = true)
    (rest : List UInt8) : units (bs ++ rest) = List.replicate bs.length none ++ units rest := by
  induction bs with
  | nil => rfl
  | cons b bs ih =>
    have hfirst := first_continuation (h b (by simp))
    have ih := ih fun b hb => h b (by simp [hb])
    have hstep : step {} b = first b := rfl
    rw [units] at ih ⊢
    rw [List.cons_append, feed, hstep, hfirst, List.length_cons, List.replicate_succ]
    simpa using ih

/-- What is read of the first bytes of a text. -/
theorem decodeIgnore_take_encode (n : Nat) (cs : List Char) :
    decodeIgnore ((encode cs).take n) = front n cs := by
  induction cs generalizing n with
  | nil => simp [decodeIgnore, units_nil, front, List.reduceOption]
  | cons c cs ih =>
    rw [encode_cons, List.take_append, String.length_utf8EncodeChar, front]
    split_ifs with hfits
    · rw [List.take_of_length_le (by simpa using hfits), ← ih]
      simp [decodeIgnore, units_char, List.reduceOption]
    · rw [Nat.sub_eq_zero_of_le (by omega), List.take_zero, List.append_nil]
      exact decodeIgnore_take_char (by omega)

@[simp] lemma decodeIgnore_encode (cs : List Char) : decodeIgnore (encode cs) = cs := by
  induction cs with
  | nil => rfl
  | cons c cs ih =>
    rw [encode_cons, decodeIgnore, units_char]
    simpa [decodeIgnore, List.reduceOption] using ih

lemma back_of_le (h : size cs ≤ n) : back n cs = cs := by
  cases cs with
  | nil => rfl
  | cons c cs => rw [back, if_pos h]

/-- What is read of the last bytes of a text. -/
theorem decodeIgnore_drop_encode (k : Nat) (cs : List Char) :
    decodeIgnore ((encode cs).drop k) = back (size cs - k) cs := by
  induction cs generalizing k with
  | nil => simp [decodeIgnore, units_nil, back, List.reduceOption]
  | cons c cs ih =>
    have hsize := c.utf8Size_pos
    rcases Nat.eq_zero_or_pos k with rfl | hpos
    · rw [List.drop_zero, decodeIgnore_encode, back_of_le (Nat.sub_zero _).ge]
    · have hcut := units_continuation ((reads_char c).continuation_drop hpos)
        ((encode cs).drop (k - c.utf8Size))
      rw [encode_cons, List.drop_append, String.length_utf8EncodeChar, decodeIgnore, hcut, size_cons,
        back, if_neg (by rw [size_cons]; omega)]
      have hrest : List.reduceOption (units ((encode cs).drop (k - c.utf8Size))) =
          back (size cs - (k - c.utf8Size)) cs := ih (k - c.utf8Size)
      rw [List.reduceOption_append, List.reduceOption_replicate_none, List.nil_append, hrest]
      by_cases hinside : k < c.utf8Size
      · -- the cut is inside the first character, so the rest of the text is all there
        rw [back_of_le (by omega), back_of_le (by omega)]
      · congr 1
        omega

/-! ### The longest beginning and the longest end -/

lemma front_begins (n : Nat) (cs : List Char) : front n cs <+: cs := by
  induction cs generalizing n with
  | nil => exact List.prefix_rfl
  | cons c cs ih =>
    rw [front]
    split_ifs
    · exact List.cons_prefix_cons.mpr ⟨rfl, ih _⟩
    · exact List.nil_prefix

lemma size_front_le (n : Nat) (cs : List Char) : size (front n cs) ≤ n := by
  induction cs generalizing n with
  | nil => exact Nat.zero_le _
  | cons c cs ih =>
    rw [front]
    split_ifs with hfits
    · have := ih (n - c.utf8Size)
      rw [size_cons]
      omega
    · exact Nat.zero_le _

lemma back_ends (n : Nat) (cs : List Char) : back n cs <:+ cs := by
  induction cs with
  | nil => exact List.suffix_rfl
  | cons c cs ih =>
    rw [back]
    split_ifs
    · exact List.suffix_rfl
    · exact ih.trans (List.suffix_cons c cs)

lemma size_back_le (n : Nat) (cs : List Char) : size (back n cs) ≤ n := by
  induction cs with
  | nil => exact Nat.zero_le _
  | cons c cs ih =>
    rw [back]
    split_ifs with hfits
    · exact hfits
    · exact ih

/-- The longest beginning of a text that goes on with other characters. -/
lemma front_append (n : Nat) (cs ds : List Char) :
    front n (cs ++ ds) =
      if size cs ≤ n then cs ++ front (n - size cs) ds else front n cs := by
  induction cs generalizing n with
  | nil => simp
  | cons c cs ih =>
    rw [List.cons_append, front, front, ih, size_cons]
    by_cases hfits : c.utf8Size ≤ n
    · rw [if_pos hfits, if_pos hfits]
      by_cases hall : size cs ≤ n - c.utf8Size
      · rw [if_pos hall, if_pos (by omega), Nat.sub_sub, List.cons_append]
      · rw [if_neg hall, if_neg (by omega)]
    · rw [if_neg hfits, if_neg hfits, if_neg (by omega)]

lemma front_append_of_lt (h : n < size cs) (ds : List Char) : front n (cs ++ ds) = front n cs := by
  rw [front_append, if_neg (by omega)]

lemma back_append_of_lt (h : n < size ds) (cs : List Char) : back n (cs ++ ds) = back n ds := by
  induction cs with
  | nil => rfl
  | cons c cs ih =>
    rw [List.cons_append, back, if_neg (by simp only [size_cons, size_append]; omega), ih]

/-- What the longest end leaves out is not in a longer end either. -/
lemma back_back_append (n : Nat) (cs ds : List Char) :
    back n (back n cs ++ ds) = back n (cs ++ ds) := by
  induction cs with
  | nil => rfl
  | cons c cs ih =>
    rw [back]
    split_ifs with hfits
    · rfl
    · rw [ih, List.cons_append, back, if_neg]
      rw [size_cons] at hfits ⊢
      rw [size_append]
      omega

/-- A beginning and an end that are not longer than the text together do not overlap. -/
lemma exists_middle {w : List Char} (hfront : cs <+: w) (hback : ds <:+ w)
    (h : size cs + size ds ≤ size w) : ∃ mid, w = cs ++ (mid ++ ds) := by
  obtain ⟨rest, rfl⟩ := hfront
  rw [size_append] at h
  rcases List.suffix_or_suffix_of_suffix hback (List.suffix_append cs rest) with hin | hout
  · obtain ⟨mid, rfl⟩ := hin
    exact ⟨mid, rfl⟩
  · obtain ⟨extra, rfl⟩ := hout
    rw [size_append] at h
    have hextra : extra = [] := size_eq_zero_iff.mp (by omega)
    exact ⟨[], by rw [hextra, List.nil_append, List.nil_append]⟩

end Utf8

end Codey
