import Mathlib.Tactic.Common
import Codey.Storage.ExecutionOutputs

/-!
# Head and tail of live output

What is stored of a channel is the beginning and the end of what was appended to it, whatever the
chunks, exactly when no chunk can move the cut.
-/

namespace Codey

namespace ExecutionOutputs

open Utf8

def live (limit : Nat) (chunks : List Text) : Stored :=
  chunks.foldl (fun stored added => stored.append limit added) {}

def bounded (limit : Nat) (text : Text) : Text :=
  if size text ≤ limit then text
  else front (headBytes limit) text ++ back (limit - headBytes limit) text

variable {s : Store} {id : String} {r : Row} {c : Channel} {limit n : Nat} {w p text : Text}
  {chunks : List Text}

/-! ### Rows -/

lemma update_of_none (f : Row → Row) (hrow : s.rows id = none) : s.update id f = s := by
  rw [Store.update, hrow, Option.map_none, ← hrow, Function.update_eq_self]

lemma update_snapshot (s : Store) (id : String) (f : Row → Row) :
    ((((s.update id f).snapshot id).map fun snapshot =>
      (s.update id f, snapshot)).toOption.map Prod.fst).getD s = s.update id f := by
  cases hrow : s.rows id with
  | none =>
    simp [Store.snapshot, update_of_none f hrow, hrow, Except.map, Except.toOption]
  | some r => simp [Store.snapshot, Store.update, hrow, Except.map, Except.toOption]

lemma rows_update_self (f : Row → Row) (hrow : s.rows id = some r) :
    (s.update id f).rows id = some (f r) := by
  simp [Store.update, hrow]

lemma rows_update_of_ne {id' : String} (f : Row → Row) (h : id' ≠ id) :
    (s.update id' f).rows id = s.rows id := by
  simp [Store.update, Function.update_of_ne h.symm]

lemma perform_appendText (s : Store) (id channel : String) (text : Text) :
    ((s.appendText id channel text).toOption.map Prod.fst).getD s =
      match Channel.ofName? channel with
      | none => s
      | some c => s.update id (·.append text c) := by
  unfold Store.appendText
  cases Channel.ofName? channel with
  | none => rfl
  | some c =>
    cases hrow : s.rows id with
    | none => exact (update_of_none _ hrow).symm
    | some r => exact update_snapshot s id (·.append text c)

/-- What a call does to a row: its bound stays, and a channel gets the text that the call appends
to it. -/
structure Row.Follows (r r' : Row) (id : String) (op : Op) : Prop where
  maxBytes : r'.maxBytes = r.maxBytes
  stored : ∀ c, r'.stored c =
    ((op.added id c).map ((r.stored c).append r.maxBytes)).getD (r.stored c)

/-- A text that is appended to a channel of an execution. -/
lemma follows_append {channel id' : String} {op : Op} (hrow : s.rows id = some r)
    (hadded : ∀ c, op.added id c =
      if id' = id ∧ Channel.ofName? channel = some c then some text else none)
    (hperform : perform s op = match Channel.ofName? channel with
      | none => s
      | some c => s.update id' (·.append text c)) :
    ∃ r', (perform s op).rows id = some r' ∧ r.Follows r' id op := by
  rw [hperform]
  cases hc : Channel.ofName? channel with
  | none => exact ⟨r, hrow, rfl, fun c => by simp [hadded, hc]⟩
  | some c =>
    by_cases hid : id' = id
    · subst hid
      refine ⟨r.append text c, rows_update_self _ hrow, Row.maxBytes_append r text c, fun c' => ?_⟩
      by_cases hcc : c = c'
      · subst hcc
        simp [hadded, hc]
      · simp [hadded, hc, hcc, Row.stored_append_of_ne r text hcc]
    · exact ⟨r, (rows_update_of_ne _ hid).trans hrow, rfl, fun c' => by simp [hadded, hid]⟩

lemma follows_perform (hrow : s.rows id = some r) (op : Op) :
    ∃ r', (perform s op).rows id = some r' ∧ r.Follows r' id op := by
  cases op with
  | create id' sessionId runId maxBytes =>
    refine ⟨r, ?_, rfl, fun _ => rfl⟩
    change (((s.create id' sessionId runId maxBytes).toOption).getD s).rows id = some r
    unfold Store.create
    split_ifs with hempty hknown
    · exact hrow
    · exact hrow
    · have hne : id ≠ id' := by
        rintro rfl
        simp [hrow] at hknown
      simpa [Except.toOption, Function.update_of_ne hne] using hrow
  | append id' channel chunk =>
    exact follows_append hrow (fun _ => rfl) (perform_appendText s id' channel (decode chunk))
  | appendText id' channel text =>
    exact follows_append hrow (fun _ => rfl) (perform_appendText s id' channel text)
  | settled id' exitCode =>
    have hperform : perform s (.settled id' exitCode) = s.update id' (·.settle exitCode) :=
      update_snapshot s id' _
    rw [hperform]
    by_cases hid : id' = id
    · subst hid
      exact ⟨_, rows_update_self _ hrow, rfl, fun c => Row.stored_settle r exitCode c⟩
    · exact ⟨r, (rows_update_of_ne _ hid).trans hrow, rfl, fun _ => rfl⟩
  | unavailable id' =>
    by_cases hid : id' = id
    · subst hid
      exact ⟨_, rows_update_self _ hrow, rfl, fun c => Row.stored_markUnknown r c⟩
    · exact ⟨r, (rows_update_of_ne _ hid).trans hrow, rfl, fun _ => rfl⟩

/-- Over a run a channel gets the texts that are appended to it, in order, whatever else is called
between. -/
theorem rows_foldl_perform (hrow : s.rows id = some r) (ops : List Op) :
    ∃ r', (ops.foldl perform s).rows id = some r' ∧ r'.maxBytes = r.maxBytes ∧
      ∀ c, r'.stored c = (ops.filterMap (Op.added id c)).foldl
        (fun stored added => stored.append r.maxBytes added) (r.stored c) := by
  induction ops generalizing s r with
  | nil => exact ⟨r, hrow, rfl, fun _ => rfl⟩
  | cons op ops ih =>
    obtain ⟨r₁, hrow₁, hfollows⟩ := follows_perform hrow op
    obtain ⟨r', hrow', hmax, hstored⟩ := ih hrow₁
    refine ⟨r', hrow', hmax.trans hfollows.maxBytes, fun c => ?_⟩
    rw [hstored, hfollows.stored, hfollows.maxBytes, List.filterMap_cons]
    cases op.added id c with
    | none => rfl
    | some text => rfl

/-! ### The cut -/

lemma headBytes_lt (h : 2 ≤ limit) : headBytes limit < limit := by
  unfold headBytes
  omega

lemma boundedText_fst (h : 2 ≤ limit) (existing added : Text) (total : Nat) :
    (boundedText existing total added limit).1 = bounded limit (existing ++ added) := by
  have hhead := headBytes_lt h
  unfold boundedText bounded
  simp only [length_encode]
  split_ifs with hfits
  · rfl
  · have hlast : lastBytes (encode (existing ++ added)) (limit - headBytes limit) =
        (encode (existing ++ added)).drop (size (existing ++ added) - (limit - headBytes limit)) := by
      rw [lastBytes, if_neg (by omega), length_encode]
    simp only [hlast, decodeIgnore_take_encode, decodeIgnore_drop_encode]
    rw [Nat.sub_sub_self (by omega)]

lemma boundedText_snd (existing added : Text) (total : Nat) :
    (boundedText existing total added limit).2 = total + size added := by
  unfold boundedText
  simp only [length_encode]
  split_ifs <;> rfl

lemma bytes_live (limit : Nat) (chunks : List Text) :
    (live limit chunks).bytes = size chunks.flatten := by
  induction chunks using List.reverseRecOn with
  | nil => rfl
  | append_singleton chunks added ih =>
    rw [live, List.foldl_append, List.foldl_cons, List.foldl_nil, Stored.append, boundedText_snd]
    rw [← live, ih]
    simp

lemma live_of_fits (hfits : size chunks.flatten ≤ limit) :
    (live limit chunks).text = chunks.flatten := by
  induction chunks using List.reverseRecOn with
  | nil => rfl
  | append_singleton chunks added ih =>
    rw [List.flatten_append, List.flatten_singleton] at hfits ⊢
    have hbegin : size chunks.flatten ≤ limit := by
      rw [size_append] at hfits
      omega
    rw [live, List.foldl_append, List.foldl_cons, List.foldl_nil, Stored.append, boundedText,
      ← live, ih hbegin, if_pos (by rwa [length_encode])]

lemma live_snoc (h : 2 ≤ limit) (chunks : List Text) (added : Text) :
    (live limit (chunks ++ [added])).text = bounded limit ((live limit chunks).text ++ added) := by
  rw [live, List.foldl_append, List.foldl_cons, List.foldl_nil, Stored.append, boundedText_fst h]
  rfl

def gap (limit : Nat) (w : Text) : Nat := headBytes limit - size (front (headBytes limit) w)

/-- The text from the tail on that is kept of its first characters. -/
def later (limit n : Nat) (w : Text) : Text :=
  back (limit - headBytes limit) (w.take n) ++ w.drop n

/-- The text fits, or no cut of a beginning of it is moved by the rest: from the tail of that
beginning on the text still is a tail, or it is more than head and tail can hold and begins with a
character that the head has no room for. -/
def CleanCut (limit : Nat) (w : Text) : Prop :=
  size w ≤ limit ∨ 2 ≤ limit ∧ ∀ n ≤ w.length, limit < size (w.take n) →
    size (later limit n w) ≤ limit - headBytes limit ∨
      limit - headBytes limit + gap limit w < size (later limit n w) ∧
        front (gap limit w) (later limit n w) = []

instance (limit : Nat) (w : Text) : Decidable (CleanCut limit w) :=
  inferInstanceAs (Decidable (_ ∨ _ ∧ _))

/-- What a channel shows: all of the text, or a beginning and an end of it that do not overlap, with
the bytes that are left out. -/
structure Faithful (limit : Nat) (w : Text) (shown : StreamPayload) : Prop where
  fits : size shown.text ≤ limit
  whole : size w ≤ limit → shown.text = w
  headTail : limit < size w → ∃ head mid tail, w = head ++ (mid ++ tail) ∧ shown.text = head ++ tail
  total : shown.totalBytes = size w
  omitted : shown.omittedBytes + size shown.text = size w
  truncated : shown.truncated = true ↔ shown.text ≠ w

lemma bounded_sublist (h : 2 ≤ limit) (w : Text) :
    ∃ head mid tail, w = head ++ (mid ++ tail) ∧ bounded limit w = head ++ tail := by
  have hhead := headBytes_lt h
  unfold bounded
  split_ifs with hfits
  · exact ⟨w, [], [], by simp, by simp⟩
  · have hfront := size_front_le (headBytes limit) w
    have hback := size_back_le (limit - headBytes limit) w
    obtain ⟨mid, hmid⟩ := exists_middle (front_begins (headBytes limit) w)
      (back_ends (limit - headBytes limit) w) (by omega)
    exact ⟨_, mid, _, hmid, rfl⟩

lemma size_bounded_le (h : 2 ≤ limit) (w : Text) : size (bounded limit w) ≤ limit := by
  have hhead := headBytes_lt h
  unfold bounded
  split_ifs with hfits
  · exact hfits
  · have hfront := size_front_le (headBytes limit) w
    have hback := size_back_le (limit - headBytes limit) w
    rw [size_append]
    omega

/-- A text that is cut once is shown faithfully. -/
lemma faithful_bounded (h : 2 ≤ limit) (w : Text) :
    Faithful limit w (streamPayload (bounded limit w) (size w) limit) := by
  obtain ⟨head, mid, tail, hw, hcut⟩ := bounded_sublist h w
  have hsize : size w = size head + (size mid + size tail) := by rw [hw, size_append, size_append]
  have hshort : size (bounded limit w) = size head + size tail := by rw [hcut, size_append]
  refine ⟨size_bounded_le h w, fun hfits => if_pos hfits, fun _ => ⟨head, mid, tail, hw, hcut⟩, rfl,
    ?_, ?_⟩
  · change size w - (encode (bounded limit w)).length + size (bounded limit w) = size w
    rw [length_encode]
    omega
  · change decide ((encode (bounded limit w)).length < size w) = true ↔ bounded limit w ≠ w
    rw [decide_eq_true_iff, length_encode]
    constructor
    · intro hlt heq
      rw [heq] at hlt
      exact lt_irrefl _ hlt
    · intro hne
      by_contra hlt
      have hmid : mid = [] := size_eq_zero_iff.mp (by omega)
      refine hne ?_
      rw [hcut, hw, hmid, List.nil_append]

/-! ### Any split -/

/-- What is held of a beginning of a text: all of it while it fits, and then the head of the text
and the tail of some beginning with what came after that. -/
def Held (limit : Nat) (w p : Text) (stored : Text) : Prop :=
  size p ≤ limit ∧ stored = p ∨
    limit < size p ∧ ∃ n ≤ p.length, limit < size (p.take n) ∧
      stored = front (headBytes limit) w ++
        (back (limit - headBytes limit) (p.take n) ++ p.drop n) ∧
      size (back (limit - headBytes limit) (p.take n) ++ p.drop n) ≤
        limit - headBytes limit + gap limit w

lemma front_of_begins (h : 2 ≤ limit) (hp : p <+: w) (hlong : limit < size p) :
    front (headBytes limit) p = front (headBytes limit) w := by
  obtain ⟨rest, rfl⟩ := hp
  have hhead := headBytes_lt h
  exact (front_append_of_lt (by omega) rest).symm

lemma held_cut (hlong : limit < size p) :
    Held limit w p (front (headBytes limit) w ++ back (limit - headBytes limit) p) := by
  have hback := size_back_le (limit - headBytes limit) p
  refine .inr ⟨hlong, p.length, le_rfl, ?_, ?_, ?_⟩
  · rwa [List.take_length]
  · rw [List.take_length, List.drop_length, List.append_nil]
  · rw [List.take_length, List.drop_length, List.append_nil]
    omega

/-- The next chunk of a text that can be cut only once. -/
lemma held_snoc (h : 2 ≤ limit) (hcut : CleanCut limit w) (hw : limit < size w)
    {stored added : Text} (hp : p ++ added <+: w) (hheld : Held limit w p stored) :
    Held limit w (p ++ added) (bounded limit (stored ++ added)) := by
  have hhead := headBytes_lt h
  have hfront := size_front_le (headBytes limit) w
  rcases hheld with ⟨hfits, rfl⟩ | ⟨hlong, n, hn, hbeyond, rfl, hroom⟩
  · unfold bounded
    split_ifs with hall
    · exact .inl ⟨hall, rfl⟩
    · rw [front_of_begins h hp (by omega)]
      exact held_cut (by omega)
  · have hlong' : limit < size (p ++ added) := by rw [size_append]; omega
    have htake : (p ++ added).take n = p.take n := List.take_append_of_le_length hn
    have hdrop : (p ++ added).drop n = p.drop n ++ added := List.drop_append_of_le_length hn
    generalize hkept : back (limit - headBytes limit) (p.take n) ++ (p.drop n ++ added) = kept
    have hstored : front (headBytes limit) w ++
        (back (limit - headBytes limit) (p.take n) ++ p.drop n) ++ added =
          front (headBytes limit) w ++ kept := by
      rw [← hkept, List.append_assoc, List.append_assoc]
    have hgap : size (front (headBytes limit) w) + gap limit w = headBytes limit := by
      unfold gap
      omega
    rw [hstored, bounded, size_append]
    split_ifs with hall
    · -- the chunk fits, so the cut stays where it was
      refine .inr ⟨hlong', n, hn.trans (by simp), ?_, ?_, ?_⟩
      · rwa [htake]
      · rw [htake, hdrop, hkept]
      · rw [htake, hdrop, hkept]
        omega
    · -- the text is cut again, and nothing of what is kept of it goes into the head
      have hnext : front (gap limit w) kept = [] := by
        obtain ⟨rest, rfl⟩ := hp
        have hlater : later limit n (p ++ added ++ rest) = kept ++ rest := by
          rw [later, List.append_assoc, List.take_append_of_le_length hn,
            List.drop_append_of_le_length hn, ← hkept, List.append_assoc, List.append_assoc]
        rcases hcut with hshort | ⟨-, hcut⟩
        · omega
        · have hbeyond' : limit < size ((p ++ added ++ rest).take n) := by
            rwa [List.append_assoc, List.take_append_of_le_length hn]
          have hn' : n ≤ (p ++ added ++ rest).length := by simp; omega
          rcases hcut n hn' hbeyond' with hshort | ⟨-, hnone⟩
          · rw [hlater, size_append] at hshort
            omega
          · rwa [hlater, front_append_of_lt (by omega)] at hnone
      have hfront' : front (headBytes limit) (front (headBytes limit) w ++ kept) =
          front (headBytes limit) w := by
        have hrest : headBytes limit - size (front (headBytes limit) w) = gap limit w := rfl
        rw [front_append, if_pos hfront, hrest, hnext, List.append_nil]
      have hback' : back (limit - headBytes limit) (front (headBytes limit) w ++ kept) =
          back (limit - headBytes limit) (p ++ added) := by
        rw [back_append_of_lt (by omega), ← hkept, back_back_append, ← List.append_assoc,
          List.take_append_drop]
      rw [hfront', hback']
      exact held_cut hlong'

/-- Whatever the chunks, a text with a clean cut is cut as if it had come at once. -/
theorem live_eq_bounded (h : 2 ≤ limit) (hcut : CleanCut limit chunks.flatten) :
    (live limit chunks).text = bounded limit chunks.flatten := by
  by_cases hfits : size chunks.flatten ≤ limit
  · rw [bounded, if_pos hfits]
    exact live_of_fits hfits
  · have hheld : ∀ done rest, chunks = done ++ rest →
        Held limit chunks.flatten done.flatten (live limit done).text := by
      intro done
      induction done using List.reverseRecOn with
      | nil => exact fun _ _ => .inl ⟨Nat.zero_le _, rfl⟩
      | append_singleton done added ih =>
        intro rest hchunks
        rw [live_snoc h, List.flatten_append, List.flatten_singleton]
        refine held_snoc h hcut (by omega) ⟨rest.flatten, ?_⟩ (ih (added :: rest) (by simp [hchunks]))
        simp [hchunks]
    have hlong : limit < size chunks.flatten := by omega
    rcases hheld chunks [] (by simp) with ⟨hshort, -⟩ | ⟨-, n, hn, hbeyond, hstored, hroom⟩
    · omega
    · rcases hcut with hshort | ⟨-, hcut⟩
      · omega
      · rcases hcut n hn hbeyond with htail | ⟨hmore, -⟩
        · have hlater : back (limit - headBytes limit) chunks.flatten =
              back (limit - headBytes limit) (chunks.flatten.take n) ++ chunks.flatten.drop n := by
            calc back (limit - headBytes limit) chunks.flatten
                = back (limit - headBytes limit)
                    (chunks.flatten.take n ++ chunks.flatten.drop n) := by rw [List.take_append_drop]
              _ = back (limit - headBytes limit) (back (limit - headBytes limit)
                    (chunks.flatten.take n) ++ chunks.flatten.drop n) :=
                  (back_back_append _ _ _).symm
              _ = _ := back_of_le htail
          rw [hstored, bounded, if_neg hfits, hlater]
        · rw [later] at hmore
          omega

def shown (limit : Nat) (chunks : List Text) : StreamPayload :=
  streamPayload (live limit chunks).text (live limit chunks).bytes limit

lemma shown_eq {w : Text} (htext : (live limit chunks).text = w) :
    shown limit chunks = streamPayload w (size chunks.flatten) limit := by
  rw [shown, bytes_live, htext]

lemma faithful_whole (hfits : size w ≤ limit) : Faithful limit w
    (streamPayload w (size w) limit) where
  fits := hfits
  whole _ := rfl
  headTail hlong := absurd hfits (Nat.not_le.mpr hlong)
  total := rfl
  omitted := by simp [streamPayload]
  truncated := by simp [streamPayload]

lemma live_pair (h : 2 ≤ limit) (hn : limit < size (w.take n)) :
    (live limit [w.take n, w.drop n]).text =
      bounded limit (front (headBytes limit) w ++ later limit n w) := by
  have htake : (live limit [w.take n]).text = bounded limit (w.take n) := live_snoc h [] (w.take n)
  have honce : bounded limit (w.take n) =
      front (headBytes limit) w ++ back (limit - headBytes limit) (w.take n) := by
    rw [bounded, if_neg (by omega), front_of_begins h (List.take_prefix n w) hn]
  have hcut := live_snoc h [w.take n] (w.drop n)
  rw [htake, honce, List.append_assoc] at hcut
  exact hcut

/-- A text that is cut in the same way whatever its chunks has a clean cut. -/
lemma cleanCut_of_same (hlimit : 1 ≤ limit) (hfits : size (live limit [w]).text ≤ limit)
    (hsame : ∀ chunks, chunks.flatten = w → (live limit chunks).text = (live limit [w]).text) :
    CleanCut limit w := by
  by_cases hshort : size w ≤ limit
  · exact .inl hshort
  · by_cases hone : limit = 1
    · -- the tail of no bytes is the whole text
      subst hone
      have htext : (live 1 [w]).text = front 1 w ++ w := by
        simp [live, Stored.append, boundedText, headBytes, lastBytes, decodeIgnore_take_encode,
          hshort]
      rw [htext, size_append] at hfits
      omega
    · have h : 2 ≤ limit := by omega
      have hhead := headBytes_lt h
      have hfront := size_front_le (headBytes limit) w
      have honce : (live limit [w]).text =
          front (headBytes limit) w ++ back (limit - headBytes limit) w := by
        rw [← List.nil_append [w], live_snoc h]
        exact if_neg hshort
      refine .inr ⟨h, fun n _ hbeyond => ?_⟩
      have hpair := hsame [w.take n, w.drop n] (by simp)
      have hlater : back (limit - headBytes limit) (later limit n w) =
          back (limit - headBytes limit) w := by
        rw [later, back_back_append, List.take_append_drop]
      rw [live_pair h hbeyond, honce, bounded, size_append] at hpair
      split_ifs at hpair with hall
      · left
        rw [List.append_cancel_left hpair]
        exact size_back_le _ _
      · have hgap : size (front (headBytes limit) w) + gap limit w = headBytes limit := by
          unfold gap
          omega
        right
        refine ⟨by omega, ?_⟩
        have hrest : headBytes limit - size (front (headBytes limit) w) = gap limit w := rfl
        rw [front_append, if_pos hfront, hrest, back_append_of_lt (by omega), hlater,
          List.append_assoc] at hpair
        simpa using List.append_cancel_left hpair

/-- What a channel shows is faithful and does not depend on the chunks exactly when the text has a
clean cut. -/
theorem faithful_iff (hlimit : 1 ≤ limit) (chunks : List Text) :
    (Faithful limit chunks.flatten (shown limit chunks) ∧
      ∀ chunks', chunks'.flatten = chunks.flatten → shown limit chunks' = shown limit chunks) ↔
      CleanCut limit chunks.flatten := by
  constructor
  · rintro ⟨hfaithful, hsame⟩
    have htext : ∀ chunks', chunks'.flatten = chunks.flatten →
        (live limit chunks').text = (live limit chunks).text :=
      fun chunks' heq => congrArg StreamPayload.text (hsame chunks' heq)
    have hone := htext [chunks.flatten] (by simp)
    refine cleanCut_of_same hlimit ?_ fun chunks' heq => (htext chunks' heq).trans hone.symm
    rw [hone]
    exact hfaithful.fits
  · intro hcut
    by_cases hfits : size chunks.flatten ≤ limit
    · refine ⟨?_, fun chunks' heq => ?_⟩
      · rw [shown_eq (live_of_fits hfits)]
        exact faithful_whole hfits
      · rw [shown_eq (live_of_fits hfits), shown_eq (live_of_fits (by rwa [heq])), heq]
    · obtain hshort | ⟨h, -⟩ := id hcut
      · exact absurd hshort hfits
      · refine ⟨?_, fun chunks' heq => ?_⟩
        · rw [shown_eq (live_eq_bounded h hcut)]
          exact faithful_bounded h _
        · rw [shown_eq (live_eq_bounded h hcut), shown_eq (live_eq_bounded h (by rwa [heq])), heq]

/-! ### The store -/

lemma rows_create {sessionId runId : String} {maxBytes : Option Int} {s' : Store}
    (hnew : s.rows id = none) (hcreate : s.create id sessionId runId maxBytes = .ok s') :
    ∃ r, s'.rows id = some r ∧ r.maxBytes = s.bound maxBytes ∧ ∀ c, r.stored c = {} := by
  unfold Store.create at hcreate
  rw [hnew] at hcreate
  split_ifs at hcreate with hempty hknown
  · simp at hknown
  · cases hcreate
    refine ⟨_, Function.update_self .., rfl, fun c => ?_⟩
    cases c with
    | stdout => rfl
    | stderr => rfl

/-- What a snapshot shows of a channel, after any calls on a row that was created. -/
lemma exists_snapshot {s' : Store} (hrow : s'.rows id = some r) (hempty : ∀ c, r.stored c = {})
    (ops : List Op) :
    ∃ snapshot, (ops.foldl perform s').snapshot id = .ok snapshot ∧
      ∀ c, snapshot.stream c = shown r.maxBytes (ops.filterMap (Op.added id c)) := by
  obtain ⟨r', hrow', hmax, hstored⟩ := rows_foldl_perform hrow ops
  rw [Store.snapshot, hrow']
  refine ⟨_, rfl, fun c => ?_⟩
  have hlive : r'.stored c = live r.maxBytes (ops.filterMap (Op.added id c)) := by
    rw [hstored, hempty]
    rfl
  rw [shown, ← hlive, ← hmax]
  cases c with
  | stdout => rfl
  | stderr => rfl

/-- What a snapshot shows of a channel is faithful to all that was appended to it, and does not
depend on how that was split, exactly when no split can move the cut. -/
theorem live_output_iff {sessionId runId : String} {maxBytes : Option Int} {s' : Store}
    (hnew : s.rows id = none) (hcreate : s.create id sessionId runId maxBytes = .ok s')
    (ops : List Op) (c : Channel) :
    ∃ snapshot, (ops.foldl perform s').snapshot id = .ok snapshot ∧
      ((Faithful (s.bound maxBytes) (appended id c ops) (snapshot.stream c) ∧
        ∀ ops', appended id c ops' = appended id c ops →
          ∃ snapshot', (ops'.foldl perform s').snapshot id = .ok snapshot' ∧
            snapshot'.stream c = snapshot.stream c) ↔
        CleanCut (s.bound maxBytes) (appended id c ops)) := by
  obtain ⟨r, hrow, hmax, hempty⟩ := rows_create hnew hcreate
  obtain ⟨snapshot, hsnapshot, hstream⟩ := exists_snapshot hrow hempty ops
  refine ⟨snapshot, hsnapshot, ?_⟩
  rw [hstream, ← hmax, appended, ← faithful_iff r.bounded]
  refine and_congr_right fun _ => ⟨fun hsame chunks hchunks => ?_, fun hsame ops' hops => ?_⟩
  · -- every split is a run
    have hadded : (chunks.map (Op.appendText id c.name)).filterMap (Op.added id c) = chunks := by
      rw [List.filterMap_map]
      simp [Function.comp_def, Op.added]
    obtain ⟨snapshot', hsnapshot', heq⟩ := hsame (chunks.map (Op.appendText id c.name))
      (by rw [appended, hadded, hchunks])
    obtain ⟨_, hok, hstream'⟩ := exists_snapshot hrow hempty (chunks.map (Op.appendText id c.name))
    rw [hsnapshot'] at hok
    cases hok
    rw [← heq, hstream', hadded]
  · obtain ⟨snapshot', hsnapshot', hstream'⟩ := exists_snapshot hrow hempty ops'
    exact ⟨snapshot', hsnapshot', (hstream' c).trans (hsame _ hops)⟩

def noExecutions : Store := ⟨65536, fun _ => none⟩

def cleanOps : List Op :=
  [.appendText "execution" "stdout" ['a', 'b', 'c', 'd', 'é'],
    .appendText "execution" "stdout" ['x', 'y', 'z']]

/-- An execution that writes `abcdé` and then `xyz`. The cut falls between two characters. -/
theorem live_output_iff_clean :
    ∃ s', noExecutions.create "execution" "session" "run" (some 6) = .ok s' ∧
      ∃ snapshot, (cleanOps.foldl perform s').snapshot "execution" = .ok snapshot ∧
        Faithful (noExecutions.bound (some 6)) (appended "execution" .stdout cleanOps)
          (snapshot.stream .stdout) ∧
        (∀ ops', appended "execution" .stdout ops' = appended "execution" .stdout cleanOps →
          ∃ snapshot', (ops'.foldl perform s').snapshot "execution" = .ok snapshot' ∧
            snapshot'.stream .stdout = snapshot.stream .stdout) ∧
        CleanCut (noExecutions.bound (some 6)) (appended "execution" .stdout cleanOps) := by
  have hcreate : noExecutions.create "execution" "session" "run" (some 6) = .ok _ := rfl
  have hcut : CleanCut (noExecutions.bound (some 6)) (appended "execution" .stdout cleanOps) := by
    decide +kernel
  obtain ⟨snapshot, hsnapshot, hiff⟩ := live_output_iff rfl hcreate cleanOps .stdout
  obtain ⟨hfaithful, hsame⟩ := hiff.mpr hcut
  exact ⟨_, hcreate, snapshot, hsnapshot, hfaithful, hsame, hcut⟩

/-- An execution that writes `abéxyz` and then `uvw`, of which six bytes are kept. -/
def recutOps : List Op :=
  [.appendText "execution" "stdout" ['a', 'b', 'é', 'x', 'y', 'z'],
    .appendText "execution" "stdout" ['u', 'v', 'w']]

/-- The head has room for one more byte, which the second cut fills from the tail. -/
theorem not_faithful_recut :
    ∃ s', noExecutions.create "execution" "session" "run" (some 6) = .ok s' ∧
      ∃ snapshot, (recutOps.foldl perform s').snapshot "execution" = .ok snapshot ∧
        ¬ Faithful (noExecutions.bound (some 6)) (appended "execution" .stdout recutOps)
          (snapshot.stream .stdout) := by
  refine ⟨_, rfl, _, rfl, fun h => ?_⟩
  obtain ⟨head, mid, tail, hw, htext⟩ := h.headTail (by decide +kernel)
  have hstored : ['a', 'b', 'x', 'u', 'v', 'w'] = head ++ tail :=
    Eq.trans (by decide +kernel) htext
  have hall : ['a', 'b', 'é', 'x', 'y', 'z', 'u', 'v', 'w'] = head ++ (mid ++ tail) :=
    Eq.trans (by decide +kernel) hw
  have hlength := congrArg List.length hstored
  rw [List.length_append] at hlength
  have hcut : ∀ n ≤ 6, ¬ (['a', 'b', 'x', 'u', 'v', 'w'].take n <+:
      ['a', 'b', 'é', 'x', 'y', 'z', 'u', 'v', 'w'] ∧ ['a', 'b', 'x', 'u', 'v', 'w'].drop n <:+
      ['a', 'b', 'é', 'x', 'y', 'z', 'u', 'v', 'w']) := by decide
  refine hcut head.length (by simp at hlength; omega) ?_
  rw [hall, hstored, List.take_left, List.drop_left]
  exact ⟨List.prefix_append head _, head ++ mid, by simp⟩

end ExecutionOutputs

end Codey
