import Codey.Lib.Json
import Mathlib.Data.List.TakeWhile

/-!
# JSON texts

A reader of JSON texts, and the shape that it finds in them: plain characters, quoted texts, and
braces that close in the order in which they open. The reader also takes what strict JSON has no
value for: a lone half of a pair in a text, and numbers that are not finite. Such a part counts only
where nothing replaces it, since the last member of a name is the one that an object keeps.
-/

namespace Codey

namespace JsonText

/-! ### The reader -/

/-- White space between the tokens of a text. -/
def isWs (ch : Char) : Bool := ch = ' ' || ch = '\t' || ch = '\n' || ch = '\r'

def skipWs (text : List Char) : List Char := text.dropWhile isWs

def hexDigit (ch : Char) : Option Nat :=
  if '0' ≤ ch ∧ ch ≤ '9' then some (ch.toNat - '0'.toNat)
  else if 'a' ≤ ch ∧ ch ≤ 'f' then some (ch.toNat - 'a'.toNat + 10)
  else if 'A' ≤ ch ∧ ch ≤ 'F' then some (ch.toNat - 'A'.toNat + 10)
  else none

/-- The code unit of four hexadecimal digits. -/
def hexUnit : List Char → Option (Nat × List Char)
  | a :: b :: c :: d :: rest => do
    let a ← hexDigit a
    let b ← hexDigit b
    let c ← hexDigit c
    let d ← hexDigit d
    some (((a * 16 + b) * 16 + c) * 16 + d, rest)
  | _ => none

def simpleEscape (ch : Char) : Option Char :=
  [('"', '"'), ('\\', '\\'), ('/', '/'), ('b', '\x08'), ('f', '\x0c'), ('n', '\n'), ('r', '\r'),
    ('t', '\t')].lookup ch

/-- The second unit of a pair. Without one the first stands alone. -/
def readLow (high : Nat) (text : List Char) : Option Char × List Char :=
  match text with
  | '\\' :: 'u' :: rest =>
    match hexUnit rest with
    | some (low, rest) =>
      if 0xDC00 ≤ low ∧ low ≤ 0xDFFF then
        (some (Char.ofNat (0x10000 + (high - 0xD800) * 0x400 + (low - 0xDC00))), rest)
      else (none, text)
    | none => (none, text)
  | _ => (none, text)

/-- The character that an escape stands for, read behind its backslash. A unit that is half of a
pair stands for no character. -/
def readEscape : List Char → Option (Option Char × List Char)
  | [] => none
  | ch :: rest =>
    if ch = 'u' then
      (hexUnit rest).map fun (unit, rest) =>
        if unit < 0xD800 ∨ 0xDFFF < unit then (some (Char.ofNat unit), rest)
        else if unit < 0xDC00 then readLow unit rest
        else (none, rest)
    else (simpleEscape ch).map fun ch => (some ch, rest)

/-- The characters of a string, if every one of them is a character, and the text behind its closing
quote. -/
def readChars : Nat → List Char → Option (Option (List Char) × List Char)
  | 0, _ | _ + 1, [] => none
  | n + 1, ch :: rest =>
    if ch = '"' then some (some [], rest)
    else if ch = '\\' then
      (readEscape rest).bind fun (ch, rest) =>
        (readChars n rest).map fun (chars, rest) =>
          (ch.bind fun ch => chars.map (ch :: ·), rest)
    else if ch.toNat < 32 then none
    else (readChars n rest).map fun (chars, rest) => (chars.map (ch :: ·), rest)

/-- A string behind its opening quote. -/
def readString (text : List Char) : Option (Option String × List Char) :=
  (readChars (text.length + 1) text).map fun (chars, rest) => (chars.map String.ofList, rest)

def digits (text : List Char) : List Char := text.takeWhile Char.isDigit

def afterDigits (text : List Char) : List Char := text.dropWhile Char.isDigit

/-- The integer part of a number: no zero leads another digit. -/
def integerPart : List Char → List Char × List Char
  | '0' :: rest => (['0'], rest)
  | text => (digits text, afterDigits text)

/-- The fraction of a number, when there is one. -/
def fraction : List Char → List Char × List Char
  | '.' :: rest =>
    if digits rest = [] then ([], '.' :: rest) else ('.' :: digits rest, afterDigits rest)
  | text => ([], text)

/-- A sign, when there is one. -/
def sign : List Char → List Char × List Char
  | '+' :: rest => (['+'], rest)
  | '-' :: rest => (['-'], rest)
  | text => ([], text)

/-- The exponent of a number, when there is one. -/
def exponent : List Char → List Char × List Char
  | [] => ([], [])
  | ch :: rest =>
    if (ch = 'e' ∨ ch = 'E') ∧ digits (sign rest).2 ≠ [] then
      (ch :: (sign rest).1 ++ digits (sign rest).2, afterDigits (sign rest).2)
    else ([], ch :: rest)

/-- A minus sign, when there is one. -/
def minus : List Char → List Char × List Char
  | '-' :: rest => (['-'], rest)
  | text => ([], text)

def natural (digits : List Char) : Nat :=
  digits.foldl (fun n ch => n * 10 + (ch.toNat - '0'.toNat)) 0

variable (float : List Char → Option Rat)

/-- A number. What a fraction or an exponent comes to is the host's. -/
def readNumber (text : List Char) : Option (Option Json × List Char) :=
  let (minus, text) := minus text
  let (whole, text) := integerPart text
  let (fraction, text) := fraction text
  let (exponent, text) := exponent text
  if whole = [] then none
  else if fraction = [] ∧ exponent = [] then
    some (some (.int (if minus = [] then natural whole else -natural whole)), text)
  else some ((float (minus ++ whole ++ fraction ++ exponent)).map .float, text)

/-- A literal or a number. The reader also knows three names of numbers that are not finite. -/
def readScalar : List Char → Option (Option Json × List Char)
  | 't' :: 'r' :: 'u' :: 'e' :: rest => some (some (.bool true), rest)
  | 'f' :: 'a' :: 'l' :: 's' :: 'e' :: rest => some (some (.bool false), rest)
  | 'n' :: 'u' :: 'l' :: 'l' :: rest => some (some .null, rest)
  | 'N' :: 'a' :: 'N' :: rest => some (none, rest)
  | 'I' :: 'n' :: 'f' :: 'i' :: 'n' :: 'i' :: 't' :: 'y' :: rest => some (none, rest)
  | '-' :: 'I' :: 'n' :: 'f' :: 'i' :: 'n' :: 'i' :: 't' :: 'y' :: rest => some (none, rest)
  | text => readNumber float text

/-- The members of an object that were read: the value of each name, if it has one, and whether a
name was no text. -/
structure Members where
  values : List (String × Option Json) := []
  odd : Bool := false

/-- The value of a name, in the place of the earlier one. -/
def setValue : List (String × Option Json) → String → Option Json → List (String × Option Json)
  | [], key, value => [(key, value)]
  | (k, v) :: rest, key, value =>
    if k = key then (key, value) :: rest
    else if key < k then (key, value) :: (k, v) :: rest
    else (k, v) :: setValue rest key value

def Members.set (members : Members) (key : Option String) (value : Option Json) : Members :=
  match key with
  | some key => { members with values := setValue members.values key value }
  | none => { members with odd := true }

/-- The object, when all of its members have a name and a value. -/
def Members.value (members : Members) : Option Json :=
  if members.odd then none
  else (members.values.mapM fun (member : String × Option Json) =>
    member.2.map fun value => (member.1, value)).map .obj

mutual
/-- The value at the head of a text and what follows it. -/
def readValue : Nat → List Char → Option (Option Json × List Char)
  | 0, _ | _ + 1, [] => none
  | n + 1, ch :: rest =>
    if ch = '\x7b' then
      if (skipWs rest).head? = some '\x7d' then some (some (.obj []), (skipWs rest).tail)
      else (readMembers n (skipWs rest) {}).map fun (members, rest) => (members.value, rest)
    else if ch = '[' then
      if (skipWs rest).head? = some ']' then some (some (.arr []), (skipWs rest).tail)
      else (readItems n (skipWs rest)).map fun (items, rest) => ((items.mapM id).map .arr, rest)
    else if ch = '"' then (readString rest).map fun (text, rest) => (text.map .str, rest)
    else readScalar float (ch :: rest)

/-- The members of an object after those that were read. A later member of a name counts. -/
def readMembers : Nat → List Char → Members → Option (Members × List Char)
  | 0, _, _ | _ + 1, [], _ => none
  | n + 1, ch :: rest, members =>
    if ch = '"' then
      (readString rest).bind fun (key, rest) =>
        if (skipWs rest).head? = some ':' then
          (readValue n (skipWs (skipWs rest).tail)).bind fun (value, rest) =>
            if (skipWs rest).head? = some ',' then
              readMembers n (skipWs (skipWs rest).tail) (members.set key value)
            else if (skipWs rest).head? = some '\x7d' then
              some (members.set key value, (skipWs rest).tail)
            else none
        else none
    else none

/-- The items of a list. -/
def readItems : Nat → List Char → Option (List (Option Json) × List Char)
  | 0, _ => none
  | n + 1, text =>
    (readValue n text).bind fun (value, rest) =>
      if (skipWs rest).head? = some ',' then
        (readItems n (skipWs (skipWs rest).tail)).map fun (items, rest) => (value :: items, rest)
      else if (skipWs rest).head? = some ']' then some ([value], (skipWs rest).tail)
      else none
end

/-- What a whole text spells, without white space around it. It may be no value of strict JSON. -/
def spelled (text : List Char) : Option (Option Json) :=
  match readValue float (2 * text.length + 2) text with
  | some (value, []) => some value
  | _ => none

/-! ### Balanced texts -/

/-- What may stand between quotes: a backslash goes with the character behind it. -/
inductive Quoted : List Char → Prop where
  | nil : Quoted []
  | plain {ch : Char} {rest : List Char} : ch ≠ '"' → ch ≠ '\\' → Quoted rest → Quoted (ch :: rest)
  | escape {ch : Char} {rest : List Char} : Quoted rest → Quoted ('\\' :: ch :: rest)

/-- Characters that neither quote nor nest. -/
def plain (ch : Char) : Bool := ch ≠ '"' && ch ≠ '\x7b' && ch ≠ '\x7d'

/-- Plain characters, quoted texts, and braces that close in the order in which they open. -/
inductive Balanced : List Char → Prop where
  | nil : Balanced []
  | plain {ch : Char} {rest : List Char} : plain ch = true → Balanced rest → Balanced (ch :: rest)
  | quoted {body rest : List Char} :
      Quoted body → Balanced rest → Balanced ('"' :: body ++ '"' :: rest)
  | braces {inner rest : List Char} :
      Balanced inner → Balanced rest → Balanced ('\x7b' :: inner ++ '\x7d' :: rest)

lemma Quoted.append {front back : List Char} (h : Quoted front) (h' : Quoted back) :
    Quoted (front ++ back) := by
  induction h with
  | nil => exact h'
  | plain hquote hslash _ ih => exact .plain hquote hslash ih
  | escape _ ih => exact .escape ih

lemma Balanced.append {front back : List Char} (h : Balanced front) (h' : Balanced back) :
    Balanced (front ++ back) := by
  induction h with
  | nil => exact h'
  | plain hplain _ ih => exact .plain hplain ih
  | quoted hbody _ ih =>
    rw [List.append_assoc, List.cons_append]
    exact .quoted hbody ih
  | braces hinner _ _ ih =>
    rw [List.append_assoc, List.cons_append]
    exact .braces hinner ih

lemma balanced_of_plain {text : List Char} (h : ∀ ch ∈ text, plain ch = true) : Balanced text := by
  induction text with
  | nil => exact .nil
  | cons ch text ih =>
    exact .plain (h ch List.mem_cons_self) (ih fun c hc => h c (List.mem_cons_of_mem _ hc))

/-- What stands before the rest of a text has the property. -/
def Consumes (P : List Char → Prop) (text rest : List Char) : Prop :=
  ∃ token, text = token ++ rest ∧ P token

variable {text rest : List Char}

lemma Consumes.balanced_trans {middle : List Char} (h : Consumes Balanced text middle)
    (h' : Consumes Balanced middle rest) : Consumes Balanced text rest := by
  obtain ⟨front, rfl, hfront⟩ := h
  obtain ⟨back, rfl, hback⟩ := h'
  exact ⟨front ++ back, (List.append_assoc ..).symm, hfront.append hback⟩

lemma consumes_skipWs (text : List Char) : Consumes Balanced text (skipWs text) := by
  refine ⟨text.takeWhile isWs, List.takeWhile_append_dropWhile.symm,
    balanced_of_plain fun ch hch => ?_⟩
  have hws := List.mem_takeWhile_imp hch
  simp only [isWs, Bool.or_eq_true, decide_eq_true_eq] at hws
  rcases hws with ((rfl | rfl) | rfl) | rfl <;> decide

variable {ch : Char}

lemma consumes_cons (h : plain ch = true) : Consumes Balanced (ch :: rest) rest :=
  ⟨[ch], rfl, .plain h .nil⟩

/-- White space and a plain character behind it. -/
lemma consumes_punctuation (hplain : plain ch = true) (h : (skipWs text).head? = some ch) :
    Consumes Balanced text (skipWs text).tail := by
  refine (consumes_skipWs text).balanced_trans ?_
  obtain ⟨rest, hrest⟩ := List.head?_eq_some_iff.mp h
  rw [hrest]
  exact consumes_cons hplain

/-! ### What the reader consumes -/

lemma hexDigit_ne {n : Nat} (h : hexDigit ch = some n) : ch ≠ '"' ∧ ch ≠ '\\' := by
  have hquote : hexDigit '"' = none := by decide
  have hslash : hexDigit '\\' = none := by decide
  constructor
  · rintro rfl
    rw [hquote] at h
    cases h
  · rintro rfl
    rw [hslash] at h
    cases h

lemma hexUnit_consumes {unit : Nat} (h : hexUnit text = some (unit, rest)) :
    Consumes Quoted text rest := by
  unfold hexUnit at h
  split at h
  · rename_i a b c d tail
    obtain ⟨na, ha, h⟩ := Option.bind_eq_some_iff.mp h
    obtain ⟨nb, hb, h⟩ := Option.bind_eq_some_iff.mp h
    obtain ⟨nc, hc, h⟩ := Option.bind_eq_some_iff.mp h
    obtain ⟨nd, hd, h⟩ := Option.bind_eq_some_iff.mp h
    obtain ⟨-, rfl⟩ := Prod.mk.inj (Option.some.inj h)
    refine ⟨[a, b, c, d], rfl, ?_⟩
    exact .plain (hexDigit_ne ha).1 (hexDigit_ne ha).2 (.plain (hexDigit_ne hb).1 (hexDigit_ne hb).2
      (.plain (hexDigit_ne hc).1 (hexDigit_ne hc).2 (.plain (hexDigit_ne hd).1 (hexDigit_ne hd).2
        .nil)))
  · cases h

variable {char : Option Char}

lemma readLow_consumes {high : Nat} (h : readLow high text = (char, rest)) :
    Consumes Quoted text rest := by
  have hnone : readLow high text = (none, text) → Consumes Quoted text rest := fun hnone => by
    obtain ⟨-, rfl⟩ := Prod.mk.inj (hnone.symm.trans h)
    exact ⟨[], rfl, .nil⟩
  unfold readLow at h hnone
  split at h
  · rename_i tail
    split at h
    · rename_i low tail' hlow
      split_ifs at h
      · obtain ⟨-, rfl⟩ := Prod.mk.inj h
        obtain ⟨token, rfl, htoken⟩ := hexUnit_consumes hlow
        exact ⟨'\\' :: 'u' :: token, rfl, .escape htoken⟩
      · obtain ⟨-, rfl⟩ := Prod.mk.inj h
        exact ⟨[], rfl, .nil⟩
    · obtain ⟨-, rfl⟩ := Prod.mk.inj h
      exact ⟨[], rfl, .nil⟩
  · obtain ⟨-, rfl⟩ := Prod.mk.inj h
    exact ⟨[], rfl, .nil⟩

lemma readEscape_consumes (h : readEscape text = some (char, rest)) :
    Consumes (fun token => Quoted ('\\' :: token)) text rest := by
  cases text with
  | nil => cases h
  | cons first tail =>
    rw [readEscape] at h
    split_ifs at h with hu
    · obtain ⟨⟨unit, tail'⟩, hunit, hread⟩ := Option.map_eq_some_iff.mp h
      obtain ⟨token, rfl, htoken⟩ := hexUnit_consumes hunit
      dsimp only at hread
      split_ifs at hread
      · obtain ⟨-, rfl⟩ := Prod.mk.inj hread
        exact ⟨first :: token, rfl, .escape htoken⟩
      · obtain ⟨more, rfl, hmore⟩ := readLow_consumes hread
        exact ⟨first :: token ++ more, by simp, .escape (htoken.append hmore)⟩
      · obtain ⟨-, rfl⟩ := Prod.mk.inj hread
        exact ⟨first :: token, rfl, .escape htoken⟩
    · obtain ⟨c, -, h⟩ := Option.map_eq_some_iff.mp h
      obtain ⟨-, rfl⟩ := Prod.mk.inj h
      exact ⟨[first], rfl, .escape .nil⟩

/-- A string ends at the first quote that no backslash goes before. -/
lemma readChars_consumes {n : Nat} {chars : Option (List Char)}
    (h : readChars n text = some (chars, rest)) :
    ∃ body, text = body ++ '"' :: rest ∧ Quoted body := by
  induction n generalizing text chars with
  | zero => cases h
  | succ n ih =>
    cases text with
    | nil => cases h
    | cons ch tail =>
      unfold readChars at h
      split_ifs at h with hquote hslash hcontrol
      · obtain ⟨-, rfl⟩ := Prod.mk.inj (Option.some.inj h)
        exact ⟨[], by rw [hquote, List.nil_append], .nil⟩
      · obtain ⟨⟨c, tail'⟩, hescape, h⟩ := Option.bind_eq_some_iff.mp h
        obtain ⟨⟨cs, tail''⟩, hchars, h⟩ := Option.map_eq_some_iff.mp h
        obtain ⟨-, rfl⟩ := Prod.mk.inj h
        obtain ⟨token, rfl, htoken⟩ := readEscape_consumes hescape
        obtain ⟨body, rfl, hbody⟩ := ih hchars
        exact ⟨ch :: token ++ body, by simp, hslash ▸ htoken.append hbody⟩
      · obtain ⟨⟨cs, tail'⟩, hchars, h⟩ := Option.map_eq_some_iff.mp h
        obtain ⟨-, rfl⟩ := Prod.mk.inj h
        obtain ⟨body, rfl, hbody⟩ := ih hchars
        exact ⟨ch :: body, rfl, .plain hquote hslash hbody⟩

/-- A string with its opening quote. -/
lemma readString_consumes {value : Option String} (h : readString text = some (value, rest)) :
    Consumes Balanced ('"' :: text) rest := by
  obtain ⟨⟨chars, tail⟩, hchars, h⟩ := Option.map_eq_some_iff.mp h
  obtain ⟨-, rfl⟩ := Prod.mk.inj h
  obtain ⟨body, rfl, hbody⟩ := readChars_consumes hchars
  exact ⟨'"' :: body ++ '"' :: [], by simp, .quoted hbody .nil⟩

/-! ### Numbers -/

/-- Plain characters up to the rest of the text. -/
def Plainly (token text rest : List Char) : Prop := text = token ++ rest ∧
    ∀ ch ∈ token, plain ch = true

lemma Plainly.append {front back middle : List Char} (h : Plainly front text middle)
    (h' : Plainly back middle rest) : Plainly (front ++ back) text rest := by
  obtain ⟨rfl, hfront⟩ := h
  obtain ⟨rfl, hback⟩ := h'
  exact ⟨(List.append_assoc ..).symm, List.forall_mem_append.mpr ⟨hfront, hback⟩⟩

lemma plainly_single (h : plain ch = true) : Plainly [ch] (ch :: rest) rest :=
  ⟨rfl, by simpa using h⟩

lemma plain_of_isDigit (h : ch.isDigit = true) : plain ch = true := by
  simp only [plain, Bool.and_eq_true, decide_eq_true_eq]
  refine ⟨⟨?_, ?_⟩, ?_⟩ <;> rintro rfl <;> exact absurd h (by decide)

lemma digits_plainly (text : List Char) : Plainly (digits text) text (afterDigits text) :=
  ⟨List.takeWhile_append_dropWhile.symm, fun _ hch => plain_of_isDigit (List.mem_takeWhile_imp hch)⟩

lemma minus_plainly (text : List Char) : Plainly (minus text).1 text (minus text).2 := by
  unfold minus
  split
  · exact plainly_single (by decide)
  · exact ⟨rfl, by simp⟩

lemma integerPart_plainly (text : List Char) :
    Plainly (integerPart text).1 text (integerPart text).2 := by
  unfold integerPart
  split
  · exact plainly_single (by decide)
  · exact digits_plainly text

lemma fraction_plainly (text : List Char) : Plainly (fraction text).1 text (fraction text).2 := by
  unfold fraction
  split
  · split_ifs
    · exact ⟨rfl, by simp⟩
    · exact (plainly_single (by decide)).append (digits_plainly _)
  · exact ⟨rfl, by simp⟩

lemma sign_plainly (text : List Char) : Plainly (sign text).1 text (sign text).2 := by
  unfold sign
  split
  · exact plainly_single (by decide)
  · exact plainly_single (by decide)
  · exact ⟨rfl, by simp⟩

lemma exponent_plainly (text : List Char) : Plainly (exponent text).1 text (exponent text).2 := by
  unfold exponent
  split
  · exact ⟨rfl, by simp⟩
  · rename_i ch rest
    split_ifs with h
    · have hch : plain ch = true := by rcases h.1 with rfl | rfl <;> decide
      exact (plainly_single hch).append ((sign_plainly rest).append (digits_plainly _))
    · exact ⟨rfl, by simp⟩

variable {float : List Char → Option Rat}

lemma readNumber_consumes {value : Option Json} (h : readNumber float text = some (value, rest)) :
    Consumes Balanced text rest := by
  have hplainly := (minus_plainly text).append ((integerPart_plainly _).append
    ((fraction_plainly _).append (exponent_plainly (fraction (integerPart (minus text).2).2).2)))
  obtain ⟨hsplit, hplain⟩ := hplainly
  have hrest : rest = (exponent (fraction (integerPart (minus text).2).2).2).2 := by
    unfold readNumber at h
    dsimp only at h
    split_ifs at h
    · exact (Prod.mk.inj (Option.some.inj h)).2.symm
    · exact (Prod.mk.inj (Option.some.inj h)).2.symm
    · exact (Prod.mk.inj (Option.some.inj h)).2.symm
  exact ⟨_, hrest ▸ hsplit, balanced_of_plain hplain⟩

lemma readScalar_consumes {value : Option Json} (h : readScalar float text = some (value, rest)) :
    Consumes Balanced text rest := by
  unfold readScalar at h
  split at h
  · obtain ⟨-, rfl⟩ := Prod.mk.inj (Option.some.inj h)
    exact ⟨['t', 'r', 'u', 'e'], rfl, balanced_of_plain (by simp [plain])⟩
  · obtain ⟨-, rfl⟩ := Prod.mk.inj (Option.some.inj h)
    exact ⟨['f', 'a', 'l', 's', 'e'], rfl, balanced_of_plain (by simp [plain])⟩
  · obtain ⟨-, rfl⟩ := Prod.mk.inj (Option.some.inj h)
    exact ⟨['n', 'u', 'l', 'l'], rfl, balanced_of_plain (by simp [plain])⟩
  · obtain ⟨-, rfl⟩ := Prod.mk.inj (Option.some.inj h)
    exact ⟨['N', 'a', 'N'], rfl, balanced_of_plain (by simp [plain])⟩
  · obtain ⟨-, rfl⟩ := Prod.mk.inj (Option.some.inj h)
    exact ⟨['I', 'n', 'f', 'i', 'n', 'i', 't', 'y'], rfl, balanced_of_plain (by simp [plain])⟩
  · obtain ⟨-, rfl⟩ := Prod.mk.inj (Option.some.inj h)
    exact ⟨['-', 'I', 'n', 'f', 'i', 'n', 'i', 't', 'y'], rfl, balanced_of_plain (by simp [plain])⟩
  · exact readNumber_consumes h

/-- A scalar is no object. -/
lemma readScalar_ne_obj (text : List Char) (members : Fields) (rest : List Char) :
    readScalar float text ≠ some (some (.obj members), rest) := by
  intro h
  unfold readScalar at h
  split at h
  case h_7 =>
    unfold readNumber at h
    dsimp only at h
    split_ifs at h
    · cases (Prod.mk.inj (Option.some.inj h)).1
    · cases (Prod.mk.inj (Option.some.inj h)).1
    · obtain ⟨q, -, hq⟩ := Option.map_eq_some_iff.mp (Prod.mk.inj (Option.some.inj h)).1
      cases hq
  all_goals cases (Prod.mk.inj (Option.some.inj h)).1

/-! ### Values -/

/-- Braces around what is balanced. -/
lemma Consumes.braces (h : Consumes Balanced text ('\x7d' :: rest)) :
    Consumes Balanced ('\x7b' :: text) rest := by
  obtain ⟨inner, rfl, hinner⟩ := h
  exact ⟨'\x7b' :: inner ++ '\x7d' :: [], by simp, .braces hinner .nil⟩

/-- White space before a closing brace. -/
lemma consumes_closing (h : (skipWs text).head? = some '\x7d') :
    Consumes Balanced text ('\x7d' :: (skipWs text).tail) := by
  obtain ⟨rest, hrest⟩ := List.head?_eq_some_iff.mp h
  have hconsumes := consumes_skipWs text
  rw [hrest] at hconsumes ⊢
  exact hconsumes

/-- Every value is balanced. The members of one are balanced up to the brace that closes it. -/
lemma read_consumes (n : Nat) :
    (∀ text value rest, readValue float n text = some (value, rest) →
      Consumes Balanced text rest) ∧
    (∀ text members members' rest, readMembers float n text members = some (members', rest) →
      Consumes Balanced text ('\x7d' :: rest)) ∧
    (∀ text items rest, readItems float n text = some (items, rest) →
      Consumes Balanced text rest) := by
  induction n with
  | zero => exact ⟨by simp [readValue], by simp [readMembers], by simp [readItems]⟩
  | succ n ih =>
    obtain ⟨ihvalue, ihmembers, ihitems⟩ := ih
    refine ⟨?_, ?_, ?_⟩
    case refine_1 =>
      intro text value rest h
      cases text with
      | nil => cases h
      | cons ch tail =>
        rw [readValue] at h
        split_ifs at h with hobj hempty harr hnone hstr
        · obtain ⟨-, rfl⟩ := Prod.mk.inj (Option.some.inj h)
          exact hobj ▸ (consumes_closing hempty).braces
        · obtain ⟨⟨members, rest'⟩, hmembers, h⟩ := Option.map_eq_some_iff.mp h
          obtain ⟨-, rfl⟩ := Prod.mk.inj h
          exact hobj ▸ ((consumes_skipWs tail).balanced_trans (ihmembers _ _ _ _ hmembers)).braces
        · obtain ⟨-, rfl⟩ := Prod.mk.inj (Option.some.inj h)
          exact harr ▸ (consumes_cons (by decide)).balanced_trans
            (consumes_punctuation (by decide) hnone)
        · obtain ⟨⟨items, rest'⟩, hitems, h⟩ := Option.map_eq_some_iff.mp h
          obtain ⟨-, rfl⟩ := Prod.mk.inj h
          exact harr ▸ (consumes_cons (by decide)).balanced_trans
            ((consumes_skipWs tail).balanced_trans (ihitems _ _ _ hitems))
        · obtain ⟨⟨string, rest'⟩, hstring, h⟩ := Option.map_eq_some_iff.mp h
          obtain ⟨-, rfl⟩ := Prod.mk.inj h
          exact hstr ▸ readString_consumes hstring
        · exact readScalar_consumes h
    case refine_2 =>
      intro text members members' rest h
      cases text with
      | nil => cases h
      | cons ch tail =>
        rw [readMembers] at h
        split_ifs at h with hquote
        obtain ⟨⟨key, afterKey⟩, hkey, hrest⟩ := Option.bind_eq_some_iff.mp h
        dsimp only at hrest
        split_ifs at hrest with hcolon
        obtain ⟨⟨value, afterValue⟩, hvalue, hrest⟩ := Option.bind_eq_some_iff.mp hrest
        have hmember : Consumes Balanced (ch :: tail) afterValue :=
          (hquote ▸ readString_consumes hkey : Consumes Balanced (ch :: tail) afterKey).balanced_trans
            ((consumes_punctuation (by decide) hcolon).balanced_trans
              ((consumes_skipWs _).balanced_trans (ihvalue _ _ _ hvalue)))
        dsimp only at hrest
        split_ifs at hrest with hcomma hclose
        · exact hmember.balanced_trans ((consumes_punctuation (by decide) hcomma).balanced_trans
            ((consumes_skipWs _).balanced_trans (ihmembers _ _ _ _ hrest)))
        · obtain ⟨-, rfl⟩ := Prod.mk.inj (Option.some.inj hrest)
          exact hmember.balanced_trans (consumes_closing hclose)
    case refine_3 =>
      intro text items rest h
      rw [readItems] at h
      obtain ⟨⟨value, afterValue⟩, hvalue, hrest⟩ := Option.bind_eq_some_iff.mp h
      have hitem := ihvalue _ _ _ hvalue
      dsimp only at hrest
      split_ifs at hrest with hcomma hclose
      · obtain ⟨⟨more, rest'⟩, hmore, hrest⟩ := Option.map_eq_some_iff.mp hrest
        obtain ⟨-, rfl⟩ := Prod.mk.inj hrest
        exact hitem.balanced_trans ((consumes_punctuation (by decide) hcomma).balanced_trans
          ((consumes_skipWs _).balanced_trans (ihitems _ _ _ hmore)))
      · obtain ⟨-, rfl⟩ := Prod.mk.inj (Option.some.inj hrest)
        exact hitem.balanced_trans (consumes_punctuation (by decide) hclose)

/-- An object is spelled between braces, with balanced text between them. -/
theorem spelled_obj {members : Fields} (h : spelled float text = some (some (.obj members))) :
    ∃ inner, text = '\x7b' :: inner ++ ['\x7d'] ∧ Balanced inner := by
  unfold spelled at h
  split at h
  · rename_i value hread
    obtain rfl := Option.some.inj h
    cases text with
    | nil => cases hread
    | cons ch tail =>
      rw [readValue] at hread
      split_ifs at hread with hobj hempty harr hnone hstr
      · obtain ⟨-, htail⟩ := Prod.mk.inj (Option.some.inj hread)
        obtain ⟨inner, hinner, hbalanced⟩ := consumes_closing hempty
        exact ⟨inner, by rw [hobj, hinner, htail]; rfl, hbalanced⟩
      · obtain ⟨⟨members', rest'⟩, hmembers, hread⟩ := Option.map_eq_some_iff.mp hread
        obtain ⟨-, rfl⟩ := Prod.mk.inj hread
        obtain ⟨inner, hinner, hbalanced⟩ :=
          (consumes_skipWs tail).balanced_trans ((read_consumes _).2.1 _ _ _ _ hmembers)
        exact ⟨inner, by rw [hobj, hinner]; rfl, hbalanced⟩
      · cases Option.some.inj hread
      · obtain ⟨⟨items, rest'⟩, -, hread⟩ := Option.map_eq_some_iff.mp hread
        obtain ⟨found, -, hfound⟩ := Option.map_eq_some_iff.mp (Prod.mk.inj hread).1
        cases hfound
      · obtain ⟨⟨string, rest'⟩, -, hread⟩ := Option.map_eq_some_iff.mp hread
        obtain ⟨found, -, hfound⟩ := Option.map_eq_some_iff.mp (Prod.mk.inj hread).1
        cases hfound
      · exact absurd hread (readScalar_ne_obj _ _ _)
  · cases h

/-! ### Rounds -/

lemma Consumes.length_le {P : List Char → Prop} (h : Consumes P text rest) :
    rest.length ≤ text.length := by
  obtain ⟨token, rfl, -⟩ := h
  simp

lemma length_skipWs_le (text : List Char) : (skipWs text).length ≤ text.length :=
  (consumes_skipWs text).length_le

/-- What follows a character behind white space is shorter. -/
lemma length_punctuation_lt (h : (skipWs text).head? = some ch) :
    (skipWs (skipWs text).tail).length < text.length := by
  have hskip := length_skipWs_le text
  have htail := length_skipWs_le (skipWs text).tail
  obtain ⟨rest, hrest⟩ := List.head?_eq_some_iff.mp h
  rw [hrest] at hskip htail ⊢
  simp only [List.tail_cons, List.length_cons] at hskip htail ⊢
  omega

/-- A round more changes nothing once there are two for each character. -/
lemma read_stable (n : Nat) :
    (∀ text, 2 * text.length + 1 ≤ n → readValue float n text = readValue float (n + 1) text) ∧
    (∀ text members, 2 * text.length + 2 ≤ n →
      readMembers float n text members = readMembers float (n + 1) text members) ∧
    (∀ text, 2 * text.length + 2 ≤ n → readItems float n text = readItems float (n + 1) text) := by
  induction n with
  | zero => exact ⟨fun _ h => by omega, fun _ _ h => by omega, fun _ h => by omega⟩
  | succ n ih =>
    obtain ⟨ihvalue, ihmembers, ihitems⟩ := ih
    refine ⟨?_, ?_, ?_⟩
    case refine_1 =>
      intro text hn
      cases text with
      | nil => rfl
      | cons ch tail =>
        have hskip := length_skipWs_le tail
        rw [List.length_cons] at hn
        rw [readValue, readValue, ihmembers _ _ (by omega), ihitems _ (by omega)]
    case refine_2 =>
      intro text members hn
      cases text with
      | nil => rfl
      | cons ch tail =>
        rw [List.length_cons] at hn
        rw [readMembers, readMembers]
        split_ifs with hquote
        · refine Option.bind_congr fun (key, afterKey) hfound => ?_
          have hkey := (readString_consumes hfound).length_le
          dsimp only
          split_ifs with hcolon
          · have hcolon := length_punctuation_lt hcolon
            rw [List.length_cons] at hkey
            rw [← ihvalue _ (by omega)]
            refine Option.bind_congr fun (value, afterValue) hfound => ?_
            have hvalue := ((read_consumes n).1 _ _ _ hfound).length_le
            dsimp only
            split_ifs with hcomma
            · have hcomma := length_punctuation_lt hcomma
              exact ihmembers _ _ (by omega)
            · rfl
            · rfl
          · rfl
        · rfl
    case refine_3 =>
      intro text hn
      rw [readItems, readItems, ← ihvalue _ (by omega)]
      refine Option.bind_congr fun (value, afterValue) hfound => ?_
      have hvalue := ((read_consumes n).1 _ _ _ hfound).length_le
      dsimp only
      split_ifs with hcomma
      · have hcomma := length_punctuation_lt hcomma
        rw [ihitems _ (by omega)]
      · rfl
      · rfl

/-- The reader of a whole text has rounds enough. -/
lemma spelled_of_le {n : Nat} (h : 2 * text.length + 2 ≤ n) :
    spelled float text = match readValue float n text with
      | some (value, []) => some value
      | _ => none := by
  induction n, h using Nat.le_induction with
  | base => rfl
  | succ n hn ih => rw [ih, (read_stable n).1 text (by omega)]

end JsonText

end Codey
