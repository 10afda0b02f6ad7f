import Mathlib.Data.List.Basic

/-!
# JSON values and objects

Strict JSON as a program keeps it in memory. An object lists its members in key order, each
once, as a sorting encoder writes it, so that two values have the same text exactly when they are
equal; `Json.pyEq` is the coarser equality of the host language, which compares numbers by value
and counts `true` as one.

`Fields` is an object under construction: `{**a, **b}` puts the members of `b` before those of
`a`, and a lookup takes the first member of its name.
-/

namespace Codey

/-- A strict JSON value: no NaN, no infinity, no negative zero. -/
inductive Json where
  | null
  | bool (b : Bool)
  | int (n : Int)
  | float (q : Rat)
  | str (s : String)
  | arr (items : List Json)
  | obj (members : List (String × Json))

namespace Json

mutual
/-- Equality of values is decidable. -/
def decEq : (x y : Json) → Decidable (x = y)
  | .null, .null => isTrue rfl
  | .bool b, .bool c => if h : b = c then isTrue (h ▸ rfl) else isFalse (by simpa using h)
  | .int m, .int n => if h : m = n then isTrue (h ▸ rfl) else isFalse (by simpa using h)
  | .float p, .float q => if h : p = q then isTrue (h ▸ rfl) else isFalse (by simpa using h)
  | .str s, .str t => if h : s = t then isTrue (h ▸ rfl) else isFalse (by simpa using h)
  | .arr xs, .arr ys =>
    match decEqItems xs ys with
    | isTrue h => isTrue (h ▸ rfl)
    | isFalse h => isFalse (by simpa using h)
  | .obj fs, .obj gs =>
    match decEqMembers fs gs with
    | isTrue h => isTrue (h ▸ rfl)
    | isFalse h => isFalse (by simpa using h)
  | .null, .bool _ | .null, .int _ | .null, .float _ | .null, .str _ | .null, .arr _
  | .null, .obj _ | .bool _, .null | .bool _, .int _ | .bool _, .float _ | .bool _, .str _
  | .bool _, .arr _ | .bool _, .obj _ | .int _, .null | .int _, .bool _ | .int _, .float _
  | .int _, .str _ | .int _, .arr _ | .int _, .obj _ | .float _, .null | .float _, .bool _
  | .float _, .int _ | .float _, .str _ | .float _, .arr _ | .float _, .obj _ | .str _, .null
  | .str _, .bool _ | .str _, .int _ | .str _, .float _ | .str _, .arr _ | .str _, .obj _
  | .arr _, .null | .arr _, .bool _ | .arr _, .int _ | .arr _, .float _ | .arr _, .str _
  | .arr _, .obj _ | .obj _, .null | .obj _, .bool _ | .obj _, .int _ | .obj _, .float _
  | .obj _, .str _ | .obj _, .arr _ => isFalse (by simp)

/-- Equality of lists of values. -/
def decEqItems : (xs ys : List Json) → Decidable (xs = ys)
  | [], [] => isTrue rfl
  | x :: xs, y :: ys =>
    match decEq x y, decEqItems xs ys with
    | isTrue h, isTrue h' => isTrue (h ▸ h' ▸ rfl)
    | isFalse h, _ => isFalse (by simp [h])
    | _, isFalse h => isFalse (by simp [h])
  | [], _ :: _ | _ :: _, [] => isFalse (by simp)

/-- Equality of lists of members. -/
def decEqMembers : (fs gs : List (String × Json)) → Decidable (fs = gs)
  | [], [] => isTrue rfl
  | (k, x) :: fs, (l, y) :: gs =>
    if hk : k = l then
      match decEq x y, decEqMembers fs gs with
      | isTrue h, isTrue h' => isTrue (hk ▸ h ▸ h' ▸ rfl)
      | isFalse h, _ => isFalse (by simp [h])
      | _, isFalse h => isFalse (by simp [h])
    else isFalse (by simp [hk])
  | [], _ :: _ | _ :: _, [] => isFalse (by simp)
end

instance : DecidableEq Json := decEq

/-- The number a value stands for: the host language counts a boolean as a number. -/
def number? : Json → Option Rat
  | .bool b => some (if b then 1 else 0)
  | .int n => some n
  | .float q => some q
  | _ => none

mutual
/-- Equality in the host language. -/
def pyEq : Json → Json → Bool
  | .null, y => match y with | .null => true | _ => false
  | .str s, y => match y with | .str t => s == t | _ => false
  | .arr xs, y => match y with | .arr ys => pyEqItems xs ys | _ => false
  | .obj fs, y => match y with | .obj gs => pyEqMembers fs gs | _ => false
  | .bool b, y => y.number? == some (if b then 1 else 0)
  | .int n, y => y.number? == some (n : Rat)
  | .float q, y => y.number? == some q

/-- Item by item equality of lists. -/
def pyEqItems : List Json → List Json → Bool
  | [], [] => true
  | x :: xs, y :: ys => pyEq x y && pyEqItems xs ys
  | [], _ :: _ | _ :: _, [] => false

/-- Member by member equality of objects. -/
def pyEqMembers : List (String × Json) → List (String × Json) → Bool
  | [], [] => true
  | (k, x) :: fs, (l, y) :: gs => k == l && pyEq x y && pyEqMembers fs gs
  | [], _ :: _ | _ :: _, [] => false
end

mutual
@[simp] lemma pyEq_refl : ∀ x : Json, x.pyEq x = true
  | .null => rfl
  | .bool b => by simp [pyEq, number?]
  | .int n => by simp [pyEq, number?]
  | .float q => by simp [pyEq, number?]
  | .str s => by simp [pyEq]
  | .arr xs => by simpa [pyEq] using pyEqItems_refl xs
  | .obj fs => by simpa [pyEq] using pyEqMembers_refl fs

@[simp] lemma pyEqItems_refl : ∀ xs : List Json, pyEqItems xs xs = true
  | [] => rfl
  | x :: xs => by simp [pyEqItems, pyEq_refl x, pyEqItems_refl xs]

@[simp] lemma pyEqMembers_refl : ∀ fs : List (String × Json), pyEqMembers fs fs = true
  | [] => rfl
  | (k, x) :: fs => by simp [pyEqMembers, pyEq_refl x, pyEqMembers_refl fs]
end

mutual
/-- Whether a list occurs in a value. -/
def hasArr : Json → Bool
  | .arr _ => true
  | .obj members => hasArrMembers members
  | .null | .bool _ | .int _ | .float _ | .str _ => false

/-- Whether a list occurs in a member of an object. -/
def hasArrMembers : List (String × Json) → Bool
  | [] => false
  | (_, v) :: members => hasArr v || hasArrMembers members
end

/-- Truth of a value in a condition. -/
def truthy : Json → Bool
  | .null => false
  | .bool b => b
  | .int n => n != 0
  | .float q => q != 0
  | .str s => s != ""
  | .arr xs => !xs.isEmpty
  | .obj fs => !fs.isEmpty

/-- The string, when the value is one. -/
def str? : Json → Option String
  | .str s => some s
  | _ => none

@[simp] lemma str?_str (s : String) : (Json.str s).str? = some s := rfl

lemma str?_eq_some {x : Json} {s : String} : x.str? = some s ↔ x = .str s := by
  cases x <;> simp [str?]

end Json

/-- An object under construction; the first member of a name is the one that counts. -/
abbrev Fields := List (String × Json)

namespace Fields

/-- The value of a key, `state.get(key)`. -/
def get? : Fields → String → Option Json
  | [], _ => none
  | (k, v) :: fs, key => if k = key then some v else get? fs key

/-- `{**a, **b}`. -/
def merge (a b : Fields) : Fields := b ++ a

/-- `state.pop(key, None)`. -/
def pop : Fields → String → Fields
  | [], _ => []
  | (k, v) :: fs, key => if k = key then pop fs key else (k, v) :: pop fs key

/-- `d[key] = value` in an object that lists its members in key order. -/
def set : Fields → String → Json → Fields
  | [], key, value => [(key, value)]
  | (k, v) :: fs, key, value =>
    if k = key then (key, value) :: fs
    else if key < k then (key, value) :: (k, v) :: fs
    else (k, v) :: set fs key value

/-- `{key: d[key] for key in keys if key in d}`. -/
def restrict (fs : Fields) (keys : List String) : Fields :=
  keys.filterMap fun key => (fs.get? key).map (key, ·)

/-- Truth of `state.get(key)`. -/
def truthy (fs : Fields) (key : String) : Bool := (fs.get? key).any Json.truthy

@[simp] lemma get?_nil (key : String) : get? [] key = none := rfl

@[simp] lemma get?_cons (k key : String) (v : Json) (fs : Fields) :
    get? ((k, v) :: fs) key = if k = key then some v else fs.get? key := rfl

@[simp] lemma get?_append (a b : Fields) (key : String) :
    get? (a ++ b) key = (a.get? key).or (b.get? key) := by
  induction a with
  | nil => simp
  | cons p a ih =>
    obtain ⟨k, v⟩ := p
    simp only [List.cons_append, get?_cons]
    split_ifs <;> simp [ih]

@[simp] lemma get?_merge (a b : Fields) (key : String) :
    (a.merge b).get? key = (b.get? key).or (a.get? key) := by
  simp [merge]

@[simp] lemma get?_pop (fs : Fields) (k key : String) :
    (fs.pop k).get? key = if k = key then none else fs.get? key := by
  induction fs with
  | nil => simp [pop]
  | cons p fs ih =>
    obtain ⟨l, v⟩ := p
    simp only [pop, get?_cons]
    split_ifs with hl hk hlk <;> simp_all

@[simp] lemma get?_restrict (fs : Fields) (keys : List String) (key : String) :
    (fs.restrict keys).get? key = if key ∈ keys then fs.get? key else none := by
  induction keys with
  | nil => simp [restrict]
  | cons k keys ih =>
    simp only [restrict, List.filterMap_cons] at ih ⊢
    by_cases hk : k = key
    · subst hk
      cases h : fs.get? k with
      | none => simpa [h] using ih
      | some v => simp
    · have hk' : key ≠ k := fun h => hk h.symm
      cases fs.get? k <;> simp [ih, hk, hk']

@[simp] lemma get?_set (fs : Fields) (k key : String) (v : Json) :
    (fs.set k v).get? key = if k = key then some v else fs.get? key := by
  induction fs with
  | nil => simp [set]
  | cons p fs ih =>
    obtain ⟨l, w⟩ := p
    simp only [set]
    split_ifs with hl hlt hk hk
    all_goals simp_all [get?_cons]

/-- Truth of a key depends on its value only. -/
lemma truthy_congr {a b : Fields} {key : String} (h : a.get? key = b.get? key) :
    a.truthy key = b.truthy key := by
  simp [truthy, h]

end Fields

end Codey
