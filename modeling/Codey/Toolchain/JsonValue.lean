import Codey.Lib.Check
import Codey.Lib.Json

/-!
# Strict JSON values

The decoder that detaches what a model has sent. It counts values and bytes of text on the way and
raises as soon as one of them passes its limit.
-/

namespace Codey

namespace Toolchain

structure JsonLimits where
  maxDepth : Nat := 64
  maxNodes : Nat := 1000000
  maxStringBytes : Nat := 32 * 1024 * 1024

def defaultJsonLimits : JsonLimits := {}

/-- `_Decoder`: the counts so far. -/
structure Decoder where
  nodes : Nat := 0
  stringBytes : Nat := 0

namespace Decoder

variable (limits : JsonLimits)

def string (d : Decoder) (value : String) : Except String Decoder :=
  if limits.maxStringBytes < d.stringBytes + value.utf8ByteSize then
    .error "JSON string byte budget exceeded"
  else .ok { d with stringBytes := d.stringBytes + value.utf8ByteSize }

/-- Count a value. -/
def enter (d : Decoder) (depth : Nat) : Except String Decoder :=
  if limits.maxDepth < depth ∨ limits.maxNodes < d.nodes + 1 then
    .error "JSON depth or node budget exceeded"
  else .ok { d with nodes := d.nodes + 1 }

mutual
def value (d : Decoder) (depth : Nat) : Json → Except String Decoder
  | .null | .bool _ | .int _ | .float _ => d.enter limits depth
  | .str s => d.enter limits depth >>= fun d => d.string limits s
  | .arr items => d.enter limits depth >>= fun d => values d (depth + 1) items
  | .obj members => d.enter limits depth >>= fun d => fields d (depth + 1) members

def values (d : Decoder) (depth : Nat) : List Json → Except String Decoder
  | [] => .ok d
  | x :: xs => value d depth x >>= fun d => values d depth xs

def fields (d : Decoder) (depth : Nat) : List (String × Json) → Except String Decoder
  | [] => .ok d
  | (key, x) :: rest =>
    value d depth x >>= fun d => d.string limits key >>= fun d => fields d depth rest
end

end Decoder

/-- What a model may send: strict JSON, or a value that holds something foreign to it (a lone
surrogate, a number that is not finite), which the decoder names. -/
inductive Sent where
  | json (value : Json)
  | foreign (message : String)

def decodeJsonObject (limits : JsonLimits) : Sent → Except String Fields
  | .foreign message => .error message
  | .json value =>
    match Decoder.value limits {} 0 value with
    | .error message => .error message
    | .ok _ =>
      match value with
      | .obj members => .ok members
      | _ => .error "JSON value must be an object"

def requireJsonString (value : Json) (field : String) : Except String String :=
  match value with
  | .str s => .ok s
  | _ => .error s!"{field} must be a string"

def requireJsonInteger (value : Json) (field : String) : Except String Int :=
  match value with
  | .int n => .ok n
  | _ => .error s!"{field} must be an integer"

def requireJsonBoolean (value : Json) (field : String) : Except String Bool :=
  match value with
  | .bool b => .ok b
  | _ => .error s!"{field} must be a boolean"

@[simp] lemma requireJsonString_str (s field : String) :
    requireJsonString (.str s) field = .ok s := rfl

@[simp] lemma requireJsonInteger_int (n : Int) (field : String) :
    requireJsonInteger (.int n) field = .ok n := rfl

@[simp] lemma requireJsonBoolean_bool (b : Bool) (field : String) :
    requireJsonBoolean (.bool b) field = .ok b := rfl

end Toolchain

/-! ### Sizes -/

namespace Json

mutual
/-- The number of values in a value. -/
def nodes : Json → Nat
  | .null | .bool _ | .int _ | .float _ | .str _ => 1
  | .arr items => 1 + nodesItems items
  | .obj members => 1 + nodesMembers members

def nodesItems : List Json → Nat
  | [] => 0
  | x :: xs => nodes x + nodesItems xs

def nodesMembers : List (String × Json) → Nat
  | [] => 0
  | (_, x) :: rest => nodes x + nodesMembers rest
end

mutual
/-- The bytes of text in a value, keys included. -/
def bytes : Json → Nat
  | .null | .bool _ | .int _ | .float _ => 0
  | .str s => s.utf8ByteSize
  | .arr items => bytesItems items
  | .obj members => bytesMembers members

def bytesItems : List Json → Nat
  | [] => 0
  | x :: xs => bytes x + bytesItems xs

def bytesMembers : List (String × Json) → Nat
  | [] => 0
  | (key, x) :: rest => bytes x + key.utf8ByteSize + bytesMembers rest
end

mutual
/-- How deep values are nested in a value. -/
def height : Json → Nat
  | .null | .bool _ | .int _ | .float _ | .str _ => 0
  | .arr items => heightItems items
  | .obj members => heightMembers members

def heightItems : List Json → Nat
  | [] => 0
  | x :: xs => max (1 + height x) (heightItems xs)

def heightMembers : List (String × Json) → Nat
  | [] => 0
  | (_, x) :: rest => max (1 + height x) (heightMembers rest)
end

end Json

namespace Toolchain

namespace Decoder

variable {limits : JsonLimits} {d d' : Decoder} {depth n b n' b' : Nat}

def Within (limits : JsonLimits) (d : Decoder) : Prop :=
  d.nodes ≤ limits.maxNodes ∧ d.stringBytes ≤ limits.maxStringBytes

/-- Something with `n` values and `b` bytes of text is counted. -/
def Takes (limits : JsonLimits) (d d' : Decoder) (n b : Nat) : Prop :=
  d' = ⟨d.nodes + n, d.stringBytes + b⟩ ∧ Within limits d'

lemma takes_zero (hd : Within limits d) : Takes limits d d' 0 0 ↔ d = d' := by
  constructor
  · rintro ⟨rfl, -⟩
    rfl
  · rintro rfl
    exact ⟨rfl, hd⟩

lemma takes_comp :
    (∃ m, Takes limits d m n b ∧ Takes limits m d' n' b') ↔ Takes limits d d' (n + n') (b + b') := by
  constructor
  · rintro ⟨m, ⟨rfl, -⟩, rfl, hw⟩
    exact ⟨by simp [Nat.add_assoc], hw⟩
  · rintro ⟨rfl, hnodes, hbytes⟩
    refine ⟨⟨d.nodes + n, d.stringBytes + b⟩, ⟨rfl, ?_, ?_⟩, by simp [Nat.add_assoc], hnodes, hbytes⟩
    · exact Nat.le_trans (Nat.add_le_add_left (Nat.le_add_right n n') _) hnodes
    · exact Nat.le_trans (Nat.add_le_add_left (Nat.le_add_right b b') _) hbytes

lemma string_eq_ok (hd : Within limits d) (d' : Decoder) (value : String) :
    d.string limits value = .ok d' ↔ Takes limits d d' 0 value.utf8ByteSize := by
  unfold string Takes
  split_ifs with h
  · constructor
    · intro heq
      cases heq
    · rintro ⟨rfl, -, hbytes⟩
      exact absurd h (Nat.not_lt.mpr hbytes)
  · constructor
    · intro heq
      obtain rfl := Except.ok.inj heq
      exact ⟨rfl, hd.1, Nat.not_lt.mp h⟩
    · rintro ⟨rfl, -⟩
      rfl

lemma enter_eq_ok (hd : Within limits d) (depth : Nat) (d' : Decoder) :
    d.enter limits depth = .ok d' ↔ depth ≤ limits.maxDepth ∧ Takes limits d d' 1 0 := by
  unfold enter Takes
  split_ifs with h
  · constructor
    · intro heq
      cases heq
    · rintro ⟨hdepth, rfl, hnodes, -⟩
      rcases h with h | h
      · exact absurd h (Nat.not_lt.mpr hdepth)
      · exact absurd h (Nat.not_lt.mpr hnodes)
  · obtain ⟨hdepth, hnodes⟩ := not_or.mp h
    constructor
    · intro heq
      obtain rfl := Except.ok.inj heq
      exact ⟨Nat.not_lt.mp hdepth, rfl, Nat.not_lt.mp hnodes, hd.2⟩
    · rintro ⟨-, rfl, -⟩
      rfl

/-- Two decoders one after the other. -/
lemma bind_eq_ok {α : Type} (d' : Decoder) {f : Except α Decoder} {g : Decoder → Except α Decoder}
    {P Q : Prop} (hf : ∀ m, f = .ok m ↔ P ∧ Takes limits d m n b)
    (hg : ∀ m, Within limits m → P → (g m = .ok d' ↔ Q ∧ Takes limits m d' n' b')) :
    f >>= g = .ok d' ↔ (P ∧ Q) ∧ Takes limits d d' (n + n') (b + b') := by
  rw [except_bind_eq_ok, ← takes_comp]
  constructor
  · rintro ⟨m, hm, hd'⟩
    obtain ⟨hP, htakes⟩ := (hf m).mp hm
    obtain ⟨hQ, hrest⟩ := (hg m htakes.2 hP).mp hd'
    exact ⟨⟨hP, hQ⟩, m, htakes, hrest⟩
  · rintro ⟨⟨hP, hQ⟩, m, htakes, hrest⟩
    exact ⟨m, (hf m).mpr ⟨hP, htakes⟩, (hg m htakes.2 hP).mpr ⟨hQ, hrest⟩⟩

mutual
/-- A value is decoded when it fits, and then its size is counted. -/
lemma value_eq_ok : ∀ (x : Json) {d : Decoder} (d' : Decoder) (depth : Nat), Within limits d →
    (value limits d depth x = .ok d' ↔
      depth + x.height ≤ limits.maxDepth ∧ Takes limits d d' x.nodes x.bytes)
  | .null, _, d', depth, hd | .bool _, _, d', depth, hd | .int _, _, d', depth, hd
  | .float _, _, d', depth, hd => enter_eq_ok hd depth d'
  | .str s, d, d', depth, hd => by
    have hstring : ∀ m, Within limits m → depth ≤ limits.maxDepth →
        (m.string limits s = .ok d' ↔ True ∧ Takes limits m d' 0 s.utf8ByteSize) := by
      intro m hm _
      rw [string_eq_ok hm d' s, true_and]
    have := bind_eq_ok d' (enter_eq_ok hd depth) hstring
    simpa only [value, Json.height, Json.nodes, Json.bytes, and_true, Nat.zero_add,
      Nat.add_zero] using this
  | .arr items, d, d', depth, hd => by
    have := bind_eq_ok d' (enter_eq_ok hd depth)
      fun m hm hdepth => values_eq_ok items hm hdepth
    rw [value, this, Json.height, Json.nodes, Json.bytes, Nat.zero_add,
      and_iff_right_of_imp (Nat.le_trans (Nat.le_add_right _ _))]
  | .obj members, d, d', depth, hd => by
    have := bind_eq_ok d' (enter_eq_ok hd depth)
      fun m hm hdepth => fields_eq_ok members hm hdepth
    rw [value, this, Json.height, Json.nodes, Json.bytes, Nat.zero_add,
      and_iff_right_of_imp (Nat.le_trans (Nat.le_add_right _ _))]

lemma values_eq_ok : ∀ (xs : List Json) {d d' : Decoder} {depth : Nat}, Within limits d →
    depth ≤ limits.maxDepth →
    (values limits d (depth + 1) xs = .ok d' ↔ depth + Json.heightItems xs ≤ limits.maxDepth ∧
      Takes limits d d' (Json.nodesItems xs) (Json.bytesItems xs))
  | [], d, d', depth, hd, hdepth => by
    simp only [values, Except.ok.injEq, Json.heightItems, Json.nodesItems, Json.bytesItems,
      Nat.add_zero, hdepth, true_and, takes_zero hd]
  | x :: xs, d, d', depth, hd, hdepth => by
    have := bind_eq_ok d' (fun m => value_eq_ok x m (depth + 1) hd)
      fun m hm _ => values_eq_ok xs hm hdepth
    rw [values, this, Json.heightItems, Json.nodesItems, Json.bytesItems]
    refine and_congr_left fun _ => ?_
    omega

lemma fields_eq_ok : ∀ (members : List (String × Json)) {d d' : Decoder} {depth : Nat},
    Within limits d → depth ≤ limits.maxDepth →
    (fields limits d (depth + 1) members = .ok d' ↔
      depth + Json.heightMembers members ≤ limits.maxDepth ∧
      Takes limits d d' (Json.nodesMembers members) (Json.bytesMembers members))
  | [], d, d', depth, hd, hdepth => by
    simp only [fields, Except.ok.injEq, Json.heightMembers, Json.nodesMembers, Json.bytesMembers,
      Nat.add_zero, hdepth, true_and, takes_zero hd]
  | (key, x) :: rest, d, d', depth, hd, hdepth => by
    have hrest : ∀ m, Within limits m → True →
        ((m.string limits key >>= fun d => fields limits d (depth + 1) rest) = .ok d' ↔
          (True ∧ depth + Json.heightMembers rest ≤ limits.maxDepth) ∧
            Takes limits m d' (0 + Json.nodesMembers rest)
              (key.utf8ByteSize + Json.bytesMembers rest)) := fun m hm _ =>
      bind_eq_ok d' (fun m' => (string_eq_ok hm m' key).trans (by rw [true_and]))
        fun m' hm' _ => fields_eq_ok rest hm' hdepth
    have := bind_eq_ok d' (fun m => value_eq_ok x m (depth + 1) hd)
      fun m hm _ => hrest m hm trivial
    rw [fields, this, Json.heightMembers, Json.nodesMembers, Json.bytesMembers, Nat.zero_add,
      ← Nat.add_assoc, true_and]
    refine and_congr_left fun _ => ?_
    omega
end

end Decoder

/-- The text and the values of an object fit the limits. -/
def Fits (limits : JsonLimits) (members : Fields) : Prop :=
  Json.heightMembers members ≤ limits.maxDepth ∧
    1 + Json.nodesMembers members ≤ limits.maxNodes ∧
    Json.bytesMembers members ≤ limits.maxStringBytes

/-- An object is decoded exactly when it fits, and is left as it is. -/
theorem decodeJsonObject_eq_ok {limits : JsonLimits} {members fields : Fields} :
    decodeJsonObject limits (.json (.obj members)) = .ok fields ↔
      Fits limits members ∧ fields = members := by
  have hwithin : Decoder.Within limits {} := ⟨Nat.zero_le _, Nat.zero_le _⟩
  have hvalue := fun d' => Decoder.value_eq_ok (.obj members) d' 0 hwithin
  have hfits : Fits limits members ↔ ∃ d', Decoder.value limits {} 0 (.obj members) = .ok d' := by
    simp only [hvalue, Decoder.Takes, Decoder.Within, Json.height, Json.nodes, Json.bytes,
      Nat.zero_add, Fits]
    constructor
    · rintro ⟨hdepth, hnodes, hbytes⟩
      exact ⟨_, hdepth, rfl, hnodes, hbytes⟩
    · rintro ⟨_, hdepth, rfl, hnodes, hbytes⟩
      exact ⟨hdepth, hnodes, hbytes⟩
  rw [hfits, decodeJsonObject]
  cases Decoder.value limits {} 0 (.obj members) with
  | error message => simp
  | ok d' => simp [eq_comm]

end Toolchain

/-! ### Parts -/

/-- A value whose sizes are no larger than those of another. -/
def Json.NoLarger (x y : Json) : Prop :=
  x.height ≤ y.height ∧ x.nodes ≤ y.nodes ∧ x.bytes ≤ y.bytes

lemma Json.noLarger_arr {x : Json} {items : List Json} (h : x ∈ items) :
    x.NoLarger (.arr items) := by
  simp only [NoLarger, height, nodes, bytes]
  induction items with
  | nil => cases h
  | cons y items ih =>
    simp only [heightItems, nodesItems, bytesItems]
    rcases List.mem_cons.mp h with rfl | h
    · omega
    · have := ih h
      omega

lemma Json.noLarger_obj {key : String} {x : Json} {members : Fields} (h : (key, x) ∈ members) :
    x.NoLarger (.obj members) := by
  simp only [NoLarger, height, nodes, bytes]
  induction members with
  | nil => cases h
  | cons member members ih =>
    obtain ⟨k, y⟩ := member
    simp only [heightMembers, nodesMembers, bytesMembers]
    rcases List.mem_cons.mp h with heq | h
    · obtain ⟨-, rfl⟩ := Prod.mk.inj heq
      omega
    · have := ih h
      omega

namespace Toolchain

def FitsValue (limits : JsonLimits) (x : Json) : Prop :=
  x.height ≤ limits.maxDepth ∧ x.nodes ≤ limits.maxNodes ∧ x.bytes ≤ limits.maxStringBytes

variable {limits : JsonLimits}

instance (limits : JsonLimits) (x : Json) : Decidable (FitsValue limits x) :=
  inferInstanceAs (Decidable (_ ∧ _ ∧ _))

lemma FitsValue.of_noLarger {x y : Json} (h : FitsValue limits y) (hle : x.NoLarger y) :
    FitsValue limits x :=
  ⟨Nat.le_trans hle.1 h.1, Nat.le_trans hle.2.1 h.2.1, Nat.le_trans hle.2.2 h.2.2⟩

lemma FitsValue.of_mem_arr {x : Json} {items : List Json} (h : FitsValue limits (.arr items))
    (hx : x ∈ items) : FitsValue limits x :=
  h.of_noLarger (Json.noLarger_arr hx)

lemma FitsValue.of_mem_obj {key : String} {x : Json} {members : Fields}
    (h : FitsValue limits (.obj members)) (hx : (key, x) ∈ members) : FitsValue limits x :=
  h.of_noLarger (Json.noLarger_obj hx)

/-- `encode_transport_value`, of what the transport makes of a value. -/
def encodeTransportValue (limits : JsonLimits) (x : Json) : Except String Json :=
  (Decoder.value limits {} 0 x).map fun _ => x

lemma encodeTransportValue_eq_ok {x y : Json} :
    encodeTransportValue limits x = .ok y ↔ FitsValue limits x ∧ y = x := by
  have hwithin : Decoder.Within limits {} := ⟨Nat.zero_le _, Nat.zero_le _⟩
  have hvalue := fun d' => Decoder.value_eq_ok x d' 0 hwithin
  have hfits : FitsValue limits x ↔ ∃ d', Decoder.value limits {} 0 x = .ok d' := by
    simp only [hvalue, Decoder.Takes, Decoder.Within, Nat.zero_add, FitsValue]
    constructor
    · rintro ⟨hdepth, hnodes, hbytes⟩
      exact ⟨_, hdepth, rfl, hnodes, hbytes⟩
    · rintro ⟨_, hdepth, rfl, hnodes, hbytes⟩
      exact ⟨hdepth, hnodes, hbytes⟩
  rw [hfits, encodeTransportValue]
  cases Decoder.value limits {} 0 x with
  | error message => simp [Except.map]
  | ok d' => simp [Except.map, eq_comm]

/-- A value is decoded as an object exactly when it is one that fits. -/
lemma decodeJsonObject_json {x : Json} {fields : Fields} :
    decodeJsonObject limits (.json x) = .ok fields ↔ FitsValue limits x ∧ x = .obj fields := by
  cases x with
  | obj members =>
    rw [decodeJsonObject_eq_ok, Json.obj.injEq]
    exact and_congr Iff.rfl eq_comm
  | _ =>
    constructor
    · intro h
      simp only [decodeJsonObject] at h
      split at h <;> cases h
    · rintro ⟨-, h⟩
      cases h

end Toolchain

end Codey
