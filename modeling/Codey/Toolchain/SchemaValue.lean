import Codey.Lib.Json

/-!
# Schema values

The values of the host language that a tool's schema is made of: lists and tuples differ there and
are one in JSON. A frozen schema holds no list.
-/

namespace Codey

namespace Toolchain

inductive SchemaValue where
  | null
  | bool (b : Bool)
  | int (n : Int)
  | float (q : Rat)
  | str (s : String)
  | list (items : List SchemaValue)
  | tuple (items : List SchemaValue)
  | mapping (members : List (String × SchemaValue))

namespace SchemaValue

mutual
/-- `_freeze_schema_value` -/
def freeze : SchemaValue → SchemaValue
  | .null => .null
  | .bool b => .bool b
  | .int n => .int n
  | .float q => .float q
  | .str s => .str s
  | .list items => .tuple (freezeItems items)
  | .tuple items => .tuple (freezeItems items)
  | .mapping members => .mapping (freezeMembers members)

def freezeItems : List SchemaValue → List SchemaValue
  | [] => []
  | x :: xs => freeze x :: freezeItems xs

def freezeMembers : List (String × SchemaValue) → List (String × SchemaValue)
  | [] => []
  | (key, x) :: rest => (key, freeze x) :: freezeMembers rest
end

mutual
/-- What the transport makes of a value. -/
def toJson : SchemaValue → Json
  | .null => .null
  | .bool b => .bool b
  | .int n => .int n
  | .float q => .float q
  | .str s => .str s
  | .list items => .arr (toJsonItems items)
  | .tuple items => .arr (toJsonItems items)
  | .mapping members => .obj (toJsonMembers members)

def toJsonItems : List SchemaValue → List Json
  | [] => []
  | x :: xs => toJson x :: toJsonItems xs

def toJsonMembers : List (String × SchemaValue) → Fields
  | [] => []
  | (key, x) :: rest => (key, toJson x) :: toJsonMembers rest
end

mutual
/-- A value that was read from JSON. -/
def ofJson : Json → SchemaValue
  | .null => .null
  | .bool b => .bool b
  | .int n => .int n
  | .float q => .float q
  | .str s => .str s
  | .arr items => .list (ofJsonItems items)
  | .obj members => .mapping (ofJsonMembers members)

def ofJsonItems : List Json → List SchemaValue
  | [] => []
  | x :: xs => ofJson x :: ofJsonItems xs

def ofJsonMembers : List (String × Json) → List (String × SchemaValue)
  | [] => []
  | (key, x) :: rest => (key, ofJson x) :: ofJsonMembers rest
end

mutual
lemma toJson_freeze : ∀ x : SchemaValue, x.freeze.toJson = x.toJson
  | .null | .bool _ | .int _ | .float _ | .str _ => rfl
  | .list items => by simp only [freeze, toJson, toJsonItems_freeze items]
  | .tuple items => by simp only [freeze, toJson, toJsonItems_freeze items]
  | .mapping members => by simp only [freeze, toJson, toJsonMembers_freeze members]

lemma toJsonItems_freeze : ∀ xs : List SchemaValue, toJsonItems (freezeItems xs) = toJsonItems xs
  | [] => rfl
  | x :: xs => by simp only [freezeItems, toJsonItems, toJson_freeze x, toJsonItems_freeze xs]

lemma toJsonMembers_freeze : ∀ members : List (String × SchemaValue),
    toJsonMembers (freezeMembers members) = toJsonMembers members
  | [] => rfl
  | (key, x) :: rest => by
    simp only [freezeMembers, toJsonMembers, toJson_freeze x, toJsonMembers_freeze rest]
end

mutual
lemma freeze_ofJson_toJson : ∀ x : SchemaValue, (ofJson x.toJson).freeze = x.freeze
  | .null | .bool _ | .int _ | .float _ | .str _ => rfl
  | .list items => by simp only [toJson, ofJson, freeze, freezeItems_ofJson_toJson items]
  | .tuple items => by simp only [toJson, ofJson, freeze, freezeItems_ofJson_toJson items]
  | .mapping members => by simp only [toJson, ofJson, freeze, freezeMembers_ofJson_toJson members]

lemma freezeItems_ofJson_toJson : ∀ xs : List SchemaValue,
    freezeItems (ofJsonItems (toJsonItems xs)) = freezeItems xs
  | [] => rfl
  | x :: xs => by
    simp only [toJsonItems, ofJsonItems, freezeItems, freeze_ofJson_toJson x,
      freezeItems_ofJson_toJson xs]

lemma freezeMembers_ofJson_toJson : ∀ members : List (String × SchemaValue),
    freezeMembers (ofJsonMembers (toJsonMembers members)) = freezeMembers members
  | [] => rfl
  | (key, x) :: rest => by
    simp only [toJsonMembers, ofJsonMembers, freezeMembers, freeze_ofJson_toJson x,
      freezeMembers_ofJson_toJson rest]
end

end SchemaValue

end Toolchain

end Codey
