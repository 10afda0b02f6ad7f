import Codey.Toolchain.ToolArgsRepair

/-!
# The definition of a tool

A definition declares the arguments of a tool, and supplied arguments are checked against it: what
is required is there, nothing else is, and each value has its declared type. The check returns the
text of an error, which is empty when there is none, or it raises.
-/

namespace Codey

namespace Toolchain

/-- What the checks take from the language: the lower case of a text, the text of a value, its
representation and its JSON text, the finite number that a text stands for, and the search for a
pattern, which may raise. -/
structure Language where
  lower : String → String
  str : Json → String
  repr : Json → String
  dumps : Json → String
  float : String → Option Rat
  search : String → String → Except String Bool

structure ToolSpec where
  name : String
  aliases : List String := []
  grant : String := ""
  parameters : Fields := []
  required : List String := []
  executor : String := ""
  deriving DecidableEq

variable (lang : Language)

/-- `raw.strip().lower()` -/
def Language.normal (raw : String) : String := lang.lower (String.ofList (strip raw.toList))

/-- `str(value or "")` -/
def Language.textOr (value : Option Json) : String :=
  match value with
  | some value => if value.truthy then lang.str value else ""
  | none => ""

/-! ### Schemas -/

def typeName : Json → String
  | .null => "NoneType"
  | .bool _ => "bool"
  | .int _ => "int"
  | .float _ => "float"
  | .str _ => "str"
  | .arr _ => "list"
  | .obj _ => "dict"

/-- `schema.get(key)`, when the schema is a mapping. -/
def schemaGet? (schema : Json) (key : String) : Option Json :=
  match schema with
  | .obj members => Fields.get? members key
  | _ => none

def specWant (schema : Json) : String := lang.normal (lang.textOr (schemaGet? schema "type"))

/-- A bound is a number and not a truth value. -/
def specBound (schema : Json) (key : String) : Option Json :=
  match schemaGet? schema key with
  | some (.int n) => some (.int n)
  | some (.float q) => some (.float q)
  | _ => none

/-- `int(text)` of a stripped text. -/
def intText (text : List Char) : Option Int :=
  let read (digits : List Char) : Option Int :=
    let parts := digits.splitOn '_'
    if parts.all fun part => !part.isEmpty && part.all Char.isDigit then readInt parts.flatten
    else none
  match text with
  | '-' :: digits => (read digits).map (- ·)
  | '+' :: digits => read digits
  | digits => read digits

/-- `int(value)` -/
def intOf (value : Json) : Except String Int :=
  match value with
  | .int n => .ok n
  | .bool b => .ok (if b then 1 else 0)
  | .float q => .ok (q.num.tdiv q.den)
  | .str s =>
    match intText (strip s.toList) with
    | some n => .ok n
    | none => .error ("invalid literal for int() with base 10: " ++ lang.repr value)
  | _ => .error ("int() argument must be a string, a bytes-like object or a real number, not '" ++
      typeName value ++ "'")

/-- `int(schema.get(key, default))` -/
def intBound (schema : Json) (key : String) (default : Int) : Except String Int :=
  match schemaGet? schema key with
  | some value => intOf lang value
  | none => .ok default

mutual
/-- `_json_value_equal`: numbers by value, and a truth value is no number. -/
def jsonValueEqual : Json → Json → Bool
  | .bool b, y => match y with | .bool c => b == c | _ => false
  | .int n, y => match y with | .int m => n == m | .float q => (n : Rat) == q | _ => false
  | .float p, y => match y with | .int m => p == (m : Rat) | .float q => p == q | _ => false
  | .null, y => match y with | .null => true | _ => false
  | .str s, y => match y with | .str t => s == t | _ => false
  | .arr xs, y => match y with | .arr ys => jsonItemsEqual xs ys | _ => false
  | .obj fs, y =>
    match y with | .obj gs => fs.length == gs.length && jsonMembersEqual fs gs | _ => false

def jsonItemsEqual : List Json → List Json → Bool
  | [], [] => true
  | x :: xs, y :: ys => jsonValueEqual x y && jsonItemsEqual xs ys
  | [], _ :: _ | _ :: _, [] => false

def jsonMembersEqual : List (String × Json) → List (String × Json) → Bool
  | [], _ => true
  | (key, x) :: fs, gs =>
    (match Fields.get? gs key with
      | some y => jsonValueEqual x y
      | none => false) && jsonMembersEqual fs gs
end

/-! ### Values -/

section Values

variable (specName key : String)

/-- What an error says first. -/
def argName : String := specName ++ " arg '" ++ key ++ "'"

def specTypeError (want : String) (got : Json) : String :=
  argName specName key ++ " must be " ++ want ++ " (got " ++ typeName got ++ ")"

def checkStringValue (schema value : Json) : Except String String :=
  match value with
  | .str text => do
    let least ← intBound lang schema "minLength" 0
    let most ← if text.length < least then .ok 0 else intBound lang schema "maxLength" text.length
    if text.length < least ∨ most < text.length then
      .ok (argName specName key ++ " violates declared string length bounds")
    else
      match schemaGet? schema "pattern" with
      | none => .ok ""
      | some (.str pattern) => do
        let found ← lang.search pattern text
        .ok (if found then "" else argName specName key ++ " must match " ++ pattern)
      | some _ => .error "first argument must be string or compiled pattern"
  | _ => .ok (specTypeError specName key "string" value)

/-- A number between the bounds of its schema. -/
def checkBounds (schema : Json) (number : Rat) : String :=
  let minimum := specBound schema "minimum"
  let maximum := specBound schema "maximum"
  if (minimum.bind Json.number?).any (number < ·) then
    argName specName key ++ " must be >= " ++ lang.textOr minimum
  else if (maximum.bind Json.number?).any (· < number) then
    argName specName key ++ " must be <= " ++ lang.textOr maximum
  else ""

def parsedInteger (strict : Bool) : Json → Option Int
  | .int n => some n
  | .float q => if q.den = 1 then some q.num else none
  | .str s =>
    let text := strip s.toList
    if strict || !text.all fun ch => decide (ch.toNat < 128) then none else intText text
  | _ => none

def checkIntegerValue (strict : Bool) (schema value : Json) : String :=
  match parsedInteger strict value with
  | some n => checkBounds lang specName key schema n
  | none => specTypeError specName key "integer" value

def parsedNumber (strict : Bool) : Json → Option Rat
  | .int n => some n
  | .float q => some q
  | .str s => if strict then none else lang.float (String.ofList (strip s.toList))
  | _ => none

def checkNumberValue (strict : Bool) (schema value : Json) : String :=
  match parsedNumber lang strict value with
  | some number => checkBounds lang specName key schema number
  | none => specTypeError specName key "number" value

def checkBooleanValue (value : Json) : String :=
  match value with
  | .bool _ => ""
  | _ => specTypeError specName key "boolean" value

/-- A list under the bounds of its schema, before its items are checked. -/
def checkArrayBounds (schema : Json) (items : List Json) : Except String String := do
  let least ← intBound lang schema "minItems" 0
  let most ← intBound lang schema "maxItems" items.length
  let violated (bound : String) : Except String String :=
    .ok (argName specName key ++ " violates " ++ bound ++ "=" ++
      ((schemaGet? schema bound).map lang.str).getD "")
  if items.length < least then violated "minItems"
  else if most < items.length then violated "maxItems"
  else if (schemaGet? schema "uniqueItems").any Json.truthy &&
      !decide (items.Pairwise fun x y => y.pyEq x = false) then
    .ok (argName specName key ++ " requires unique items")
  else .ok ""

/-- The first required property that an object lacks. -/
def checkRequired (members : Fields) : List Json → Except String String
  | [] => .ok ""
  | .str name :: rest =>
    if (Fields.get? members name).isSome then checkRequired members rest
    else .ok (argName specName key ++ " missing required property '" ++ name ++ "'")
  | .arr _ :: _ => .error "unhashable type: 'list'"
  | .obj _ :: _ => .error "unhashable type: 'dict'"
  | name :: _ =>
    .ok (argName specName key ++ " missing required property '" ++ lang.str name ++ "'")

/-- The members of an object that its schema lets pass unchecked, or the schema to check it with. -/
def childSchema (schema : Json) (child : String) : Except String (Option Json) :=
  match (schemaGet? schema "properties").bind (schemaGet? · child) with
  | some .null | none =>
    match schemaGet? schema "additionalProperties" with
    | some (.bool false) => .error (argName specName key ++ " unexpected property '" ++ child ++ "'")
    | some (.obj members) => .ok (some (.obj members))
    | _ => .ok none
  | some found => .ok (some found)

/-- What is found without a look at the parts of a value; nothing when they decide. -/
def checkShallow (strict : Bool) (schema value : Json) : Except String (Option String) :=
  let want := specWant lang schema
  let refused := match schemaGet? schema "enum" with
    | some (.arr enum) => if enum.any (jsonValueEqual value ·) then none else some (Json.arr enum)
    | _ => none
  if want = "" then .ok (some "")
  else
    match refused with
    | some enum => .ok (some (argName specName key ++ " must be one of " ++ lang.repr enum))
    | none =>
      if want = "string" then some <$> checkStringValue lang specName key schema value
      else if want = "integer" then .ok (some (checkIntegerValue lang specName key strict schema value))
      else if want = "number" then .ok (some (checkNumberValue lang specName key strict schema value))
      else if want = "boolean" then .ok (some (checkBooleanValue specName key value))
      else if want = "array" then
        match value with
        | .arr items =>
          match schemaGet? schema "items" with
          | none | some .null => .ok (some "")
          | some _ => do
            let error ← checkArrayBounds lang specName key schema items
            .ok (if error = "" then none else some error)
        | _ => .ok (some (specTypeError specName key "array" value))
      else if want = "object" then
        match value with
        | .obj members => do
          let error ← match schemaGet? schema "required" with
            | some (.arr required) => checkRequired lang specName key members required
            | _ => .ok ""
          match schemaGet? schema "properties" with
          | none | some (.obj _) => .ok (if error = "" then none else some error)
          | some _ => .ok (some error)
        | _ => .ok (some (specTypeError specName key "object" value))
      else .ok (some "")

end Values

mutual
/-- `_check_spec_value_against_schema` -/
def checkSpecValue (specName : String) (strict : Bool) (key : String) (schema : Json) :
    Json → Except String String
  | .arr items => do
    match ← checkShallow lang specName key strict schema (.arr items) with
    | some error => .ok error
    | none =>
      checkSpecItems specName strict key ((schemaGet? schema "items").getD .null) 0 items
  | .obj members => do
    match ← checkShallow lang specName key strict schema (.obj members) with
    | some error => .ok error
    | none => checkSpecMembers specName strict key schema members
  | value => do
    let error ← checkShallow lang specName key strict schema value
    .ok (error.getD "")

def checkSpecItems (specName : String) (strict : Bool) (key : String) (schema : Json) (index : Nat) :
    List Json → Except String String
  | [] => .ok ""
  | item :: items => do
    let error ← checkSpecValue specName strict (key ++ "[" ++ toString index ++ "]") schema item
    if error ≠ "" then .ok error
    else checkSpecItems specName strict key schema (index + 1) items

def checkSpecMembers (specName : String) (strict : Bool) (key : String) (schema : Json) :
    List (String × Json) → Except String String
  | [] => .ok ""
  | (child, value) :: members => do
    let error ← match childSchema specName key schema child with
      | .error error => .ok error
      | .ok none => .ok ""
      | .ok (some found) => checkSpecValue specName strict (key ++ "." ++ child) found value
    if error ≠ "" then .ok error else checkSpecMembers specName strict key schema members
end

/-! ### Arguments -/

namespace ToolSpec

variable (spec : ToolSpec)

/-- The declared names; a name that is declared again keeps its place. -/
def declaredNames : List String := (spec.parameters.map (·.1)).eraseDups

/-- The schema of a name; the last declaration counts. -/
def declared (key : String) : Option Json := Fields.get? spec.parameters.reverse key

def isBuiltin : Bool := spec.executor ∈ ["project", "source", "knowledge"]

end ToolSpec

def builtinAliasAllowedKeys (tool : String) : Option (List String) :=
  let name := lang.normal tool
  if name ∈ ["list_dir", "ls"] then some ["path", "cwd"]
  else if name ∈ ["read_file", "read"] then some ["path", "cwd", "offset", "limit"]
  else if name ∈ ["grep", "search"] then
    some ["query", "pattern", "path", "cwd", "offset", "limit", "literal", "case_sensitive",
      "include", "exclude", "before_context", "after_context"]
  else if name ∈ ["find_references", "references"] then some ["symbol", "name", "path", "cwd"]
  else if name ∈ ["run", "shell"] then some ["command", "cmd", "path", "cwd"]
  else if name = "source_search" then some ["url", "query", "limit", "source_id", "question_ref"]
  else none

/-- The names of which one meets a requirement. -/
def requiredGroup : String → List String
  | "path" => ["path", "cwd"]
  | "query" => ["query", "pattern"]
  | "symbol" => ["symbol", "name"]
  | "command" => ["command", "cmd"]
  | key => [key]

/-- A value that counts as supplied: not null, and no blank text. -/
def supplied : Json → Bool
  | .null => false
  | .str text => !(strip text.toList).isEmpty
  | _ => true

def missingArg (spec : ToolSpec) (key : String) : String :=
  spec.name ++ " missing required arg '" ++ key ++ "'"

/-- `_builtin_required_satisfied` -/
def builtinMissing (spec : ToolSpec) (args : Fields) : Option String :=
  let required :=
    if lang.normal spec.name = "source_search" && (Fields.get? args "source_id").isSome then
      spec.required.filter (· ≠ "url")
    else spec.required
  required.find? fun key => !(requiredGroup key).any fun name => (Fields.get? args name).any supplied

/-- A requirement that a custom tool finds unmet. -/
def customMissing (spec : ToolSpec) (args : Fields) (key : String) : Bool :=
  match Fields.get? args key with
  | none | some .null => true
  | some value =>
    match spec.declared key with
    | some (.obj schema) =>
      decide (lang.lower (lang.textOr (Fields.get? schema "type")) = "string") &&
        (strip (lang.textOr (some value)).toList).isEmpty
    | _ => false

def validateRequiredPresence (spec : ToolSpec) (args : Fields) : String :=
  let missing :=
    if spec.isBuiltin then builtinMissing lang spec args
    else spec.required.find? (customMissing lang spec args)
  (missing.map (missingArg spec)).getD ""

def validateNoExtra (spec : ToolSpec) (args : Fields) : String :=
  let allowed :=
    if spec.isBuiltin then (builtinAliasAllowedKeys lang spec.name).getD spec.declaredNames
    else spec.declaredNames
  match (args.map (·.1)).find? (· ∉ allowed) with
  | some key => spec.name ++ " unexpected arg '" ++ key ++ "'"
  | none => ""

def aliasToCanonical : String → Option String
  | "cwd" => some "path"
  | "pattern" => some "query"
  | "name" => some "symbol"
  | "cmd" => some "command"
  | "source_id" => some "url"
  | _ => none

/-- The schema that an argument is checked with. -/
def argSchema (spec : ToolSpec) (key : String) : Option Json :=
  let found (key : String) : Option Json := (spec.declared key).filter (· ≠ .null)
  if spec.isBuiltin then (found key).or ((aliasToCanonical key).bind found) else found key

def parameterError (error : String) (schema : Json) : String :=
  match schemaGet? schema "description" with
  | some (.str description) => if description = "" then error else error ++ ". " ++ description
  | _ => error

def validateArg (spec : ToolSpec) (key : String) (value : Json) : Except String String :=
  match argSchema spec key with
  | none => .ok ""
  | some schema =>
    if spec.isBuiltin && key = "source_id" then
      .ok (if value.str?.any fun text => !(strip text.toList).isEmpty then ""
        else missingArg spec "source_id")
    else do
      let error ← checkSpecValue lang spec.name (!spec.isBuiltin) key schema value
      .ok (if error = "" then "" else parameterError error schema)

def validateTypes (spec : ToolSpec) : Fields → Except String String
  | [] => .ok ""
  | (key, value) :: args => do
    let error ← validateArg lang spec key value
    if error ≠ "" then .ok error else validateTypes spec args

def wrapperError (spec : ToolSpec) : String :=
  spec.name ++ " received an undeclared args wrapper. " ++
    "The tool name is already selected; pass its fields directly as arguments, not inside args. " ++
    "Required top-level fields: " ++
    (if spec.required.isEmpty then "(none)" else ", ".intercalate spec.required) ++
    ". Declared fields: " ++ ", ".intercalate spec.declaredNames ++ ". No tool was executed."

/-- `validate_args_with_spec` for arguments that are an object. -/
def validateArgsWithSpec (spec : ToolSpec) (args : Fields) : Except String String :=
  let wrapped := match Fields.get? args "args" with
    | some (.obj _) => true
    | _ => false
  if "args" ∉ spec.declaredNames && wrapped then .ok (wrapperError spec)
  else
    let missing := validateRequiredPresence lang spec args
    let extra := validateNoExtra lang spec args
    if missing ≠ "" then .ok missing
    else if extra ≠ "" then .ok extra
    else validateTypes lang spec args

end Toolchain

end Codey
