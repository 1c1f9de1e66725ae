import FsspecData.Json.Document
import FsspecData.Arrow.DataType
import FsspecData.Library.Fallible

/-! The translation of JSON Schema documents to Arrow schemas. -/
namespace FsspecData.JsonSchema

open Fallible

def unsupportedKeywords : List String :=
  ["$dynamicRef", "$ref", "allOf", "anyOf", "contains", "contentEncoding", "contentMediaType",
    "dependentSchemas", "else", "if", "not", "nullable", "oneOf", "patternProperties", "prefixItems",
    "then", "unevaluatedItems", "unevaluatedProperties"]

def primitiveTypes : List (String × DataType) :=
  [("boolean", .boolean), ("integer", .int64), ("null", .null), ("number", .float64), ("string", .utf8)]

def knownTypes : List String := primitiveTypes.map Prod.fst ++ ["array", "object"]

/-- What the translation raises, with the data its message shows. -/
inductive Raised where
  | rootValue
  | rootType (kind : String)
  | rootNull
  | keyword (path name : String)
  | format (path : String) (value : Json)
  | arrayItems (path : String)
  | typeName (path kind : String)
  | additionalProperties (path : String)
  | properties (path : String)
  | required (path : String)
  | unknownRequired (path : String) (names : List String)
  | propertySchema (path : String)
  | typeEntries (path : String)
  | union (path : String)

inductive ExceptionType where
  | typeError
  | valueError
  deriving DecidableEq

def Raised.exceptionType : Raised → ExceptionType
  | .rootValue | .properties _ | .required _ | .propertySchema _ | .typeEntries _ => .typeError
  | _ => .valueError

/-- The message. `repr` is Python's. -/
def Raised.message (repr : Json → String) : Raised → String
  | .rootValue => "JSON Schema must contain an object"
  | .rootType kind => "JSON Schema root must have type 'object', got " ++ repr (.string kind)
  | .rootNull => "JSON Schema root cannot allow null"
  | .keyword path name => "unsupported JSON Schema at " ++ path ++ ": keyword " ++ repr (.string name)
  | .format path value => "unsupported JSON Schema at " ++ path ++ ": format " ++ repr value
  | .arrayItems path =>
    "unsupported JSON Schema at " ++ path ++ ": arrays require one object-valued 'items' schema"
  | .typeName path kind => "unsupported JSON Schema at " ++ path ++ ": type " ++ repr (.string kind)
  | .additionalProperties path =>
    "unsupported JSON Schema at " ++ path ++ ": schema-valued 'additionalProperties'"
  | .properties path => "JSON Schema at " ++ path ++ " has non-object 'properties'"
  | .required path => "JSON Schema at " ++ path ++ " has non-string 'required' entries"
  | .unknownRequired path names =>
    "JSON Schema at " ++ path ++ " requires unknown properties: " ++ ", ".intercalate names
  | .propertySchema path => "JSON Schema at " ++ path ++ " must map string property names to schema objects"
  | .typeEntries path => "JSON Schema at " ++ path ++ " requires a string or string-array 'type'"
  | .union path => "unsupported JSON Schema at " ++ path ++ ": unions may contain only one non-null type"

def rejectUnsupported (value : Mapping) (path : String) : Except Raised Unit :=
  unsupportedKeywords.forM fun keyword => if value.has keyword then .error (.keyword path keyword) else .ok ()

/-- The entries of `type` or `required`, where they are strings. -/
def stringEntries : Json → Option (List String)
  | .array items => items.mapM Json.string?
  | _ => none

def typeNames (value : Mapping) (path : String) : Except Raised (List String) :=
  match value.lookup "type" with
  | some (.string name) => .ok [name]
  | some entries => orFail (.typeEntries path) (stringEntries entries)
  | none => .error (.typeEntries path)

/-- The one name besides `null`, and whether `null` is named. -/
def soleKind (types : List String) (path : String) : Except Raised (String × Bool) :=
  let distinct := types.eraseDups
  match (distinct.filter (· ∉ knownTypes)).mergeSort with
  | unknown :: _ => .error (.typeName path unknown)
  | [] =>
    match distinct.filter (· ≠ "null") with
    | [] => .ok ("null", "null" ∈ distinct)
    | [kind] => .ok (kind, "null" ∈ distinct)
    | _ => .error (.union path)

def schemaKind (value : Mapping) (path : String) : Except Raised (String × Bool) := do
  rejectUnsupported value path
  let types ← typeNames value path
  soleKind types path

/-- The declared properties of a schema; each one is smaller than it. -/
structure Declared (value : Mapping) where
  entries : Mapping
  smaller : ∀ entry ∈ entries, sizeOf entry.2 < sizeOf value

def properties (value : Mapping) (path : String) : Except Raised (Declared value) :=
  match found : value.lookup "properties" with
  | none => .ok ⟨[], by simp⟩
  | some (.object entries) => .ok ⟨entries, fun _ member =>
    (Mapping.sizeOf_member member).trans ((Mapping.sizeOf_object entries).trans (Mapping.sizeOf_lookup found))⟩
  | some _ => .error (.properties path)

def requiredEntries (value : Mapping) (path : String) : Except Raised (List String) :=
  match value.lookup "required" with
  | none => .ok []
  | some entries => orFail (.required path) (stringEntries entries)

/-- The required names, which have to be declared. -/
def requiredNames (value : Mapping) (declared : Mapping) (path : String) : Except Raised (List String) := do
  let required ← requiredEntries value path
  match (required.eraseDups.filter (!declared.has ·)).mergeSort with
  | [] => .ok required
  | unknown => .error (.unknownRequired path unknown)

def checkAdditional (value : Mapping) (path : String) : Except Raised Unit :=
  match value.lookup "additionalProperties" with
  | none | some .null | some (.bool _) => .ok ()
  | some _ => .error (.additionalProperties path)

mutual

def dataType (value : Mapping) (path : String) : Except Raised (DataType × Bool) := do
  rejectUnsupported value path
  match value.lookup "format" with
  | some format => .error (.format path format)
  | none =>
    let (kind, allowsNull) ← schemaKind value path
    match primitiveTypes.lookup kind with
    | some type => .ok (type, allowsNull || kind = "null")
    | none =>
      if kind = "array" then
        match _found : value.lookup "items" with
        | some (.object items) => do
          let (itemType, itemNullable) ← dataType items (path ++ ".items")
          .ok (.list (.mk "item" itemType itemNullable []), allowsNull)
        | _ => .error (.arrayItems path)
      else if kind = "object" then do
        let fields ← objectFields value path
        .ok (.struct (Fields.ofList fields), allowsNull)
      else .error (.typeName path kind)
termination_by (sizeOf value, 1)
decreasing_by
  · exact .left _ _ ((Mapping.sizeOf_object items).trans (Mapping.sizeOf_lookup _found))
  · exact .right _ (by omega)

def objectFields (value : Mapping) (path : String) : Except Raised (List Field) := do
  rejectUnsupported value path
  checkAdditional value path
  let declared ← properties value path
  let required ← requiredNames value declared.entries path
  declared.entries.attach.mapM fun ⟨(name, schema), _member⟩ =>
    match _same : schema with
    | .object schema => do
      let (type, allowsNull) ← dataType schema (path ++ ".properties." ++ name)
      .ok (.mk name type (name ∉ required || allowsNull) [])
    | _ => .error (.propertySchema path)
termination_by (sizeOf value, 0)
decreasing_by
  subst _same
  exact .left _ _ ((Mapping.sizeOf_object schema).trans (declared.smaller _ _member))

end

def jsonSchemaToArrow : Json → Except Raised Schema
  | .object value => do
    let (kind, allowsNull) ← schemaKind value "$"
    if kind ≠ "object" then .error (.rootType kind)
    else if allowsNull then .error .rootNull
    else do
      let fields ← objectFields value "$"
      .ok ⟨fields, []⟩
  | _ => .error .rootValue

end FsspecData.JsonSchema
