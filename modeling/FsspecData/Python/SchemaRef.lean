import FsspecData.Arrow.DataType
import FsspecData.Library.Fallible
import Mathlib.Data.String.Basic

/-! Schema references and options of the Python layer: how a schema argument is
normalized and resolved. -/
namespace FsspecData.Python

open Fallible

/-- A Python object, as far as schema arguments look into it. -/
inductive PyValue where
  | none
  | bool (value : Bool)
  | string (value : String)
  | dataType (type : DataType)
  | mapping (members : List (String × PyValue))
  | sequence (items : List PyValue)
  | other (identity : Nat)

abbrev PyMapping := List (String × PyValue)

inductive SchemaFormat where
  | arrowIpc | arrowJson | jsonSchema | avro
  deriving DecidableEq, Repr

def SchemaFormat.value : SchemaFormat → String
  | .arrowIpc => "arrow-ipc-schema"
  | .arrowJson => "arrow-json"
  | .jsonSchema => "json-schema"
  | .avro => "avro-schema"

/-- What the handling of schema arguments raises; `outside` is an error of a library or a
data source, passed on. -/
inductive SchemaError where
  | referenceUrl
  | schemaFormat (value : PyValue)
  | storageOptions
  | unknownOptions (names : List String)
  | optionFields
  | optionField
  | missing (key : String)
  | nameOrType
  | nullable
  | inference (url : String)
  | formatMismatch (requested provided : SchemaFormat)
  | noDecoder (format : SchemaFormat)
  | outside (message : String)

/-- The message. `repr` is Python's. -/
def SchemaError.message (repr : PyValue → String) : SchemaError → String
  | .referenceUrl => "schema reference URL must be a non-empty string"
  | .schemaFormat value => repr value ++ " is not a valid SchemaFormat"
  | .storageOptions => "schema reference storage_options must be a mapping"
  | .unknownOptions names => "unknown schema reference options: " ++ ", ".intercalate names
  | .optionFields => "schema options must contain a sequence of fields"
  | .optionField => "schema fields must be mappings"
  | .missing key => "schema field is missing " ++ repr (.string key)
  | .nameOrType => "schema field name and type must be strings or PyArrow data types"
  | .nullable => "schema field nullable must be a boolean"
  | .inference url =>
    "schema format cannot be inferred from " ++ repr (.string url) ++ "; provide format explicitly"
  | .formatMismatch requested provided => "schema reference requested " ++ repr (.string requested.value) ++
    " but provider returned " ++ repr (.string provided.value)
  | .noDecoder format => "no schema decoder registered for " ++ repr (.string format.value)
  | .outside message => message

/-- `SchemaFormat(value)`. -/
def SchemaFormat.parse (value : PyValue) : Except SchemaError SchemaFormat :=
  match value with
  | .string "arrow-ipc-schema" => .ok .arrowIpc
  | .string "arrow-json" => .ok .arrowJson
  | .string "json-schema" => .ok .jsonSchema
  | .string "avro-schema" => .ok .avro
  | value => .error (.schemaFormat value)

structure SchemaRef where
  url : String
  format : Option SchemaFormat
  storageOptions : PyMapping
  named : url ≠ ""

/-- The constructor with its `__post_init__`. -/
def SchemaRef.new (url format storageOptions : PyValue) : Except SchemaError SchemaRef :=
  match url with
  | .string url =>
    if empty : url = "" then .error .referenceUrl
    else do
      let format ← match format with
        | .none => .ok none
        | format => some <$> SchemaFormat.parse format
      match storageOptions with
      | .mapping storageOptions => .ok ⟨url, format, storageOptions, empty⟩
      | _ => .error .storageOptions
  | _ => .error .referenceUrl

structure SchemaProvenance where
  source : String
  format : String
  provider : String
  identifier : Option String := none
  version : Option String := none
  deriving DecidableEq, Repr

structure ResolvedSchema where
  schema : Schema
  provenance : SchemaProvenance

structure SchemaDocument where
  data : List UInt8
  format : SchemaFormat
  provenance : SchemaProvenance

/-- A schema argument. `None` is its absence. -/
inductive SchemaInput where
  | schema (schema : Schema)
  | reference (reference : SchemaRef)
  | url (url : String)
  | mapping (members : PyMapping)
  | sequence (items : List PyValue)

/-- A normalized schema argument. -/
inductive SchemaValue where
  | schema (schema : Schema)
  | reference (reference : SchemaRef)

/-- The libraries behind schema arguments: pyarrow's aliases, `urlsplit`'s scheme, and the
reading of a document through fsspec. -/
structure Libraries where
  typeForAlias : String → Except SchemaError DataType
  urlScheme : String → Except SchemaError String
  fetch : String → PyMapping → Except SchemaError (List UInt8)

structure SchemaResolverRegistry where
  decoders : SchemaFormat → Option (List UInt8 → Except SchemaError Schema)
  providers : String → Option (SchemaRef → Except SchemaError SchemaDocument)

def formatFromUrl (url : String) : Except SchemaError SchemaFormat :=
  let path := (String.ofList (url.toList.takeWhile (· ≠ '?'))).toLower
  if path.endsWith ".arrow" || path.endsWith ".ipc" || path.endsWith ".arrowschema" then .ok .arrowIpc
  else if path.endsWith ".avsc" then .ok .avro
  else .error (.inference url)

def resolveFsspecDocument (libraries : Libraries) (reference : SchemaRef) : Except SchemaError SchemaDocument := do
  let format ← match reference.format with
    | some format => .ok format
    | none => formatFromUrl reference.url
  let data ← libraries.fetch reference.url reference.storageOptions
  .ok ⟨data, format, { source := reference.url, format := format.value, provider := "fsspec" }⟩

namespace SchemaResolverRegistry

def resolve (libraries : Libraries) (registry : SchemaResolverRegistry) (reference : SchemaRef) :
    Except SchemaError ResolvedSchema := do
  let protocol ← libraries.urlScheme reference.url
  let provider := (registry.providers protocol.toLower).getD (resolveFsspecDocument libraries)
  let document ← provider reference
  match reference.format with
  | some format => if format ≠ document.format then .error (.formatMismatch format document.format) else .ok ()
  | none => .ok ()
  let decoder ← orFail (.noDecoder document.format) (registry.decoders document.format)
  let schema ← decoder document.data
  .ok ⟨schema, { document.provenance with format := document.format.value }⟩

end SchemaResolverRegistry

def fieldFromOptions (libraries : Libraries) (value : PyMapping) : Except SchemaError Field := do
  let name ← orFail (.missing "name") (value.lookup "name")
  let type ← orFail (.missing "type") (value.lookup "type")
  let (name, type) ← match name, type with
    | .string name, .string type => (name, ·) <$> libraries.typeForAlias type
    | .string name, .dataType type => .ok (name, type)
    | _, _ => .error .nameOrType
  match (value.lookup "nullable").getD (.bool true) with
  | .bool nullable => .ok (.mk name type nullable [])
  | _ => .error .nullable

/-- The fields of schema options, given themselves or in a mapping. -/
def schemaFromOptions (libraries : Libraries) (fields : Option PyValue) : Except SchemaError Schema :=
  match fields with
  | some (.sequence fields) => do
    let fields ← fields.mapM fun field =>
      match field with
      | .mapping value => fieldFromOptions libraries value
      | _ => .error .optionField
    .ok ⟨fields, []⟩
  | _ => .error .optionFields

/-- The options of a reference given as a mapping. -/
def referenceOptions : List String := ["url", "format", "storage_options"]

def normalizeSchema (libraries : Libraries) : Option SchemaInput → Except SchemaError (Option SchemaValue)
  | none => .ok none
  | some (.schema schema) => .ok (some (.schema schema))
  | some (.reference reference) => .ok (some (.reference reference))
  | some (.url url) => (some <| .reference ·) <$> SchemaRef.new (.string url) .none (.mapping [])
  | some (.mapping members) =>
    match members.lookup "url" with
    | some url =>
      match ((members.map Prod.fst).filter (· ∉ referenceOptions)).mergeSort with
      | [] => (some <| .reference ·) <$> SchemaRef.new url ((members.lookup "format").getD .none)
        ((members.lookup "storage_options").getD (.mapping []))
      | unknown => .error (.unknownOptions unknown)
    | none => (some <| .schema ·) <$> schemaFromOptions libraries (members.lookup "fields")
  | some (.sequence items) => (some <| .schema ·) <$> schemaFromOptions libraries (some (.sequence items))

def resolveSchema (libraries : Libraries) (registry : SchemaResolverRegistry) :
    Option SchemaValue → Except SchemaError (Option ResolvedSchema)
  | none => .ok none
  | some (.schema schema) =>
    .ok (some ⟨schema, { source := "inline", format := "arrow", provider := "inline" }⟩)
  | some (.reference reference) => some <$> registry.resolve libraries reference

/-- Only an absent argument is normalized to none. -/
theorem normalizeSchema_some {libraries : Libraries} {input : SchemaInput} {value : Option SchemaValue}
    (normalized : normalizeSchema libraries (some input) = .ok value) : ∃ found, value = some found := by
  cases input with
  | schema schema =>
    cases normalized
    exact ⟨_, rfl⟩
  | reference reference =>
    cases normalized
    exact ⟨_, rfl⟩
  | url url =>
    obtain ⟨reference, -, rfl⟩ := map_eq_ok.mp normalized
    exact ⟨_, rfl⟩
  | sequence items =>
    obtain ⟨schema, -, rfl⟩ := map_eq_ok.mp normalized
    exact ⟨_, rfl⟩
  | mapping members =>
    simp only [normalizeSchema] at normalized
    split at normalized
    · split at normalized
      · obtain ⟨reference, -, rfl⟩ := map_eq_ok.mp normalized
        exact ⟨_, rfl⟩
      · contradiction
    · obtain ⟨schema, -, rfl⟩ := map_eq_ok.mp normalized
      exact ⟨_, rfl⟩

/-- Only an absent argument resolves to none. -/
theorem resolveSchema_some {libraries : Libraries} {registry : SchemaResolverRegistry} {value : SchemaValue}
    {resolved : Option ResolvedSchema} (resolves : resolveSchema libraries registry (some value) = .ok resolved) :
    ∃ found, resolved = some found := by
  cases value with
  | schema schema =>
    cases resolves
    exact ⟨_, rfl⟩
  | reference reference =>
    obtain ⟨found, -, rfl⟩ := map_eq_ok.mp resolves
    exact ⟨found, rfl⟩

end FsspecData.Python
