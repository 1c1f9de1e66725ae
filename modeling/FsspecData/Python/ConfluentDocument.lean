import FsspecData.Library.Client
import FsspecData.Python.ConfluentRequest

/-! The documents of a Confluent registry, and the client that fetches them: a program whose
requests the registry answers one by one. -/
namespace FsspecData.Confluent

open Client Fallible Percent Python

/-- A response as `json.load` returns it, with integers and floats apart. -/
inductive Payload where
  | null
  | bool (value : Bool)
  | int (value : ℤ)
  | float (identity : Nat)
  | string (value : String)
  | array (items : List Payload)
  | object (members : List (String × Payload))

/-- What `_document` raises. -/
inductive DocumentError where
  | notAnObject
  | schema
  | schemaType
  | subjectOrVersion
  | schemaId
  | references
  deriving DecidableEq

def DocumentError.message : DocumentError → String
  | .notAnObject => "Confluent Schema Registry response must be an object"
  | .schema => "Confluent Schema Registry response is missing string 'schema'"
  | .schemaType => "Confluent Schema Registry response has invalid 'schemaType'"
  | .subjectOrVersion => "Confluent Schema Registry response has invalid subject or version"
  | .schemaId => "Confluent Schema Registry response has invalid schema ID"
  | .references => "Confluent Schema Registry response has invalid references"

/-- What the exchange of a request raises; `outside` is an error that is passed on. -/
inductive Failure where
  | http (code : ℤ)
  | url
  | outside (message : String)

inductive ConfluentError where
  | reference (source : ReferenceError)
  | options (source : OptionError)
  | exchange (source : Failure)
  | versions
  | document (source : DocumentError)

def ConfluentError.message : ConfluentError → String
  | .reference source => source.message
  | .options source => source.message
  | .exchange (.http code) => "Confluent Schema Registry returned HTTP " ++ toString code
  | .exchange .url => "Confluent Schema Registry request failed"
  | .exchange (.outside message) => message
  | .versions => "Confluent Schema Registry versions response must be a list of integers"
  | .document source => source.message

structure ConfluentSchemaDocument where
  schema : String
  schemaType : String
  subject : String
  version : String
  schemaId : Option String
  references : List (List (String × Payload))

namespace Payload

/-- `str` of what is an `int`; booleans are. -/
def intText : Payload → Option String
  | .bool value => some (if value then "True" else "False")
  | .int value => some (toString value)
  | _ => none

/-- `str` of what is a `str` or an `int`. -/
def text : Payload → Option String
  | .string value => some value
  | value => value.intText

def string? : Payload → Option String
  | .string value => some value
  | _ => none

def members? : Payload → Option (List (String × Payload))
  | .object members => some members
  | _ => none

def items? : Payload → Option (List Payload)
  | .array items => some items
  | _ => none

end Payload

def schemaIdText : Payload → Except DocumentError (Option String)
  | .null => .ok none
  | id => some <$> orFail .schemaId id.text

/-- `_document`, its checks in their order. -/
def document (python : Interpreter) (payload : Payload) (subject requestedVersion : String) :
    Except DocumentError ConfluentSchemaDocument := do
  let payload ← orFail .notAnObject payload.members?
  let schema ← orFail .schema ((payload.lookup "schema").bind Payload.string?)
  let schemaType ← orFail .schemaType ((payload.lookup "schemaType").getD (.string "AVRO")).string?
  let responseSubject ← orFail .subjectOrVersion ((payload.lookup "subject").getD (.string subject)).string?
  let responseVersion ← orFail .subjectOrVersion ((payload.lookup "version").getD (.string requestedVersion)).text
  let schemaId ← schemaIdText ((payload.lookup "id").getD .null)
  let references ← orFail .references
    (((payload.lookup "references").getD (.array [])).items?.bind fun items => items.mapM Payload.members?)
  .ok ⟨schema, python.upper schemaType, responseSubject, responseVersion, schemaId, references⟩

/-- What the registry's answer comes to. -/
abbrev Response := Except Failure Payload

abbrev Fetching (A : Type) := ExceptT ConfluentError (Program Request Response) A

def fail {E A : Type} (wrap : E → ConfluentError) : Except E A → Fetching A
  | .ok a => pure a
  | .error error => throw (wrap error)

section

variable (checks : Url.NetlocChecks) (reader : Numeral.Reader) (python : Interpreter)

def get (path : String) (options : PyMapping) : Fetching Payload := do
  let asked ← fail .options (request python path options)
  fail .exchange (← ExceptT.lift (Program.request asked))

def fetchConfluentSchema (url : String) (options : PyMapping) : Fetching ConfluentSchemaDocument := do
  let (subject, requestedVersion) ← fail .reference (parseReference checks reader url)
  let payload ← get python ("subjects/" ++ quote subject ++ "/versions/" ++ quote requestedVersion) options
  fail .document (document python payload subject requestedVersion)

def fetchVersion (subject : String) (options : PyMapping) (version : String) : Fetching ConfluentSchemaDocument := do
  let payload ← get python ("subjects/" ++ quote subject ++ "/versions/" ++ version) options
  fail .document (document python payload subject version)

/-- The texts of a list of integers. -/
def versionTexts (versions : Payload) : Option (List String) :=
  versions.items?.bind fun versions => versions.mapM Payload.intText

def fetchConfluentVersions (url : String) (options : PyMapping) : Fetching (List ConfluentSchemaDocument) := do
  let (subject, _) ← fail .reference (parseReference checks reader url)
  let versions ← get python ("subjects/" ++ quote subject ++ "/versions") options
  let versions ← fail (fun _ => .versions) (orFail () (versionTexts versions))
  versions.mapM (fetchVersion python subject options)

variable {checks} {reader} {url subject version : String}

theorem fetchConfluentSchema_parsed (options : PyMapping)
    (parsed : parseReference checks reader url = .ok (subject, version)) :
    fetchConfluentSchema checks reader python url options = (do
      let payload ← get python ("subjects/" ++ quote subject ++ "/versions/" ++ quote version) options
      fail .document (document python payload subject version)) := by
  rw [fetchConfluentSchema, parsed]
  rfl

theorem fetchConfluentVersions_parsed (options : PyMapping)
    (parsed : parseReference checks reader url = .ok (subject, version)) :
    fetchConfluentVersions checks reader python url options = (do
      let versions ← get python ("subjects/" ++ quote subject ++ "/versions") options
      let versions ← fail (fun _ => .versions) (orFail () (versionTexts versions))
      versions.mapM (fetchVersion python subject options)) := by
  rw [fetchConfluentVersions, parsed]
  rfl

end

end FsspecData.Confluent
