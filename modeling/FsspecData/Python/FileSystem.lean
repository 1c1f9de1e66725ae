import FsspecData.Python.SchemaRef
import FsspecData.Python.Interchange

/-! The data filesystem: a conversion from the source's schema to the requested one. -/
namespace FsspecData.Python

open Fallible

/-- What a conversion raises; `outside` is an error of a library or a data source. -/
inductive FileSystemError where
  | dataFormat (value : String)
  | schemaPolicy (value : String)
  | castKind (value : String)
  | formatInference (path : String)
  | sourceMismatch
  | schema (source : SchemaError)
  | interchange (source : InterchangeError)
  | run (source : PyError)
  | outside (message : String)

/-- `DataFormat(value)`. -/
def dataFormat : String → Except FileSystemError DataFormat
  | "arrow" => .ok .arrow
  | "parquet" => .ok .parquet
  | "csv" => .ok .csv
  | "jsonl" => .ok .jsonLines
  | "avro" => .ok .avro
  | value => .error (.dataFormat value)

/-- `SchemaPolicy(value)`. -/
def schemaPolicy : String → Except FileSystemError SchemaPolicy
  | "exact" => .ok .exact
  | "projection" => .ok .projection
  | "compatible" => .ok .compatible
  | "coerce" => .ok .coerce
  | value => .error (.schemaPolicy value)

/-- The planner's reading of a cast kind. -/
def castKind : String → Except FileSystemError CastKind
  | "safe" => .ok .safe
  | "lossy" => .ok .lossy
  | "runtime_checked" => .ok .runtimeChecked
  | value => .error (.castKind value)

def suffixFormats : List (String × DataFormat) :=
  [(".arrow", .arrow), (".csv", .csv), (".ipc", .arrow), (".jsonl", .jsonLines), (".ndjson", .jsonLines),
    (".parquet", .parquet), (".pq", .parquet), (".avro", .avro)]

def formatFromPath (path : String) : Except FileSystemError DataFormat :=
  let backwards := path.toList.reverse
  let suffix :=
    if '.' ∈ backwards.takeWhile (· ≠ '/') then
      ("." ++ String.ofList (backwards.takeWhile (· ≠ '.')).reverse).toLower
    else ""
  orFail (.formatInference path) (suffixFormats.lookup suffix)

structure Limits where
  batchSize : Int := 1024
  rowLimit : Option Int := none
  byteLimit : Option Int := none

/-- The field operations of the planner, as Python passes them. -/
structure Operations where
  renames : StringMap String := ∅
  defaults : StringMap PyValue := ∅
  drop : List String := []
  casts : StringMap String := ∅

/-- The constructor's arguments. -/
structure Arguments where
  fo : String
  providedFormat : Option String := none
  requestedFormat : Option String := none
  providedSchema : Option SchemaInput := none
  requestedSchema : Option SchemaInput := none
  policy : String := "exact"
  operations : Operations := {}
  limits : Limits := {}

structure DataFileSystem where
  fo : String
  providedFormat : Option DataFormat
  requestedFormat : Option DataFormat
  providedSchema : Option SchemaValue
  requestedSchema : Option SchemaValue
  policy : SchemaPolicy
  operations : Operations
  limits : Limits

/-- A decoded source: its schema and what its batches turn out to be. -/
structure Decoded where
  schema : Schema
  batches : List (Except FileSystemError RecordBatch)

/-- What a conversion hands over to: the schema libraries and resolvers, the kernels, the
source filesystem, and the codecs, whose writers hold a state of their own. -/
structure Engine (Writer : Type) where
  libraries : Libraries
  resolvers : SchemaResolverRegistry
  arrow : Arrow
  pyarrow : Pyarrow
  defaultArray : PyValue → Except FileSystemError ArrayRef
  openSource : String → Except FileSystemError (List UInt8)
  iterBatches : DataFormat → List UInt8 → Option Schema → Limits → Except FileSystemError Decoded
  startWriter : DataFormat → Schema → Except FileSystemError Writer
  writeBatch : Writer → RecordBatch → Except FileSystemError Writer
  finish : Writer → Except FileSystemError (List UInt8)

/-- What a conversion has done when it returns. -/
structure Conversion where
  providedProvenance : Option SchemaProvenance
  requestedProvenance : Option SchemaProvenance
  plan : InterchangePlan
  encodedSchema : Schema
  written : List RecordBatch
  output : List UInt8

/-- `schema or other`: a schema without fields is false. -/
def orSchema (schema : Option Schema) (other : Schema) : Schema :=
  match schema with
  | some schema => if schema.fields.length = 0 then other else schema
  | none => other

variable {Writer : Type}

namespace Engine

def resolve (engine : Engine Writer) (value : Option SchemaValue) :
    Except FileSystemError (Option ResolvedSchema) :=
  (resolveSchema engine.libraries engine.resolvers value).mapError .schema

def normalize (engine : Engine Writer) (input : Option SchemaInput) : Except FileSystemError (Option SchemaValue) :=
  (normalizeSchema engine.libraries input).mapError .schema

def projectionOptions (engine : Engine Writer) (operations : Operations) :
    Except FileSystemError ProjectionOptions := do
  let defaults ← operations.defaults.entries.mapM fun ⟨name, value⟩ =>
    (fun array => ⟨name, array⟩) <$> engine.defaultArray value
  let casts ← operations.casts.entries.mapM fun ⟨name, kind⟩ => (fun kind => ⟨name, kind⟩) <$> castKind kind
  .ok
    { renames := operations.renames
      defaults := defaults.toAList
      drop := operations.drop
      casts := casts.toAList }

def planSchema (engine : Engine Writer) (provided requested : Schema) (policy : SchemaPolicy)
    (operations : Operations) : Except FileSystemError InterchangePlan := do
  let options ← engine.projectionOptions operations
  let plan ← (Plan.planSchemaWith engine.arrow provided requested policy options).mapError .interchange
  .ok (.ofRust plan)

/-- Takes the next batch and writes it. -/
def writeNext (engine : Engine Writer) (progress : Writer × List RecordBatch)
    (batch : Except FileSystemError RecordBatch) : Except FileSystemError (Writer × List RecordBatch) := do
  let batch ← batch
  let writer ← engine.writeBatch progress.1 batch
  .ok (writer, progress.2 ++ [batch])

/-- Writes each batch as it comes, and returns the batches written and the output. -/
def encodeBatchesTo (engine : Engine Writer) (format : DataFormat) (schema : Schema)
    (batches : List (Except FileSystemError RecordBatch)) :
    Except FileSystemError (List RecordBatch × List UInt8) := do
  let writer ← engine.startWriter format schema
  let progress ← batches.foldlM engine.writeNext (writer, [])
  let output ← engine.finish progress.1
  .ok (progress.2, output)

end Engine

namespace DataFileSystem

/-- The constructor. -/
def new (engine : Engine Writer) (arguments : Arguments) : Except FileSystemError DataFileSystem := do
  let providedFormat ← arguments.providedFormat.mapM dataFormat
  let requestedFormat ← arguments.requestedFormat.mapM dataFormat
  let providedSchema ← engine.normalize arguments.providedSchema
  let requestedSchema ← engine.normalize arguments.requestedSchema
  let policy ← schemaPolicy arguments.policy
  .ok ⟨arguments.fo, providedFormat, requestedFormat, providedSchema, requestedSchema, policy,
    arguments.operations, arguments.limits⟩

/-- The opened source, whose schema has to be the provided one where that is given. -/
def decode (engine : Engine Writer) (fs : DataFileSystem) (format : DataFormat) (provided : Option Schema) :
    Except FileSystemError Decoded := do
  let source ← engine.openSource fs.fo
  let decoded ← engine.iterBatches format source provided fs.limits
  match provided with
  | some provided =>
    if engine.pyarrow.schemaEquals decoded.schema provided then .ok decoded else .error .sourceMismatch
  | none => .ok decoded

def orInferred (format : Option DataFormat) (path : String) : Except FileSystemError DataFormat :=
  match format with
  | some format => .ok format
  | none => formatFromPath path

def convert (engine : Engine Writer) (fs : DataFileSystem) (path : String) :
    Except FileSystemError Conversion := do
  let providedFormat ← orInferred fs.providedFormat fs.fo
  let requestedFormat ← orInferred fs.requestedFormat path
  let resolvedProvided ← engine.resolve fs.providedSchema
  let resolvedRequested ← engine.resolve fs.requestedSchema
  let decoded ← fs.decode engine providedFormat (resolvedProvided.map (·.schema))
  let providedSchema := orSchema (resolvedProvided.map (·.schema)) decoded.schema
  let requestedSchema := orSchema (resolvedRequested.map (·.schema)) providedSchema
  let plan ← engine.planSchema providedSchema requestedSchema fs.policy fs.operations
  let batches := decoded.batches.map fun batch => do
    let batch ← batch
    (plan.applyBatch engine.pyarrow batch).mapError .run
  let (written, output) ← engine.encodeBatchesTo requestedFormat requestedSchema batches
  .ok ⟨resolvedProvided.map (·.provenance), resolvedRequested.map (·.provenance), plan, requestedSchema,
    written, output⟩

end DataFileSystem

end FsspecData.Python
