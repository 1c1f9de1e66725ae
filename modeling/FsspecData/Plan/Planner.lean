import FsspecData.Arrow.RecordBatch
import FsspecData.Plan.Cast
import Mathlib.Data.List.AList

/-! Schema planning. Without options each policy has its own matcher; with options one
by-name matcher serves all policies but the exact one. -/
namespace FsspecData

inductive DataFormat where
  | arrow | parquet | csv | jsonLines | avro
  deriving DecidableEq, Repr

structure FieldDescriptor where
  name : String
  dataType : DataType
  nullable : Bool
  deriving DecidableEq, Repr

structure FieldMapping where
  sourceIndex : Nat
  targetIndex : Nat
  cast : Option CastKind
  checkNulls : Bool
  deriving DecidableEq, Repr

/-- A requested field filled with one value instead of a provided field. -/
structure FieldAddition where
  targetIndex : Nat
  value : ArrayRef

/-- A hash map with string keys, in one of its iteration orders. -/
abbrev StringMap (V : Type) := AList fun _ : String => V

structure ProjectionOptions where
  renames : StringMap String := ∅
  defaults : StringMap ArrayRef := ∅
  drop : List String := []
  casts : StringMap CastKind := ∅

def ProjectionOptions.isEmpty (options : ProjectionOptions) : Bool :=
  options.renames.entries.isEmpty && options.defaults.entries.isEmpty && options.drop.isEmpty &&
    options.casts.entries.isEmpty

structure InterchangePlan where
  providedFormat : DataFormat
  requestedFormat : DataFormat
  providedSchema : Schema
  requestedSchema : Schema
  policy : SchemaPolicy
  mappings : List FieldMapping
  additions : List FieldAddition

namespace Plan

open CastRegistry

/-- Planning sees names, types and nullability; field metadata is left behind. -/
def describe (field : Field) : FieldDescriptor := ⟨field.name, field.dataType, field.isNullable⟩

def schemaDescriptors (schema : Schema) : List FieldDescriptor := schema.fields.map describe

def schemaFieldsEqual (left right : Schema) : Bool := schemaDescriptors left = schemaDescriptors right

def validateField (source target : FieldDescriptor) : Except InterchangeError Unit :=
  if source.dataType ≠ target.dataType then
    .error (.typeMismatch target.name source.dataType target.dataType)
  else if source.nullable && !target.nullable then .error (.nullability target.name)
  else .ok ()

def validateNullability (source target : FieldDescriptor) (allowRuntimeCheck : Bool) :
    Except InterchangeError Unit :=
  if source.nullable && !target.nullable && !allowRuntimeCheck then .error (.nullability target.name)
  else .ok ()

/-- Fields matched by position, which must also agree in name. -/
def planPositional (provided requested : List FieldDescriptor)
    (mapping : Nat → FieldDescriptor → FieldDescriptor → Except InterchangeError FieldMapping) :
    Except InterchangeError (List FieldMapping) :=
  if provided.length ≠ requested.length then
    .error (.fieldCount provided.length requested.length)
  else
    (provided.zip requested).zipIdx.mapM fun ((source, target), index) =>
      if source.name ≠ target.name then .error (.fieldName index source.name target.name)
      else mapping index source target

/-- The source repeats the positional match here; the checks per field are its own. -/
def planExact (provided requested : List FieldDescriptor) :
    Except InterchangeError (List FieldMapping) :=
  planPositional provided requested fun index source target => do
    validateField source target
    if source.nullable ≠ target.nullable then
      .error (.exactNullability target.name source.nullable target.nullable)
    else .ok ⟨index, index, none, false⟩

def planProjection (provided requested : List FieldDescriptor) :
    Except InterchangeError (List FieldMapping) :=
  requested.zipIdx.mapM fun (target, targetIndex) =>
    match provided.zipIdx.filter (fun entry => entry.1.name = target.name) with
    | [] => .error (.missingField target.name)
    | [(source, sourceIndex)] => do
      validateField source target
      .ok ⟨sourceIndex, targetIndex, none, false⟩
    | _ => .error (.ambiguousField target.name)

def planCompatible (provided requested : List FieldDescriptor) :
    Except InterchangeError (List FieldMapping) :=
  planPositional provided requested fun index source target => do
    validateNullability source target false
    let cast := classify source.dataType target.dataType
    if source.dataType ≠ target.dataType ∧ cast ≠ some .safe then
      .error (.castUnsafe target.name source.dataType target.dataType)
    else .ok ⟨index, index, cast, false⟩

def planCoerce (provided requested : List FieldDescriptor) :
    Except InterchangeError (List FieldMapping) :=
  planPositional provided requested fun index source target =>
    let cast := classify source.dataType target.dataType
    if source.dataType ≠ target.dataType ∧ cast = none then
      .error (.unsupportedCast target.name source.dataType target.dataType)
    else .ok ⟨index, index, cast, source.nullable && !target.nullable⟩

def planFieldDescriptors (provided requested : List FieldDescriptor) :
    SchemaPolicy → Except InterchangeError (List FieldMapping)
  | .exact => planExact provided requested
  | .projection => planProjection provided requested
  | .compatible => planCompatible provided requested
  | .coerce => planCoerce provided requested

/-- The most permissive cast of a policy, before any override. -/
def policyCast : SchemaPolicy → Option CastKind
  | .compatible => some .safe
  | .coerce => some .lossy
  | .exact | .projection => none

def checkCast (source target : FieldDescriptor) (cast allowed : Option CastKind) :
    Except InterchangeError Unit :=
  if source.dataType = target.dataType then .ok ()
  else
    match cast, allowed with
    | _, none => .error (.typeMismatch target.name source.dataType target.dataType)
    | none, some _ => .error (.unsupportedCast target.name source.dataType target.dataType)
    | some kind, some max =>
      if kind.rank > max.rank then .error (.castNotAllowed target.name kind.asStr max.asStr)
      else .ok ()

def planMapping (sourceIndex targetIndex : Nat) (source target : FieldDescriptor)
    (policy : SchemaPolicy) (castOverride : Option CastKind) : Except InterchangeError FieldMapping := do
  let cast := classify source.dataType target.dataType
  let allowed := castOverride.or (policyCast policy)
  checkCast source target cast allowed
  let checkNulls := source.nullable && !target.nullable
  if checkNulls && policy ≠ .coerce then .error (.nullability target.name)
  else .ok ⟨sourceIndex, targetIndex, cast, checkNulls⟩

/-- `is_null` of a one-element array: the validity buffer's answer. -/
def isNullValue (value : ArrayRef) : Bool := value.nullCount = 1

def planAddition (arrow : Arrow) (targetIndex : Nat) (target : FieldDescriptor) (value : ArrayRef) :
    Except InterchangeError FieldAddition :=
  if value.length ≠ 1 then .error (.defaultLength target.name)
  else if isNullValue value then
    if target.nullable then .ok ⟨targetIndex, arrow.newNullArray target.dataType 1⟩
    else .error (.nullDefault target.name)
  else
    match arrow.castWithOptions value target.dataType with
    | .ok value => .ok ⟨targetIndex, value⟩
    | .error source => .error (.defaultCast target.name target.dataType source)

/-- A provided field that is not dropped, under its name after renaming. The source
keeps the index and reads the field through it. -/
structure Candidate where
  sourceIndex : Nat
  name : String
  field : FieldDescriptor

def candidates (provided : List FieldDescriptor) (options : ProjectionOptions) : List Candidate :=
  (provided.zipIdx.filter fun entry => entry.1.name ∉ options.drop).map fun (field, index) =>
    ⟨index, (options.renames.lookup field.name).getD field.name, field⟩

/-- A renamed or dropped name must be provided once. -/
def checkProvided (provided : List FieldDescriptor) (name : String) : Except InterchangeError Unit :=
  match provided.countP (·.name = name) with
  | 0 => .error (.missingProvidedField name)
  | 1 => .ok ()
  | _ => .error (.ambiguousField name)

def checkConflicts (options : ProjectionOptions) : Except InterchangeError Unit :=
  match options.drop.find? (· ∈ options.renames) with
  | some name => .error (.renameDropConflict name)
  | none => .ok ()

/-- The names an operation gives for requested fields must be requested. -/
def checkRequested (requested : List FieldDescriptor) (operation : String) (names : List String) :
    Except InterchangeError Unit :=
  match names.find? (fun name => !requested.any (·.name = name)) with
  | some name => .error (.unknownRequestedField operation name)
  | none => .ok ()

def checkNames (provided requested : List FieldDescriptor) (options : ProjectionOptions) :
    Except InterchangeError Unit := do
  (options.renames.keys ++ options.drop).forM (checkProvided provided)
  checkConflicts options
  checkRequested requested "rename" (options.renames.entries.map (·.2))
  checkRequested requested "default" options.defaults.keys
  checkRequested requested "cast" options.casts.keys

/-- The accumulators of the by-name loop; `used` is indexed by candidate. -/
structure Progress where
  used : List Bool
  mappings : List FieldMapping
  additions : List FieldAddition

/-- One round of the by-name loop. -/
def place (arrow : Arrow) (sources : List Candidate) (policy : SchemaPolicy)
    (options : ProjectionOptions) (progress : Progress) :
    FieldDescriptor × Nat → Except InterchangeError Progress := fun (target, targetIndex) =>
  match sources.zipIdx.filter (fun entry => entry.1.name = target.name),
      options.defaults.lookup target.name with
  | [], some value => do
    let addition ← planAddition arrow targetIndex target value
    .ok { progress with additions := progress.additions ++ [addition] }
  | [], none => .error (.missingField target.name)
  | [(candidate, position)], none => do
    let mapping ← planMapping candidate.sourceIndex targetIndex candidate.field target policy
      (options.casts.lookup target.name)
    .ok { progress with
      used := progress.used.set position true
      mappings := progress.mappings ++ [mapping] }
  | [_], some _ => .error (.defaultConflict target.name)
  | _, _ => .error (.ambiguousField target.name)

def checkUsed (sources : List Candidate) (policy : SchemaPolicy) (used : List Bool) :
    Except InterchangeError Unit :=
  if policy = .projection then .ok ()
  else
    match (sources.zip used).find? (!·.2) with
    | some (candidate, _) => .error (.unmappedField candidate.field.name)
    | none => .ok ()

def planOperations (arrow : Arrow) (provided requested : List FieldDescriptor)
    (policy : SchemaPolicy) (options : ProjectionOptions) :
    Except InterchangeError (List FieldMapping × List FieldAddition) :=
  if policy = .exact then .error .exactOperations
  else do
    checkNames provided requested options
    let sources := candidates provided options
    let progress ← requested.zipIdx.foldlM (place arrow sources policy options)
      ⟨List.replicate sources.length false, [], []⟩
    checkUsed sources policy progress.used
    .ok (progress.mappings, progress.additions)

def planSchemaWith (arrow : Arrow) (provided requested : Schema) (policy : SchemaPolicy)
    (options : ProjectionOptions) : Except InterchangeError InterchangePlan :=
  let operations :=
    if options.isEmpty then
      (·, []) <$> planFieldDescriptors (schemaDescriptors provided) (schemaDescriptors requested) policy
    else
      planOperations arrow (schemaDescriptors provided) (schemaDescriptors requested) policy options
  (fun (mappings, additions) =>
    ⟨.arrow, .arrow, provided, requested, policy, mappings, additions⟩) <$> operations

def planSchema (arrow : Arrow) (provided requested : Schema) (policy : SchemaPolicy) :
    Except InterchangeError InterchangePlan :=
  planSchemaWith arrow provided requested policy {}

end Plan

end FsspecData
