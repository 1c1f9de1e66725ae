import FsspecData.Plan.Outcome

/-! The Python executor. It carries the Rust planner's operations and runs them on
pyarrow, whose record batches are not checked for nulls. -/
namespace FsspecData

namespace Python

/-- An exception, by what it reports. -/
inductive PyError where
  | inputSchema
  | containsNulls (field : String)
  | index
  | notAnArray
  | arity (schema arrays : Nat)
  | length
  | arrow (source : ArrowError)

/-- A pyarrow record batch: types and lengths are validated, nulls are not. -/
structure RecordBatch.Accepts (schema : Schema) (columns : List ArrayRef) (numRows : Nat) : Prop where
  width : columns.length = schema.fields.length
  types : ∀ entry ∈ schema.fields.zip columns, entry.2.dataType = entry.1.dataType
  lengths : ∀ column ∈ columns, column.length = numRows

instance (schema : Schema) (columns : List ArrayRef) (numRows : Nat) :
    Decidable (RecordBatch.Accepts schema columns numRows) :=
  decidable_of_iff (columns.length = schema.fields.length ∧
    (∀ entry ∈ schema.fields.zip columns, entry.2.dataType = entry.1.dataType) ∧
    ∀ column ∈ columns, column.length = numRows)
    ⟨fun ⟨a, b, c⟩ => ⟨a, b, c⟩, fun ⟨a, b, c⟩ => ⟨a, b, c⟩⟩

structure RecordBatch where
  schema : Schema
  columns : List ArrayRef
  numRows : Nat
  valid : RecordBatch.Accepts schema columns numRows

/-- A Rust batch as pyarrow sees it. -/
def RecordBatch.ofRust (batch : FsspecData.RecordBatch) : RecordBatch :=
  ⟨batch.schema, batch.columns, batch.numRows, batch.valid.width, batch.valid.types, batch.valid.lengths⟩

@[simp] theorem RecordBatch.ofRust_columns (batch : FsspecData.RecordBatch) :
    (RecordBatch.ofRust batch).columns = batch.columns := rfl

@[simp] theorem RecordBatch.ofRust_numRows (batch : FsspecData.RecordBatch) :
    (RecordBatch.ofRust batch).numRows = batch.numRows := rfl

/-- The pyarrow functions the executor calls. `schemaEquals` is `Schema.equals` with
`check_metadata=False`, `cast` takes its `safe` flag, `repeated` repeats the first value of
an array. -/
structure Pyarrow where
  schemaEquals : Schema → Schema → Bool
  cast : ArrayRef → DataType → Bool → Except ArrowError ArrayRef
  repeated : ArrayRef → Nat → Except ArrowError ArrayRef

/-- Unlike arrow-rs, pyarrow counts the rows of a null array. -/
def nullCount (array : ArrayRef) : Nat := if array.dataType = .null then array.length else array.nullCount

structure FieldMapping where
  sourceIndex : Nat
  targetIndex : Nat
  cast : Option String
  checkNulls : Bool

structure FieldAddition where
  targetIndex : Nat
  value : ArrayRef

structure InterchangePlan where
  providedSchema : Schema
  requestedSchema : Schema
  policy : SchemaPolicy
  mappings : List FieldMapping
  additions : List FieldAddition

/-- What `plan_schema` builds from the operations the Rust planner returns. -/
def InterchangePlan.ofRust (plan : FsspecData.InterchangePlan) : InterchangePlan where
  providedSchema := plan.providedSchema
  requestedSchema := plan.requestedSchema
  policy := plan.policy
  mappings := plan.mappings.map fun mapping =>
    ⟨mapping.sourceIndex, mapping.targetIndex, mapping.cast.map CastKind.asStr, mapping.checkNulls⟩
  additions := plan.additions.map fun addition => ⟨addition.targetIndex, addition.value⟩

def orPyarrow : Except ArrowError α → Except PyError α
  | .ok a => .ok a
  | .error source => .error (.arrow source)

namespace InterchangePlan

open Fallible

def validateInputSchema (pyarrow : Pyarrow) (plan : InterchangePlan) (schema : Schema) : Except PyError Unit :=
  if !pyarrow.schemaEquals schema plan.providedSchema then .error .inputSchema else .ok ()

def applyMapping (pyarrow : Pyarrow) (plan : InterchangePlan) (array : ArrayRef)
    (mapping : FieldMapping) : Except PyError ArrayRef := do
  let field ← orFail .index plan.requestedSchema.fields[mapping.targetIndex]?
  if mapping.checkNulls ∧ nullCount array ≠ 0 then .error (.containsNulls field.name)
  else
    match mapping.cast with
    | some cast => orPyarrow (pyarrow.cast array field.dataType (cast ≠ "lossy"))
    | none => .ok array

/-- The list of columns, in which an untargeted one stays `None`. -/
def arrays (pyarrow : Pyarrow) (plan : InterchangePlan) (data : RecordBatch) :
    Except PyError (List (Option ArrayRef)) := do
  let arrays ← plan.mappings.foldlM
    (fun arrays mapping => do
      Slots.write .index arrays mapping.targetIndex
        (← do applyMapping pyarrow plan (← orFail .index data.columns[mapping.sourceIndex]?) mapping))
    (List.replicate plan.requestedSchema.fields.length none)
  plan.additions.foldlM
    (fun arrays addition => do
      Slots.write .index arrays addition.targetIndex
        (← orPyarrow (pyarrow.repeated addition.value data.numRows)))
    arrays

/-- An array of another type than its field is cast to it. -/
def asarray (pyarrow : Pyarrow) (array : ArrayRef) (type : DataType) : Except PyError ArrayRef :=
  if array.dataType = type then .ok array else orPyarrow (pyarrow.cast array type true)

/-- The row count is the length of the first array, and zero without one. -/
def fromColumns (pyarrow : Pyarrow) (arrays : List ArrayRef) (schema : Schema) :
    Except PyError RecordBatch :=
  let numRows := (arrays.head?.map ArrayRef.length).getD 0
  if arrays.length ≠ schema.fields.length then .error (.arity schema.fields.length arrays.length)
  else do
    let columns ← (schema.fields.zip arrays).mapM fun (field, array) =>
      asarray pyarrow array field.dataType
    if valid : RecordBatch.Accepts schema columns numRows then .ok ⟨schema, columns, numRows, valid⟩
    else .error .length

/-- `RecordBatch.from_arrays`, which cannot convert `None`. -/
def fromArrays (pyarrow : Pyarrow) (arrays : List (Option ArrayRef)) (schema : Schema) :
    Except PyError RecordBatch := do
  fromColumns pyarrow (← arrays.mapM (orFail .notAnArray)) schema

def applyBatch (pyarrow : Pyarrow) (plan : InterchangePlan) (batch : RecordBatch) :
    Except PyError RecordBatch := do
  plan.validateInputSchema pyarrow batch.schema
  fromArrays pyarrow (← plan.arrays pyarrow batch) plan.requestedSchema

end InterchangePlan

end Python

end FsspecData
