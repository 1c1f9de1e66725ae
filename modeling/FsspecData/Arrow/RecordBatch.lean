import FsspecData.Arrow.Array

/-! Record batches, and the arrow-rs functions the core calls. The functions are
parameters: what a result needs of them is a named hypothesis of that result. -/
namespace FsspecData

/-- The conditions a record batch is constructed under. Nullability is checked on the
validity buffers alone. -/
structure RecordBatch.Accepts (schema : Schema) (columns : List ArrayRef) (numRows : Nat) : Prop where
  width : columns.length = schema.fields.length
  types : ∀ entry ∈ schema.fields.zip columns, entry.2.dataType = entry.1.dataType
  lengths : ∀ column ∈ columns, column.length = numRows
  nullability : ∀ entry ∈ schema.fields.zip columns,
    entry.1.isNullable = false → entry.2.nullCount = 0
  word : numRows ≤ usizeMax

instance (schema : Schema) (columns : List ArrayRef) (numRows : Nat) :
    Decidable (RecordBatch.Accepts schema columns numRows) :=
  decidable_of_iff (columns.length = schema.fields.length ∧
    (∀ entry ∈ schema.fields.zip columns, entry.2.dataType = entry.1.dataType) ∧
    (∀ column ∈ columns, column.length = numRows) ∧
    (∀ entry ∈ schema.fields.zip columns, entry.1.isNullable = false → entry.2.nullCount = 0) ∧
    numRows ≤ usizeMax)
    ⟨fun ⟨a, b, c, d, e⟩ => ⟨a, b, c, d, e⟩, fun ⟨a, b, c, d, e⟩ => ⟨a, b, c, d, e⟩⟩

structure RecordBatch where
  schema : Schema
  columns : List ArrayRef
  numRows : Nat
  valid : RecordBatch.Accepts schema columns numRows

/-- The arrow-rs kernels. Casts are made with `safe: false`, so a value the target type
cannot hold is an error and not a null. -/
structure Arrow where
  castWithOptions : ArrayRef → DataType → Except ArrowError ArrayRef
  take : ArrayRef → List Nat → Except ArrowError ArrayRef
  newNullArray : DataType → Nat → ArrayRef
  rejection : Schema → List ArrayRef → Nat → ArrowError

/-- The checked constructor with an explicit row count. -/
def Arrow.tryNewWithOptions (arrow : Arrow) (schema : Schema) (columns : List ArrayRef)
    (numRows : Nat) : Except ArrowError RecordBatch :=
  if valid : RecordBatch.Accepts schema columns numRows then .ok ⟨schema, columns, numRows, valid⟩
  else .error (arrow.rejection schema columns numRows)

theorem Arrow.tryNewWithOptions_ok {arrow : Arrow} :
    arrow.tryNewWithOptions schema columns numRows = .ok batch ↔
      ∃ valid, batch = ⟨schema, columns, numRows, valid⟩ := by
  unfold Arrow.tryNewWithOptions
  split
  next valid => simp [valid, eq_comm]
  next invalid => simp [invalid]

/-! Columns by position. -/

theorem at_of_mem_zip {fields : List Field} {columns : List ArrayRef} {field : Field} {column : ArrayRef}
    (member : (field, column) ∈ fields.zip columns) :
    ∃ i : Nat, fields[i]? = some field ∧ columns[i]? = some column := by
  obtain ⟨i, at_i⟩ := List.getElem?_of_mem member
  exact ⟨i, List.getElem?_zip_eq_some.mp at_i⟩

/-- Every column has a field when there are as many. -/
theorem at_of_mem {fields : List Field} {columns : List ArrayRef} {column : ArrayRef}
    (width : columns.length = fields.length) (member : column ∈ columns) :
    ∃ (i : Nat) (field : Field), fields[i]? = some field ∧ columns[i]? = some column := by
  obtain ⟨i, at_column⟩ := List.getElem?_of_mem member
  obtain ⟨inside, _⟩ := List.getElem?_eq_some_iff.mp at_column
  exact ⟨i, _, List.getElem?_eq_getElem (width ▸ inside), at_column⟩

/-- Columns are accepted by the types and the nullability of the fields alone. -/
theorem RecordBatch.Accepts.congr {schema schema' : Schema} {columns : List ArrayRef} {numRows : Nat}
    (accepts : RecordBatch.Accepts schema columns numRows)
    (alike : schema.fields.map (fun field => (field.dataType, field.isNullable)) =
      schema'.fields.map fun field => (field.dataType, field.isNullable)) :
    RecordBatch.Accepts schema' columns numRows := by
  have width : schema.fields.length = schema'.fields.length := by
    simpa using congrArg List.length alike
  have own (entry : Field × ArrayRef) (member : entry ∈ schema'.fields.zip columns) :
      ∃ field, (field.dataType, field.isNullable) = (entry.1.dataType, entry.1.isNullable) ∧
        (field, entry.2) ∈ schema.fields.zip columns := by
    obtain ⟨i, at_field, at_column⟩ := at_of_mem_zip member
    have at_i := congrArg (·[i]?) alike
    simp only [List.getElem?_map, at_field, Option.map_some] at at_i
    obtain ⟨field, at_own, same⟩ := Option.map_eq_some_iff.mp at_i
    exact ⟨field, same, List.mem_of_getElem? (List.getElem?_zip_eq_some.mpr ⟨at_own, at_column⟩)⟩
  refine ⟨accepts.width.trans width, fun entry member => ?_, accepts.lengths, fun entry member required => ?_,
    accepts.word⟩
  · obtain ⟨field, same, listed⟩ := own entry member
    exact (accepts.types _ listed).trans (congrArg Prod.fst same)
  · obtain ⟨field, same, listed⟩ := own entry member
    exact accepts.nullability (field, entry.2) listed ((congrArg Prod.snd same).trans required)

namespace RecordBatch

variable {batch : RecordBatch} {i : Nat} {field : Field} {column : ArrayRef}

theorem column_of_field (batch : RecordBatch) (at_field : batch.schema.fields[i]? = some field) :
    ∃ column, batch.columns[i]? = some column := by
  obtain ⟨inside, _⟩ := List.getElem?_eq_some_iff.mp at_field
  exact ⟨_, List.getElem?_eq_getElem (by rw [batch.valid.width]; exact inside)⟩

theorem zip_member (at_field : batch.schema.fields[i]? = some field)
    (at_column : batch.columns[i]? = some column) :
    (field, column) ∈ batch.schema.fields.zip batch.columns :=
  List.mem_of_getElem? (List.getElem?_zip_eq_some.mpr ⟨at_field, at_column⟩)

theorem column_type (at_field : batch.schema.fields[i]? = some field)
    (at_column : batch.columns[i]? = some column) : column.dataType = field.dataType :=
  batch.valid.types _ (zip_member at_field at_column)

theorem column_required (at_field : batch.schema.fields[i]? = some field)
    (at_column : batch.columns[i]? = some column) (required : field.isNullable = false) :
    column.nullCount = 0 :=
  batch.valid.nullability _ (zip_member at_field at_column) required

theorem column_length (at_column : batch.columns[i]? = some column) : column.length = batch.numRows :=
  batch.valid.lengths _ (List.mem_of_getElem? at_column)

/-- Equal data: as many rows, and column by column the same type and the same rows. -/
structure Same (left right : RecordBatch) : Prop where
  numRows : left.numRows = right.numRows
  columns : left.columns.map (fun column => (column.dataType, column.rows)) =
    right.columns.map (fun column => (column.dataType, column.rows))

end RecordBatch

end FsspecData
