import FsspecData.Python.Pyarrow

/-! One Python run: it assembles its columns like the Rust run and converts them. -/
namespace FsspecData.Python

open Plan

variable {arrow : Arrow} {pyarrow : Pyarrow} {provided requested : Schema} {policy : SchemaPolicy}
  {options : ProjectionOptions} {plan : FsspecData.InterchangePlan} {data : RecordBatch}

/-- One mapping of the plan, run by Python. -/
def runMapping (pyarrow : Pyarrow) (plan : FsspecData.InterchangePlan) (data : RecordBatch)
    (mapping : FsspecData.FieldMapping) : Except PyError ArrayRef := do
  InterchangePlan.applyMapping pyarrow (.ofRust plan)
    (← Fallible.orFail .index data.columns[mapping.sourceIndex]?)
    ⟨mapping.sourceIndex, mapping.targetIndex, mapping.cast.map CastKind.asStr, mapping.checkNulls⟩

def runAddition (pyarrow : Pyarrow) (data : RecordBatch)
    (addition : FsspecData.FieldAddition) : Except PyError ArrayRef :=
  orPyarrow (pyarrow.repeated addition.value data.numRows)

/-- The columns the Python run computes. -/
abbrev Produces (pyarrow : Pyarrow) (plan : FsspecData.InterchangePlan) (data : RecordBatch)
    (columns : List ArrayRef) : Prop :=
  Slots.Filled plan.requestedSchema.fields.length (runMapping pyarrow plan data) (·.targetIndex)
    (runAddition pyarrow data) (·.targetIndex) plan.mappings plan.additions columns

theorem validates (planned : Planned arrow provided requested policy options plan)
    (same : pyarrow.schemaEquals data.schema provided = true) :
    InterchangePlan.validateInputSchema pyarrow (.ofRust plan) data.schema = .ok () := by
  rw [InterchangePlan.validateInputSchema, InterchangePlan.ofRust, planned.providedSchema, same]
  rfl

theorem applyBatch_cases (planned : Planned arrow provided requested policy options plan)
    (same : pyarrow.schemaEquals data.schema provided = true) :
    (∃ columns, Produces pyarrow plan data columns ∧
      InterchangePlan.applyBatch pyarrow (.ofRust plan) data =
        InterchangePlan.fromColumns pyarrow columns requested) ∨
    ∃ error, InterchangePlan.applyBatch pyarrow (.ofRust plan) data = .error error ∧
      ((∃ mapping ∈ plan.mappings, runMapping pyarrow plan data mapping = .error error) ∨
        ∃ addition ∈ plan.additions, runAddition pyarrow data addition = .error error) := by
  have run : InterchangePlan.applyBatch pyarrow (.ofRust plan) data = (do
      let arrays ← Slots.assemble .index .notAnArray plan.requestedSchema.fields.length
        (runMapping pyarrow plan data) (·.targetIndex) (runAddition pyarrow data) (·.targetIndex)
        plan.mappings plan.additions
      InterchangePlan.fromColumns pyarrow arrays requested) := by
    rw [InterchangePlan.applyBatch, validates planned same, InterchangePlan.arrays, Slots.assemble]
    simp only [InterchangePlan.fromArrays, InterchangePlan.ofRust, runMapping,
      runAddition, bind_assoc, List.foldlM_map, planned.requestedSchema]
    rfl
  rcases Slots.assemble_cases .index .notAnArray (runMapping pyarrow plan data)
    (runAddition pyarrow data) planned.covers with ⟨columns, filled, done⟩ | ⟨error, failed, cause⟩
  · exact .inl ⟨columns, filled, by rw [run, done]; rfl⟩
  · exact .inr ⟨error, by rw [run, failed]; rfl, cause⟩

/-- An addition always succeeds, with its value in every row. -/
theorem runAddition_ok (documented : arrow.Documented) (follows : pyarrow.Documented arrow)
    (planned : Planned arrow provided requested policy options plan) (data : RecordBatch)
    {addition : FsspecData.FieldAddition} {target : Field} (adds : plan.Adds addition target) :
    ∃ result row, runAddition pyarrow data addition = .ok result ∧ result.dataType = target.dataType ∧
      addition.value.rows = [row] ∧ result.rows = List.replicate data.numRows row := by
  obtain ⟨typed, row, single⟩ := planned.added_value documented adds
  obtain ⟨result, done, kept, rows⟩ := follows.repeated_rows (n := data.numRows) single
  exact ⟨result, row, by rw [runAddition, done]; rfl, kept.trans typed, single, rows⟩

/-- An array of its field's type is kept as it is. -/
theorem fromColumns_at {columns : List ArrayRef} {schema : Schema} {output : RecordBatch}
    (made : InterchangePlan.fromColumns pyarrow columns schema = .ok output) {i : Nat} {field : Field}
    {column : ArrayRef} (at_field : schema.fields[i]? = some field) (at_column : columns[i]? = some column)
    (typed : column.dataType = field.dataType) : output.columns[i]? = some column := by
  unfold InterchangePlan.fromColumns at made
  dsimp only at made
  split_ifs at made
  obtain ⟨results, converted, made⟩ := Fallible.bind_eq_ok.mp made
  split_ifs at made
  cases made
  have pointwise := Fallible.mapM_eq_ok.mp converted
  have at_pair : (schema.fields.zip columns)[i]? = some (field, column) :=
    List.getElem?_zip_eq_some.mpr ⟨at_field, at_column⟩
  obtain ⟨inside, pair⟩ := List.getElem?_eq_some_iff.mp at_pair
  have inside' : i < results.length := pointwise.length_eq ▸ inside
  have kept := (List.forall₂_iff_get.mp pointwise).2 i inside inside'
  simp only [List.get_eq_getElem, pair, InterchangePlan.asarray, if_pos typed] at kept
  exact List.getElem?_eq_some_iff.mpr ⟨inside', (Except.ok.inj kept).symm⟩

end FsspecData.Python
