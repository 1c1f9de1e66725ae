import FsspecData.Plan.WellFormed
import FsspecData.Arrow.SmallKernel

/-! Plan execution. A plan is a plain record, so running one can panic: an index can
be out of range and a column can stay unfilled. Well-formed plans do neither. -/
namespace FsspecData

/-- How a run fails: it returns an error, or it panics. -/
inductive Failure where
  | error (error : InterchangeError)
  | panic
  deriving DecidableEq

/-- Errors of the Arrow libraries are passed on inside the core's own. -/
def orArrow : Except ArrowError α → Except Failure α
  | .ok a => .ok a
  | .error source => .error (.error (.arrow source))

@[simp] theorem orArrow_eq_ok {x : Except ArrowError α} : orArrow x = .ok a ↔ x = .ok a := by
  cases x <;> simp [orArrow]

theorem orArrow_eq_error {x : Except ArrowError α} {failure : Failure} (h : orArrow x = .error failure) :
    ∃ source, x = .error source ∧ failure = .error (.arrow source) := by
  cases x with
  | ok a => contradiction
  | error source => exact ⟨source, rfl, by cases h; rfl⟩

namespace InterchangePlan

open Plan Fallible

def applyMapping (arrow : Arrow) (requested : Schema) (batch : RecordBatch) (mapping : FieldMapping) :
    Except Failure ArrayRef := do
  let source ← orFail .panic batch.columns[mapping.sourceIndex]?
  if mapping.checkNulls ∧ source.nullCount > 0 then
    let field ← orFail .panic requested.fields[mapping.targetIndex]?
    .error (.error (.runtimeNullability field.name))
  else
    match mapping.cast with
    | some _ =>
      let field ← orFail .panic requested.fields[mapping.targetIndex]?
      orArrow (arrow.castWithOptions source field.dataType)
    | none => .ok source

/-- The default, taken once for every row. -/
def applyAddition (arrow : Arrow) (batch : RecordBatch) (addition : FieldAddition) :
    Except Failure ArrayRef :=
  orArrow (arrow.take addition.value (List.replicate batch.numRows 0))

def applyBatch (plan : InterchangePlan) (arrow : Arrow) (batch : RecordBatch) :
    Except Failure RecordBatch :=
  if !schemaFieldsEqual batch.schema plan.providedSchema then .error (.error .inputSchema)
  else do
    let columns ← plan.mappings.foldlM
      (fun columns mapping => do
        Slots.write .panic columns mapping.targetIndex
          (← applyMapping arrow plan.requestedSchema batch mapping))
      (List.replicate plan.requestedSchema.fields.length none)
    let columns ← plan.additions.foldlM
      (fun columns addition => do
        Slots.write .panic columns addition.targetIndex (← applyAddition arrow batch addition))
      columns
    let columns ← columns.mapM (orFail .panic)
    orArrow (arrow.tryNewWithOptions plan.requestedSchema columns batch.numRows)

/-- The columns a run computes, each at the index its operation targets. -/
abbrev Produces (plan : InterchangePlan) (arrow : Arrow) (batch : RecordBatch)
    (columns : List ArrayRef) : Prop :=
  Slots.Filled plan.requestedSchema.fields.length (applyMapping arrow plan.requestedSchema batch)
    (·.targetIndex) (applyAddition arrow batch) (·.targetIndex) plan.mappings plan.additions columns

variable {plan : InterchangePlan} {arrow : Arrow} {batch : RecordBatch}

/-- Each requested index is the target of one operation. -/
def Covers (plan : InterchangePlan) : Prop :=
  (plan.mappings.map (·.targetIndex) ++ plan.additions.map (·.targetIndex)).Perm
    (List.range plan.requestedSchema.fields.length)

/-- A run on a batch of the provided schema: two loops of writes, then the constructor. -/
theorem applyBatch_assemble (provided : schemaFieldsEqual batch.schema plan.providedSchema = true) :
    plan.applyBatch arrow batch = (do
      let columns ← Slots.assemble .panic .panic plan.requestedSchema.fields.length
        (applyMapping arrow plan.requestedSchema batch) (·.targetIndex) (applyAddition arrow batch)
        (·.targetIndex) plan.mappings plan.additions
      orArrow (arrow.tryNewWithOptions plan.requestedSchema columns batch.numRows)) := by
  rw [applyBatch, provided, Slots.assemble, bind_assoc]
  simp only [bind_assoc]
  rfl

/-- A run either fails as one of its operations does, or computes all columns and
hands them to the checked constructor. -/
theorem applyBatch_cases (covers : plan.Covers)
    (provided : schemaFieldsEqual batch.schema plan.providedSchema = true) :
    (∃ columns, plan.Produces arrow batch columns ∧ plan.applyBatch arrow batch =
      orArrow (arrow.tryNewWithOptions plan.requestedSchema columns batch.numRows)) ∨
    ∃ failure, plan.applyBatch arrow batch = .error failure ∧
      ((∃ mapping ∈ plan.mappings,
        applyMapping arrow plan.requestedSchema batch mapping = .error failure) ∨
      ∃ addition ∈ plan.additions, applyAddition arrow batch addition = .error failure) := by
  have run : plan.applyBatch arrow batch = _ := applyBatch_assemble provided
  rcases Slots.assemble_cases .panic .panic (applyMapping arrow plan.requestedSchema batch)
    (applyAddition arrow batch) covers with ⟨columns, filled, done⟩ | ⟨failure, failed, cause⟩
  · exact .inl ⟨columns, filled, by rw [run, done]; rfl⟩
  · exact .inr ⟨failure, by rw [run, failed]; rfl, cause⟩

/-- A mapping of fields that exist reads no index out of range. -/
theorem applyMapping_eq {mapping : FieldMapping} {requested : Schema} {column : ArrayRef}
    {field : Field} (at_column : batch.columns[mapping.sourceIndex]? = some column)
    (at_field : requested.fields[mapping.targetIndex]? = some field) :
    applyMapping arrow requested batch mapping =
      if mapping.checkNulls ∧ column.nullCount > 0 then
        .error (.error (.runtimeNullability field.name))
      else
        match mapping.cast with
        | some _ => orArrow (arrow.castWithOptions column field.dataType)
        | none => .ok column := by
  unfold applyMapping
  rw [at_column, at_field]
  rfl

/-- The fields and the column of a planned mapping, in a batch of the provided schema. -/
structure Reads (batch : RecordBatch) (requested : Schema) (policy : SchemaPolicy)
    (options : ProjectionOptions) (mapping : FieldMapping) (source target : Field)
    (column : ArrayRef) : Prop where
  at_source : batch.schema.fields[mapping.sourceIndex]? = some source
  at_target : requested.fields[mapping.targetIndex]? = some target
  at_column : batch.columns[mapping.sourceIndex]? = some column
  fits : Fits policy (castLimit policy options target.name) (describe source) (describe target) mapping

theorem Reads.cast_eq {requested : Schema} {policy : SchemaPolicy} {options : ProjectionOptions}
    {mapping : FieldMapping} {source target : Field} {column : ArrayRef}
    (reads : Reads batch requested policy options mapping source target column) :
    mapping.cast = CastRegistry.classify column.dataType target.dataType := by
  rw [batch.column_type reads.at_source reads.at_column]
  exact reads.fits.cast

end InterchangePlan

namespace Plan.Planned

open InterchangePlan

variable {arrow : Arrow} {provided requested : Schema} {policy : SchemaPolicy}
  {options : ProjectionOptions} {plan : InterchangePlan} {batch : RecordBatch}

theorem covers (planned : Planned arrow provided requested policy options plan) : plan.Covers := by
  have covers := planned.wellFormed.covers
  rwa [schemaDescriptors, List.length_map, ← planned.requestedSchema] at covers

/-- The fields of a mapping, read in any schema with the provided fields. -/
theorem mapping_fields (planned : Planned arrow provided requested policy options plan)
    {schema : Schema} (same : schemaFieldsEqual schema provided = true) {mapping : FieldMapping}
    (member : mapping ∈ plan.mappings) :
    ∃ source target, schema.fields[mapping.sourceIndex]? = some source ∧
      requested.fields[mapping.targetIndex]? = some target ∧
      Fits policy (castLimit policy options target.name) (describe source) (describe target) mapping := by
  obtain ⟨_, _, at_source, at_target, fits⟩ := (planned.wellFormed.mapped mapping member).exists_fields
  rw [← of_decide_eq_true same] at at_source
  rw [schemaDescriptors, List.getElem?_map] at at_source at_target
  obtain ⟨source, source_field, rfl⟩ := Option.map_eq_some_iff.mp at_source
  obtain ⟨target, target_field, rfl⟩ := Option.map_eq_some_iff.mp at_target
  exact ⟨source, target, source_field, target_field, fits⟩

theorem reads (planned : Planned arrow provided requested policy options plan)
    (same : schemaFieldsEqual batch.schema provided = true) {mapping : FieldMapping}
    (member : mapping ∈ plan.mappings) :
    ∃ source target column, Reads batch requested policy options mapping source target column := by
  obtain ⟨source, target, at_source, at_target, fits⟩ := planned.mapping_fields same member
  obtain ⟨column, at_column⟩ := batch.column_of_field at_source
  exact ⟨source, target, column, at_source, at_target, at_column, fits⟩

theorem mapping_error (planned : Planned arrow provided requested policy options plan)
    (same : schemaFieldsEqual batch.schema provided = true) {mapping : FieldMapping}
    (member : mapping ∈ plan.mappings) {failure : Failure}
    (fails : applyMapping arrow plan.requestedSchema batch mapping = .error failure) :
    ∃ error, failure = .error error := by
  obtain ⟨source, target, column, reads⟩ := planned.reads same member
  rw [planned.requestedSchema, applyMapping_eq reads.at_column reads.at_target] at fails
  split_ifs at fails
  · cases fails
    exact ⟨_, rfl⟩
  · split at fails
    · obtain ⟨_, _, rfl⟩ := orArrow_eq_error fails
      exact ⟨_, rfl⟩
    · contradiction

/-- A planned run computes all columns and constructs the batch, or returns the error
of one mapping or addition. It does not panic. -/
theorem applyBatch_cases (planned : Planned arrow provided requested policy options plan)
    (same : schemaFieldsEqual batch.schema provided = true) :
    (∃ columns, plan.Produces arrow batch columns ∧ plan.applyBatch arrow batch =
      orArrow (arrow.tryNewWithOptions requested columns batch.numRows)) ∨
    ∃ error, plan.applyBatch arrow batch = .error (.error error) ∧
      ((∃ mapping ∈ plan.mappings,
        applyMapping arrow requested batch mapping = .error (.error error)) ∨
      ∃ addition ∈ plan.additions, applyAddition arrow batch addition = .error (.error error)) := by
  rw [← planned.requestedSchema]
  rw [← planned.providedSchema] at same
  rcases InterchangePlan.applyBatch_cases planned.covers same with
    done | ⟨failure, run, ⟨mapping, member, fails⟩ | ⟨addition, member, fails⟩⟩
  · exact .inl done
  · rw [planned.providedSchema] at same
    obtain ⟨error, rfl⟩ := planned.mapping_error same member fails
    exact .inr ⟨error, run, .inl ⟨mapping, member, fails⟩⟩
  · obtain ⟨source, _, rfl⟩ := orArrow_eq_error fails
    exact .inr ⟨_, run, .inr ⟨addition, member, fails⟩⟩

theorem applyBatch_ok (planned : Planned arrow provided requested policy options plan)
    (same : schemaFieldsEqual batch.schema provided = true) {output : RecordBatch} :
    plan.applyBatch arrow batch = .ok output ↔
      ∃ columns, plan.Produces arrow batch columns ∧
        ∃ valid, output = ⟨requested, columns, batch.numRows, valid⟩ := by
  rcases planned.applyBatch_cases same with
    ⟨columns, produces, run⟩ | ⟨error, run, fails⟩
  · rw [run, orArrow_eq_ok, Arrow.tryNewWithOptions_ok]
    refine ⟨fun ⟨valid, made⟩ => ⟨columns, produces, valid, made⟩, ?_⟩
    rintro ⟨others, produced, valid, rfl⟩
    cases produces.unique produced planned.covers
    exact ⟨valid, rfl⟩
  · simp only [run, reduceCtorEq, false_iff, not_exists, not_and]
    intro columns produces
    rw [← planned.requestedSchema] at fails
    rcases fails with ⟨mapping, member, fails⟩ | ⟨addition, member, fails⟩
    · obtain ⟨column, _, computed⟩ := produces.first mapping member
      cases fails.symm.trans computed
    · obtain ⟨column, _, computed⟩ := produces.second addition member
      cases fails.symm.trans computed

end Plan.Planned

namespace Plan

open CastRegistry

theorem Fits.cast_none {source target : FieldDescriptor} {mapping : FieldMapping}
    (fits : Fits policy limit source target mapping) :
    mapping.cast = none ↔ source.dataType = target.dataType := by
  constructor
  · intro uncast
    by_contra distinct
    obtain ⟨kind, _, cast, _⟩ := fits.allowed distinct
    rw [uncast] at cast
    contradiction
  · intro same
    rw [fits.cast, same, classify_self]

theorem Fits.checks_iff {source target : Field} {mapping : FieldMapping}
    (fits : Fits policy limit (describe source) (describe target) mapping) :
    mapping.checkNulls = true ↔ source.isNullable = true ∧ target.isNullable = false := by
  rw [fits.nulls]
  simp [describe]

/-- An unchecked mapping into a required field reads a required one. -/
theorem Fits.required {source target : Field} {mapping : FieldMapping}
    (fits : Fits policy limit (describe source) (describe target) mapping)
    (unchecked : mapping.checkNulls = false) (required : target.isNullable = false) :
    source.isNullable = false := by
  have narrows := fits.checks_iff.not.mp (by simp [unchecked])
  simpa [required] using narrows

/-- Plans from every builder are well formed, and so run without a panic on each batch
of the provided schema, to a batch of the requested schema with as many rows. -/
theorem planSchemaWith_sound (arrow : Arrow) (provided requested : Schema) (policy : SchemaPolicy)
    (options : ProjectionOptions) (plan : InterchangePlan)
    (planned : planSchemaWith arrow provided requested policy options = .ok plan) :
    (plan.mappings.map (·.targetIndex) ++ plan.additions.map (·.targetIndex)).Perm
      (List.range requested.fields.length) ∧
    (∀ mapping ∈ plan.mappings, ∃ source target,
      provided.fields[mapping.sourceIndex]? = some source ∧
      requested.fields[mapping.targetIndex]? = some target ∧
      (mapping.cast = none ↔ source.dataType = target.dataType) ∧
      (∀ kind, mapping.cast = some kind → classify source.dataType target.dataType = some kind ∧
        ∃ max, (options.casts.lookup target.name).or (policyCast policy) = some max ∧
          kind.rank ≤ max.rank) ∧
      (mapping.checkNulls = true ↔ source.isNullable = true ∧ target.isNullable = false) ∧
      (source.isNullable = true → target.isNullable = false → policy = .coerce)) ∧
    ∀ batch : RecordBatch, schemaFieldsEqual batch.schema provided = true →
      plan.applyBatch arrow batch ≠ .error .panic ∧
      ∀ output, plan.applyBatch arrow batch = .ok output →
        output.schema = requested ∧ output.numRows = batch.numRows := by
  have planned := planSchemaWith_planned planned
  refine ⟨planned.requestedSchema ▸ planned.covers, fun mapping member => ?_, fun batch same => ?_⟩
  · obtain ⟨source, target, at_source, at_target, fits⟩ := planned.mapping_fields (decide_eq_true rfl) member
    refine ⟨source, target, at_source, at_target, fits.cast_none, fun kind cast => ?_, fits.checks_iff,
      fun nullable required => fits.coerced (fits.checks_iff.mpr ⟨nullable, required⟩)⟩
    have distinct : source.dataType ≠ target.dataType := fun same => by
      rw [fits.cast_none.mpr same] at cast
      contradiction
    obtain ⟨kind', max, cast', limit, within⟩ := fits.allowed distinct
    obtain rfl : kind' = kind := Option.some.inj (cast'.symm.trans cast)
    exact ⟨fits.cast.symm.trans cast, max, limit, within⟩
  · constructor
    · intro panics
      rcases planned.applyBatch_cases same with ⟨columns, _, run⟩ | ⟨error, run, _⟩
      · obtain ⟨_, _, failure⟩ := orArrow_eq_error (run.symm.trans panics)
        contradiction
      · cases run.symm.trans panics
    · intro output run
      obtain ⟨columns, _, valid, rfl⟩ := (planned.applyBatch_ok same).mp run
      exact ⟨rfl, rfl⟩

/-- What Python's `None` becomes as a default. -/
def noneDefault : ArrayRef := ⟨.null, .null 1, rfl⟩

/-- A rename with a widening cast, an added field and a dropped one. -/
def renameOptions : ProjectionOptions where
  renames := ⟨[⟨"a", "x"⟩], by simp [List.NodupKeys, List.keys]⟩
  defaults := ⟨[⟨"c", noneDefault⟩], by simp [List.NodupKeys, List.keys]⟩
  drop := ["b"]

def renameBatch : RecordBatch :=
  ⟨⟨[.mk "a" .int32 false [], .mk "b" .utf8 true []], []⟩,
    [⟨.int32, .plain [some (.integer 7), some (.integer 8)], rfl⟩,
      ⟨.utf8, .plain [some (.text "s"), none], rfl⟩], 2, by decide⟩

theorem planSchemaWith_sound_rename :
    ∃ plan output, planSchemaWith Arrow.small renameBatch.schema
        ⟨[.mk "c" .int64 true [], .mk "x" .int64 false []], []⟩ .compatible renameOptions = .ok plan ∧
      plan.applyBatch Arrow.small renameBatch = .ok output ∧
      (plan.mappings.map (·.targetIndex) ++ plan.additions.map (·.targetIndex)).Perm [0, 1] ∧
      output.numRows = 2 := by
  obtain ⟨plan, planned, output, run⟩ : ∃ plan, planSchemaWith Arrow.small renameBatch.schema
      ⟨[.mk "c" .int64 true [], .mk "x" .int64 false []], []⟩ .compatible renameOptions = .ok plan ∧
      ∃ output, plan.applyBatch Arrow.small renameBatch = .ok output := ⟨_, rfl, _, rfl⟩
  obtain ⟨covers, _, runs⟩ := planSchemaWith_sound _ _ _ _ _ plan planned
  exact ⟨plan, output, planned, run, covers, ((runs renameBatch (decide_eq_true rfl)).2 output run).2⟩

end Plan

end FsspecData
