import FsspecData.Plan.Lossless

/-! When a run of a planned batch fails. Nulls are tested by validity buffers throughout,
so the conditions here separate the nulls a buffer shows from the logical ones. -/
namespace FsspecData

/-- Only null arrays and plain ones have cast rules. -/
theorem CastRegistry.classify_plain {source target : DataType} (known : classify source target = some kind)
    (valued : source ≠ .null) : source.isPlain := by
  cases source
  case null => exact absurd rfl valued
  case dictionary | union | runEndEncoded =>
    simp [classify, signedRank, unsignedRank, ranked, classifyOther, safePairs, lossyPairs, isNumeric,
      isText] at known
  all_goals rfl

namespace Plan

open CastRegistry InterchangePlan

variable {arrow : Arrow} {target : FieldDescriptor} {value : ArrayRef} {addition : FieldAddition}

/-- The value of an addition: one row of the requested type. -/
theorem planAddition_value (documented : arrow.Documented) {i : Nat}
    (planned : planAddition arrow i target value = .ok addition) :
    addition.value.dataType = target.dataType ∧ addition.value.length = 1 := by
  unfold planAddition at planned
  split_ifs at planned with many
  · cases planned
    exact ⟨documented.newNull_typed, by simp [ArrayRef.length, documented.newNull_rows]⟩
  · split at planned
    next cast =>
      cases planned
      obtain ⟨typed, length⟩ := documented.cast_typed cast
      exact ⟨typed, length.trans (not_not.mp many)⟩
    next => contradiction

theorem Planned.addition_facts {provided requested : Schema} {policy : SchemaPolicy}
    {options : ProjectionOptions} {plan : InterchangePlan} (documented : arrow.Documented)
    (planned : Planned arrow provided requested policy options plan) (member : addition ∈ plan.additions) :
    ∃ (target : Field) (value : ArrayRef), requested.fields[addition.targetIndex]? = some target ∧
      options.defaults.lookup target.name = some value ∧
      planAddition arrow addition.targetIndex (describe target) value = .ok addition ∧
      addition.value.dataType = target.dataType ∧ ∃ row, addition.value.rows = [row] := by
  obtain ⟨_, value, at_target, default, added⟩ := (planned.wellFormed.added addition member).exists_default
  rw [schemaDescriptors, List.getElem?_map] at at_target
  obtain ⟨target, at_field, rfl⟩ := Option.map_eq_some_iff.mp at_target
  obtain ⟨typed, length⟩ := planAddition_value documented added
  exact ⟨target, value, at_field, default, added, typed, ArrayRef.rows_single length⟩

end Plan

namespace InterchangePlan

open Plan CastRegistry

variable {plan : InterchangePlan} {arrow : Arrow} {batch : RecordBatch} {requested : Schema}

/-- A mapping of the plan with the field it targets and the column it reads. -/
structure Maps (plan : InterchangePlan) (batch : RecordBatch) (mapping : FieldMapping) (target : Field)
    (column : ArrayRef) : Prop where
  member : mapping ∈ plan.mappings
  at_target : plan.requestedSchema.fields[mapping.targetIndex]? = some target
  at_column : batch.columns[mapping.sourceIndex]? = some column

/-- An addition of the plan with the field it targets. -/
structure Adds (plan : InterchangePlan) (addition : FieldAddition) (target : Field) : Prop where
  member : addition ∈ plan.additions
  at_target : plan.requestedSchema.fields[addition.targetIndex]? = some target

/-- The cast of a column fails. -/
def Rejects (arrow : Arrow) (column : ArrayRef) (type : DataType) : Prop :=
  ∃ error, arrow.castWithOptions column type = .error error

/-- A checked column whose validity buffer shows a null. -/
def SeesNull (plan : InterchangePlan) (batch : RecordBatch) : Prop :=
  ∃ mapping target column, plan.Maps batch mapping target column ∧ mapping.checkNulls = true ∧
    0 < column.nullCount

/-- A cast of the kind that rejects a value. -/
def Refuses (plan : InterchangePlan) (arrow : Arrow) (batch : RecordBatch) (kind : CastKind) : Prop :=
  ∃ mapping target column, plan.Maps batch mapping target column ∧ mapping.cast = some kind ∧
    Rejects arrow column target.dataType

/-- A column of the null type, with rows, cast into a required field that shows nulls. -/
def Voids (plan : InterchangePlan) (batch : RecordBatch) : Prop :=
  ∃ mapping target column, plan.Maps batch mapping target column ∧ column.dataType = .null ∧
    target.isNullable = false ∧ target.dataType.hasValidity = true ∧ 0 < batch.numRows

/-- An added value that shows a null in a required field, with rows. -/
def AddsNull (plan : InterchangePlan) (batch : RecordBatch) : Prop :=
  ∃ addition target, plan.Adds addition target ∧ target.isNullable = false ∧
    0 < addition.value.nullCount ∧ 0 < batch.numRows

/-! What a mapping that succeeds returns. -/

section Mapping

variable {policy : SchemaPolicy} {options : ProjectionOptions} {mapping : FieldMapping}
  {source target : Field} {column out : ArrayRef}

theorem applyMapping_ok (reads : Reads batch requested policy options mapping source target column)
    (h : applyMapping arrow requested batch mapping = .ok out) :
    (mapping.checkNulls = true → column.nullCount = 0) ∧
      ((mapping.cast = none ∧ column.dataType = target.dataType ∧ out = column) ∨
        ∃ kind, mapping.cast = some kind ∧ classify column.dataType target.dataType = some kind ∧
          arrow.castWithOptions column target.dataType = .ok out) := by
  have typed := batch.column_type reads.at_source reads.at_column
  rw [applyMapping_eq reads.at_column reads.at_target] at h
  split_ifs at h with sees
  refine ⟨fun checks => by simpa [checks] using sees, ?_⟩
  cases known : mapping.cast with
  | none =>
    rw [known] at h
    cases h
    exact .inl ⟨rfl, typed.trans (reads.fits.cast_none.mp known), rfl⟩
  | some kind =>
    rw [known] at h
    exact .inr ⟨kind, rfl, reads.cast_eq.symm.trans known, orArrow_eq_ok.mp h⟩

theorem mapping_typed (documented : arrow.Documented)
    (reads : Reads batch requested policy options mapping source target column)
    (h : applyMapping arrow requested batch mapping = .ok out) :
    out.dataType = target.dataType ∧ out.length = batch.numRows := by
  rcases (applyMapping_ok reads h).2 with ⟨_, same, rfl⟩ | ⟨kind, _, _, cast⟩
  · exact ⟨same, batch.column_length reads.at_column⟩
  · obtain ⟨typed, length⟩ := documented.cast_typed cast
    exact ⟨typed, length.trans (batch.column_length reads.at_column)⟩

/-- A cast of a column that is not of the null type makes no nulls. -/
theorem cast_keeps (documented : arrow.Documented)
    (known : classify column.dataType target.dataType = some kind) (valued : column.dataType ≠ .null)
    (cast : arrow.castWithOptions column target.dataType = .ok out) (null : out.HasNull) :
    column.HasNull := by
  refine documented.cast_keeps (fun fields mode union => ?_) cast valued null
  have is_plain := classify_plain known valued
  rw [union] at is_plain
  contradiction

theorem mapping_keeps (documented : arrow.Documented)
    (reads : Reads batch requested policy options mapping source target column)
    (h : applyMapping arrow requested batch mapping = .ok out) (null : out.HasNull) :
    column.HasNull := by
  rcases (applyMapping_ok reads h).2 with ⟨_, _, rfl⟩ | ⟨kind, _, known, cast⟩
  · exact null
  · by_cases valued : column.dataType = .null
    · cases (documented.cast_null valued).symm.trans cast
      rw [ArrayRef.HasNull, documented.newNull_rows] at null
      rwa [ArrayRef.HasNull, ArrayRef.rows_null valued]
    · exact cast_keeps documented known valued cast null

/-- The nulls an output column shows come from its own column, or from the null type. -/
theorem mapping_nullCount (documented : arrow.Documented)
    (reads : Reads batch requested policy options mapping source target column)
    (h : applyMapping arrow requested batch mapping = .ok out) (unseen : column.nullCount = 0) :
    0 < out.nullCount ↔
      column.dataType = .null ∧ target.dataType.hasValidity = true ∧ 0 < batch.numRows := by
  rcases (applyMapping_ok reads h).2 with ⟨_, same, rfl⟩ | ⟨kind, _, known, cast⟩
  · refine ⟨fun seen => by omega, fun ⟨null, buffered, _⟩ => ?_⟩
    rw [← same, null] at buffered
    contradiction
  · by_cases valued : column.dataType = .null
    · cases (documented.cast_null valued).symm.trans cast
      rw [documented.newNull_nullCount, batch.column_length reads.at_column]
      split_ifs with buffered <;> simp [valued, buffered]
    · refine ⟨fun seen => ?_, fun ⟨null, _⟩ => absurd null valued⟩
      have null := cast_keeps documented known valued cast (Layout.hasNull_of_nullCount seen)
      have shown := ArrayRef.nullCount_pos_of_plain (classify_plain known valued) null
      omega

/-- A column mapped into a required field shows no null. -/
theorem required_unseen (reads : Reads batch requested policy options mapping source target column)
    (h : applyMapping arrow requested batch mapping = .ok out) (required : target.isNullable = false) :
    column.nullCount = 0 := by
  cases checks : mapping.checkNulls with
  | true => exact (applyMapping_ok reads h).1 checks
  | false =>
    exact batch.column_required reads.at_source reads.at_column (reads.fits.required checks required)

end Mapping

end InterchangePlan

namespace Plan.Planned

open InterchangePlan

variable {arrow : Arrow} {provided requested : Schema} {policy : SchemaPolicy}
  {options : ProjectionOptions} {plan : InterchangePlan} {batch : RecordBatch}

theorem reads_of_maps (planned : Planned arrow provided requested policy options plan)
    (same : schemaFieldsEqual batch.schema provided = true) {mapping : FieldMapping} {target : Field}
    {column : ArrayRef} (maps : plan.Maps batch mapping target column) :
    ∃ source, Reads batch requested policy options mapping source target column := by
  obtain ⟨source, target', column', reads⟩ := planned.reads same maps.member
  have at_target := maps.at_target
  rw [planned.requestedSchema, reads.at_target] at at_target
  cases at_target
  cases reads.at_column.symm.trans maps.at_column
  exact ⟨source, reads⟩

theorem maps_of_reads (planned : Planned arrow provided requested policy options plan)
    {mapping : FieldMapping} {source target : Field} {column : ArrayRef}
    (member : mapping ∈ plan.mappings)
    (reads : Reads batch requested policy options mapping source target column) :
    plan.Maps batch mapping target column :=
  ⟨member, planned.requestedSchema.symm ▸ reads.at_target, reads.at_column⟩

/-- An added value is one row of the type of its field. -/
theorem added_value (documented : arrow.Documented)
    (planned : Planned arrow provided requested policy options plan) {addition : FieldAddition}
    {target : Field} (adds : plan.Adds addition target) :
    addition.value.dataType = target.dataType ∧ ∃ row, addition.value.rows = [row] := by
  obtain ⟨target', _, at_target, _, _, typed, single⟩ := planned.addition_facts documented adds.member
  have at_target' := adds.at_target
  rw [planned.requestedSchema, at_target] at at_target'
  cases at_target'
  exact ⟨typed, single⟩

/-- An addition always succeeds, with its value in every row. -/
theorem applyAddition_ok (documented : arrow.Documented)
    (planned : Planned arrow provided requested policy options plan) (batch : RecordBatch)
    {addition : FieldAddition} {target : Field} (adds : plan.Adds addition target) :
    ∃ out row, applyAddition arrow batch addition = .ok out ∧ out.dataType = target.dataType ∧
      addition.value.rows = [row] ∧ out.rows = List.replicate batch.numRows row ∧
      out.nullCount = batch.numRows * addition.value.nullCount := by
  obtain ⟨typed, row, single⟩ := planned.added_value documented adds
  obtain ⟨out, taken, kept, rows, count⟩ := documented.take_repeats single
  exact ⟨out, row, orArrow_eq_ok.mpr taken, kept.trans typed, single, rows, count⟩

/-- Where an output column comes from. -/
theorem produced (planned : Planned arrow provided requested policy options plan)
    (same : schemaFieldsEqual batch.schema provided = true) {columns : List ArrayRef}
    (produces : plan.Produces arrow batch columns) {i : Nat} {target : Field} {out : ArrayRef}
    (at_target : requested.fields[i]? = some target) (at_i : columns[i]? = some out) :
    (∃ mapping source column, mapping ∈ plan.mappings ∧
      Reads batch requested policy options mapping source target column ∧
      applyMapping arrow requested batch mapping = .ok out) ∨
    ∃ addition, plan.Adds addition target ∧ applyAddition arrow batch addition = .ok out := by
  rcases produces.at_index planned.covers at_i with ⟨mapping, member, rfl, computed⟩ |
    ⟨addition, member, rfl, computed⟩
  · obtain ⟨source, target', column, reads⟩ := planned.reads same member
    cases reads.at_target.symm.trans at_target
    exact .inl ⟨mapping, source, column, member, reads, planned.requestedSchema ▸ computed⟩
  · exact .inr ⟨addition, ⟨member, planned.requestedSchema.symm ▸ at_target⟩, computed⟩

/-- Every output column has the type of its field and a row for every input row. -/
theorem produced_typed (documented : arrow.Documented)
    (planned : Planned arrow provided requested policy options plan)
    (same : schemaFieldsEqual batch.schema provided = true) {columns : List ArrayRef}
    (produces : plan.Produces arrow batch columns) {i : Nat} {target : Field} {out : ArrayRef}
    (at_target : requested.fields[i]? = some target) (at_i : columns[i]? = some out) :
    out.dataType = target.dataType ∧ out.length = batch.numRows := by
  rcases planned.produced same produces at_target at_i with
    ⟨mapping, source, column, _, reads, computed⟩ | ⟨addition, adds, computed⟩
  · exact mapping_typed documented reads computed
  · obtain ⟨out', row, taken, typed, _, rows, _⟩ := planned.applyAddition_ok documented batch adds
    cases taken.symm.trans computed
    exact ⟨typed, by simp [ArrayRef.length, rows]⟩

/-- A required output column shows a null only where the null type or a default put it. -/
theorem produced_nullCount (documented : arrow.Documented)
    (planned : Planned arrow provided requested policy options plan)
    (same : schemaFieldsEqual batch.schema provided = true) {columns : List ArrayRef}
    (produces : plan.Produces arrow batch columns) {i : Nat} {target : Field} {out : ArrayRef}
    (at_target : requested.fields[i]? = some target) (at_i : columns[i]? = some out)
    (required : target.isNullable = false) (shown : 0 < out.nullCount) :
    plan.Voids batch ∨ plan.AddsNull batch := by
  rcases planned.produced same produces at_target at_i with
    ⟨mapping, source, column, member, reads, computed⟩ | ⟨addition, adds, computed⟩
  · have unseen := required_unseen reads computed required
    obtain ⟨null, buffered, rows⟩ := (mapping_nullCount documented reads computed unseen).mp shown
    exact .inl ⟨mapping, target, column, planned.maps_of_reads member reads, null, required, buffered, rows⟩
  · obtain ⟨out', row, taken, _, _, _, count⟩ := planned.applyAddition_ok documented batch adds
    cases taken.symm.trans computed
    rw [count] at shown
    exact .inr ⟨addition, target, adds, required, Nat.pos_of_mul_pos_left shown,
      Nat.pos_of_mul_pos_right shown⟩

/-- The constructor accepts the columns unless one of them shows a null it must not. -/
theorem accepts (documented : arrow.Documented)
    (planned : Planned arrow provided requested policy options plan)
    (same : schemaFieldsEqual batch.schema provided = true) {columns : List ArrayRef}
    (produces : plan.Produces arrow batch columns) (filled : ¬ plan.Voids batch)
    (clean : ¬ plan.AddsNull batch) : RecordBatch.Accepts requested columns batch.numRows := by
  have width : columns.length = requested.fields.length := planned.requestedSchema ▸ produces.width
  refine ⟨width, fun ⟨field, column⟩ member => ?_, fun column member => ?_,
    fun ⟨field, column⟩ member required => ?_, batch.valid.word⟩
  · obtain ⟨i, at_field, at_column⟩ := at_of_mem_zip member
    exact (planned.produced_typed documented same produces at_field at_column).1
  · obtain ⟨i, field, at_field, at_column⟩ := at_of_mem width member
    exact (planned.produced_typed documented same produces at_field at_column).2
  · obtain ⟨i, at_field, at_column⟩ := at_of_mem_zip member
    by_contra shown
    rcases planned.produced_nullCount documented same produces at_field at_column required
      (Nat.pos_of_ne_zero shown) with voids | adds
    · exact filled voids
    · exact clean adds

/-- Each mapping of a run that succeeds has succeeded. -/
theorem ran (planned : Planned arrow provided requested policy options plan)
    (same : schemaFieldsEqual batch.schema provided = true) {columns : List ArrayRef}
    (produces : plan.Produces arrow batch columns) {mapping : FieldMapping} {target : Field}
    {column : ArrayRef} (maps : plan.Maps batch mapping target column) :
    ∃ source out, Reads batch requested policy options mapping source target column ∧
      columns[mapping.targetIndex]? = some out ∧
      applyMapping arrow requested batch mapping = .ok out := by
  obtain ⟨source, reads⟩ := planned.reads_of_maps same maps
  obtain ⟨out, at_target, computed⟩ := produces.first mapping maps.member
  exact ⟨source, out, reads, at_target, planned.requestedSchema ▸ computed⟩

theorem not_refuses_of_ran (planned : Planned arrow provided requested policy options plan)
    (same : schemaFieldsEqual batch.schema provided = true) {columns : List ArrayRef}
    (produces : plan.Produces arrow batch columns) :
    ¬ plan.SeesNull batch ∧ ∀ kind, ¬ plan.Refuses arrow batch kind := by
  constructor
  · rintro ⟨mapping, target, column, maps, checks, shown⟩
    obtain ⟨source, out, reads, _, computed⟩ := planned.ran same produces maps
    have := (applyMapping_ok reads computed).1 checks
    omega
  · rintro kind ⟨mapping, target, column, maps, known, error, rejected⟩
    obtain ⟨source, out, reads, _, computed⟩ := planned.ran same produces maps
    rcases (applyMapping_ok reads computed).2 with ⟨uncast, _⟩ | ⟨_, _, _, cast⟩
    · cases uncast.symm.trans known
    · cases rejected.symm.trans cast

theorem not_voids_of_accepts (documented : arrow.Documented)
    (planned : Planned arrow provided requested policy options plan)
    (same : schemaFieldsEqual batch.schema provided = true) {columns : List ArrayRef}
    (produces : plan.Produces arrow batch columns)
    (valid : RecordBatch.Accepts requested columns batch.numRows) :
    ¬ plan.Voids batch ∧ ¬ plan.AddsNull batch := by
  have unshown {i : Nat} {target : Field} {out : ArrayRef} (at_target : requested.fields[i]? = some target)
      (at_i : columns[i]? = some out) (required : target.isNullable = false) : out.nullCount = 0 :=
    @RecordBatch.column_required ⟨requested, columns, batch.numRows, valid⟩ _ _ _ at_target at_i required
  constructor
  · rintro ⟨mapping, target, column, maps, null, required, buffered, rows⟩
    obtain ⟨source, out, reads, at_target, computed⟩ := planned.ran same produces maps
    have shown := (mapping_nullCount documented reads computed (ArrayRef.nullCount_null null)).mpr
      ⟨null, buffered, rows⟩
    have := unshown reads.at_target at_target required
    omega
  · rintro ⟨addition, target, adds, required, shown, rows⟩
    obtain ⟨out, row, taken, _, _, _, count⟩ := planned.applyAddition_ok documented batch adds
    obtain ⟨out', at_target, computed⟩ := produces.second addition adds.member
    cases taken.symm.trans computed
    have := unshown (planned.requestedSchema ▸ adds.at_target) at_target required
    have := Nat.mul_pos rows shown
    omega

/-- A failed operation is a mapping that sees a null or whose cast rejects a value. -/
theorem cause_of_error (documented : arrow.Documented)
    (planned : Planned arrow provided requested policy options plan)
    (same : schemaFieldsEqual batch.schema provided = true) {failure : Failure}
    (fails : (∃ mapping ∈ plan.mappings, applyMapping arrow requested batch mapping = .error failure) ∨
      ∃ addition ∈ plan.additions, applyAddition arrow batch addition = .error failure) :
    plan.SeesNull batch ∨ ∃ kind, plan.Refuses arrow batch kind := by
  rcases fails with ⟨mapping, member, fails⟩ | ⟨addition, member, fails⟩
  · obtain ⟨source, target, column, reads⟩ := planned.reads same member
    have maps := planned.maps_of_reads member reads
    rw [applyMapping_eq reads.at_column reads.at_target] at fails
    split_ifs at fails with sees
    · exact .inl ⟨mapping, target, column, maps, sees⟩
    · split at fails
      next kind known =>
        obtain ⟨error, rejected, _⟩ := orArrow_eq_error fails
        exact .inr ⟨kind, mapping, target, column, maps, known, error, rejected⟩
      next => contradiction
  · obtain ⟨target, _, at_target, _⟩ := planned.addition_facts documented member
    obtain ⟨out, _, taken, _⟩ := planned.applyAddition_ok documented batch
      ⟨member, planned.requestedSchema.symm ▸ at_target⟩
    cases taken.symm.trans fails

/-- A run succeeds exactly when no check sees a null, no cast rejects a value, and
neither the null type nor a default shows a null in a required field. -/
theorem succeeds_iff (documented : arrow.Documented)
    (planned : Planned arrow provided requested policy options plan)
    (same : schemaFieldsEqual batch.schema provided = true) :
    (∃ output, plan.applyBatch arrow batch = .ok output) ↔
      (¬ plan.SeesNull batch ∧ ∀ kind, ¬ plan.Refuses arrow batch kind) ∧
        ¬ plan.Voids batch ∧ ¬ plan.AddsNull batch := by
  constructor
  · rintro ⟨output, run⟩
    obtain ⟨columns, produces, valid, rfl⟩ := (planned.applyBatch_ok same).mp run
    exact ⟨planned.not_refuses_of_ran same produces,
      planned.not_voids_of_accepts documented same produces valid⟩
  · rintro ⟨⟨unseen, accepted⟩, filled, clean⟩
    rcases planned.applyBatch_cases same with ⟨columns, produces, run⟩ | ⟨error, _, fails⟩
    · have valid := planned.accepts documented same produces filled clean
      exact ⟨⟨requested, columns, batch.numRows, valid⟩, run.trans
        (orArrow_eq_ok.mpr (Arrow.tryNewWithOptions_ok.mpr ⟨valid, rfl⟩))⟩
    · rcases planned.cause_of_error documented same fails with sees | ⟨kind, refuses⟩
      · exact absurd sees unseen
      · exact absurd refuses (accepted kind)

end Plan.Planned

namespace InterchangePlan

open Plan CastRegistry

/-- A fact the schemas cannot prove: a null in a checked column, or a value that its
runtime-checked cast rejects. -/
def Unprovable (plan : InterchangePlan) (arrow : Arrow) (batch : RecordBatch) : Prop :=
  (∃ mapping target column, plan.Maps batch mapping target column ∧ mapping.checkNulls = true ∧
    column.HasNull) ∨ plan.Refuses arrow batch .runtimeChecked

/-- No added value puts a null into a required field. -/
def AdditionsFit (plan : InterchangePlan) : Prop :=
  ∀ addition target, plan.Adds addition target → target.isNullable = false → ¬ addition.value.HasNull

theorem AdditionsFit.not_addsNull {plan : InterchangePlan} {batch : RecordBatch}
    (fit : plan.AdditionsFit) : ¬ plan.AddsNull batch := by
  rintro ⟨addition, target, adds, required, shown, _⟩
  exact fit addition target adds required (Layout.hasNull_of_nullCount shown)

theorem not_refuses_safe {arrow : Arrow} {provided requested : Schema} {policy : SchemaPolicy}
    {options : ProjectionOptions} {plan : InterchangePlan} {batch : RecordBatch}
    (documented : arrow.Documented) (planned : Planned arrow provided requested policy options plan)
    (same : schemaFieldsEqual batch.schema provided = true) : ¬ plan.Refuses arrow batch .safe := by
  rintro ⟨mapping, target, column, maps, known, error, rejected⟩
  obtain ⟨source, reads⟩ := planned.reads_of_maps same maps
  obtain ⟨out, cast, _⟩ := safe_cast documented (classify_safe (reads.cast_eq.symm.trans known))
  cases rejected.symm.trans cast

/-- A run fails only for unprovable facts unless a lossy cast rejects a value or a column
of the null type meets a required field. -/
theorem failure_unprovable_iff (arrow : Arrow) (documented : arrow.Documented)
    (provided requested : Schema) (policy : SchemaPolicy) (options : ProjectionOptions)
    (plan : InterchangePlan)
    (planned : planSchemaWith arrow provided requested policy options = .ok plan)
    (fit : plan.AdditionsFit) (batch : RecordBatch)
    (same : schemaFieldsEqual batch.schema provided = true) :
    ((∃ error, plan.applyBatch arrow batch = .error (.error error)) → plan.Unprovable arrow batch) ↔
      plan.Unprovable arrow batch ∨ (¬ plan.Refuses arrow batch .lossy ∧ ¬ plan.Voids batch) := by
  have planned := planSchemaWith_planned planned
  have succeeds := planned.succeeds_iff documented same
  have failed (error : InterchangeError) (fails : plan.applyBatch arrow batch = .error (.error error)) :
      ¬ ∃ output, plan.applyBatch arrow batch = .ok output := by
    rintro ⟨output, run⟩
    cases fails.symm.trans run
  constructor
  · intro excused
    by_cases unprovable : plan.Unprovable arrow batch
    · exact .inl unprovable
    · have runs : ∃ output, plan.applyBatch arrow batch = .ok output := by
        rcases planned.applyBatch_cases same with ⟨columns, produces, run⟩ | ⟨error, run, _⟩
        · cases made : arrow.tryNewWithOptions requested columns batch.numRows with
          | ok output => exact ⟨output, run.trans (orArrow_eq_ok.mpr made)⟩
          | error source => exact absurd (excused ⟨.arrow source, by rw [run, made]; rfl⟩) unprovable
        · exact absurd (excused ⟨error, run⟩) unprovable
      obtain ⟨⟨_, accepted⟩, filled, _⟩ := succeeds.mp runs
      exact .inr ⟨accepted .lossy, filled⟩
  · rintro (unprovable | ⟨lossy, filled⟩) ⟨error, fails⟩
    · exact unprovable
    · by_contra provable
      refine failed error fails (succeeds.mpr ⟨⟨?_, ?_⟩, filled, fit.not_addsNull⟩)
      · rintro ⟨mapping, target, column, maps, checks, shown⟩
        exact provable (.inl ⟨mapping, target, column, maps, checks, Layout.hasNull_of_nullCount shown⟩)
      · rintro (_ | _ | _)
        · exact not_refuses_safe documented planned same
        · exact lossy
        · exact fun refuses => provable (.inr refuses)

/-- One 64-bit column, narrowed to 32 bits with the lossy cast of the coerce policy. -/
def narrowPlan : InterchangePlan :=
  ⟨.arrow, .arrow, ⟨[.mk "n" .int64 false []], []⟩, ⟨[.mk "n" .int32 false []], []⟩, .coerce,
    [⟨0, 0, some .lossy, false⟩], []⟩

def narrowBatch (n : Int) (fit : (Layout.plain [some (.integer n)]).fits .int64) : RecordBatch :=
  ⟨⟨[.mk "n" .int64 false []], []⟩, [⟨.int64, .plain [some (.integer n)], fit⟩], 1,
    ⟨rfl, by simp [Field.dataType], by simp [ArrayRef.length, ArrayRef.rows, Layout.rows],
      by simp [ArrayRef.nullCount, Layout.nullCount], by decide⟩⟩

theorem narrowPlan_planned : planSchemaWith Arrow.small ⟨[.mk "n" .int64 false []], []⟩
    ⟨[.mk "n" .int32 false []], []⟩ .coerce {} = .ok narrowPlan := rfl

theorem narrowPlan_additionsFit : narrowPlan.AdditionsFit := fun _ _ adds =>
  absurd adds.member (List.not_mem_nil)

theorem failure_unprovable_iff_narrow :
    ((∃ error, narrowPlan.applyBatch Arrow.small (narrowBatch 7 rfl) = .error (.error error)) →
        narrowPlan.Unprovable Arrow.small (narrowBatch 7 rfl)) ↔
      narrowPlan.Unprovable Arrow.small (narrowBatch 7 rfl) ∨
        (¬ narrowPlan.Refuses Arrow.small (narrowBatch 7 rfl) .lossy ∧
          ¬ narrowPlan.Voids (narrowBatch 7 rfl)) :=
  failure_unprovable_iff Arrow.small Arrow.small_documented _ _ _ _ narrowPlan narrowPlan_planned
    narrowPlan_additionsFit (narrowBatch 7 rfl) (decide_eq_true rfl)

/-- A value above 32 bits makes the lossy cast fail, though nothing is checked. -/
theorem lossy_cast_fails :
    planSchemaWith Arrow.small ⟨[.mk "n" .int64 false []], []⟩ ⟨[.mk "n" .int32 false []], []⟩
        .coerce {} = .ok narrowPlan ∧
      narrowPlan.AdditionsFit ∧
      (∃ error, narrowPlan.applyBatch Arrow.small (narrowBatch (2 ^ 40) rfl) = .error (.error error)) ∧
      ¬ narrowPlan.Unprovable Arrow.small (narrowBatch (2 ^ 40) rfl) := by
  refine ⟨rfl, narrowPlan_additionsFit, ⟨_, rfl⟩, ?_⟩
  rintro (⟨mapping, target, column, maps, checks, _⟩ | ⟨mapping, target, column, maps, known, _⟩)
  · cases List.mem_singleton.mp maps.member
    contradiction
  · cases List.mem_singleton.mp maps.member
    contradiction

end InterchangePlan

end FsspecData
