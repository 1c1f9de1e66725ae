import FsspecData.Python.Execute
import FsspecData.Plan.Nulls

/-! Defaults. The planner asks the validity buffer of a default whether it is null, and
a null array, which Python sends for `None`, has none. -/
namespace FsspecData.Python

open Plan
open FsspecData.InterchangePlan (AdditionsFit)

/-- Planning accepts a default only for a field it fits, and refuses the others as nulls. -/
def Guards (arrow : Arrow) (target : FieldDescriptor) (value : ArrayRef) : Prop :=
  (∀ i addition, planAddition arrow i target value = .ok addition →
    ¬ value.HasNull ∨ target.nullable = true) ∧
  (value.HasNull → target.nullable = false →
    ∀ i, planAddition arrow i target value = .error (.nullDefault target.name))

/-- The field takes nulls, the default is not one, or its validity buffer shows it. -/
def Admissible (target : FieldDescriptor) (value : ArrayRef) : Prop :=
  target.nullable = true ∨ ¬ value.HasNull ∨ isNullValue value = true

theorem planAddition_eq {arrow : Arrow} {target : FieldDescriptor} {value : ArrayRef} {i : Nat}
    (single : value.length = 1) : planAddition arrow i target value =
      if isNullValue value then
        if target.nullable then .ok ⟨i, arrow.newNullArray target.dataType 1⟩
        else .error (.nullDefault target.name)
      else
        match arrow.castWithOptions value target.dataType with
        | .ok value => .ok ⟨i, value⟩
        | .error source => .error (.defaultCast target.name target.dataType source) :=
  if_neg (not_not.mpr single)

theorem guards_iff {arrow : Arrow} {target : FieldDescriptor} {value : ArrayRef}
    (single : value.length = 1) : Guards arrow target value ↔ Admissible target value := by
  constructor
  · rintro ⟨_, refused⟩
    by_contra outside
    simp only [Admissible, not_or, not_not, Bool.not_eq_true] at outside
    obtain ⟨required, null, hidden⟩ := outside
    have fails := refused null required 0
    rw [planAddition_eq single, hidden] at fails
    cases cast : arrow.castWithOptions value target.dataType <;> simp [cast] at fails
  · intro admissible
    constructor
    · intro i addition planned
      rcases admissible with nullable | valued | shown
      · exact .inr nullable
      · exact .inl valued
      · rw [planAddition_eq single, if_pos shown] at planned
        split_ifs at planned with nullable
        exact .inr nullable
    · intro null required i
      rcases admissible with nullable | valued | shown
      · rw [required] at nullable
        contradiction
      · exact absurd null valued
      · rw [planAddition_eq single, if_pos shown, required]
        rfl

variable {arrow : Arrow} {pyarrow : Pyarrow} {provided requested : Schema} {policy : SchemaPolicy}
  {options : ProjectionOptions} {plan : FsspecData.InterchangePlan} {data : RecordBatch}

/-- A planned addition to a required field holds a value, given an admissible default of
a type other than a union, whose cast may turn a value into a null. -/
theorem added_valued (documented : arrow.Documented) {target : FieldDescriptor} {value : ArrayRef}
    {addition : FsspecData.FieldAddition} {i : Nat}
    (planned : planAddition arrow i target value = .ok addition) (required : target.nullable = false)
    (admissible : Admissible target value)
    (plain : ∀ fields mode, value.dataType ≠ .union fields mode) : ¬ addition.value.HasNull := by
  have single : value.length = 1 := by
    by_contra many
    rw [planAddition, if_pos many] at planned
    contradiction
  rw [planAddition_eq single, required] at planned
  cases shown : isNullValue value
  case true => simp [shown] at planned
  simp only [shown, Bool.false_eq_true, if_false] at planned
  have valued : ¬ value.HasNull := by
    rcases admissible with nullable | valued | visible
    · rw [required] at nullable
      contradiction
    · exact valued
    · rw [shown] at visible
      contradiction
  cases cast : arrow.castWithOptions value target.dataType with
  | error source =>
    rw [cast] at planned
    contradiction
  | ok out =>
    rw [cast] at planned
    cases planned
    refine fun null => valued (documented.cast_keeps plain cast (fun void => valued ?_) null)
    rw [ArrayRef.HasNull, ArrayRef.rows_null void, single]
    exact List.mem_singleton_self _

/-- The defaults of required fields are admissible. -/
def DefaultsAdmissible (requested : Schema) (options : ProjectionOptions) : Prop :=
  ∀ (target : Field) (value : ArrayRef), target ∈ requested.fields →
    options.defaults.lookup target.name = some value → Admissible (describe target) value ∧
      (target.isNullable = true ∨ ∀ fields mode, value.dataType ≠ .union fields mode)

theorem additionsFit_of_admissible (documented : arrow.Documented)
    (planned : Planned arrow provided requested policy options plan)
    (admissible : DefaultsAdmissible requested options) : plan.AdditionsFit := by
  intro addition target adds required
  obtain ⟨target', value, at_target, default, added, _⟩ := planned.addition_facts documented adds.member
  have at_target' := adds.at_target
  rw [planned.requestedSchema, at_target] at at_target'
  cases at_target'
  obtain ⟨fits, nullable | plain⟩ := admissible target value (List.mem_of_getElem? at_target) default
  · rw [required] at nullable
    contradiction
  · exact added_valued documented added required fits plain

/-- No added column of a required field holds a null. -/
def AddsClean (plan : FsspecData.InterchangePlan) (columns : List ArrayRef) : Prop :=
  ∀ addition target out, plan.Adds addition target → target.isNullable = false →
    columns[addition.targetIndex]? = some out → ¬ out.HasNull

/-- Columns that repeat the added values are clean exactly when the values are. -/
theorem addsClean_iff (n : Nat) {columns : List ArrayRef}
    (repeats : ∀ addition target, plan.Adds addition target → ∃ out row,
      columns[addition.targetIndex]? = some out ∧ addition.value.rows = [row] ∧
      out.rows = List.replicate n row) :
    AddsClean plan columns ↔ n = 0 ∨ plan.AdditionsFit := by
  constructor
  · intro clean
    apply Nat.eq_zero_or_pos n |>.imp_right
    intro rows addition target adds required null
    obtain ⟨out, row, at_target, single, copies⟩ := repeats addition target adds
    apply clean addition target out adds required at_target
    rw [ArrayRef.HasNull, single, List.mem_singleton] at null
    rw [ArrayRef.HasNull, copies, ← null]
    exact List.mem_replicate.mpr ⟨rows.ne', rfl⟩
  · intro fits addition target out adds required at_out null
    obtain ⟨out', row, at_target, single, copies⟩ := repeats addition target adds
    cases at_target.symm.trans at_out
    rw [ArrayRef.HasNull, copies] at null
    obtain ⟨rows, rfl⟩ := List.mem_replicate.mp null
    rcases fits with empty | fits
    · exact rows empty
    · exact fits addition target adds required (by simp [ArrayRef.HasNull, single])

theorem rust_addsClean_iff (documented : arrow.Documented)
    (planned : Planned arrow provided requested policy options plan)
    {batch output : FsspecData.RecordBatch} (same : schemaFieldsEqual batch.schema provided = true)
    (run : plan.applyBatch arrow batch = .ok output) :
    AddsClean plan output.columns ↔ batch.numRows = 0 ∨ plan.AdditionsFit := by
  obtain ⟨columns, produces, valid, rfl⟩ := (planned.applyBatch_ok same).mp run
  apply addsClean_iff batch.numRows
  intro addition target adds
  obtain ⟨out, row, taken, _, single, rows, _⟩ := planned.applyAddition_ok documented batch adds
  obtain ⟨out', at_target, computed⟩ := produces.second addition adds.member
  cases taken.symm.trans computed
  exact ⟨out, row, at_target, single, rows⟩

theorem python_addsClean_iff (documented : arrow.Documented) (follows : pyarrow.Documented arrow)
    (planned : Planned arrow provided requested policy options plan) {result : RecordBatch}
    (same : pyarrow.schemaEquals data.schema provided = true)
    (run : InterchangePlan.applyBatch pyarrow (.ofRust plan) data = .ok result) :
    AddsClean plan result.columns ↔ data.numRows = 0 ∨ plan.AdditionsFit := by
  rcases applyBatch_cases planned same with ⟨columns, produces, made⟩ | ⟨error, fails, _⟩
  · apply addsClean_iff data.numRows
    intro addition target adds
    obtain ⟨out, row, done, typed, single, rows⟩ := runAddition_ok documented follows planned data adds
    obtain ⟨out', at_target, computed⟩ := produces.second addition adds.member
    cases done.symm.trans computed
    have at_field := adds.at_target
    rw [planned.requestedSchema] at at_field
    exact ⟨out, row, fromColumns_at (made.symm.trans run) at_field at_target typed, single, rows⟩
  · cases fails.symm.trans run

/-- Planning guards the nullability of a field exactly against defaults whose buffer
shows their null, and so the runs keep nulls out when all defaults are admissible. -/
theorem defaults_guarded_iff (arrow : Arrow) (pyarrow : Pyarrow) (documented : arrow.Documented)
    (follows : pyarrow.Documented arrow) :
    (∀ (target : FieldDescriptor) (value : ArrayRef), value.length = 1 →
      (Guards arrow target value ↔ Admissible target value)) ∧
    ∀ (provided requested : Schema) (policy : SchemaPolicy) (options : ProjectionOptions)
      (plan : FsspecData.InterchangePlan),
      planSchemaWith arrow provided requested policy options = .ok plan →
      (DefaultsAdmissible requested options → plan.AdditionsFit) ∧
      (∀ batch output : FsspecData.RecordBatch, schemaFieldsEqual batch.schema provided = true →
        plan.applyBatch arrow batch = .ok output →
        (AddsClean plan output.columns ↔ batch.numRows = 0 ∨ plan.AdditionsFit)) ∧
      ∀ data result : RecordBatch, pyarrow.schemaEquals data.schema provided = true →
        InterchangePlan.applyBatch pyarrow (.ofRust plan) data = .ok result →
        (AddsClean plan result.columns ↔ data.numRows = 0 ∨ plan.AdditionsFit) := by
  refine ⟨fun target value => guards_iff, ?_⟩
  intro provided requested policy options plan planned
  have planned := planSchemaWith_planned planned
  exact ⟨additionsFit_of_admissible documented planned,
    fun batch output same run => rust_addsClean_iff documented planned same run,
    fun data result same run => python_addsClean_iff documented follows planned same run⟩

def noneOptions : ProjectionOptions where
  defaults := ⟨[⟨"b", noneDefault⟩], by simp [List.NodupKeys, List.keys]⟩

/-- The plan that adds `None` as the required field `b`. -/
def nonePlan : FsspecData.InterchangePlan :=
  ⟨.arrow, .arrow, ⟨[.mk "a" .int64 true []], []⟩, ⟨[.mk "a" .int64 true [], .mk "b" .int64 false []], []⟩,
    .projection, [⟨0, 0, none, false⟩], [⟨1, Arrow.small.newNullArray .int64 1⟩]⟩

def noneBatch : FsspecData.RecordBatch :=
  ⟨⟨[.mk "a" .int64 true []], []⟩, [⟨.int64, .plain [some (.integer 1)], rfl⟩], 1, by decide⟩

theorem defaults_guarded_iff_none :
    (Guards Arrow.small ⟨"b", .int64, true⟩ noneDefault ↔ Admissible ⟨"b", .int64, true⟩ noneDefault) ∧
      (DefaultsAdmissible nonePlan.requestedSchema noneOptions → nonePlan.AdditionsFit) :=
  have guarded := defaults_guarded_iff Arrow.small Pyarrow.small Arrow.small_documented
    Pyarrow.small_documented
  ⟨guarded.1 _ noneDefault rfl,
    (guarded.2 ⟨[.mk "a" .int64 true []], []⟩ _ .projection noneOptions nonePlan rfl).1⟩

/-- Planning accepts `None` for a required field, and Python fills the field with it. -/
theorem none_default_accepted :
    planSchemaWith Arrow.small noneBatch.schema nonePlan.requestedSchema .projection noneOptions =
        .ok nonePlan ∧
      ¬ Guards Arrow.small ⟨"b", .int64, false⟩ noneDefault ∧
      ∃ result, InterchangePlan.applyBatch Pyarrow.small (.ofRust nonePlan) (.ofRust noneBatch) =
        .ok result ∧ ¬ AddsClean nonePlan result.columns := by
  refine ⟨rfl, fun guards => ?_, _, rfl, fun clean => ?_⟩
  · rcases guards.1 0 _ rfl with valued | nullable
    · exact valued (by decide)
    · contradiction
  · exact clean _ (.mk "b" .int64 false []) _ ⟨List.mem_singleton_self _, rfl⟩ rfl rfl (by decide)

end FsspecData.Python
