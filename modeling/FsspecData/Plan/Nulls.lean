import FsspecData.Plan.Outcome

/-! Logical nulls. The checks read validity buffers, so a null that lives in a dictionary,
in a run, in a union child or in the null type passes them. -/
namespace FsspecData

/-- No required column of the schema holds a logical null. -/
def RecordBatch.Clean (schema : Schema) (batch : RecordBatch) : Prop :=
  ∀ (i : Nat) (field : Field) (column : ArrayRef), schema.fields[i]? = some field →
    field.isNullable = false → batch.columns[i]? = some column → ¬ column.HasNull

namespace InterchangePlan

open Plan CastRegistry

variable {plan : InterchangePlan} {arrow : Arrow} {batch : RecordBatch} {requested : Schema}
  {policy : SchemaPolicy} {options : ProjectionOptions} {mapping : FieldMapping}
  {source target : Field} {column out : ArrayRef}

/-- A checked column that holds a null, shown or not. -/
def ChecksNull (plan : InterchangePlan) (batch : RecordBatch) : Prop :=
  ∃ mapping target column, plan.Maps batch mapping target column ∧ mapping.checkNulls = true ∧
    column.HasNull

/-- A null added to a required field, shown or not, in a batch with rows. -/
def AddsHidden (plan : InterchangePlan) (batch : RecordBatch) : Prop :=
  ∃ addition target, plan.Adds addition target ∧ target.isNullable = false ∧
    addition.value.HasNull ∧ 0 < batch.numRows

/-- A checked column keeps its nulls: those of a plain array do not pass the check, and
the other layouts are only moved. -/
theorem checked_hasNull (documented : arrow.Documented)
    (reads : Reads batch requested policy options mapping source target column)
    (h : applyMapping arrow requested batch mapping = .ok out) (checks : mapping.checkNulls = true)
    (null : column.HasNull) : out.HasNull := by
  obtain ⟨unseen, result⟩ := applyMapping_ok reads h
  rcases result with ⟨_, _, rfl⟩ | ⟨kind, _, known, cast⟩
  · exact null
  · by_cases valued : column.dataType = .null
    · cases (documented.cast_null valued).symm.trans cast
      rw [ArrayRef.HasNull, documented.newNull_rows]
      rwa [ArrayRef.HasNull, ArrayRef.rows_null valued] at null
    · have shown := ArrayRef.nullCount_pos_of_plain (classify_plain known valued) null
      have := unseen checks
      omega

/-- A successful run keeps nulls out of required columns exactly when no checked column
and no default of a required field holds one. -/
theorem applyBatch_clean_iff (arrow : Arrow) (documented : arrow.Documented)
    (provided requested : Schema) (policy : SchemaPolicy) (options : ProjectionOptions)
    (plan : InterchangePlan)
    (planned : planSchemaWith arrow provided requested policy options = .ok plan)
    (batch output : RecordBatch) (same : schemaFieldsEqual batch.schema provided = true)
    (clean : batch.Clean batch.schema) (run : plan.applyBatch arrow batch = .ok output) :
    output.Clean requested ↔ ¬ plan.ChecksNull batch ∧ ¬ plan.AddsHidden batch := by
  have planned := planSchemaWith_planned planned
  obtain ⟨columns, produces, valid, rfl⟩ := (planned.applyBatch_ok same).mp run
  constructor
  · intro kept
    constructor
    · rintro ⟨mapping, target, column, maps, checks, null⟩
      obtain ⟨source, reads⟩ := planned.reads_of_maps same maps
      obtain ⟨out, at_target, computed⟩ := produces.first mapping maps.member
      obtain ⟨_, required⟩ := reads.fits.checks_iff.mp checks
      rw [planned.requestedSchema] at computed
      exact kept _ target out reads.at_target required at_target
        (checked_hasNull documented reads computed checks null)
    · rintro ⟨addition, target, adds, required, null, rows⟩
      obtain ⟨out', row, taken, _, single, repeats, _⟩ := planned.applyAddition_ok documented batch adds
      obtain ⟨out, at_target, computed⟩ := produces.second addition adds.member
      cases taken.symm.trans computed
      apply kept _ target out' (planned.requestedSchema ▸ adds.at_target) required at_target
      rw [ArrayRef.HasNull, single, List.mem_singleton] at null
      rw [ArrayRef.HasNull, repeats, ← null]
      exact List.mem_replicate.mpr ⟨rows.ne', rfl⟩
  · rintro ⟨unchecked, unadded⟩ i target out at_target required at_i null
    rcases planned.produced same produces at_target at_i with
      ⟨mapping, source, column, member, reads, computed⟩ | ⟨addition, adds, computed⟩
    · have held := mapping_keeps documented reads computed null
      cases checks : mapping.checkNulls with
      | true => exact unchecked ⟨mapping, target, column, planned.maps_of_reads member reads, checks, held⟩
      | false =>
        have unneeded := reads.fits.required checks required
        exact clean _ source column reads.at_source unneeded reads.at_column held
    · obtain ⟨out', row, taken, _, single, repeats, _⟩ := planned.applyAddition_ok documented batch adds
      cases taken.symm.trans computed
      rw [ArrayRef.HasNull, repeats] at null
      obtain ⟨rows, rfl⟩ := List.mem_replicate.mp null
      exact unadded ⟨addition, target, adds, required, by simp [ArrayRef.HasNull, single],
        Nat.pos_of_ne_zero rows⟩

/-- A dictionary column made required by the coerce policy, with a null check. -/
def requirePlan : InterchangePlan :=
  ⟨.arrow, .arrow, ⟨[.mk "c" (.dictionary .int8 .utf8) true []], []⟩,
    ⟨[.mk "c" (.dictionary .int8 .utf8) false []], []⟩, .coerce, [⟨0, 0, none, true⟩], []⟩

/-- One row, whose key points at the one value of the dictionary. -/
def dictionaryColumn (value : Option String) : ArrayRef :=
  ⟨.dictionary .int8 .utf8, .dictionary [some 0] (.plain [value.map .text]), by
    cases value <;> simp [Layout.fits, DataType.admits]⟩

def dictionaryBatch (nullable : Bool) (value : Option String) : RecordBatch :=
  ⟨⟨[.mk "c" (.dictionary .int8 .utf8) nullable []], []⟩, [dictionaryColumn value], 1, ⟨rfl,
    by simp [Field.dataType, dictionaryColumn],
    by simp [ArrayRef.length, ArrayRef.rows, Layout.rows, dictionaryColumn],
    by simp [ArrayRef.nullCount, Layout.nullCount, dictionaryColumn], by decide⟩⟩

theorem dictionaryBatch_clean (value : Option String) :
    (dictionaryBatch true value).Clean (dictionaryBatch true value).schema := by
  rintro (_ | i) field column at_field required
  · cases at_field
    contradiction
  · contradiction

theorem applyBatch_clean_iff_dictionary :
    (dictionaryBatch false (some "x")).Clean requirePlan.requestedSchema ↔
      ¬ requirePlan.ChecksNull (dictionaryBatch true (some "x")) ∧
        ¬ requirePlan.AddsHidden (dictionaryBatch true (some "x")) :=
  applyBatch_clean_iff Arrow.small Arrow.small_documented _ _ .coerce {} requirePlan rfl
    (dictionaryBatch true (some "x")) (dictionaryBatch false (some "x")) (decide_eq_true rfl)
    (dictionaryBatch_clean _) rfl

/-- A null in the dictionary's values passes the check into the required column. -/
theorem dictionary_null_passes :
    planSchemaWith Arrow.small ⟨[.mk "c" (.dictionary .int8 .utf8) true []], []⟩
        ⟨[.mk "c" (.dictionary .int8 .utf8) false []], []⟩ .coerce {} = .ok requirePlan ∧
      (dictionaryBatch true none).Clean (dictionaryBatch true none).schema ∧
      requirePlan.applyBatch Arrow.small (dictionaryBatch true none) = .ok (dictionaryBatch false none) ∧
      ¬ (dictionaryBatch false none).Clean requirePlan.requestedSchema := by
  exact ⟨rfl, dictionaryBatch_clean none, rfl, fun kept =>
    kept 0 _ (dictionaryColumn none) rfl rfl rfl (by decide)⟩

end InterchangePlan

end FsspecData
