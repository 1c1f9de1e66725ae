import FsspecData.Plan.Execute

/-! Safe casts lose nothing: each succeeds on every array of its source type, and keeps
what each row means. The compatible policy plans no other cast. -/
namespace FsspecData

/-- What a row says, across the types a value is stored in. Dates mean days. -/
inductive Meaning where
  | null
  | integer (n : Int)
  | day (n : Int)
  | other (value : Value)

def Meaning.of (type : DataType) : Option Value → Meaning
  | none => .null
  | some (.integer n) =>
    if type = .date32 then .day n else if type = .date64 then .day (n / 86400000) else .integer n
  | some value => .other value

namespace CastRegistry

/-- The value after a safe cast. -/
def carry (source target : DataType) : Value → Value
  | .integer n => if source = .date32 ∧ target = .date64 then .integer (n * 86400000) else .integer n
  | value => value

theorem carry_undated (undated : ¬ (source = .date32 ∧ target = .date64)) : carry source target = id := by
  funext value
  cases value <;> simp [carry, undated]

theorem carry_injective (source target : DataType) : Function.Injective (carry source target) := by
  intro a b same
  by_cases dated : source = .date32 ∧ target = .date64
  · cases a <;> cases b <;> simp only [carry, dated, and_self, if_true] at same
    case integer.integer n m =>
      have scaled := Value.integer.inj same
      exact congrArg Value.integer (by omega)
    all_goals first | exact same | contradiction
  · rwa [carry_undated dated] at same

/-- A higher rank leaves a bit for the sign. -/
theorem width_lt {a b : Nat} (lt : a < b) : 8 * 2 ^ a ≤ 8 * 2 ^ b - 1 := by
  have widths : 2 ^ a < 2 ^ b := Nat.pow_lt_pow_right (by omega) lt
  omega

theorem pow_mono {a b : Nat} (le : a ≤ b) : (2 : Int) ^ a ≤ 2 ^ b := by
  exact_mod_cast Nat.pow_le_pow_right (by omega) le

variable {source target : DataType} {a b : Nat} {n : Int}

theorem signed_represents (at_source : signedRank source = some a)
    (at_target : signedRank target = some b) (lt : a < b) (represents : source.Represents n) :
    target.Represents n := by
  obtain ⟨low, high, range, above, below⟩ := represents
  cases (signedRank_range at_source).symm.trans range
  have bounds : (2 : Int) ^ (8 * 2 ^ a - 1) ≤ 2 ^ (8 * 2 ^ b - 1) := pow_mono (by have := width_lt lt; omega)
  exact ⟨_, _, signedRank_range at_target, by omega, by omega⟩

theorem unsigned_represents (at_source : unsignedRank source = some a)
    (at_target : unsignedRank target = some b) (lt : a < b) (represents : source.Represents n) :
    target.Represents n := by
  obtain ⟨low, high, range, above, below⟩ := represents
  cases (unsignedRank_range at_source).symm.trans range
  have bounds : (2 : Int) ^ (8 * 2 ^ a) ≤ 2 ^ (8 * 2 ^ b) := pow_mono (by have := width_lt lt; omega)
  exact ⟨_, _, unsignedRank_range at_target, by omega, by omega⟩

/-- The two rank scales compare soundly: an unsigned type of lower rank has fewer bits
than the signed one has besides its sign. -/
theorem unsignedSigned_represents (at_source : unsignedRank source = some a)
    (at_target : signedRank target = some b) (lt : a < b) (represents : source.Represents n) :
    target.Represents n := by
  obtain ⟨low, high, range, above, below⟩ := represents
  cases (unsignedRank_range at_source).symm.trans range
  have bounds : (2 : Int) ^ (8 * 2 ^ a) ≤ 2 ^ (8 * 2 ^ b - 1) := pow_mono (width_lt lt)
  have sign : (0 : Int) ≤ 2 ^ (8 * 2 ^ a) := Int.pow_nonneg (by decide)
  exact ⟨_, _, signedRank_range at_target, by omega, by omega⟩

/-- A day count fits 64 bits in milliseconds. -/
theorem date_represents (represents : DataType.date32.Represents n) :
    DataType.date64.Represents (n * 86400000) := by
  obtain ⟨low, high, range, above, below⟩ := represents
  cases range
  exact ⟨_, _, rfl, by omega, by omega⟩

/-- An integer cast into a type that has every value of the source. -/
theorem integer_cast {arrow : Arrow} (documented : arrow.Documented) {array : ArrayRef}
    (integer : array.dataType.isInteger) (target_integer : target.isInteger)
    (contains : ∀ n, array.dataType.Represents n → target.Represents n) :
    ∃ out, arrow.castWithOptions array target = .ok out ∧
      out.rows = array.rows.map (Option.map (carry array.dataType target)) := by
  have ranged := DataType.isInteger_ranged integer
  obtain ⟨out, cast, rows⟩ := documented.cast_integer integer target_integer fun n member => by
    have admits := ArrayRef.admits_row (DataType.isPlain_of_ranged ranged) member
    obtain ⟨_, ⟨⟩, represents⟩ := (DataType.admits_integer ranged).mp admits
    exact contains n represents
  refine ⟨out, cast, ?_⟩
  rw [carry_undated fun dated => (DataType.undated_of_integer integer).1 dated.1]
  simpa using rows

/-- A day cast scales each row, which never leaves 64 bits. -/
theorem date_cast {arrow : Arrow} (documented : arrow.Documented) {array : ArrayRef}
    (dated : array.dataType = .date32) :
    ∃ out, arrow.castWithOptions array .date64 = .ok out ∧
      out.rows = array.rows.map (Option.map (carry array.dataType .date64)) := by
  obtain ⟨out, cast, rows⟩ := documented.cast_date dated fun n member => by
    have admits := ArrayRef.admits_row (by rw [dated]; rfl) member
    obtain ⟨_, ⟨⟩, represents⟩ := (DataType.admits_integer (by rw [dated]; rfl)).mp admits
    exact date_represents (dated ▸ represents)
  refine ⟨out, cast, rows.trans (List.map_congr_left fun slot _ => ?_)⟩
  rcases slot with _ | value
  · rfl
  · cases value <;> simp [carry, dated]

/-- Every safe cast succeeds, whatever the rows. -/
theorem safe_cast {arrow : Arrow} (documented : arrow.Documented) {array : ArrayRef}
    (safe : SafeCast array.dataType target) :
    ∃ out, arrow.castWithOptions array target = .ok out ∧
      out.rows = array.rows.map (Option.map (carry array.dataType target)) := by
  generalize known : array.dataType = source at safe
  cases safe with
  | null distinct =>
    refine ⟨_, documented.cast_null known, ?_⟩
    rw [documented.newNull_rows, ArrayRef.rows_null known]
    simp
  | signed at_source at_target lt =>
    subst known
    exact integer_cast documented (DataType.isInteger_of_signed at_source)
      (DataType.isInteger_of_signed at_target) fun n => signed_represents at_source at_target lt
  | unsigned at_source at_target lt =>
    subst known
    exact integer_cast documented (DataType.isInteger_of_unsigned at_source)
      (DataType.isInteger_of_unsigned at_target) fun n => unsigned_represents at_source at_target lt
  | unsignedSigned at_source at_target lt =>
    subst known
    exact integer_cast documented (DataType.isInteger_of_unsigned at_source)
      (DataType.isInteger_of_signed at_target) fun n =>
        unsignedSigned_represents at_source at_target lt
  | listed pair =>
    simp only [safePairs, List.mem_cons, Prod.mk.injEq, List.not_mem_nil, or_false] at pair
    rcases pair with ⟨rfl, rfl⟩ | ⟨rfl, rfl⟩ | ⟨rfl, rfl⟩ | ⟨rfl, rfl⟩ | ⟨rfl, rfl⟩
    case inr.inr.inr.inr => exact known ▸ date_cast documented known
    case inr.inr.inr.inl =>
      rw [carry_undated (by decide)]
      simpa using documented.cast_text known
    all_goals
      rw [carry_undated (by decide)]
      simpa using documented.cast_float (by simp [known])

/-- From a type with values, a safe cast goes to plain arrays. -/
theorem SafeCast.target_plain (safe : SafeCast source target) (valued : source ≠ .null) : target.isPlain := by
  cases safe with
  | null _ => exact absurd rfl valued
  | signed _ at_target | unsignedSigned _ at_target =>
    exact DataType.isPlain_of_ranged (DataType.isInteger_ranged (DataType.isInteger_of_signed at_target))
  | unsigned _ at_target =>
    exact DataType.isPlain_of_ranged (DataType.isInteger_ranged (DataType.isInteger_of_unsigned at_target))
  | listed pair =>
    simp only [safePairs, List.mem_cons, Prod.mk.injEq, List.not_mem_nil, or_false] at pair
    rcases pair with ⟨rfl, rfl⟩ | ⟨rfl, rfl⟩ | ⟨rfl, rfl⟩ | ⟨rfl, rfl⟩ | ⟨rfl, rfl⟩ <;> rfl

/-! Dates chain with nothing: days go to milliseconds alone, and those go nowhere. -/

theorem SafeCast.target_date (safe : SafeCast .date32 target) : target = .date64 := by
  cases safe with
  | signed at_source | unsigned at_source | unsignedSigned at_source => contradiction
  | listed pair => simpa [safePairs] using pair

theorem SafeCast.source_undated (safe : SafeCast source target) : source ≠ .date64 := by
  rintro rfl
  cases safe with
  | signed at_source | unsigned at_source | unsignedSigned at_source => contradiction
  | listed pair => simp [safePairs] at pair

theorem SafeCast.source_null (safe : SafeCast source .date32) : source = .null := by
  cases safe with
  | null _ => rfl
  | signed _ at_target | unsigned _ at_target | unsignedSigned _ at_target => contradiction
  | listed pair => simp [safePairs] at pair

/-- A safe cast keeps what each row means. -/
theorem carry_meaning {array : ArrayRef} (safe : SafeCast array.dataType target)
    {slot : Option Value} (member : slot ∈ array.rows) :
    Meaning.of target (slot.map (carry array.dataType target)) = Meaning.of array.dataType slot := by
  generalize known : array.dataType = source at safe
  have undated (source_undated : source ≠ .date32 ∧ source ≠ .date64)
      (target_undated : target ≠ .date32 ∧ target ≠ .date64) :
      Meaning.of target (slot.map (carry source target)) = Meaning.of source slot := by
    rw [carry_undated fun dated => source_undated.1 dated.1]
    rcases slot with _ | value
    · rfl
    · cases value <;> simp [Meaning.of, source_undated, target_undated]
  cases safe with
  | null =>
    rw [ArrayRef.rows_null known] at member
    obtain rfl := List.eq_of_mem_replicate member
    rfl
  | signed at_source at_target =>
    exact undated (DataType.undated_of_integer (DataType.isInteger_of_signed at_source))
      (DataType.undated_of_integer (DataType.isInteger_of_signed at_target))
  | unsigned at_source at_target =>
    exact undated (DataType.undated_of_integer (DataType.isInteger_of_unsigned at_source))
      (DataType.undated_of_integer (DataType.isInteger_of_unsigned at_target))
  | unsignedSigned at_source at_target =>
    exact undated (DataType.undated_of_integer (DataType.isInteger_of_unsigned at_source))
      (DataType.undated_of_integer (DataType.isInteger_of_signed at_target))
  | listed pair =>
    simp only [safePairs, List.mem_cons, Prod.mk.injEq, List.not_mem_nil, or_false] at pair
    rcases pair with ⟨rfl, rfl⟩ | ⟨rfl, rfl⟩ | ⟨rfl, rfl⟩ | ⟨rfl, rfl⟩ | ⟨rfl, rfl⟩
    case inr.inr.inr.inr =>
      rcases slot with _ | value
      · rfl
      · cases value <;> simp [Meaning.of, carry]
    all_goals exact undated (by decide) (by decide)

end CastRegistry

/-! The compatible policy, from the plan to the rows. -/

namespace Plan

open CastRegistry InterchangePlan

variable {arrow : Arrow} {provided requested : Schema} {plan : InterchangePlan} {batch : RecordBatch}

/-- Without options the compatible policy maps each field to the field at its position. -/
theorem compatible_positions
    (planned : planSchema arrow provided requested .compatible = .ok plan) :
    provided.fields.length = requested.fields.length ∧ plan.additions = [] ∧
      ∀ mapping ∈ plan.mappings, mapping.sourceIndex = mapping.targetIndex := by
  obtain ⟨⟨mappings, additions⟩, operations, rfl⟩ := Fallible.map_eq_ok.mp planned
  obtain ⟨direct, matched, same⟩ := Fallible.map_eq_ok.mp operations
  obtain ⟨rfl, rfl⟩ := Prod.mk.inj same
  have positional := planCompatible_eq_ok.mp matched
  refine ⟨by simpa [schemaDescriptors] using positional.width, rfl, ?_⟩
  intro mapping member
  obtain ⟨i, at_i⟩ := List.getElem?_of_mem member
  obtain ⟨_, _, _, _, _, _, rfl⟩ := positional.at_index at_i
  rfl

/-- A mapping of the compatible policy has equal types or a safe cast, and no null check. -/
theorem compatible_fits {source target : FieldDescriptor} {mapping : FieldMapping}
    (fits : Fits .compatible (some .safe) source target mapping) :
    mapping.checkNulls = false ∧
      ((mapping.cast = none ∧ source.dataType = target.dataType) ∨
        (mapping.cast = some .safe ∧ SafeCast source.dataType target.dataType)) := by
  constructor
  · by_contra checks
    exact absurd (fits.coerced (by simpa using checks)) (by decide)
  · by_cases same : source.dataType = target.dataType
    · exact .inl ⟨fits.cast_none.mpr same, same⟩
    · obtain ⟨kind, max, cast, limit, within⟩ := fits.allowed same
      cases limit
      obtain rfl : kind = .safe := by cases kind <;> simp [CastKind.rank] at within ⊢
      exact .inr ⟨cast, classify_safe (fits.cast.symm.trans cast)⟩

/-- What the compatible policy does to a column. -/
structure Carried (target : DataType) (column out : ArrayRef) : Prop where
  rows : out.rows = column.rows.map (Option.map (carry column.dataType target))
  meaning : out.rows.map (Meaning.of target) = column.rows.map (Meaning.of column.dataType)

theorem compatible_applyMapping (documented : arrow.Documented) {mapping : FieldMapping}
    {source target : Field} {column : ArrayRef}
    (reads : Reads batch requested .compatible {} mapping source target column) :
    ∃ out, applyMapping arrow requested batch mapping = .ok out ∧ Carried target.dataType column out := by
  obtain ⟨unchecked, cast⟩ := compatible_fits reads.fits
  have typed := batch.column_type reads.at_source reads.at_column
  rw [applyMapping_eq reads.at_column reads.at_target, if_neg (by simp [unchecked])]
  simp only [describe, ← typed] at cast
  rcases cast with ⟨uncast, same⟩ | ⟨cast, safe⟩
  · refine ⟨column, by rw [uncast], ?_, by rw [same]⟩
    rw [carry_undated fun dated => by simp [same.symm.trans dated.1] at dated]
    simp
  · obtain ⟨out, done, rows⟩ := safe_cast documented safe
    refine ⟨out, by rw [cast, done]; rfl, rows, ?_⟩
    rw [rows, List.map_map]
    exact List.map_congr_left fun slot member => carry_meaning safe member

/-- The columns of a compatible run, each from the column at its own position. -/
theorem compatible_columns (documented : arrow.Documented)
    (planned : planSchema arrow provided requested .compatible = .ok plan)
    (same : schemaFieldsEqual batch.schema provided = true) {output : RecordBatch}
    (run : plan.applyBatch arrow batch = .ok output) :
    output.columns.length = batch.columns.length ∧ ∀ (i : Nat) (out : ArrayRef),
      output.columns[i]? = some out → ∃ column, batch.columns[i]? = some column ∧
        Carried out.dataType column out := by
  have whole := planSchemaWith_planned planned
  obtain ⟨widths, unadded, positions⟩ := compatible_positions planned
  have described : schemaDescriptors batch.schema = schemaDescriptors provided := of_decide_eq_true same
  have batch_width : batch.columns.length = requested.fields.length := by
    rw [batch.valid.width, ← widths]
    simpa [schemaDescriptors] using congrArg List.length described
  obtain ⟨columns, produces, valid, rfl⟩ := (whole.applyBatch_ok same).mp run
  refine ⟨by rw [valid.width, batch_width], ?_⟩
  intro i out at_i
  rcases produces.at_index whole.covers at_i with ⟨mapping, member, rfl, computed⟩ | ⟨_, member, _⟩
  · obtain ⟨source, target, column, reads⟩ := whole.reads same member
    obtain ⟨out', computed', carried⟩ := compatible_applyMapping documented reads
    rw [whole.requestedSchema, computed'] at computed
    cases computed
    refine ⟨column, positions mapping member ▸ reads.at_column, ?_⟩
    have typed := @RecordBatch.column_type ⟨requested, columns, batch.numRows, valid⟩ _ _ _
      reads.at_target at_i
    rwa [typed]
  · simp [unadded] at member

/-- Batches of one schema agree on the type of each column. -/
theorem column_types {left right : RecordBatch} {i : Nat} {a b : ArrayRef}
    (left_same : schemaFieldsEqual left.schema provided = true)
    (right_same : schemaFieldsEqual right.schema provided = true)
    (at_left : left.columns[i]? = some a) (at_right : right.columns[i]? = some b) :
    a.dataType = b.dataType := by
  have described : schemaDescriptors left.schema = schemaDescriptors right.schema :=
    (of_decide_eq_true left_same).trans (of_decide_eq_true right_same).symm
  have field (batch : RecordBatch) (column : ArrayRef) (at_i : batch.columns[i]? = some column) :
      ((schemaDescriptors batch.schema)[i]?).map (·.dataType) = some column.dataType := by
    obtain ⟨inside, _⟩ := List.getElem?_eq_some_iff.mp at_i
    have at_field := List.getElem?_eq_getElem (batch.valid.width ▸ inside)
    rw [schemaDescriptors, List.getElem?_map, at_field, batch.column_type at_field at_i]
    rfl
  have both := field left a at_left
  rw [described, field right b at_right] at both
  exact (Option.some.inj both).symm

theorem Carried.injective {target : DataType} {a b x y : ArrayRef} (left : Carried target a x)
    (right : Carried target b y) (types : a.dataType = b.dataType) (same : x.rows = y.rows) :
    a.rows = b.rows := by
  rw [left.rows, right.rows, types] at same
  exact List.map_injective_iff.mpr (Option.map_injective (carry_injective b.dataType target)) same

/-- Outputs that are carried from two inputs determine the inputs. -/
theorem carried_columns_injective {left right leftOutput rightOutput : List ArrayRef}
    (left_width : leftOutput.length = left.length) (right_width : rightOutput.length = right.length)
    (types : ∀ (i : Nat) (a b : ArrayRef), left[i]? = some a → right[i]? = some b →
      a.dataType = b.dataType)
    (left_columns : ∀ (i : Nat) (out : ArrayRef), leftOutput[i]? = some out →
      ∃ column, left[i]? = some column ∧ Carried out.dataType column out)
    (right_columns : ∀ (i : Nat) (out : ArrayRef), rightOutput[i]? = some out →
      ∃ column, right[i]? = some column ∧ Carried out.dataType column out)
    (same : leftOutput.map (fun column => (column.dataType, column.rows)) =
      rightOutput.map (fun column => (column.dataType, column.rows))) :
    left.map (fun column => (column.dataType, column.rows)) =
      right.map (fun column => (column.dataType, column.rows)) := by
  have widths : leftOutput.length = rightOutput.length := by simpa using congrArg List.length same
  apply List.ext_getElem (by simp; omega)
  intro i inside inside'
  simp only [List.length_map] at inside inside'
  have left_out := List.getElem?_eq_getElem (l := leftOutput) (i := i) (by omega)
  have right_out := List.getElem?_eq_getElem (l := rightOutput) (i := i) (by omega)
  obtain ⟨a, at_a, left_carried⟩ := left_columns i _ left_out
  obtain ⟨b, at_b, right_carried⟩ := right_columns i _ right_out
  have outs := congrArg (·[i]?) same
  simp only [List.getElem?_map, left_out, right_out, Option.map_some, Option.some.injEq,
    Prod.mk.injEq] at outs
  rw [outs.1] at left_carried
  have kinds := types i a b at_a at_b
  have rows := left_carried.injective right_carried kinds outs.2
  obtain ⟨_, rfl⟩ := List.getElem?_eq_some_iff.mp at_a
  obtain ⟨_, rfl⟩ := List.getElem?_eq_some_iff.mp at_b
  simp only [List.getElem_map, kinds, rows]

/-- The compatible policy is lossless: its casts succeed, each row of the output means
what the row of the input at its place means, and equal outputs have equal inputs. -/
theorem compatible_lossless (arrow : Arrow) (documented : arrow.Documented)
    (provided requested : Schema) (plan : InterchangePlan)
    (planned : planSchema arrow provided requested .compatible = .ok plan) :
    (∀ batch : RecordBatch, schemaFieldsEqual batch.schema provided = true →
      (∀ mapping ∈ plan.mappings, ∃ out, applyMapping arrow requested batch mapping = .ok out) ∧
      ∀ output, plan.applyBatch arrow batch = .ok output →
        output.columns.length = batch.columns.length ∧
        ∀ (i : Nat) (out : ArrayRef), output.columns[i]? = some out → ∃ column,
          batch.columns[i]? = some column ∧
          out.rows.map (Meaning.of out.dataType) = column.rows.map (Meaning.of column.dataType)) ∧
    ∀ left right leftOutput rightOutput : RecordBatch,
      schemaFieldsEqual left.schema provided = true → schemaFieldsEqual right.schema provided = true →
      plan.applyBatch arrow left = .ok leftOutput → plan.applyBatch arrow right = .ok rightOutput →
      leftOutput.Same rightOutput → left.Same right := by
  have whole := planSchemaWith_planned planned
  refine ⟨fun batch same => ⟨fun mapping member => ?_, fun output run => ?_⟩, ?_⟩
  · obtain ⟨source, target, column, reads⟩ := whole.reads same member
    obtain ⟨out, computed, _⟩ := compatible_applyMapping documented reads
    exact ⟨out, computed⟩
  · obtain ⟨widths, columns⟩ := compatible_columns documented planned same run
    refine ⟨widths, ?_⟩
    intro i out at_i
    obtain ⟨column, at_column, carried⟩ := columns i out at_i
    exact ⟨column, at_column, carried.meaning⟩
  · intro left right leftOutput rightOutput left_same right_same left_run right_run outputs
    obtain ⟨left_width, left_columns⟩ := compatible_columns documented planned left_same left_run
    obtain ⟨right_width, right_columns⟩ := compatible_columns documented planned right_same right_run
    obtain ⟨_, _, _, rfl⟩ := (whole.applyBatch_ok left_same).mp left_run
    obtain ⟨_, _, _, rfl⟩ := (whole.applyBatch_ok right_same).mp right_run
    exact ⟨outputs.numRows, carried_columns_injective left_width right_width
      (fun _ _ _ => column_types left_same right_same) left_columns right_columns outputs.columns⟩

/-- A date and a narrow unsigned integer. -/
def dayBatch : RecordBatch :=
  ⟨⟨[.mk "d" .date32 true [], .mk "n" .uint8 false []], []⟩,
    [⟨.date32, .plain [some (.integer 19000), none], rfl⟩,
      ⟨.uint8, .plain [some (.integer 255), some (.integer 0)], rfl⟩], 2, by decide⟩

theorem compatible_lossless_day :
    ∃ plan output, planSchema Arrow.small dayBatch.schema
        ⟨[.mk "d" .date64 true [], .mk "n" .int16 true []], []⟩ .compatible = .ok plan ∧
      plan.applyBatch Arrow.small dayBatch = .ok output ∧
      ∀ (i : Nat) (out : ArrayRef), output.columns[i]? = some out → ∃ column,
        dayBatch.columns[i]? = some column ∧
        out.rows.map (Meaning.of out.dataType) = column.rows.map (Meaning.of column.dataType) := by
  obtain ⟨plan, planned, output, run⟩ : ∃ plan, planSchema Arrow.small dayBatch.schema
      ⟨[.mk "d" .date64 true [], .mk "n" .int16 true []], []⟩ .compatible = .ok plan ∧
      ∃ output, plan.applyBatch Arrow.small dayBatch = .ok output := ⟨_, rfl, _, rfl⟩
  have lossless := compatible_lossless _ Arrow.small_documented _ _ plan planned
  exact ⟨plan, output, planned, run, ((lossless.1 dayBatch (decide_eq_true rfl)).2 output run).2⟩

end Plan

end FsspecData
