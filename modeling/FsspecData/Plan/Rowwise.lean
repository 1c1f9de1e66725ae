import FsspecData.Plan.Outcome
import FsspecData.Arrow.Slice
import Mathlib.Algebra.BigOperators.Ring.List
import Mathlib.Algebra.Ring.Nat

/-! Planned execution is row-wise: a run on a batch is the runs on the batches it was split
into. What can make a run fail shows in one part, and every output column is computed by
slots. -/
namespace FsspecData

theorem CastRegistry.classify_target_plain {source target : DataType}
    (known : classify source target = some kind) (valued : source ≠ .null) : target.isPlain := by
  cases target
  case null | dictionary | union | runEndEncoded =>
    simp [classify, valued, signedRank, unsignedRank, ranked, classifyOther, safePairs, lossyPairs, isNumeric,
      isText] at known
  all_goals rfl

open CastRegistry

/-- The casts of the registry act slot by slot, and fail exactly when a slot has no cast. -/
def Arrow.Elementwise (arrow : Arrow) : Prop :=
  ∃ element : DataType → DataType → Option Value → Option (Option Value),
    ∀ array type kind, classify array.dataType type = some kind →
      ((∃ out, arrow.castWithOptions array type = .ok out) ↔
        ∀ slot ∈ array.rows, (element array.dataType type slot).isSome) ∧
      ∀ out, arrow.castWithOptions array type = .ok out →
        out.rows.map some = array.rows.map (element array.dataType type)

/-- The small kernel casts slot by slot. -/
theorem Arrow.small_elementwise : Arrow.small.Elementwise := by
  refine ⟨fun source target slot => (Arrow.Small.castSlot source target slot).toOption,
    fun array type kind known => ?_⟩
  by_cases valued : array.dataType = .null
  · have cast : Arrow.small.castWithOptions array type = .ok (Arrow.small.newNullArray type array.length) :=
      Arrow.small_documented.cast_null valued
    have rows := ArrayRef.rows_null valued
    constructor
    · refine iff_of_true ⟨_, cast⟩ fun slot member => ?_
      rw [rows] at member
      rw [List.eq_of_mem_replicate member]
      rfl
    · intro out converted
      cases cast.symm.trans converted
      rw [Arrow.small_documented.newNull_rows, rows, List.map_replicate, List.map_replicate]
      rfl
  · have distinct : array.dataType ≠ type := by
      intro same
      rw [same, CastRegistry.classify_self] at known
      contradiction
    have ran {out : ArrayRef} (converted : Arrow.small.castWithOptions array type = .ok out) :
        out.rows.map some = array.rows.map fun slot => (Arrow.Small.castSlot array.dataType type slot).toOption := by
      obtain ⟨_, each⟩ := Arrow.Small.castWithOptions_ok valued distinct converted
      generalize array.rows = slots at each
      generalize out.rows = results at each
      induction each with
      | nil => rfl
      | cons first _ ih =>
        rw [List.map_cons, List.map_cons, ih, first]
        rfl
    refine ⟨⟨?_, fun each => ?_⟩, fun out => ran⟩
    · rintro ⟨out, converted⟩ slot member
      have inside :=
        List.mem_map_of_mem (f := fun slot => (Arrow.Small.castSlot array.dataType type slot).toOption) member
      rw [← ran converted] at inside
      obtain ⟨result, _, same⟩ := List.mem_map.mp inside
      exact Option.isSome_iff_exists.mpr ⟨result, same.symm⟩
    · have castable (value : Value) (member : some value ∈ array.rows) :
          Arrow.Small.castValue array.dataType type value =
            some ((Arrow.Small.castValue array.dataType type value).getD value) := by
        have converts := each (some value) member
        cases cast : Arrow.Small.castValue array.dataType type value with
        | some result => rfl
        | none => simp [Arrow.Small.castSlot, cast, Except.toOption] at converts
      obtain ⟨out, converted, _⟩ := Arrow.Small.castWithOptions_each valued distinct
        (CastRegistry.classify_plain known valued) (CastRegistry.classify_target_plain known valued) _ castable
      exact ⟨out, converted⟩

/-- The null count of a plain array is that of its slots. -/
theorem ArrayRef.nullCount_of_plain {array : ArrayRef} (is_plain : array.dataType.isPlain) :
    array.nullCount = array.rows.countP Option.isNone := by
  obtain ⟨slots, plain⟩ := Layout.eq_plain is_plain array.fits
  rw [nullCount, rows, plain]
  rfl

namespace InterchangePlan

open Plan RecordBatch

variable {plan : InterchangePlan} {arrow : Arrow} {parts : List RecordBatch} {whole part : RecordBatch}

theorem applyBatch_schema {batch output : RecordBatch} (run : plan.applyBatch arrow batch = .ok output) :
    schemaFieldsEqual batch.schema plan.providedSchema = true := by
  unfold applyBatch at run
  split at run
  next => contradiction
  next same => simpa using same

/-- Parts have the columns of the whole, of the same types. -/
theorem part_column (concatenates : Concatenates parts whole) (member : part ∈ parts) {i : Nat} :
    (∀ column, whole.columns[i]? = some column →
      ∃ piece, part.columns[i]? = some piece ∧ piece.dataType = column.dataType) ∧
    ∀ piece, part.columns[i]? = some piece →
      ∃ column, whole.columns[i]? = some column ∧ piece.dataType = column.dataType := by
  have same := concatenates.schema part member
  have typed {piece column : ArrayRef} (at_piece : part.columns[i]? = some piece)
      (at_column : whole.columns[i]? = some column) : piece.dataType = column.dataType := by
    obtain ⟨inside, _⟩ := List.getElem?_eq_some_iff.mp at_column
    obtain ⟨field, at_field⟩ : ∃ field, whole.schema.fields[i]? = some field :=
      ⟨_, List.getElem?_eq_getElem (by rw [← whole.valid.width]; exact inside)⟩
    rw [whole.column_type at_field at_column]
    rw [← same] at at_field
    exact part.column_type at_field at_piece
  have width := same_width same
  constructor
  · intro column at_column
    obtain ⟨inside, _⟩ := List.getElem?_eq_some_iff.mp at_column
    have at_piece := List.getElem?_eq_getElem (width ▸ inside : i < part.columns.length)
    exact ⟨_, at_piece, typed at_piece at_column⟩
  · intro piece at_piece
    obtain ⟨inside, _⟩ := List.getElem?_eq_some_iff.mp at_piece
    have at_column := List.getElem?_eq_getElem (width ▸ inside : i < whole.columns.length)
    exact ⟨_, at_column, typed at_piece at_column⟩

/-- What is said of a mapped column holds of the whole when it holds of some part,
if it holds of columns that their pieces decide. -/
theorem exists_maps_iff (concatenates : Concatenates parts whole) (said : FieldMapping → Field → ArrayRef → Prop)
    (decided : ∀ mapping target column, plan.Maps whole mapping target column →
      (said mapping target column ↔
        ∃ part ∈ parts, ∃ piece, plan.Maps part mapping target piece ∧ said mapping target piece)) :
    (∃ mapping target column, plan.Maps whole mapping target column ∧ said mapping target column) ↔
      ∃ part ∈ parts, ∃ mapping target piece, plan.Maps part mapping target piece ∧ said mapping target piece := by
  constructor
  · rintro ⟨mapping, target, column, maps, holds⟩
    obtain ⟨part, member, piece, maps', holds'⟩ := (decided mapping target column maps).mp holds
    exact ⟨part, member, mapping, target, piece, maps', holds'⟩
  · rintro ⟨part, member, mapping, target, piece, maps, holds⟩
    obtain ⟨column, at_column, _⟩ := (part_column concatenates member).2 piece maps.at_column
    have maps' : plan.Maps whole mapping target column := ⟨maps.member, maps.at_target, at_column⟩
    exact ⟨mapping, target, column, maps', (decided _ _ _ maps').mpr ⟨part, member, piece, maps, holds⟩⟩

/-- The nulls a column shows are shown by its pieces. -/
theorem nullCount_pos_iff (concatenates : Concatenates parts whole) {i : Nat} {column : ArrayRef}
    (at_column : whole.columns[i]? = some column) :
    0 < column.nullCount ↔ ∃ part ∈ parts, ∃ piece, part.columns[i]? = some piece ∧ 0 < piece.nullCount := by
  rw [← columnNulls_eq at_column, concatenates.columnNulls, List.sum_pos_iff_exists_pos_nat]
  simp only [List.mem_map, exists_exists_and_eq_and]
  apply exists_congr
  intro part
  apply and_congr_right
  intro member
  obtain ⟨piece, at_piece, _⟩ := (part_column concatenates member).1 column at_column
  rw [columnNulls_eq at_piece]
  simp [at_piece]

theorem numRows_pos_iff (concatenates : Concatenates parts whole) :
    0 < whole.numRows ↔ ∃ part ∈ parts, 0 < part.numRows := by
  rw [concatenates.numRows, List.sum_pos_iff_exists_pos_nat]
  simp

theorem mem_rows_iff (concatenates : Concatenates parts whole) {i : Nat} {column : ArrayRef}
    (at_column : whole.columns[i]? = some column) {slot : Option Value} :
    slot ∈ column.rows ↔ ∃ part ∈ parts, ∃ piece, part.columns[i]? = some piece ∧ slot ∈ piece.rows := by
  rw [← columnRows_eq at_column, concatenates.columnRows, List.mem_flatMap]
  apply exists_congr
  intro part
  apply and_congr_right
  intro member
  obtain ⟨piece, at_piece, _⟩ := (part_column concatenates member).1 column at_column
  rw [columnRows_eq at_piece]
  simp [at_piece]

theorem seesNull_parts (concatenates : Concatenates parts whole) :
    plan.SeesNull whole ↔ ∃ part ∈ parts, plan.SeesNull part := by
  apply exists_maps_iff concatenates fun mapping _ column => mapping.checkNulls = true ∧ 0 < column.nullCount
  intro mapping target column maps
  rw [nullCount_pos_iff concatenates maps.at_column]
  constructor
  · rintro ⟨checks, part, member, piece, at_piece, shown⟩
    exact ⟨part, member, piece, ⟨maps.member, maps.at_target, at_piece⟩, checks, shown⟩
  · rintro ⟨part, member, piece, maps', checks, shown⟩
    exact ⟨checks, part, member, piece, maps'.at_column, shown⟩

theorem voids_parts (concatenates : Concatenates parts whole) :
    plan.Voids whole ↔ ∃ part ∈ parts, plan.Voids part := by
  have rows := numRows_pos_iff concatenates
  constructor
  · rintro ⟨mapping, target, column, maps, null, required, buffered, some_rows⟩
    obtain ⟨part, member, some_rows⟩ := rows.mp some_rows
    obtain ⟨piece, at_piece, typed⟩ := (part_column concatenates member).1 column maps.at_column
    exact ⟨part, member, mapping, target, piece, ⟨maps.member, maps.at_target, at_piece⟩, typed.trans null,
      required, buffered, some_rows⟩
  · rintro ⟨part, member, mapping, target, piece, maps, null, required, buffered, some_rows⟩
    obtain ⟨column, at_column, typed⟩ := (part_column concatenates member).2 piece maps.at_column
    exact ⟨mapping, target, column, ⟨maps.member, maps.at_target, at_column⟩, typed.symm.trans null, required,
      buffered, rows.mpr ⟨part, member, some_rows⟩⟩

theorem addsNull_parts (concatenates : Concatenates parts whole) :
    plan.AddsNull whole ↔ ∃ part ∈ parts, plan.AddsNull part := by
  have rows := numRows_pos_iff concatenates
  constructor
  · rintro ⟨addition, target, adds, required, shown, some_rows⟩
    obtain ⟨part, member, some_rows⟩ := rows.mp some_rows
    exact ⟨part, member, addition, target, adds, required, shown, some_rows⟩
  · rintro ⟨part, member, addition, target, adds, required, shown, some_rows⟩
    exact ⟨addition, target, adds, required, shown, rows.mpr ⟨part, member, some_rows⟩⟩

/-- A slot-wise cast rejects a column for the sake of one slot. -/
theorem rejects_iff {element : DataType → DataType → Option Value → Option (Option Value)} {column : ArrayRef}
    {type : DataType} (slots : (∃ out, arrow.castWithOptions column type = .ok out) ↔
      ∀ slot ∈ column.rows, (element column.dataType type slot).isSome) :
    Rejects arrow column type ↔ ∃ slot ∈ column.rows, element column.dataType type slot = none := by
  have failed : Rejects arrow column type ↔ ¬ ∃ out, arrow.castWithOptions column type = .ok out := by
    cases cast : arrow.castWithOptions column type with
    | ok out => simp [Rejects, cast]
    | error error => simp [Rejects, cast]
  rw [failed, slots]
  simp

theorem refuses_parts (elementwise : arrow.Elementwise) {provided requested : Schema} {policy : SchemaPolicy}
    {options : ProjectionOptions} (planned : Planned arrow provided requested policy options plan)
    (same : schemaFieldsEqual whole.schema provided = true) (concatenates : Concatenates parts whole)
    (kind : CastKind) : plan.Refuses arrow whole kind ↔ ∃ part ∈ parts, plan.Refuses arrow part kind := by
  obtain ⟨element, slots⟩ := elementwise
  apply exists_maps_iff concatenates fun mapping target column =>
    mapping.cast = some kind ∧ Rejects arrow column target.dataType
  intro mapping target column maps
  obtain ⟨source, reads⟩ := planned.reads_of_maps same maps
  have known (cast : mapping.cast = some kind) : classify column.dataType target.dataType = some kind :=
    reads.cast_eq.symm.trans cast
  constructor
  · rintro ⟨cast, rejected⟩
    obtain ⟨slot, inside, none⟩ := (rejects_iff (slots column target.dataType kind (known cast)).1).mp rejected
    obtain ⟨part, member, piece, at_piece, inside⟩ := (mem_rows_iff concatenates maps.at_column).mp inside
    obtain ⟨_, at_piece', typed⟩ := (part_column concatenates member).1 column maps.at_column
    cases at_piece.symm.trans at_piece'
    rw [← typed] at none known
    exact ⟨part, member, piece, ⟨maps.member, maps.at_target, at_piece⟩, cast,
      (rejects_iff (slots piece target.dataType kind (known cast)).1).mpr ⟨slot, inside, none⟩⟩
  · rintro ⟨part, member, piece, maps', cast, rejected⟩
    obtain ⟨_, at_piece, typed⟩ := (part_column concatenates member).1 column maps.at_column
    cases at_piece.symm.trans maps'.at_column
    have known' : classify piece.dataType target.dataType = some kind := typed ▸ known cast
    obtain ⟨slot, inside, none⟩ := (rejects_iff (slots piece target.dataType kind known').1).mp rejected
    have inside := (mem_rows_iff concatenates maps.at_column).mpr ⟨part, member, piece, at_piece, inside⟩
    rw [typed] at none
    exact ⟨cast, (rejects_iff (slots column target.dataType kind (known cast)).1).mpr ⟨slot, inside, none⟩⟩

end InterchangePlan

namespace Plan.Planned

open InterchangePlan RecordBatch

variable {arrow : Arrow} {provided requested : Schema} {policy : SchemaPolicy}
  {options : ProjectionOptions} {plan : InterchangePlan} {parts : List RecordBatch} {whole : RecordBatch}

/-- A run succeeds exactly when the runs on all parts do. -/
theorem succeeds_parts (documented : arrow.Documented) (elementwise : arrow.Elementwise)
    (planned : Planned arrow provided requested policy options plan)
    (same : schemaFieldsEqual whole.schema provided = true) (concatenates : Concatenates parts whole) :
    (∃ output, plan.applyBatch arrow whole = .ok output) ↔
      ∀ part ∈ parts, ∃ output, plan.applyBatch arrow part = .ok output := by
  have each (part : RecordBatch) (member : part ∈ parts) :=
    planned.succeeds_iff documented (concatenates.schema part member ▸ same)
  rw [planned.succeeds_iff documented same]
  constructor
  · rintro ⟨⟨unseen, accepted⟩, filled, clean⟩ part member
    refine (each part member).mpr ⟨⟨?_, ?_⟩, ?_, ?_⟩
    · exact fun sees => unseen ((seesNull_parts concatenates).mpr ⟨part, member, sees⟩)
    · intro kind refuses
      exact accepted kind ((refuses_parts elementwise planned same concatenates kind).mpr ⟨part, member, refuses⟩)
    · exact fun voids => filled ((voids_parts concatenates).mpr ⟨part, member, voids⟩)
    · exact fun adds => clean ((addsNull_parts concatenates).mpr ⟨part, member, adds⟩)
  · intro runs
    have each_runs (part : RecordBatch) (member : part ∈ parts) := (each part member).mp (runs part member)
    refine ⟨⟨?_, ?_⟩, ?_, ?_⟩
    · intro sees
      obtain ⟨part, member, sees⟩ := (seesNull_parts concatenates).mp sees
      exact (each_runs part member).1.1 sees
    · intro kind refuses
      obtain ⟨part, member, refuses⟩ := (refuses_parts elementwise planned same concatenates kind).mp refuses
      exact (each_runs part member).1.2 kind refuses
    · intro voids
      obtain ⟨part, member, voids⟩ := (voids_parts concatenates).mp voids
      exact (each_runs part member).2.1 voids
    · intro adds
      obtain ⟨part, member, adds⟩ := (addsNull_parts concatenates).mp adds
      exact (each_runs part member).2.2 adds

/-- How the column at an index of every output is computed: what slots and how many
shown nulls a batch gives there, which its parts give together. -/
structure Computes (plan : InterchangePlan) (arrow : Arrow) (provided : Schema) (i : Nat)
    (slots : RecordBatch → List (Option Value)) (nulls : RecordBatch → Nat) : Prop where
  column {batch output : RecordBatch} : schemaFieldsEqual batch.schema provided = true →
    plan.applyBatch arrow batch = .ok output →
    output.columnRows i = slots batch ∧ output.columnNulls i = nulls batch
  slots_parts {parts : List RecordBatch} {whole : RecordBatch} : Concatenates parts whole →
    slots whole = parts.flatMap slots
  nulls_parts {parts : List RecordBatch} {whole : RecordBatch} : Concatenates parts whole →
    nulls whole = (parts.map nulls).sum

theorem replicate_sum (row : Option Value) (parts : List RecordBatch) :
    List.replicate (parts.map (·.numRows)).sum row = parts.flatMap fun part => List.replicate part.numRows row := by
  induction parts with
  | nil => rfl
  | cons part rest ih =>
    rw [List.map_cons, List.sum_cons, ← List.replicate_append_replicate, ih, List.flatMap_cons]

/-- The column of one addition: its value in every row. -/
theorem addition_computes (documented : arrow.Documented)
    (planned : Planned arrow provided requested policy options plan) {addition : FieldAddition}
    (member : addition ∈ plan.additions) :
    ∃ slots nulls, Computes plan arrow provided addition.targetIndex slots nulls := by
  obtain ⟨target, _, at_target, _⟩ := planned.addition_facts documented member
  have adds : plan.Adds addition target := ⟨member, planned.requestedSchema.symm ▸ at_target⟩
  obtain ⟨_, row, single⟩ := planned.added_value documented adds
  refine ⟨fun batch => List.replicate batch.numRows row,
    fun batch => batch.numRows * addition.value.nullCount, ?_, ?_, ?_⟩
  · intro batch output same run
    obtain ⟨columns, produces, valid, rfl⟩ := (planned.applyBatch_ok same).mp run
    obtain ⟨out, at_i, computed⟩ := produces.second addition member
    obtain ⟨out', row', taken, _, single', rows, count⟩ := planned.applyAddition_ok documented batch adds
    cases taken.symm.trans computed
    cases single.symm.trans single'
    exact ⟨(columnRows_eq at_i).trans rows, (columnNulls_eq at_i).trans count⟩
  · intro parts whole concatenates
    rw [concatenates.numRows, replicate_sum]
  · intro parts whole concatenates
    rw [concatenates.numRows, List.sum_map_mul_right]

/-- The source and the target of a mapping in a run. -/
theorem mapped_column (planned : Planned arrow provided requested policy options plan) {mapping : FieldMapping}
    (member : mapping ∈ plan.mappings) {batch output : RecordBatch}
    (same : schemaFieldsEqual batch.schema provided = true) (run : plan.applyBatch arrow batch = .ok output) :
    ∃ source target column out, Reads batch requested policy options mapping source target column ∧
      output.columns[mapping.targetIndex]? = some out ∧ applyMapping arrow requested batch mapping = .ok out := by
  obtain ⟨columns, produces, valid, rfl⟩ := (planned.applyBatch_ok same).mp run
  obtain ⟨out, at_i, computed⟩ := produces.first mapping member
  rw [planned.requestedSchema] at computed
  obtain ⟨source, target, column, reads⟩ := planned.reads same member
  exact ⟨source, target, column, out, reads, at_i, computed⟩

/-- A mapping that casts converts its source, which has the provided type, to the requested one. -/
theorem cast_column (planned : Planned arrow provided requested policy options plan) {mapping : FieldMapping}
    (member : mapping ∈ plan.mappings) {kind : CastKind} (cast : mapping.cast = some kind) {source target : Field}
    (at_source : provided.fields[mapping.sourceIndex]? = some source)
    (at_target : requested.fields[mapping.targetIndex]? = some target) {batch output : RecordBatch}
    (same : schemaFieldsEqual batch.schema provided = true) (run : plan.applyBatch arrow batch = .ok output) :
    ∃ column out, batch.columns[mapping.sourceIndex]? = some column ∧ column.dataType = source.dataType ∧
      classify column.dataType target.dataType = some kind ∧
      output.columns[mapping.targetIndex]? = some out ∧
      arrow.castWithOptions column target.dataType = .ok out := by
  obtain ⟨source', target', column, out, reads, at_i, computed⟩ := planned.mapped_column member same run
  cases at_target.symm.trans reads.at_target
  have typed := batch.column_type reads.at_source reads.at_column
  have described := congrArg (·[mapping.sourceIndex]?) (of_decide_eq_true same)
  simp only [schemaDescriptors, List.getElem?_map, at_source, reads.at_source, Option.map_some,
    Option.some.injEq] at described
  have typed := typed.trans (congrArg FieldDescriptor.dataType described)
  rcases (applyMapping_ok reads computed).2 with ⟨uncast, _⟩ | ⟨kind', cast', known, converted⟩
  · cases uncast.symm.trans cast
  · cases cast.symm.trans cast'
    exact ⟨column, out, reads.at_column, typed, known, at_i, converted⟩

/-- The column of a mapping that casts: each slot of its source converted. -/
theorem cast_computes (documented : arrow.Documented) (elementwise : arrow.Elementwise)
    (planned : Planned arrow provided requested policy options plan) {mapping : FieldMapping}
    (member : mapping ∈ plan.mappings) {kind : CastKind} (cast : mapping.cast = some kind) :
    ∃ slots nulls, Computes plan arrow provided mapping.targetIndex slots nulls := by
  obtain ⟨element, slotwise⟩ := elementwise
  obtain ⟨source, target, at_source, at_target, fits⟩ := planned.mapping_fields (decide_eq_true rfl) member
  have column {batch output : RecordBatch} (same : schemaFieldsEqual batch.schema provided = true)
      (run : plan.applyBatch arrow batch = .ok output) :=
    planned.cast_column member cast at_source at_target same run
  let convert (slot : Option Value) := (element source.dataType target.dataType slot).getD none
  have slots {batch output : RecordBatch} (same : schemaFieldsEqual batch.schema provided = true)
      (run : plan.applyBatch arrow batch = .ok output) :
      output.columnRows mapping.targetIndex = (batch.columnRows mapping.sourceIndex).map convert := by
    obtain ⟨column, out, at_column, typed, known, at_i, converted⟩ := column same run
    have each := (slotwise column target.dataType kind known).2 out converted
    rw [typed] at each
    rw [columnRows_eq at_i, columnRows_eq at_column]
    have unwrapped := congrArg (List.map (Option.getD · none)) each
    simpa [List.map_map, Function.comp_def] using unwrapped
  by_cases valued : source.dataType = .null
  · refine ⟨fun batch => (batch.columnRows mapping.sourceIndex).map convert,
      fun batch => batch.numRows * if target.dataType.hasValidity then 1 else 0, ?_, ?_, ?_⟩
    · intro batch output same run
      refine ⟨slots same run, ?_⟩
      obtain ⟨column, out, at_column, typed, _, at_i, converted⟩ := column same run
      cases (documented.cast_null (typed.trans valued)).symm.trans converted
      rw [columnNulls_eq at_i, documented.newNull_nullCount, batch.column_length at_column, mul_ite, Nat.mul_one,
        Nat.mul_zero]
    · intro parts whole concatenates
      rw [concatenates.columnRows, List.map_flatMap]
    · intro parts whole concatenates
      rw [concatenates.numRows, List.sum_map_mul_right]
  · refine ⟨fun batch => (batch.columnRows mapping.sourceIndex).map convert,
      fun batch => ((batch.columnRows mapping.sourceIndex).map convert).countP Option.isNone, ?_, ?_, ?_⟩
    · intro batch output same run
      refine ⟨slots same run, ?_⟩
      obtain ⟨column, out, _, typed, known, at_i, converted⟩ := column same run
      have target_plain := classify_target_plain known (typed ▸ valued)
      have out_plain : out.dataType.isPlain := by
        rw [(documented.cast_typed converted).1]
        exact target_plain
      rw [← slots same run, columnNulls_eq at_i, columnRows_eq at_i, ArrayRef.nullCount_of_plain out_plain]
    · intro parts whole concatenates
      rw [concatenates.columnRows, List.map_flatMap]
    · intro parts whole concatenates
      rw [concatenates.columnRows, List.map_flatMap, List.countP_flatMap]
      rfl

/-- The column of a mapping without a cast: its source. -/
theorem uncast_computes (planned : Planned arrow provided requested policy options plan)
    {mapping : FieldMapping} (member : mapping ∈ plan.mappings) (uncast : mapping.cast = none) :
    Computes plan arrow provided mapping.targetIndex (·.columnRows mapping.sourceIndex)
      (·.columnNulls mapping.sourceIndex) := by
  refine ⟨?_, fun concatenates => concatenates.columnRows _, fun concatenates => concatenates.columnNulls _⟩
  intro batch output same run
  obtain ⟨_, _, column, out, reads, at_i, computed⟩ := planned.mapped_column member same run
  rcases (applyMapping_ok reads computed).2 with ⟨_, _, rfl⟩ | ⟨_, cast, _⟩
  · exact ⟨(columnRows_eq at_i).trans (columnRows_eq reads.at_column).symm,
      (columnNulls_eq at_i).trans (columnNulls_eq reads.at_column).symm⟩
  · cases uncast.symm.trans cast

/-- Every output column is computed by slots. -/
theorem computes (documented : arrow.Documented) (elementwise : arrow.Elementwise)
    (planned : Planned arrow provided requested policy options plan) (i : Nat) :
    ∃ slots nulls, Computes plan arrow provided i slots nulls := by
  by_cases inside : i < plan.requestedSchema.fields.length
  · have covered := planned.covers.mem_iff.mpr (List.mem_range.mpr inside)
    rcases List.mem_append.mp covered with mapped | added
    · obtain ⟨mapping, member, rfl⟩ := List.mem_map.mp mapped
      cases cast : mapping.cast with
      | none => exact ⟨_, _, planned.uncast_computes member cast⟩
      | some kind => exact planned.cast_computes documented elementwise member cast
    · obtain ⟨addition, member, rfl⟩ := List.mem_map.mp added
      exact planned.addition_computes documented member
  · refine ⟨fun _ => [], fun _ => 0, ?_, by simp, by simp⟩
    intro batch output same run
    obtain ⟨columns, _, valid, rfl⟩ := (planned.applyBatch_ok same).mp run
    have outside : columns[i]? = none := by
      apply List.getElem?_eq_none
      rw [valid.width, ← planned.requestedSchema]
      omega
    simp [columnRows, columnNulls, outside]

/-- The results of the parts concatenate to the result of the whole. -/
theorem outputs_concatenate (documented : arrow.Documented) (elementwise : arrow.Elementwise)
    (planned : Planned arrow provided requested policy options plan)
    (same : schemaFieldsEqual whole.schema provided = true) (concatenates : Concatenates parts whole)
    {output : RecordBatch} (run : plan.applyBatch arrow whole = .ok output) {outputs : List RecordBatch}
    (runs : List.Forall₂ (fun part out => plan.applyBatch arrow part = .ok out) parts outputs) :
    Concatenates outputs output := by
  have shape {batch out : RecordBatch} (same : schemaFieldsEqual batch.schema provided = true)
      (run : plan.applyBatch arrow batch = .ok out) : out.schema = requested ∧ out.numRows = batch.numRows := by
    obtain ⟨columns, _, valid, rfl⟩ := (planned.applyBatch_ok same).mp run
    exact ⟨rfl, rfl⟩
  have part_same {part : RecordBatch} (member : part ∈ parts) : schemaFieldsEqual part.schema provided = true :=
    concatenates.schema part member ▸ same
  -- what every run gives of its part, all runs give of the parts
  have gathered {α : Type} (seen given : RecordBatch → α) (each : ∀ part out, part ∈ parts →
      plan.applyBatch arrow part = .ok out → seen out = given part) : outputs.map seen = parts.map given := by
    clear run concatenates part_same
    induction runs with
    | nil => rfl
    | @cons part out parts outputs first _ ih =>
      have later := ih fun part out member => each part out (List.mem_cons_of_mem _ member)
      rw [List.map_cons, List.map_cons, later, each part out List.mem_cons_self first]
  refine ⟨?_, ?_, ?_, ?_⟩
  · have schemas := gathered (·.schema) (fun _ => requested) fun part out member run =>
      (shape (part_same member) run).1
    intro out member
    have inside : out.schema ∈ outputs.map (·.schema) := List.mem_map_of_mem member
    rw [schemas] at inside
    obtain ⟨_, _, typed⟩ := List.mem_map.mp inside
    rw [← typed, (shape same run).1]
  · rw [(shape same run).2, concatenates.numRows, gathered (·.numRows) (·.numRows) fun part out member run =>
      (shape (part_same member) run).2]
  · intro i
    obtain ⟨slots, nulls, computes⟩ := planned.computes documented elementwise i
    have each := gathered (·.columnRows i) slots fun part out member run =>
      (computes.column (part_same member) run).1
    rw [(computes.column same run).1, computes.slots_parts concatenates, List.flatMap_def, List.flatMap_def, each]
  · intro i
    obtain ⟨slots, nulls, computes⟩ := planned.computes documented elementwise i
    rw [(computes.column same run).2, computes.nulls_parts concatenates,
      gathered (·.columnNulls i) nulls fun part out member run => (computes.column (part_same member) run).2]

end Plan.Planned

end FsspecData
