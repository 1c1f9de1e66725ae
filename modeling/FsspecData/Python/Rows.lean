import FsspecData.Python.Agreement
import FsspecData.Python.SlotCast

/-! What a plan does to a row. The Python run maps every row of a batch by one function of
the plan, which casts slot by slot. -/
namespace FsspecData.Python

open Plan CastRegistry

namespace RecordBatch

/-- The slots of a column, none where there is no such column. -/
def columnRows (batch : RecordBatch) (i : Nat) : List (Option Value) :=
  (batch.columns[i]?.map ArrayRef.rows).getD []

def rowList (batch : RecordBatch) : List (List (Option Value)) :=
  FsspecData.RecordBatch.transposed batch.columnRows batch.columns.length batch.numRows

end RecordBatch

namespace InterchangePlan

variable (plan : InterchangePlan) (slotCast : SlotCast)

/-- What the plan puts at an index, given a row of its source. -/
def cell (row : List (Option Value)) (i : Nat) : Option Value :=
  match plan.mappings.find? (·.targetIndex = i) with
  | some mapping =>
    let slot := row[mapping.sourceIndex]?.join
    match mapping.cast, plan.providedSchema.fields[mapping.sourceIndex]?, plan.requestedSchema.fields[i]? with
    | some _, some source, some target => (slotCast source.dataType target.dataType slot).join
    | _, _, _ => slot
  | none => ((plan.additions.find? (·.targetIndex = i)).bind (·.value.rows.head?)).join

/-- What the plan makes of a row. -/
def image (row : List (Option Value)) : List (Option Value) :=
  (List.range plan.requestedSchema.fields.length).map (plan.cell slotCast row)

end InterchangePlan

variable {arrow : Arrow} {pyarrow : Pyarrow} {slotCast : SlotCast} {provided requested : Schema}
  {policy : SchemaPolicy} {options : ProjectionOptions} {plan : FsspecData.InterchangePlan}

section Cells

variable (planned : Planned arrow provided requested policy options plan)

include planned

theorem cell_mapping {mapping : FsspecData.FieldMapping} (member : mapping ∈ plan.mappings) {source target : Field}
    (at_source : provided.fields[mapping.sourceIndex]? = some source)
    (at_target : requested.fields[mapping.targetIndex]? = some target) (row : List (Option Value)) :
    (InterchangePlan.ofRust plan).cell slotCast row mapping.targetIndex =
      if mapping.cast = none then row[mapping.sourceIndex]?.join
      else (slotCast source.dataType target.dataType row[mapping.sourceIndex]?.join).join := by
  have once := (planned.covers.nodup_iff.mpr List.nodup_range).of_append_left
  have found := Slots.find?_key once member
  rw [InterchangePlan.cell, InterchangePlan.ofRust, List.find?_map]
  simp only [Function.comp_def, found, Option.map_some, planned.providedSchema, planned.requestedSchema, at_source,
    at_target]
  cases mapping.cast <;> rfl

theorem cell_addition {addition : FsspecData.FieldAddition} (member : addition ∈ plan.additions)
    {value : Option Value} (single : addition.value.rows = [value]) (row : List (Option Value)) :
    (InterchangePlan.ofRust plan).cell slotCast row addition.targetIndex = value := by
  have distinct := planned.covers.nodup_iff.mpr List.nodup_range
  have found := Slots.find?_key distinct.of_append_right member
  have unmapped : plan.mappings.find? (fun mapping => mapping.targetIndex = addition.targetIndex) = none := by
    rw [List.find?_eq_none]
    intro mapping mapped same
    exact List.disjoint_of_nodup_append distinct (List.mem_map_of_mem mapped)
      (of_decide_eq_true same ▸ List.mem_map_of_mem member)
  rw [InterchangePlan.cell, InterchangePlan.ofRust, List.find?_map, List.find?_map]
  simp only [Function.comp_def, found, unmapped, Option.map_none, Option.map_some, Option.bind_some, single,
    List.head?_cons, Option.join_some]

end Cells

/-! One mapping, on an array. -/

section Mapping

/-- A mapping as the Python plan carries it. -/
abbrev pythonMapping (mapping : FsspecData.FieldMapping) : FieldMapping :=
  ⟨mapping.sourceIndex, mapping.targetIndex, mapping.cast.map CastKind.asStr, mapping.checkNulls⟩

/-- What a mapping makes of a slot. -/
def slotOf (slotCast : SlotCast) (mapping : FsspecData.FieldMapping) (source target : Field) (slot : Option Value) :
    Option (Option Value) :=
  if mapping.cast = none then some slot else slotCast source.dataType target.dataType slot

variable (documented : arrow.Documented) (follows : pyarrow.Documented arrow) (slotwise : pyarrow.Slotwise slotCast)
  (planned : Planned arrow provided requested policy options plan) {mapping : FsspecData.FieldMapping}
  {source target : Field} (at_target : requested.fields[mapping.targetIndex]? = some target)
  (fits : Fits policy (castLimit policy options target.name) (describe source) (describe target) mapping)
  {array : ArrayRef} (typed : array.dataType = source.dataType)

include planned at_target in
theorem applyMapping_eq :
    InterchangePlan.applyMapping pyarrow (.ofRust plan) array (pythonMapping mapping) =
      if mapping.checkNulls ∧ nullCount array ≠ 0 then .error (.containsNulls target.name)
      else
        match mapping.cast with
        | some kind => orPyarrow (pyarrow.cast array target.dataType (kind ≠ .lossy))
        | none => .ok array := by
  rw [← planned.requestedSchema] at at_target
  simp only [InterchangePlan.applyMapping, InterchangePlan.ofRust, at_target]
  cases mapping.cast with
  | none => rfl
  | some kind => cases kind <;> rfl

include slotwise planned at_target fits typed in
/-- A mapping fails on a null it has to check, or on a slot without a cast. -/
theorem applyMapping_iff :
    (∃ result, InterchangePlan.applyMapping pyarrow (.ofRust plan) array (pythonMapping mapping) = .ok result) ↔
      (mapping.checkNulls = true → nullCount array = 0) ∧
        ∀ slot ∈ array.rows, (slotOf slotCast mapping source target slot).isSome := by
  have known : mapping.cast = classify array.dataType target.dataType := typed ▸ fits.cast
  rw [applyMapping_eq planned at_target]
  by_cases sees : mapping.checkNulls = true ∧ nullCount array ≠ 0
  · rw [if_pos sees]
    exact iff_of_false (by simp) fun ⟨clean, _⟩ => sees.2 (clean sees.1)
  · have clean : mapping.checkNulls = true → nullCount array = 0 := by simpa using sees
    rw [if_neg sees, and_iff_right clean]
    cases cast : mapping.cast with
    | none => simp [slotOf, cast]
    | some kind =>
      have slots := slotwise.succeeds (known.symm.trans cast)
      simp only [slotOf, cast, reduceCtorEq, if_false, ← typed, ← slots]
      cases pyarrow.cast array target.dataType (kind ≠ .lossy) <;> simp [orPyarrow]

include documented follows slotwise planned at_target fits typed in
theorem applyMapping_values {result : ArrayRef}
    (computed : InterchangePlan.applyMapping pyarrow (.ofRust plan) array (pythonMapping mapping) = .ok result) :
    result.dataType = target.dataType ∧
      result.rows.map some = array.rows.map (slotOf slotCast mapping source target) := by
  have known : mapping.cast = classify array.dataType target.dataType := typed ▸ fits.cast
  rw [applyMapping_eq planned at_target] at computed
  split_ifs at computed
  cases cast : mapping.cast with
  | none =>
    simp only [cast, Except.ok.injEq] at computed
    subst computed
    exact ⟨typed.trans (fits.cast_none.mp cast), by simp [slotOf, cast]⟩
  | some kind =>
    simp only [cast] at computed
    have known := known.symm.trans cast
    cases converted : pyarrow.cast array target.dataType (kind ≠ .lossy) with
    | error error =>
      rw [converted] at computed
      cases computed
    | ok out =>
      rw [converted] at computed
      cases computed
      refine ⟨?_, ?_⟩
      · rcases cast_cases documented follows known with ⟨result', done, typed', -⟩ | ⟨_, _, error, fails⟩
        · cases done.symm.trans converted
          exact typed'
        · cases fails.symm.trans converted
      · have each : slotOf slotCast mapping source target = slotCast array.dataType target.dataType := by
          funext slot
          rw [slotOf, if_neg (by simp [cast]), typed]
        rw [each]
        exact slotwise.values known converted

end Mapping

/-! Rows across columns. -/

section Across

/-- The slots of some columns at a position. -/
def rowAt (columns : Nat → List (Option Value)) (width k : Nat) : List (Option Value) :=
  (List.range width).map fun i => (columns i)[k]?.join

variable (planned : Planned arrow provided requested policy options plan)
  {columns : Nat → List (Option Value)} {width count : Nat}

/-- A column holds the cells that the plan puts at its index. -/
def Images (plan : FsspecData.InterchangePlan) (slotCast : SlotCast) (columns : Nat → List (Option Value))
    (width count i : Nat) (out : List (Option Value)) : Prop :=
  ∀ k < count, out[k]?.join = (InterchangePlan.ofRust plan).cell slotCast (rowAt columns width k) i

include planned in
theorem mapping_images {mapping : FsspecData.FieldMapping} (member : mapping ∈ plan.mappings) {source target : Field}
    (at_source : provided.fields[mapping.sourceIndex]? = some source)
    (at_target : requested.fields[mapping.targetIndex]? = some target) (inside : mapping.sourceIndex < width)
    (long : (columns mapping.sourceIndex).length = count) {out : List (Option Value)}
    (values : out.map some = (columns mapping.sourceIndex).map (slotOf slotCast mapping source target)) :
    Images plan slotCast columns width count mapping.targetIndex out := by
  intro k counted
  have at_k : k < (columns mapping.sourceIndex).length := long ▸ counted
  have slots := congrArg (·[k]?) values
  simp only [List.getElem?_map, List.getElem?_eq_getElem at_k, Option.map_some] at slots
  obtain ⟨slot, at_slot, one⟩ := Option.map_eq_some_iff.mp slots
  have read : (rowAt columns width k)[mapping.sourceIndex]?.join = (columns mapping.sourceIndex)[k] := by
    rw [rowAt, List.getElem?_map, List.getElem?_range inside, Option.map_some, Option.join_some,
      List.getElem?_eq_getElem at_k, Option.join_some]
  rw [cell_mapping planned member at_source at_target, read, at_slot, Option.join_some]
  unfold slotOf at one
  split_ifs at one ⊢
  · exact Option.some.inj one
  · rw [← one, Option.join_some]

include planned in
theorem addition_images {addition : FsspecData.FieldAddition} (member : addition ∈ plan.additions)
    {value : Option Value} (single : addition.value.rows = [value]) :
    Images plan slotCast columns width count addition.targetIndex (List.replicate count value) := by
  intro k counted
  rw [cell_addition planned member single, List.getElem?_replicate_of_lt counted, Option.join_some]

include planned in
/-- Columns of images are the images of the rows. -/
theorem transposed_images {outs : Nat → List (Option Value)}
    (each : ∀ i < requested.fields.length, Images plan slotCast columns width count i (outs i)) :
    FsspecData.RecordBatch.transposed outs requested.fields.length count =
      (FsspecData.RecordBatch.transposed columns width count).map
        ((InterchangePlan.ofRust plan).image slotCast) := by
  have fields : (InterchangePlan.ofRust plan).requestedSchema = requested := planned.requestedSchema
  rw [FsspecData.RecordBatch.transposed, FsspecData.RecordBatch.transposed, List.map_map]
  apply List.map_congr_left
  intro k counted
  rw [Function.comp_apply, InterchangePlan.image, fields]
  apply List.map_congr_left
  intro i inside
  exact each i (List.mem_range.mp inside) k (List.mem_range.mp counted)

end Across

/-! The rows of a run. -/

section Batch

variable {data : RecordBatch} (documented : arrow.Documented) (follows : pyarrow.Documented arrow)
  (slotwise : pyarrow.Slotwise slotCast) (planned : Planned arrow provided requested policy options plan)
  (same : schemaFieldsEqual data.schema provided = true)

/-- Schemas with the same fields have the same types. -/
theorem field_of_same {left right : Schema} (same : schemaFieldsEqual left right = true) {i : Nat} {field : Field}
    (at_i : right.fields[i]? = some field) :
    ∃ other, left.fields[i]? = some other ∧ other.dataType = field.dataType := by
  have described := congrArg (·[i]?) (of_decide_eq_true same)
  simp only [schemaDescriptors, List.getElem?_map, at_i, Option.map_some] at described
  obtain ⟨other, at_other, one⟩ := Option.map_eq_some_iff.mp described
  exact ⟨other, at_other, congrArg FieldDescriptor.dataType one⟩

include same in
theorem data_column {i : Nat} {source : Field} (at_source : provided.fields[i]? = some source) :
    ∃ column, data.columns[i]? = some column ∧ column.dataType = source.dataType ∧
      column.length = data.numRows := by
  obtain ⟨field, at_field, typed⟩ := field_of_same same at_source
  obtain ⟨inside, _⟩ := List.getElem?_eq_some_iff.mp at_field
  obtain ⟨column, at_column⟩ : ∃ column, data.columns[i]? = some column :=
    ⟨_, List.getElem?_eq_getElem (data.valid.width ▸ inside)⟩
  have member : (field, column) ∈ data.schema.fields.zip data.columns :=
    List.mem_of_getElem? (List.getElem?_zip_eq_some.mpr ⟨at_field, at_column⟩)
  exact ⟨_, at_column, (data.valid.types _ member).trans typed, data.valid.lengths _ (List.mem_of_getElem? at_column)⟩

theorem runMapping_at {mapping : FsspecData.FieldMapping} {column : ArrayRef}
    (at_column : data.columns[mapping.sourceIndex]? = some column) :
    runMapping pyarrow plan data mapping =
      InterchangePlan.applyMapping pyarrow (.ofRust plan) column (pythonMapping mapping) := by
  rw [runMapping, at_column]
  rfl

include documented follows slotwise planned same in
/-- Every column of a run has the type of its field and the cells of its batch's rows. -/
theorem produced_images {columns : List ArrayRef} (produces : Produces pyarrow plan data columns) {i : Nat}
    {target : Field} {result : ArrayRef} (at_target : requested.fields[i]? = some target)
    (at_i : columns[i]? = some result) :
    (result.dataType = target.dataType ∧ result.length = data.numRows) ∧
      Images plan slotCast data.columnRows data.columns.length data.numRows i result.rows := by
  rcases produces.at_index planned.covers at_i with ⟨mapping, member, rfl, computed⟩ |
    ⟨addition, member, rfl, computed⟩
  · obtain ⟨source, target', at_source, at_target', fits⟩ := planned.mapping_fields (decide_eq_true rfl) member
    obtain rfl : target = target' := Option.some.inj (at_target.symm.trans at_target')
    obtain ⟨column, at_column, typed, length⟩ := data_column same at_source
    rw [runMapping_at at_column] at computed
    obtain ⟨kept, values⟩ := applyMapping_values documented follows slotwise planned at_target fits typed computed
    have read : data.columnRows mapping.sourceIndex = column.rows := by
      rw [RecordBatch.columnRows, at_column, Option.map_some, Option.getD_some]
    have long : result.rows.length = column.rows.length := by simpa using congrArg List.length values
    refine ⟨⟨kept, long.trans length⟩, ?_⟩
    exact mapping_images planned member at_source at_target (List.getElem?_eq_some_iff.mp at_column).1
      (read ▸ length) (read.symm ▸ values)
  · obtain ⟨result', value, done, typed, single, copies⟩ := runAddition_ok documented follows planned data
      ⟨member, planned.requestedSchema.symm ▸ at_target⟩
    cases done.symm.trans computed
    refine ⟨⟨typed, by simp [ArrayRef.length, copies]⟩, ?_⟩
    rw [copies]
    exact addition_images planned member single

include documented follows slotwise planned same in
theorem produced_output {columns : List ArrayRef} (produces : Produces pyarrow plan data columns) :
    ∃ output, InterchangePlan.fromColumns pyarrow columns requested = .ok output ∧ output.schema = requested ∧
      output.columns = columns ∧ output.numRows = if requested.fields = [] then 0 else data.numRows :=
  fromColumns_ok (planned.requestedSchema ▸ produces.width) fun _ _ _ at_field at_column =>
    (produced_images documented follows slotwise planned same produces at_field at_column).1

include documented follows slotwise planned same in
/-- A run succeeds exactly when each of its mappings does. -/
theorem applyBatch_iff :
    (∃ output, InterchangePlan.applyBatch pyarrow (.ofRust plan) data = .ok output) ↔
      ∀ mapping ∈ plan.mappings, ∃ result, runMapping pyarrow plan data mapping = .ok result := by
  rcases applyBatch_cases planned (follows.schema_equals same) with ⟨columns, produces, run⟩ | ⟨error, run, fails⟩
  · obtain ⟨output, made, -⟩ := produced_output documented follows slotwise planned same produces
    refine iff_of_true ⟨output, run.trans made⟩ fun mapping member => ?_
    obtain ⟨result, -, computed⟩ := produces.first mapping member
    exact ⟨result, computed⟩
  · refine iff_of_false (fun ⟨output, done⟩ => by cases run.symm.trans done) fun all => ?_
    rcases fails with ⟨mapping, member, fails⟩ | ⟨addition, member, fails⟩
    · obtain ⟨result, computed⟩ := all mapping member
      cases fails.symm.trans computed
    · obtain ⟨target, -, at_target, -⟩ := planned.addition_facts documented member
      obtain ⟨result, value, done, -⟩ := runAddition_ok documented follows planned data
        ⟨member, planned.requestedSchema.symm ▸ at_target⟩
      cases fails.symm.trans done

include documented follows slotwise planned same in
/-- The rows of a run that succeeds are the images of its batch's rows. A batch without
columns has no rows in Python. -/
theorem applyBatch_rows {output : RecordBatch}
    (run : InterchangePlan.applyBatch pyarrow (.ofRust plan) data = .ok output) :
    output.rowList = if requested.fields = [] then []
      else data.rowList.map ((InterchangePlan.ofRust plan).image slotCast) := by
  rcases applyBatch_cases planned (follows.schema_equals same) with ⟨columns, produces, run'⟩ | ⟨error, run', -⟩
  · obtain ⟨made, done, -, kept, rows⟩ := produced_output documented follows slotwise planned same produces
    cases run.symm.trans (run'.trans done)
    have width : columns.length = requested.fields.length := planned.requestedSchema ▸ produces.width
    rw [RecordBatch.rowList, rows, kept, width]
    split_ifs with empty
    · rfl
    · apply transposed_images planned
      intro i inside
      have at_i := List.getElem?_eq_getElem (inside.trans_eq width.symm)
      have read : output.columnRows i = columns[i].rows := by
        rw [RecordBatch.columnRows, kept, at_i, Option.map_some, Option.getD_some]
      rw [read]
      exact (produced_images documented follows slotwise planned same produces (List.getElem?_eq_getElem inside)
        at_i).2
  · cases run.symm.trans run'

include documented follows slotwise planned in
/-- The rows of runs on batches one after the other. -/
theorem outputs_rows {parts outputs : List RecordBatch}
    (own : ∀ part ∈ parts, schemaFieldsEqual part.schema provided = true)
    (runs : List.Forall₂ (fun part output => InterchangePlan.applyBatch pyarrow (.ofRust plan) part = .ok output)
      parts outputs) :
    outputs.flatMap (·.rowList) = if requested.fields = [] then []
      else (parts.flatMap (·.rowList)).map ((InterchangePlan.ofRust plan).image slotCast) := by
  induction runs with
  | nil => split_ifs <;> rfl
  | cons run _ ih =>
    rw [List.forall_mem_cons] at own
    have first := applyBatch_rows documented follows slotwise planned own.1 run
    rw [List.flatMap_cons, List.flatMap_cons, List.map_append, first, ih own.2]
    split_ifs <;> rfl

end Batch

end FsspecData.Python
