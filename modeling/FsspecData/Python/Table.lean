import FsspecData.Python.Rows

/-! A plan applied to a table. The columns of a table come in chunks, which need not break
where the batches of its rows do. -/
namespace FsspecData.Python

open Plan CastRegistry Fallible

/-- A column in chunks. -/
structure ChunkedArray where
  dataType : DataType
  chunks : List ArrayRef

namespace ChunkedArray

def ofArray (array : ArrayRef) : ChunkedArray := ⟨array.dataType, [array]⟩

def length (column : ChunkedArray) : Nat := (column.chunks.map ArrayRef.length).sum

def rows (column : ChunkedArray) : List (Option Value) := column.chunks.flatMap ArrayRef.rows

def nullCount (column : ChunkedArray) : Nat := (column.chunks.map Python.nullCount).sum

/-- A cast goes chunk by chunk. -/
def cast (pyarrow : Pyarrow) (column : ChunkedArray) (type : DataType) (safe : Bool) :
    Except ArrowError ChunkedArray := do
  let chunks ← column.chunks.mapM (pyarrow.cast · type safe)
  .ok ⟨type, chunks⟩

theorem length_rows (column : ChunkedArray) : column.rows.length = column.length := List.length_flatMap

/-- Chunks of the type of the column. -/
def Typed (column : ChunkedArray) (type : DataType) : Prop :=
  column.dataType = type ∧ ∀ chunk ∈ column.chunks, chunk.dataType = type

instance (column : ChunkedArray) (type : DataType) : Decidable (column.Typed type) :=
  inferInstanceAs (Decidable (_ ∧ _))

end ChunkedArray

/-- What a table is validated for. -/
structure Table.Accepts (schema : Schema) (columns : List ChunkedArray) (numRows : Nat) : Prop where
  width : columns.length = schema.fields.length
  types : ∀ entry ∈ schema.fields.zip columns, entry.2.Typed entry.1.dataType
  lengths : ∀ column ∈ columns, column.length = numRows

instance (schema : Schema) (columns : List ChunkedArray) (numRows : Nat) :
    Decidable (Table.Accepts schema columns numRows) :=
  decidable_of_iff (columns.length = schema.fields.length ∧
    (∀ entry ∈ schema.fields.zip columns, entry.2.Typed entry.1.dataType) ∧
    ∀ column ∈ columns, column.length = numRows)
    ⟨fun ⟨a, b, c⟩ => ⟨a, b, c⟩, fun ⟨a, b, c⟩ => ⟨a, b, c⟩⟩

structure Table where
  schema : Schema
  columns : List ChunkedArray
  numRows : Nat
  valid : Table.Accepts schema columns numRows

namespace Table

def columnRows (table : Table) (i : Nat) : List (Option Value) :=
  (table.columns[i]?.map ChunkedArray.rows).getD []

def columnNulls (table : Table) (i : Nat) : Nat := (table.columns[i]?.map ChunkedArray.nullCount).getD 0

def rowList (table : Table) : List (List (Option Value)) :=
  FsspecData.RecordBatch.transposed table.columnRows table.columns.length table.numRows

end Table

namespace InterchangePlan

/-- `_apply_mapping` on a chunked column. -/
def applyMappingChunked (pyarrow : Pyarrow) (plan : InterchangePlan) (array : ChunkedArray)
    (mapping : FieldMapping) : Except PyError ChunkedArray := do
  let field ← orFail .index plan.requestedSchema.fields[mapping.targetIndex]?
  if mapping.checkNulls ∧ array.nullCount ≠ 0 then .error (.containsNulls field.name)
  else
    match mapping.cast with
    | some cast => orPyarrow (array.cast pyarrow field.dataType (cast ≠ "lossy"))
    | none => .ok array

/-- `_arrays` on a table. A repeated value is an array, of which the table makes one chunk. -/
def tableArrays (pyarrow : Pyarrow) (plan : InterchangePlan) (data : Table) :
    Except PyError (List (Option ChunkedArray)) := do
  let arrays ← plan.mappings.foldlM
    (fun arrays mapping => do
      Slots.write .index arrays mapping.targetIndex
        (← do applyMappingChunked pyarrow plan (← orFail .index data.columns[mapping.sourceIndex]?) mapping))
    (List.replicate plan.requestedSchema.fields.length none)
  plan.additions.foldlM
    (fun arrays addition => do
      Slots.write .index arrays addition.targetIndex
        (← do .ok (.ofArray (← orPyarrow (pyarrow.repeated addition.value data.numRows)))))
    arrays

def asarrayChunked (pyarrow : Pyarrow) (array : ChunkedArray) (type : DataType) : Except PyError ChunkedArray :=
  if array.dataType = type then .ok array else orPyarrow (array.cast pyarrow type true)

/-- The row count is the length of the first column, and zero without one. -/
def tableFromColumns (pyarrow : Pyarrow) (arrays : List ChunkedArray) (schema : Schema) : Except PyError Table :=
  if arrays.length ≠ schema.fields.length then .error (.arity schema.fields.length arrays.length)
  else do
    let columns ← (schema.fields.zip arrays).mapM fun (field, array) =>
      asarrayChunked pyarrow array field.dataType
    let numRows := (columns.head?.map ChunkedArray.length).getD 0
    if valid : Table.Accepts schema columns numRows then .ok ⟨schema, columns, numRows, valid⟩
    else .error .length

/-- `Table.from_arrays`. -/
def tableFromArrays (pyarrow : Pyarrow) (arrays : List (Option ChunkedArray)) (schema : Schema) :
    Except PyError Table := do
  tableFromColumns pyarrow (← arrays.mapM (orFail .notAnArray)) schema

def applyTable (pyarrow : Pyarrow) (plan : InterchangePlan) (table : Table) : Except PyError Table := do
  plan.validateInputSchema pyarrow table.schema
  tableFromArrays pyarrow (← plan.tableArrays pyarrow table) plan.requestedSchema

end InterchangePlan

variable {arrow : Arrow} {pyarrow : Pyarrow} {slotCast : SlotCast} {provided requested : Schema}
  {policy : SchemaPolicy} {options : ProjectionOptions} {plan : FsspecData.InterchangePlan}

/-! One mapping, on a chunked column. -/

section Mapping

variable (documented : arrow.Documented) (follows : pyarrow.Documented arrow) (slotwise : pyarrow.Slotwise slotCast)
  (planned : Planned arrow provided requested policy options plan) {mapping : FsspecData.FieldMapping}
  {source target : Field} (at_target : requested.fields[mapping.targetIndex]? = some target)
  (fits : Fits policy (castLimit policy options target.name) (describe source) (describe target) mapping)
  {array : ChunkedArray} (typed : array.Typed source.dataType)

include planned at_target in
theorem applyMappingChunked_eq :
    InterchangePlan.applyMappingChunked pyarrow (.ofRust plan) array (pythonMapping mapping) =
      if mapping.checkNulls ∧ array.nullCount ≠ 0 then .error (.containsNulls target.name)
      else
        match mapping.cast with
        | some kind => orPyarrow (array.cast pyarrow target.dataType (kind ≠ .lossy))
        | none => .ok array := by
  rw [← planned.requestedSchema] at at_target
  simp only [InterchangePlan.applyMappingChunked, InterchangePlan.ofRust, at_target]
  cases mapping.cast with
  | none => rfl
  | some kind => cases kind <;> rfl

include slotwise in
theorem cast_iff {column : ChunkedArray} {kind : CastKind} (typed : column.Typed source.dataType)
    (known : classify source.dataType target.dataType = some kind) :
    (∃ out, column.cast pyarrow target.dataType (kind ≠ .lossy) = .ok out) ↔
      ∀ slot ∈ column.rows, (slotCast source.dataType target.dataType slot).isSome := by
  have chunkwise : (∃ out, column.cast pyarrow target.dataType (kind ≠ .lossy) = .ok out) ↔
      ∃ chunks, column.chunks.mapM (pyarrow.cast · target.dataType (kind ≠ .lossy)) = .ok chunks := by
    simp only [ChunkedArray.cast, bind_eq_ok, Except.ok.injEq]
    exact ⟨fun ⟨_, chunks, done, _⟩ => ⟨chunks, done⟩, fun ⟨chunks, done⟩ => ⟨_, chunks, done, rfl⟩⟩
  have each (chunk : ArrayRef) (member : chunk ∈ column.chunks) :=
    slotwise.succeeds ((typed.2 chunk member).symm ▸ known)
  rw [chunkwise, mapM_exists]
  constructor
  · intro all slot member
    obtain ⟨chunk, inside, member⟩ := List.mem_flatMap.mp member
    have casts := (each chunk inside).mp (all chunk inside) slot member
    rwa [typed.2 chunk inside] at casts
  · intro all chunk inside
    apply (each chunk inside).mpr
    intro slot member
    rw [typed.2 chunk inside]
    exact all slot (List.mem_flatMap.mpr ⟨chunk, inside, member⟩)

include documented follows slotwise in
theorem cast_values {column out : ChunkedArray} {kind : CastKind}
    (typed : column.Typed source.dataType) (known : classify source.dataType target.dataType = some kind)
    (done : column.cast pyarrow target.dataType (kind ≠ .lossy) = .ok out) :
    out.Typed target.dataType ∧ out.rows.map some = column.rows.map (slotCast source.dataType target.dataType) := by
  obtain ⟨chunks, converted, same⟩ := bind_eq_ok.mp done
  cases same
  have each := mapM_eq_ok.mp converted
  have one {chunk result : ArrayRef} (inside : chunk ∈ column.chunks)
      (cast : pyarrow.cast chunk target.dataType (kind ≠ .lossy) = .ok result) :
      result.dataType = target.dataType ∧
        result.rows.map some = chunk.rows.map (slotCast source.dataType target.dataType) := by
    have known : classify chunk.dataType target.dataType = some kind := (typed.2 chunk inside).symm ▸ known
    refine ⟨?_, (slotwise.values known cast).trans (by rw [typed.2 chunk inside])⟩
    rcases cast_cases documented follows known with ⟨result', cast', typed', -⟩ | ⟨_, _, error, fails⟩
    · cases cast'.symm.trans cast
      exact typed'
    · cases fails.symm.trans cast
  clear typed done converted
  simp only [ChunkedArray.Typed, true_and, ChunkedArray.rows]
  generalize column.chunks = sources at each one
  induction each with
  | nil => simp
  | cons first _ ih =>
    obtain ⟨typed, values⟩ := one List.mem_cons_self first
    obtain ⟨others, rest⟩ := ih fun inside => one (List.mem_cons_of_mem _ inside)
    refine ⟨List.forall_mem_cons.mpr ⟨typed, others⟩, ?_⟩
    rw [List.flatMap_cons, List.flatMap_cons, List.map_append, List.map_append, values, rest]

include slotwise planned at_target fits typed in
/-- A mapping fails on a null that it has to check, in whichever chunk, or on a slot without a cast. -/
theorem applyMappingChunked_iff :
    (∃ result, InterchangePlan.applyMappingChunked pyarrow (.ofRust plan) array (pythonMapping mapping) =
        .ok result) ↔
      (mapping.checkNulls = true → array.nullCount = 0) ∧
        ∀ slot ∈ array.rows, (slotOf slotCast mapping source target slot).isSome := by
  rw [applyMappingChunked_eq planned at_target]
  by_cases sees : mapping.checkNulls = true ∧ array.nullCount ≠ 0
  · rw [if_pos sees]
    exact iff_of_false (by simp) fun ⟨clean, _⟩ => sees.2 (clean sees.1)
  · have clean : mapping.checkNulls = true → array.nullCount = 0 := by simpa using sees
    rw [if_neg sees, and_iff_right clean]
    cases cast : mapping.cast with
    | none => simp [slotOf, cast]
    | some kind =>
      have known : classify source.dataType target.dataType = some kind := fits.cast.symm.trans cast
      have slots := cast_iff slotwise typed known
      simp only [slotOf, cast, reduceCtorEq, if_false]
      rw [← slots]
      cases array.cast pyarrow target.dataType (kind ≠ .lossy) <;> simp [orPyarrow]

include documented follows slotwise planned at_target fits typed in
theorem applyMappingChunked_values {result : ChunkedArray}
    (computed : InterchangePlan.applyMappingChunked pyarrow (.ofRust plan) array (pythonMapping mapping) =
      .ok result) :
    result.Typed target.dataType ∧ result.rows.map some = array.rows.map (slotOf slotCast mapping source target) := by
  rw [applyMappingChunked_eq planned at_target] at computed
  split_ifs at computed
  cases cast : mapping.cast with
  | none =>
    simp only [cast, Except.ok.injEq] at computed
    subst computed
    have same : source.dataType = target.dataType := fits.cast_none.mp cast
    exact ⟨same ▸ typed, by simp [slotOf, cast]⟩
  | some kind =>
    simp only [cast] at computed
    have known : classify source.dataType target.dataType = some kind := fits.cast.symm.trans cast
    have each : slotOf slotCast mapping source target = slotCast source.dataType target.dataType := by
      funext slot
      rw [slotOf, if_neg (by simp [cast])]
    cases converted : array.cast pyarrow target.dataType (kind ≠ .lossy) with
    | error error =>
      rw [converted] at computed
      cases computed
    | ok out =>
      rw [converted] at computed
      cases computed
      rw [each]
      exact cast_values documented follows slotwise typed known converted

end Mapping

/-! A run on a table. -/

/-- One mapping of the plan, run on a table. -/
def runMappingChunked (pyarrow : Pyarrow) (plan : FsspecData.InterchangePlan) (data : Table)
    (mapping : FsspecData.FieldMapping) : Except PyError ChunkedArray := do
  InterchangePlan.applyMappingChunked pyarrow (.ofRust plan)
    (← orFail .index data.columns[mapping.sourceIndex]?) (pythonMapping mapping)

def runAdditionChunked (pyarrow : Pyarrow) (data : Table) (addition : FsspecData.FieldAddition) :
    Except PyError ChunkedArray := do
  .ok (.ofArray (← orPyarrow (pyarrow.repeated addition.value data.numRows)))

section Run

variable {data : Table} (documented : arrow.Documented) (follows : pyarrow.Documented arrow)
  (slotwise : pyarrow.Slotwise slotCast) (planned : Planned arrow provided requested policy options plan)
  (same : schemaFieldsEqual data.schema provided = true)

/-- The columns a run on a table computes. -/
abbrev TableProduces (pyarrow : Pyarrow) (plan : FsspecData.InterchangePlan) (data : Table)
    (columns : List ChunkedArray) : Prop :=
  Slots.Filled plan.requestedSchema.fields.length (runMappingChunked pyarrow plan data) (·.targetIndex)
    (runAdditionChunked pyarrow data) (·.targetIndex) plan.mappings plan.additions columns

include follows planned same in
theorem applyTable_cases :
    (∃ columns, TableProduces pyarrow plan data columns ∧ InterchangePlan.applyTable pyarrow (.ofRust plan) data =
        InterchangePlan.tableFromColumns pyarrow columns requested) ∨
    ∃ error, InterchangePlan.applyTable pyarrow (.ofRust plan) data = .error error ∧
      ((∃ mapping ∈ plan.mappings, runMappingChunked pyarrow plan data mapping = .error error) ∨
        ∃ addition ∈ plan.additions, runAdditionChunked pyarrow data addition = .error error) := by
  have run : InterchangePlan.applyTable pyarrow (.ofRust plan) data = (do
      let arrays ← Slots.assemble .index .notAnArray plan.requestedSchema.fields.length
        (runMappingChunked pyarrow plan data) (·.targetIndex) (runAdditionChunked pyarrow data) (·.targetIndex)
        plan.mappings plan.additions
      InterchangePlan.tableFromColumns pyarrow arrays requested) := by
    have valid : InterchangePlan.validateInputSchema pyarrow (.ofRust plan) data.schema = .ok () := by
      rw [InterchangePlan.validateInputSchema, InterchangePlan.ofRust, planned.providedSchema,
        follows.schema_equals same]
      rfl
    rw [InterchangePlan.applyTable, valid, InterchangePlan.tableArrays, Slots.assemble]
    simp only [InterchangePlan.tableFromArrays, InterchangePlan.ofRust, runMappingChunked, runAdditionChunked,
      bind_assoc, List.foldlM_map, planned.requestedSchema]
    rfl
  rcases Slots.assemble_cases .index .notAnArray (runMappingChunked pyarrow plan data)
    (runAdditionChunked pyarrow data) planned.covers with ⟨columns, filled, done⟩ | ⟨error, failed, cause⟩
  · exact .inl ⟨columns, filled, by rw [run, done]; rfl⟩
  · exact .inr ⟨error, by rw [run, failed]; rfl, cause⟩

variable (data) in
include documented follows planned in
/-- An addition always succeeds, with one chunk of its value in every row. -/
theorem runAdditionChunked_ok {addition : FsspecData.FieldAddition} {target : Field}
    (adds : plan.Adds addition target) :
    ∃ result value, runAdditionChunked pyarrow data addition = .ok result ∧ result.Typed target.dataType ∧
      addition.value.rows = [value] ∧ result.rows = List.replicate data.numRows value := by
  obtain ⟨typed, value, single⟩ := planned.added_value documented adds
  obtain ⟨out, done, kept, rows⟩ := follows.repeated_rows (n := data.numRows) single
  have typed := kept.trans typed
  exact ⟨.ofArray out, value, by rw [runAdditionChunked, done]; rfl,
    ⟨typed, by simpa [ChunkedArray.ofArray] using typed⟩, single,
      by simp [ChunkedArray.rows, ChunkedArray.ofArray, rows]⟩

include same in
theorem table_column {i : Nat} {source : Field} (at_source : provided.fields[i]? = some source) :
    ∃ column, data.columns[i]? = some column ∧ column.Typed source.dataType ∧ column.length = data.numRows := by
  obtain ⟨field, at_field, typed⟩ := field_of_same same at_source
  obtain ⟨inside, _⟩ := List.getElem?_eq_some_iff.mp at_field
  obtain ⟨column, at_column⟩ : ∃ column, data.columns[i]? = some column :=
    ⟨_, List.getElem?_eq_getElem (data.valid.width ▸ inside)⟩
  have member : (field, column) ∈ data.schema.fields.zip data.columns :=
    List.mem_of_getElem? (List.getElem?_zip_eq_some.mpr ⟨at_field, at_column⟩)
  exact ⟨_, at_column, typed ▸ data.valid.types _ member, data.valid.lengths _ (List.mem_of_getElem? at_column)⟩

theorem runMappingChunked_at {mapping : FsspecData.FieldMapping} {column : ChunkedArray}
    (at_column : data.columns[mapping.sourceIndex]? = some column) :
    runMappingChunked pyarrow plan data mapping =
      InterchangePlan.applyMappingChunked pyarrow (.ofRust plan) column (pythonMapping mapping) := by
  rw [runMappingChunked, at_column]
  rfl

theorem Table.columnRows_eq {i : Nat} {column : ChunkedArray} (at_i : data.columns[i]? = some column) :
    data.columnRows i = column.rows := by
  rw [Table.columnRows, at_i, Option.map_some, Option.getD_some]

include documented follows slotwise planned same in
/-- Every column of a run has the type of its field and the cells of its table's rows. -/
theorem produced_table {columns : List ChunkedArray} (produces : TableProduces pyarrow plan data columns) {i : Nat}
    {target : Field} {result : ChunkedArray} (at_target : requested.fields[i]? = some target)
    (at_i : columns[i]? = some result) :
    (result.Typed target.dataType ∧ result.length = data.numRows) ∧
      Images plan slotCast data.columnRows data.columns.length data.numRows i result.rows := by
  rcases produces.at_index planned.covers at_i with ⟨mapping, member, rfl, computed⟩ |
    ⟨addition, member, rfl, computed⟩
  · obtain ⟨source, target', at_source, at_target', fits⟩ := planned.mapping_fields (decide_eq_true rfl) member
    obtain rfl : target = target' := Option.some.inj (at_target.symm.trans at_target')
    obtain ⟨column, at_column, typed, length⟩ := table_column same at_source
    rw [runMappingChunked_at at_column] at computed
    obtain ⟨kept, values⟩ :=
      applyMappingChunked_values documented follows slotwise planned at_target fits typed computed
    have read := Table.columnRows_eq at_column
    have long : result.rows.length = column.rows.length := by simpa using congrArg List.length values
    rw [ChunkedArray.length_rows, ChunkedArray.length_rows] at long
    refine ⟨⟨kept, long.trans length⟩, ?_⟩
    exact mapping_images planned member at_source at_target (List.getElem?_eq_some_iff.mp at_column).1
      (read ▸ column.length_rows.trans length) (read.symm ▸ values)
  · obtain ⟨result', value, done, typed, single, copies⟩ := runAdditionChunked_ok data documented follows planned
      ⟨member, planned.requestedSchema.symm ▸ at_target⟩
    cases done.symm.trans computed
    refine ⟨⟨typed, by rw [← ChunkedArray.length_rows, copies, List.length_replicate]⟩, ?_⟩
    rw [copies]
    exact addition_images planned member single

/-- Columns with the types of their fields and of one length become a table. -/
theorem tableFromColumns_ok {columns : List ChunkedArray} {schema : Schema} {n : Nat}
    (width : columns.length = schema.fields.length)
    (typed : ∀ (i : Nat) (field : Field) (column : ChunkedArray), schema.fields[i]? = some field →
      columns[i]? = some column → column.Typed field.dataType ∧ column.length = n) :
    ∃ output, InterchangePlan.tableFromColumns pyarrow columns schema = .ok output ∧
      output.schema = schema ∧ output.columns = columns ∧
      output.numRows = if schema.fields = [] then 0 else n := by
  have entry (field : Field) (column : ChunkedArray) (member : (field, column) ∈ schema.fields.zip columns) :
      column.Typed field.dataType ∧ column.length = n := by
    obtain ⟨i, at_i⟩ := List.getElem?_of_mem member
    obtain ⟨at_field, at_column⟩ := List.getElem?_zip_eq_some.mp at_i
    exact typed i field column at_field at_column
  have lengths : ∀ column ∈ columns, column.length = n := by
    intro column member
    obtain ⟨i, at_column⟩ := List.getElem?_of_mem member
    obtain ⟨inside, _⟩ := List.getElem?_eq_some_iff.mp at_column
    exact (typed i _ column (List.getElem?_eq_getElem (width ▸ inside)) at_column).2
  have kept : ((schema.fields.zip columns).mapM fun entry =>
      InterchangePlan.asarrayChunked pyarrow entry.2 entry.1.dataType) = .ok columns := by
    have pairs : List.Forall₂ (fun (entry : Field × ChunkedArray) column =>
        InterchangePlan.asarrayChunked pyarrow entry.2 entry.1.dataType = .ok column)
        (schema.fields.zip columns) ((schema.fields.zip columns).map Prod.snd) :=
      List.forall₂_map_right_iff.mpr (List.forall₂_same.mpr fun ⟨field, column⟩ member =>
        if_pos (entry field column member).1.1)
    rw [List.map_snd_zip (by omega)] at pairs
    exact mapM_eq_ok.mpr pairs
  have head : (columns.head?.map ChunkedArray.length).getD 0 = if schema.fields = [] then 0 else n := by
    cases columns with
    | nil => simp [List.length_eq_zero_iff.mp width.symm]
    | cons column rest =>
      have filled : schema.fields ≠ [] := by
        intro empty
        simp [empty] at width
      simp [filled, lengths column List.mem_cons_self]
  have valid : Table.Accepts schema columns ((columns.head?.map ChunkedArray.length).getD 0) := by
    refine ⟨width, fun ⟨field, column⟩ member => (entry field column member).1, ?_⟩
    intro column member
    obtain ⟨first, rest, rfl⟩ := List.exists_cons_of_ne_nil (List.ne_nil_of_mem member)
    rw [lengths column member]
    simp [lengths first List.mem_cons_self]
  refine ⟨⟨schema, columns, _, valid⟩, ?_, rfl, rfl, head⟩
  rw [InterchangePlan.tableFromColumns, if_neg (not_not.mpr width), kept]
  exact dif_pos valid

include documented follows slotwise planned same in
theorem produced_table_output {columns : List ChunkedArray} (produces : TableProduces pyarrow plan data columns) :
    ∃ output, InterchangePlan.tableFromColumns pyarrow columns requested = .ok output ∧ output.schema = requested ∧
      output.columns = columns ∧ output.numRows = if requested.fields = [] then 0 else data.numRows :=
  tableFromColumns_ok (planned.requestedSchema ▸ produces.width) fun _ _ _ at_field at_column =>
    (produced_table documented follows slotwise planned same produces at_field at_column).1

include documented follows slotwise planned same in
theorem applyTable_iff :
    (∃ output, InterchangePlan.applyTable pyarrow (.ofRust plan) data = .ok output) ↔
      ∀ mapping ∈ plan.mappings, ∃ result, runMappingChunked pyarrow plan data mapping = .ok result := by
  rcases applyTable_cases follows planned same with ⟨columns, produces, run⟩ | ⟨error, run, fails⟩
  · obtain ⟨output, made, -⟩ := produced_table_output documented follows slotwise planned same produces
    refine iff_of_true ⟨output, run.trans made⟩ fun mapping member => ?_
    obtain ⟨result, -, computed⟩ := produces.first mapping member
    exact ⟨result, computed⟩
  · refine iff_of_false (fun ⟨output, done⟩ => by cases run.symm.trans done) fun all => ?_
    rcases fails with ⟨mapping, member, fails⟩ | ⟨addition, member, fails⟩
    · obtain ⟨result, computed⟩ := all mapping member
      cases fails.symm.trans computed
    · obtain ⟨target, -, at_target, -⟩ := planned.addition_facts documented member
      obtain ⟨result, value, done, -⟩ := runAdditionChunked_ok data documented follows planned
        ⟨member, planned.requestedSchema.symm ▸ at_target⟩
      cases fails.symm.trans done

include documented follows slotwise planned same in
/-- The rows of a table that a run returns are the images of the rows of its table. -/
theorem applyTable_rows {output : Table} (run : InterchangePlan.applyTable pyarrow (.ofRust plan) data = .ok output) :
    output.schema = requested ∧ output.rowList = if requested.fields = [] then []
      else data.rowList.map ((InterchangePlan.ofRust plan).image slotCast) := by
  rcases applyTable_cases follows planned same with ⟨columns, produces, run'⟩ | ⟨error, run', -⟩
  · obtain ⟨made, done, schema, kept, rows⟩ :=
      produced_table_output documented follows slotwise planned same produces
    cases run.symm.trans (run'.trans done)
    have width : columns.length = requested.fields.length := planned.requestedSchema ▸ produces.width
    refine ⟨schema, ?_⟩
    rw [Table.rowList, rows, kept, width]
    split_ifs with empty
    · rfl
    · apply transposed_images planned
      intro i inside
      have at_i := List.getElem?_eq_getElem (inside.trans_eq width.symm)
      have at_out : output.columns[i]? = some columns[i] := (congrArg (·[i]?) kept).trans at_i
      rw [Table.columnRows_eq at_out]
      exact (produced_table documented follows slotwise planned same produces (List.getElem?_eq_getElem inside)
        at_i).2
  · cases run.symm.trans run'

end Run

/-! A table and the batches of its rows. -/

section Batches

/-- Batches of the schema of a table, with its rows in order: its slots and its nulls
column by column, wherever the chunks break. -/
structure Table.Concatenates (parts : List RecordBatch) (table : Table) : Prop where
  schema : ∀ part ∈ parts, part.schema = table.schema
  numRows : table.numRows = (parts.map (·.numRows)).sum
  columnRows : ∀ i, table.columnRows i = parts.flatMap (·.columnRows i)
  columnNulls : ∀ i, table.columnNulls i = (parts.map fun part => (part.columns[i]?.map nullCount).getD 0).sum

/-- The chunk that each batch has at an index. -/
def chunksAt (batches : List RecordBatch) (i : Nat) : List ArrayRef := batches.filterMap (·.columns[i]?)

theorem chunksAt_cons {batch : RecordBatch} {i : Nat} {column : ArrayRef} (at_column : batch.columns[i]? = some column)
    (rest : List RecordBatch) : chunksAt (batch :: rest) i = column :: chunksAt rest i := by
  simp [chunksAt, at_column]

section Chunks

variable {schema : Schema} {batches : List RecordBatch} (same : ∀ batch ∈ batches, batch.schema = schema) {i : Nat}
  {field : Field} (at_i : schema.fields[i]? = some field)

include same at_i in
theorem column_exists {batch : RecordBatch} (member : batch ∈ batches) :
    ∃ column, batch.columns[i]? = some column ∧ column.dataType = field.dataType ∧ column.length = batch.numRows :=
  data_column (same batch member ▸ decide_eq_true rfl) at_i

include same at_i in
theorem chunksAt_typed : ∀ chunk ∈ chunksAt batches i, chunk.dataType = field.dataType := by
  intro chunk member
  obtain ⟨batch, inside, at_chunk⟩ := List.mem_filterMap.mp member
  obtain ⟨column, at_column, typed, -⟩ := column_exists same at_i inside
  cases at_column.symm.trans at_chunk
  exact typed

include same at_i in
theorem chunksAt_sum (f : ArrayRef → Nat) : ((chunksAt batches i).map f).sum =
    (batches.map fun batch => (batch.columns[i]?.map f).getD 0).sum := by
  induction batches with
  | nil => rfl
  | cons batch rest ih =>
    obtain ⟨column, at_column, -⟩ := column_exists same at_i List.mem_cons_self
    have later := ih fun other member => same other (List.mem_cons_of_mem _ member)
    rw [chunksAt_cons at_column, List.map_cons, List.sum_cons, List.map_cons, List.sum_cons, at_column, ← later]
    rfl

include same at_i in
theorem chunksAt_rows : (chunksAt batches i).flatMap ArrayRef.rows = batches.flatMap (·.columnRows i) := by
  induction batches with
  | nil => rfl
  | cons batch rest ih =>
    obtain ⟨column, at_column, -⟩ := column_exists same at_i List.mem_cons_self
    have later := ih fun other member => same other (List.mem_cons_of_mem _ member)
    rw [chunksAt_cons at_column, List.flatMap_cons, List.flatMap_cons, RecordBatch.columnRows, at_column, ← later]
    rfl

include same at_i in
theorem chunksAt_length : ((chunksAt batches i).map ArrayRef.length).sum = (batches.map (·.numRows)).sum := by
  rw [chunksAt_sum same at_i]
  congr 1
  apply List.map_congr_left
  intro batch member
  obtain ⟨column, at_column, -, length⟩ := column_exists same at_i member
  rw [at_column, ← length]
  rfl

end Chunks

def fromBatchesColumns (schema : Schema) (batches : List RecordBatch) : List ChunkedArray :=
  schema.fields.zipIdx.map fun (field, i) => ⟨field.dataType, chunksAt batches i⟩

theorem fromBatchesColumns_at (schema : Schema) (batches : List RecordBatch) (i : Nat) :
    (fromBatchesColumns schema batches)[i]? =
      schema.fields[i]?.map fun field => ⟨field.dataType, chunksAt batches i⟩ := by
  simp [fromBatchesColumns, List.getElem?_zipIdx, Function.comp_def]

/-- `Table.from_batches`. -/
def Table.fromBatches (schema : Schema) (batches : List RecordBatch) (same : ∀ batch ∈ batches, batch.schema = schema) :
    Table where
  schema := schema
  columns := fromBatchesColumns schema batches
  numRows := (batches.map (·.numRows)).sum
  valid := by
    refine ⟨by simp [fromBatchesColumns], ?_, ?_⟩
    · rintro ⟨field, column⟩ member
      obtain ⟨i, paired⟩ := List.getElem?_of_mem member
      obtain ⟨at_field, at_column⟩ := List.getElem?_zip_eq_some.mp paired
      rw [fromBatchesColumns_at, at_field] at at_column
      obtain rfl : ⟨field.dataType, chunksAt batches i⟩ = column := Option.some.inj at_column
      exact ⟨rfl, chunksAt_typed same at_field⟩
    · intro column member
      obtain ⟨i, at_column⟩ := List.getElem?_of_mem member
      rw [fromBatchesColumns_at] at at_column
      obtain ⟨field, at_field, rfl⟩ := Option.map_eq_some_iff.mp at_column
      exact chunksAt_length same at_field

/-- A table of batches has their rows. -/
theorem Table.fromBatches_concatenates {schema : Schema} {batches : List RecordBatch}
    (same : ∀ batch ∈ batches, batch.schema = schema) : (fromBatches schema batches same).Concatenates batches := by
  have columns (i : Nat) : (fromBatches schema batches same).columns[i]? =
      schema.fields[i]?.map fun field => ⟨field.dataType, chunksAt batches i⟩ := fromBatchesColumns_at schema batches i
  have none_at (i : Nat) (outside : schema.fields[i]? = none) (batch : RecordBatch) (member : batch ∈ batches) :
      batch.columns[i]? = none := by
    rw [List.getElem?_eq_none_iff] at outside ⊢
    rw [batch.valid.width, same batch member]
    exact outside
  refine ⟨same, rfl, fun i => ?_, fun i => ?_⟩
  · rw [columnRows, columns]
    cases at_i : schema.fields[i]? with
    | some field => exact chunksAt_rows same at_i
    | none =>
      symm
      rw [Option.map_none, Option.map_none, Option.getD_none, List.flatMap_eq_nil_iff]
      intro batch member
      rw [RecordBatch.columnRows, none_at i at_i batch member]
      rfl
  · rw [columnNulls, columns]
    cases at_i : schema.fields[i]? with
    | some field => exact chunksAt_sum same at_i nullCount
    | none =>
      symm
      rw [Option.map_none, Option.map_none, Option.getD_none]
      apply List.sum_eq_zero
      intro nulls member
      obtain ⟨batch, inside, rfl⟩ := List.mem_map.mp member
      rw [none_at i at_i batch inside]
      rfl

/-- The rows of columns put together are the rows of each part. -/
theorem transposed_flatMap {α : Type} {parts : List α} {columns : α → Nat → List (Option Value)} {counts : α → Nat}
    {width : Nat} (long : ∀ part ∈ parts, ∀ i < width, (columns part i).length = counts part) :
    FsspecData.RecordBatch.transposed (fun i => parts.flatMap (columns · i)) width (parts.map counts).sum =
      parts.flatMap fun part => FsspecData.RecordBatch.transposed (columns part) width (counts part) := by
  induction parts with
  | nil => rfl
  | cons part rest ih =>
    have later := ih fun other member => long other (List.mem_cons_of_mem _ member)
    simp only [List.flatMap_cons, List.map_cons, List.sum_cons]
    rw [FsspecData.RecordBatch.transposed_append _ _ (long part List.mem_cons_self), later]

theorem RecordBatch.columnRows_length {batch : RecordBatch} {i : Nat} (inside : i < batch.columns.length) :
    (batch.columnRows i).length = batch.numRows := by
  rw [RecordBatch.columnRows, List.getElem?_eq_getElem inside, Option.map_some, Option.getD_some]
  exact batch.valid.lengths _ (List.getElem_mem inside)

theorem Table.Concatenates.rowList {parts : List RecordBatch} {table : Table}
    (concatenates : table.Concatenates parts) : table.rowList = parts.flatMap (·.rowList) := by
  have width (part : RecordBatch) (member : part ∈ parts) : part.columns.length = table.columns.length := by
    rw [part.valid.width, table.valid.width, concatenates.schema part member]
  have columns : table.columnRows = fun i => parts.flatMap (·.columnRows i) := funext concatenates.columnRows
  have long (part : RecordBatch) (member : part ∈ parts) (i : Nat) (inside : i < table.columns.length) :
      (part.columnRows i).length = part.numRows :=
    RecordBatch.columnRows_length ((width part member).symm ▸ inside)
  rw [Table.rowList, columns, concatenates.numRows, transposed_flatMap long]
  apply List.flatMap_congr
  intro part member
  rw [RecordBatch.rowList, width part member]

variable (documented : arrow.Documented) (follows : pyarrow.Documented arrow) (slotwise : pyarrow.Slotwise slotCast)
  (planned : Planned arrow provided requested policy options plan) {parts : List RecordBatch} {table : Table}
  (concatenates : table.Concatenates parts) (same : schemaFieldsEqual table.schema provided = true)

include slotwise planned concatenates same in
/-- A mapping runs on a table when it does on each of the batches. -/
theorem runMappingChunked_iff {mapping : FsspecData.FieldMapping} (member : mapping ∈ plan.mappings) :
    (∃ result, runMappingChunked pyarrow plan table mapping = .ok result) ↔
      ∀ part ∈ parts, ∃ result, runMapping pyarrow plan part mapping = .ok result := by
  obtain ⟨source, target, at_source, at_target, fits⟩ := planned.mapping_fields (decide_eq_true rfl) member
  obtain ⟨column, at_column, typed, -⟩ := table_column same at_source
  have rows : column.rows = parts.flatMap (·.columnRows mapping.sourceIndex) := by
    rw [← concatenates.columnRows, Table.columnRows_eq at_column]
  have nulls : column.nullCount =
      (parts.map fun part => (part.columns[mapping.sourceIndex]?.map nullCount).getD 0).sum := by
    rw [← concatenates.columnNulls, Table.columnNulls, at_column, Option.map_some, Option.getD_some]
  have each (part : RecordBatch) (inside : part ∈ parts) :
      (∃ result, runMapping pyarrow plan part mapping = .ok result) ↔
        (mapping.checkNulls = true → (part.columns[mapping.sourceIndex]?.map nullCount).getD 0 = 0) ∧
          ∀ slot ∈ part.columnRows mapping.sourceIndex, (slotOf slotCast mapping source target slot).isSome := by
    obtain ⟨piece, at_piece, typed, -⟩ :=
      data_column (concatenates.schema part inside ▸ same : schemaFieldsEqual part.schema provided = true) at_source
    rw [runMapping_at at_piece, applyMapping_iff slotwise planned at_target fits typed,
      RecordBatch.columnRows, at_piece]
    rfl
  rw [runMappingChunked_at at_column, applyMappingChunked_iff slotwise planned at_target fits typed, nulls, rows]
  constructor
  · rintro ⟨clean, castable⟩ part inside
    refine (each part inside).mpr ⟨fun checks => ?_, fun slot member => ?_⟩
    · exact List.sum_eq_zero_iff_forall_eq_nat.mp (clean checks) _ (List.mem_map_of_mem inside)
    · exact castable slot (List.mem_flatMap.mpr ⟨part, inside, member⟩)
  · intro all
    have all (part : RecordBatch) (inside : part ∈ parts) := (each part inside).mp (all part inside)
    refine ⟨fun checks => List.sum_eq_zero fun count member => ?_, fun slot member => ?_⟩
    · obtain ⟨part, inside, rfl⟩ := List.mem_map.mp member
      exact (all part inside).1 checks
    · obtain ⟨part, inside, member⟩ := List.mem_flatMap.mp member
      exact (all part inside).2 slot member

end Batches

/-- A plan makes of a table, however it is chunked, what it makes of the batches of its
rows: it fails on the table when it fails on some batch, and returns their rows in order. -/
theorem applyTable_batches (documented : arrow.Documented) (follows : pyarrow.Documented arrow)
    (slotwise : pyarrow.Slotwise slotCast) (planned : planSchemaWith arrow provided requested policy options = .ok plan)
    {parts : List RecordBatch} {table : Table} (concatenates : table.Concatenates parts)
    (same : schemaFieldsEqual table.schema provided = true) :
    ((∃ output, InterchangePlan.applyTable pyarrow (.ofRust plan) table = .ok output) ↔
      ∃ outputs, parts.mapM (InterchangePlan.applyBatch pyarrow (.ofRust plan)) = .ok outputs) ∧
    ∀ output outputs, InterchangePlan.applyTable pyarrow (.ofRust plan) table = .ok output →
      parts.mapM (InterchangePlan.applyBatch pyarrow (.ofRust plan)) = .ok outputs →
      output.schema = requested ∧ output.rowList = outputs.flatMap (·.rowList) := by
  have planned := planSchemaWith_planned planned
  have own (part : RecordBatch) (inside : part ∈ parts) : schemaFieldsEqual part.schema provided = true :=
    concatenates.schema part inside ▸ same
  constructor
  · rw [mapM_exists, applyTable_iff documented follows slotwise planned same]
    constructor
    · intro runs part inside
      exact (applyBatch_iff documented follows slotwise planned (own part inside)).mpr fun mapping member =>
        (runMappingChunked_iff slotwise planned concatenates same member).mp (runs mapping member) part inside
    · intro runs mapping member
      exact (runMappingChunked_iff slotwise planned concatenates same member).mpr fun part inside =>
        (applyBatch_iff documented follows slotwise planned (own part inside)).mp (runs part inside) mapping member
  · intro output outputs run runs
    obtain ⟨schema, rows⟩ := applyTable_rows documented follows slotwise planned same run
    refine ⟨schema, ?_⟩
    rw [rows, outputs_rows documented follows slotwise planned own (mapM_eq_ok.mp runs), concatenates.rowList]

open FsspecData.InterchangePlan (narrowPlan narrowBatch narrowPlan_planned)

/-- Two batches, of which one wraps, as one table. -/
def wideParts : List RecordBatch := [.ofRust (narrowBatch (2 ^ 40) rfl), .ofRust (narrowBatch 7 rfl)]

theorem wideParts_schema : ∀ part ∈ wideParts, part.schema = ⟨[.mk "n" .int64 false []], []⟩ := by
  simp [wideParts, RecordBatch.ofRust, narrowBatch]

theorem applyTable_batches_wide : ∃ output,
    InterchangePlan.applyTable Pyarrow.small (.ofRust narrowPlan) (Table.fromBatches _ wideParts wideParts_schema) =
        .ok output ∧
      output.rowList = [[some (.integer 0)], [some (.integer 7)]] := by
  obtain ⟨outputs, runs, rows⟩ : ∃ outputs,
      wideParts.mapM (InterchangePlan.applyBatch Pyarrow.small (.ofRust narrowPlan)) = .ok outputs ∧
        outputs.flatMap (·.rowList) = [[some (.integer 0)], [some (.integer 7)]] := ⟨_, rfl, rfl⟩
  have concatenates := Table.fromBatches_concatenates wideParts_schema
  obtain ⟨succeeds, same⟩ := applyTable_batches Arrow.small_documented Pyarrow.small_documented Pyarrow.small_slotwise
    narrowPlan_planned concatenates (decide_eq_true rfl)
  obtain ⟨output, run⟩ := succeeds.mpr ⟨outputs, runs⟩
  exact ⟨output, run, (same output outputs run runs).2.trans rows⟩

end FsspecData.Python
