import FsspecData.Python.Execute

/-! When the two executors agree. Both run the same operations; they differ in the casts
called lossy, in the nulls of the null type, in the check of the result, and in the row
count of a result without columns. -/
namespace FsspecData.Python

open Plan CastRegistry
open FsspecData.InterchangePlan (Reads Rejects)

variable {arrow : Arrow} {pyarrow : Pyarrow} {provided requested : Schema} {policy : SchemaPolicy}
  {options : ProjectionOptions} {plan : FsspecData.InterchangePlan} {batch : FsspecData.RecordBatch}

/-- Same schema, same number of rows, same values in every column, or both fail. -/
def Agree : Except Failure FsspecData.RecordBatch → Except PyError RecordBatch → Prop
  | .ok rust, .ok python => rust.schema = python.schema ∧ rust.numRows = python.numRows ∧
      rust.columns.map ArrayRef.rows = python.columns.map ArrayRef.rows
  | .error _, .error _ => True
  | _, _ => False

section Mapping

variable {mapping : FsspecData.FieldMapping} {source target : Field} {column result : ArrayRef}

theorem runMapping_eq (planned : Planned arrow provided requested policy options plan)
    (reads : Reads batch requested policy options mapping source target column) :
    runMapping pyarrow plan (.ofRust batch) mapping =
      if mapping.checkNulls ∧ nullCount column ≠ 0 then .error (.containsNulls target.name)
      else
        match mapping.cast with
        | some kind => orPyarrow (pyarrow.cast column target.dataType (kind ≠ .lossy))
        | none => .ok column := by
  have at_target := reads.at_target
  rw [← planned.requestedSchema] at at_target
  simp only [runMapping, InterchangePlan.applyMapping, InterchangePlan.ofRust, RecordBatch.ofRust_columns,
    reads.at_column, at_target]
  cases mapping.cast with
  | none => rfl
  | some kind => cases kind <;> rfl

/-- A cast by its kind: only the lossy one is unsafe. -/
theorem cast_cases (documented : arrow.Documented) (follows : pyarrow.Documented arrow)
    (known : classify column.dataType target.dataType = some kind) :
    (∃ result, pyarrow.cast column target.dataType (kind ≠ .lossy) = .ok result ∧
      result.dataType = target.dataType ∧ result.length = column.length ∧
      ∀ out, arrow.castWithOptions column target.dataType = .ok out → result.rows = out.rows) ∨
    (kind ≠ .lossy ∧ Rejects arrow column target.dataType ∧
      ∃ error, pyarrow.cast column target.dataType (kind ≠ .lossy) = .error error) := by
  cases cast : arrow.castWithOptions column target.dataType with
  | ok out =>
    obtain ⟨result, done, typed, rows⟩ := follows.cast_agrees (kind ≠ .lossy) cast
    have length := (documented.cast_typed cast).2
    refine .inl ⟨result, done, typed, by rw [ArrayRef.length, rows]; exact length, ?_⟩
    rintro _ ⟨⟩
    exact rows
  | error source =>
    by_cases lossy : kind = .lossy
    · subst lossy
      obtain ⟨result, done, typed, length⟩ := follows.cast_unsafe known
      exact .inl ⟨result, done, typed, length, fun out done => by contradiction⟩
    · obtain ⟨error, fails⟩ := follows.cast_safe cast
      exact .inr ⟨lossy, ⟨source, cast⟩, error, by rw [decide_eq_true lossy]; exact fails⟩

theorem runMapping_ok (documented : arrow.Documented) (follows : pyarrow.Documented arrow)
    (planned : Planned arrow provided requested policy options plan)
    (reads : Reads batch requested policy options mapping source target column)
    (h : runMapping pyarrow plan (.ofRust batch) mapping = .ok result) :
    result.dataType = target.dataType ∧ result.length = batch.numRows ∧
      ∀ out, FsspecData.InterchangePlan.applyMapping arrow requested batch mapping = .ok out →
        result.rows = out.rows := by
  have length := batch.column_length reads.at_column
  rw [runMapping_eq planned reads] at h
  split_ifs at h
  cases known : mapping.cast with
  | none =>
    rw [known] at h
    cases h
    refine ⟨?_, length, fun out computed => ?_⟩
    · rw [batch.column_type reads.at_source reads.at_column]
      exact reads.fits.cast_none.mp known
    · rcases (FsspecData.InterchangePlan.applyMapping_ok reads computed).2 with
        ⟨_, _, rfl⟩ | ⟨_, cast, _⟩
      · rfl
      · cases known.symm.trans cast
  | some kind =>
    rw [known] at h
    rcases cast_cases documented follows (reads.cast_eq.symm.trans known) with
      ⟨result', done, typed, long, agrees⟩ | ⟨_, _, error, fails⟩
    · cases (congrArg orPyarrow done).symm.trans h
      refine ⟨typed, long.trans length, ?_⟩
      intro out computed
      rcases (FsspecData.InterchangePlan.applyMapping_ok reads computed).2 with
        ⟨uncast, _⟩ | ⟨_, _, _, cast⟩
      · cases known.symm.trans uncast
      · exact agrees out cast
    · cases (congrArg orPyarrow fails).symm.trans h

theorem runMapping_error_iff (documented : arrow.Documented) (follows : pyarrow.Documented arrow)
    (planned : Planned arrow provided requested policy options plan)
    (reads : Reads batch requested policy options mapping source target column) :
    (∃ error, runMapping pyarrow plan (.ofRust batch) mapping = .error error) ↔
      (mapping.checkNulls = true ∧ nullCount column ≠ 0) ∨
        ∃ kind, mapping.cast = some kind ∧ kind ≠ .lossy ∧ Rejects arrow column target.dataType := by
  rw [runMapping_eq planned reads]
  split_ifs with sees
  · simp [sees]
  cases known : mapping.cast with
  | none => simp [sees]
  | some kind =>
    rcases cast_cases documented follows (reads.cast_eq.symm.trans known) with
      ⟨result, done, _⟩ | ⟨lossy, rejects, error, fails⟩
    · simp only [done, orPyarrow, reduceCtorEq, exists_false, sees, false_or, Option.some.injEq,
        false_iff, not_exists, not_and]
      rintro _ rfl checked ⟨source, rejected⟩
      obtain ⟨error, fails⟩ := follows.cast_safe rejected
      rw [decide_eq_true checked, fails] at done
      contradiction
    · exact ⟨fun _ => .inr ⟨kind, rfl, lossy, rejects⟩, fun _ => ⟨_, congrArg orPyarrow fails⟩⟩

end Mapping

/-- An addition adds what the Rust run adds. -/
theorem runAddition_agrees (documented : arrow.Documented) (follows : pyarrow.Documented arrow)
    (planned : Planned arrow provided requested policy options plan)
    {addition : FsspecData.FieldAddition} {target : Field} (adds : plan.Adds addition target) :
    ∃ result, runAddition pyarrow (.ofRust batch) addition = .ok result ∧
      result.dataType = target.dataType ∧ result.length = batch.numRows ∧
      ∀ out, FsspecData.InterchangePlan.applyAddition arrow batch addition = .ok out →
        result.rows = out.rows := by
  obtain ⟨out, row, taken, _, single, rows, _⟩ := planned.applyAddition_ok documented batch adds
  obtain ⟨result, row', done, typed, single', copies⟩ :=
    runAddition_ok documented follows planned (.ofRust batch) adds
  cases single'.symm.trans single
  refine ⟨result, done, typed, by simp [ArrayRef.length, copies], ?_⟩
  intro out' computed
  cases taken.symm.trans computed
  rw [copies, rows, RecordBatch.ofRust_numRows]

/-- A null check that pyarrow's count makes fail. -/
def SeesNull (plan : FsspecData.InterchangePlan) (batch : FsspecData.RecordBatch) : Prop :=
  ∃ mapping target column, plan.Maps batch mapping target column ∧ mapping.checkNulls = true ∧
    nullCount column ≠ 0

/-- Arrays with the types of their fields and of one length become a batch, with a row
count of zero where there is no array. -/
theorem fromColumns_ok {columns : List ArrayRef} {schema : Schema} {n : Nat}
    (width : columns.length = schema.fields.length)
    (typed : ∀ (i : Nat) (field : Field) (column : ArrayRef), schema.fields[i]? = some field →
      columns[i]? = some column → column.dataType = field.dataType ∧ column.length = n) :
    ∃ output, InterchangePlan.fromColumns pyarrow columns schema = .ok output ∧
      output.schema = schema ∧ output.columns = columns ∧
      output.numRows = if schema.fields = [] then 0 else n := by
  have entry (field : Field) (column : ArrayRef) (member : (field, column) ∈ schema.fields.zip columns) :
      column.dataType = field.dataType ∧ column.length = n := by
    obtain ⟨i, at_field, at_column⟩ := at_of_mem_zip member
    exact typed i field column at_field at_column
  have lengths : ∀ column ∈ columns, column.length = n := by
    intro column member
    obtain ⟨i, field, at_field, at_column⟩ := at_of_mem width member
    exact (typed i field column at_field at_column).2
  have kept : ((schema.fields.zip columns).mapM fun entry =>
      InterchangePlan.asarray pyarrow entry.2 entry.1.dataType) = .ok columns := by
    have pairs : List.Forall₂ (fun (entry : Field × ArrayRef) column =>
        InterchangePlan.asarray pyarrow entry.2 entry.1.dataType = .ok column)
        (schema.fields.zip columns) ((schema.fields.zip columns).map Prod.snd) :=
      List.forall₂_map_right_iff.mpr (List.forall₂_same.mpr fun ⟨field, column⟩ member =>
        if_pos (entry field column member).1)
    rw [List.map_snd_zip (by omega)] at pairs
    exact Fallible.mapM_eq_ok.mpr pairs
  have head : (columns.head?.map ArrayRef.length).getD 0 = if schema.fields = [] then 0 else n := by
    cases columns with
    | nil => simp [List.length_eq_zero_iff.mp width.symm]
    | cons column rest =>
      have filled : schema.fields ≠ [] := by
        intro empty
        simp [empty] at width
      simp [filled, lengths column List.mem_cons_self]
  have valid : RecordBatch.Accepts schema columns ((columns.head?.map ArrayRef.length).getD 0) := by
    refine ⟨width, fun ⟨field, column⟩ member => (entry field column member).1, ?_⟩
    intro column member
    obtain ⟨first, rest, rfl⟩ := List.exists_cons_of_ne_nil (List.ne_nil_of_mem member)
    rw [lengths column member]
    simp [lengths first List.mem_cons_self]
  refine ⟨⟨schema, columns, _, valid⟩, ?_, rfl, rfl, head⟩
  rw [InterchangePlan.fromColumns, if_neg (not_not.mpr width), kept]
  exact dif_pos valid

/-- Every column of the Python run has the type of its field, a row for every input row,
and the values of the Rust run's column. -/
theorem produced_typed (documented : arrow.Documented) (follows : pyarrow.Documented arrow)
    (planned : Planned arrow provided requested policy options plan)
    (same : schemaFieldsEqual batch.schema provided = true) {columns : List ArrayRef}
    (produces : Produces pyarrow plan (.ofRust batch) columns) {i : Nat} {target : Field} {result : ArrayRef}
    (at_target : requested.fields[i]? = some target) (at_i : columns[i]? = some result) :
    (result.dataType = target.dataType ∧ result.length = batch.numRows) ∧
      ∀ others out, plan.Produces arrow batch others → others[i]? = some out → result.rows = out.rows := by
  rcases produces.at_index planned.covers at_i with ⟨mapping, member, rfl, computed⟩ |
    ⟨addition, member, rfl, computed⟩
  · obtain ⟨source, target', column, reads⟩ := planned.reads same member
    cases reads.at_target.symm.trans at_target
    obtain ⟨typed, length, agrees⟩ := runMapping_ok documented follows planned reads computed
    refine ⟨⟨typed, length⟩, ?_⟩
    intro others out produced at_out
    obtain ⟨out', at_out', ran⟩ := produced.first mapping member
    cases at_out'.symm.trans at_out
    exact agrees out (planned.requestedSchema ▸ ran)
  · have adds : plan.Adds addition target := ⟨member, planned.requestedSchema.symm ▸ at_target⟩
    obtain ⟨result', done, typed, length, agrees⟩ := runAddition_agrees documented follows planned adds
    cases done.symm.trans computed
    refine ⟨⟨typed, length⟩, ?_⟩
    intro others out produced at_out
    obtain ⟨out', at_out', ran⟩ := produced.second addition member
    cases at_out'.symm.trans at_out
    exact agrees out ran

/-- The executor accepts the batches that the Rust one accepts. -/
theorem schemaEquals_ofRust (follows : pyarrow.Documented arrow)
    (same : schemaFieldsEqual batch.schema provided = true) :
    pyarrow.schemaEquals (RecordBatch.ofRust batch).schema provided = true :=
  follows.schema_equals same

/-- The output of a Python run that computes all its columns. -/
theorem applyBatch_produced (documented : arrow.Documented) (follows : pyarrow.Documented arrow)
    (planned : Planned arrow provided requested policy options plan)
    (same : schemaFieldsEqual batch.schema provided = true) {columns : List ArrayRef}
    (produces : Produces pyarrow plan (.ofRust batch) columns) :
    ∃ output, InterchangePlan.fromColumns pyarrow columns requested = .ok output ∧
      output.schema = requested ∧ output.columns = columns ∧
      output.numRows = if requested.fields = [] then 0 else batch.numRows :=
  fromColumns_ok (planned.requestedSchema ▸ produces.width) fun _ _ _ at_field at_column =>
    (produced_typed documented follows planned same produces at_field at_column).1

/-- A Python run fails exactly when a check counts a null or a runtime-checked cast
rejects a value. -/
theorem succeeds_iff (documented : arrow.Documented) (follows : pyarrow.Documented arrow)
    (planned : Planned arrow provided requested policy options plan)
    (same : schemaFieldsEqual batch.schema provided = true) :
    (∃ output, InterchangePlan.applyBatch pyarrow (.ofRust plan) (.ofRust batch) = .ok output) ↔
      ¬ SeesNull plan batch ∧ ¬ plan.Refuses arrow batch .runtimeChecked := by
  rcases applyBatch_cases planned (schemaEquals_ofRust follows same) with ⟨columns, produces, run⟩ | ⟨error, run, fails⟩
  · obtain ⟨output, made, _⟩ := applyBatch_produced documented follows planned same produces
    refine iff_of_true ⟨output, run.trans made⟩ ⟨?_, ?_⟩
    · rintro ⟨mapping, target, column, maps, checks, counted⟩
      obtain ⟨source, reads⟩ := planned.reads_of_maps same maps
      obtain ⟨result, _, computed⟩ := produces.first mapping maps.member
      obtain ⟨error, fails⟩ := (runMapping_error_iff documented follows planned reads).mpr
        (.inl ⟨checks, counted⟩)
      cases fails.symm.trans computed
    · rintro ⟨mapping, target, column, maps, known, rejects⟩
      obtain ⟨source, reads⟩ := planned.reads_of_maps same maps
      obtain ⟨result, _, computed⟩ := produces.first mapping maps.member
      obtain ⟨error, fails⟩ := (runMapping_error_iff documented follows planned reads).mpr
        (.inr ⟨.runtimeChecked, known, by decide, rejects⟩)
      cases fails.symm.trans computed
  · refine iff_of_false (fun ⟨output, done⟩ => by cases run.symm.trans done) ?_
    rintro ⟨unseen, accepted⟩
    rcases fails with ⟨mapping, member, fails⟩ | ⟨addition, member, fails⟩
    · obtain ⟨source, target, column, reads⟩ := planned.reads same member
      have maps := planned.maps_of_reads member reads
      rcases (runMapping_error_iff documented follows planned reads).mp ⟨error, fails⟩ with
        ⟨checks, counted⟩ | ⟨kind, known, unlossy, rejects⟩
      · exact unseen ⟨mapping, target, column, maps, checks, counted⟩
      · cases kind with
        | safe =>
          exact FsspecData.InterchangePlan.not_refuses_safe documented planned same
            ⟨mapping, target, column, maps, known, rejects⟩
        | lossy => contradiction
        | runtimeChecked => exact accepted ⟨mapping, target, column, maps, known, rejects⟩
    · obtain ⟨target, _, at_target, _⟩ := planned.addition_facts documented member
      obtain ⟨result, done, _⟩ := runAddition_agrees documented follows planned
        ⟨member, planned.requestedSchema.symm ▸ at_target⟩
      cases done.symm.trans fails

/-- A checked column of the null type, with rows: only pyarrow counts its nulls. -/
def SeesVoid (plan : FsspecData.InterchangePlan) (batch : FsspecData.RecordBatch) : Prop :=
  ∃ mapping target column, plan.Maps batch mapping target column ∧ mapping.checkNulls = true ∧
    column.dataType = .null ∧ 0 < batch.numRows

theorem seesNull_iff : SeesNull plan batch ↔ plan.SeesNull batch ∨ SeesVoid plan batch := by
  constructor
  · rintro ⟨mapping, target, column, maps, checks, counted⟩
    unfold nullCount at counted
    split_ifs at counted with null
    · rw [batch.column_length maps.at_column] at counted
      exact .inr ⟨mapping, target, column, maps, checks, null, Nat.pos_of_ne_zero counted⟩
    · exact .inl ⟨mapping, target, column, maps, checks, Nat.pos_of_ne_zero counted⟩
  · rintro (⟨mapping, target, column, maps, checks, shown⟩ |
      ⟨mapping, target, column, maps, checks, null, rows⟩)
    · refine ⟨mapping, target, column, maps, checks, ?_⟩
      have valued : column.dataType ≠ .null := fun null => by
        rw [ArrayRef.nullCount_null null] at shown
        omega
      rw [nullCount, if_neg valued]
      omega
    · refine ⟨mapping, target, column, maps, checks, ?_⟩
      rw [nullCount, if_pos null, batch.column_length maps.at_column]
      omega

/-- Two runs that succeed have the same columns. -/
theorem columns_eq (documented : arrow.Documented) (follows : pyarrow.Documented arrow)
    (planned : Planned arrow provided requested policy options plan)
    (same : schemaFieldsEqual batch.schema provided = true) {columns others : List ArrayRef}
    (produces : Produces pyarrow plan (.ofRust batch) columns) (produced : plan.Produces arrow batch others) :
    others.map ArrayRef.rows = columns.map ArrayRef.rows := by
  have widths : others.length = columns.length := produced.width.trans produces.width.symm
  apply List.ext_getElem (by simpa using widths)
  intro i inside inside'
  simp only [List.length_map] at inside inside'
  have at_field := List.getElem?_eq_getElem (l := requested.fields) (i := i)
    (by rw [← planned.requestedSchema, ← produces.width]; exact inside')
  have agrees := (produced_typed documented follows planned same produces at_field
    (List.getElem?_eq_getElem inside')).2 others _ produced (List.getElem?_eq_getElem inside)
  simp only [List.getElem_map, agrees]

/-- What makes both runs fail: a shown null, or a runtime-checked cast. -/
def FailsBoth (plan : FsspecData.InterchangePlan) (arrow : Arrow) (batch : FsspecData.RecordBatch) : Prop :=
  plan.SeesNull batch ∨ plan.Refuses arrow batch .runtimeChecked

/-- What only Rust fails on: a lossy cast, or a null shown in a required field. -/
def FailsRust (plan : FsspecData.InterchangePlan) (arrow : Arrow) (batch : FsspecData.RecordBatch) : Prop :=
  plan.Refuses arrow batch .lossy ∨ plan.Voids batch ∨ plan.AddsNull batch

theorem rust_succeeds_iff (documented : arrow.Documented)
    (planned : Planned arrow provided requested policy options plan)
    (same : schemaFieldsEqual batch.schema provided = true) :
    (∃ output, plan.applyBatch arrow batch = .ok output) ↔
      ¬ FailsBoth plan arrow batch ∧ ¬ FailsRust plan arrow batch := by
  have safe := FsspecData.InterchangePlan.not_refuses_safe documented planned same
  have kinds : (∀ kind, ¬ plan.Refuses arrow batch kind) ↔
      ¬ plan.Refuses arrow batch .lossy ∧ ¬ plan.Refuses arrow batch .runtimeChecked :=
    ⟨fun all => ⟨all .lossy, all .runtimeChecked⟩, fun ⟨lossy, checked⟩ kind => by
      cases kind <;> assumption⟩
  rw [planned.succeeds_iff documented same, kinds, FailsBoth, FailsRust]
  tauto

theorem python_succeeds_iff (documented : arrow.Documented) (follows : pyarrow.Documented arrow)
    (planned : Planned arrow provided requested policy options plan)
    (same : schemaFieldsEqual batch.schema provided = true) :
    (∃ output, InterchangePlan.applyBatch pyarrow (.ofRust plan) (.ofRust batch) = .ok output) ↔
      ¬ FailsBoth plan arrow batch ∧ ¬ SeesVoid plan batch := by
  rw [succeeds_iff documented follows planned same, seesNull_iff, FailsBoth]
  tauto

/-- Without requested fields there is no mapping, so neither run fails. -/
theorem not_fails_of_empty (planned : Planned arrow provided requested policy options plan)
    (empty : requested.fields = []) : ¬ FailsBoth plan arrow batch ∧ ¬ SeesVoid plan batch := by
  have covers := planned.covers
  rw [FsspecData.InterchangePlan.Covers, planned.requestedSchema, empty] at covers
  have unmapped : plan.mappings = [] := by
    simpa using (List.append_eq_nil_iff.mp (List.perm_nil.mp covers)).1
  have none_maps {mapping : FsspecData.FieldMapping} {target : Field} {column : ArrayRef}
      (maps : plan.Maps batch mapping target column) : False := by
    simpa [unmapped] using maps.member
  refine ⟨?_, fun ⟨_, _, _, maps, _⟩ => none_maps maps⟩
  rintro (⟨_, _, _, maps, _⟩ | ⟨_, _, _, maps, _⟩) <;> exact none_maps maps

/-- Two runs that succeed differ only in the row count of a batch without columns. -/
theorem agree_of_ok (documented : arrow.Documented) (follows : pyarrow.Documented arrow)
    (planned : Planned arrow provided requested policy options plan)
    (same : schemaFieldsEqual batch.schema provided = true) {output : FsspecData.RecordBatch}
    {result : RecordBatch} (ran : plan.applyBatch arrow batch = .ok output)
    (run : InterchangePlan.applyBatch pyarrow (.ofRust plan) (.ofRust batch) = .ok result) :
    Agree (.ok output) (.ok result) ↔ ¬ (requested.fields = [] ∧ 0 < batch.numRows) := by
  obtain ⟨others, produced, valid, rfl⟩ := (planned.applyBatch_ok same).mp ran
  rcases applyBatch_cases planned (schemaEquals_ofRust follows same) with ⟨columns, produces, run'⟩ | ⟨error, run', _⟩
  · obtain ⟨made, done, schema, kept, rows⟩ := applyBatch_produced documented follows planned same produces
    cases run.symm.trans (run'.trans done)
    have values := columns_eq documented follows planned same produces produced
    simp only [Agree, schema, kept, rows, values, true_and, and_true]
    split_ifs with empty
    · simp [empty, Nat.pos_iff_ne_zero]
    · simp [empty]
  · cases run.symm.trans run'

/-- The executors agree exactly when both fail, or nothing that only one of them fails on
occurs without the other's, and a result without columns has no rows. -/
theorem executors_agree_iff (arrow : Arrow) (pyarrow : Pyarrow) (documented : arrow.Documented)
    (follows : pyarrow.Documented arrow) (provided requested : Schema) (policy : SchemaPolicy)
    (options : ProjectionOptions) (plan : FsspecData.InterchangePlan)
    (planned : planSchemaWith arrow provided requested policy options = .ok plan)
    (batch : FsspecData.RecordBatch) (same : schemaFieldsEqual batch.schema provided = true) :
    Agree (plan.applyBatch arrow batch)
        (InterchangePlan.applyBatch pyarrow (.ofRust plan) (.ofRust batch)) ↔
      (FailsBoth plan arrow batch ∨ (FailsRust plan arrow batch ↔ SeesVoid plan batch)) ∧
        ¬ (requested.fields = [] ∧ 0 < batch.numRows) := by
  have planned := planSchemaWith_planned planned
  have rust := rust_succeeds_iff documented planned same
  have python := python_succeeds_iff documented follows planned same
  cases ran : plan.applyBatch arrow batch with
  | ok output =>
    have clean := rust.mp ⟨output, ran⟩
    cases run : InterchangePlan.applyBatch pyarrow (.ofRust plan) (.ofRust batch) with
    | ok result =>
      rw [agree_of_ok documented follows planned same ran run]
      have unvoided := (python.mp ⟨result, run⟩).2
      exact ⟨fun counts => ⟨.inr (iff_of_false clean.2 unvoided), counts⟩, fun ⟨_, counts⟩ => counts⟩
    | error error =>
      have failed : ¬ (¬ FailsBoth plan arrow batch ∧ ¬ SeesVoid plan batch) := fun fine => by
        obtain ⟨result, done⟩ := python.mpr fine
        cases run.symm.trans done
      simp only [Agree, false_iff]
      tauto
  | error failure =>
    have failed : ¬ (¬ FailsBoth plan arrow batch ∧ ¬ FailsRust plan arrow batch) := fun fine => by
      obtain ⟨output, done⟩ := rust.mpr fine
      cases ran.symm.trans done
    cases run : InterchangePlan.applyBatch pyarrow (.ofRust plan) (.ofRust batch) with
    | ok result =>
      have clean := python.mp ⟨result, run⟩
      simp only [Agree, false_iff]
      tauto
    | error error =>
      have voided : ¬ (¬ FailsBoth plan arrow batch ∧ ¬ SeesVoid plan batch) := fun fine => by
        obtain ⟨result, done⟩ := python.mpr fine
        cases run.symm.trans done
      simp only [Agree, true_iff]
      refine ⟨?_, fun ⟨empty, _⟩ => voided (not_fails_of_empty planned empty)⟩
      by_cases both : FailsBoth plan arrow batch
      · exact .inl both
      · exact .inr (iff_of_true (not_not.mp fun fine => failed ⟨both, fine⟩)
          (not_not.mp fun fine => voided ⟨both, fine⟩))

open FsspecData.InterchangePlan (narrowPlan narrowBatch)

theorem executors_agree_iff_narrow :
    Agree (narrowPlan.applyBatch Arrow.small (narrowBatch 7 rfl))
        (InterchangePlan.applyBatch Pyarrow.small (.ofRust narrowPlan) (.ofRust (narrowBatch 7 rfl))) ↔
      (FailsBoth narrowPlan Arrow.small (narrowBatch 7 rfl) ∨
        (FailsRust narrowPlan Arrow.small (narrowBatch 7 rfl) ↔ SeesVoid narrowPlan (narrowBatch 7 rfl))) ∧
      ¬ (narrowPlan.requestedSchema.fields = [] ∧ 0 < (narrowBatch 7 rfl).numRows) :=
  executors_agree_iff Arrow.small Pyarrow.small Arrow.small_documented Pyarrow.small_documented _ _
    .coerce {} narrowPlan rfl (narrowBatch 7 rfl) (decide_eq_true rfl)

/-- On a value above 32 bits Rust fails and Python wraps. -/
theorem lossy_executors_disagree :
    planSchema Arrow.small ⟨[.mk "n" .int64 false []], []⟩ ⟨[.mk "n" .int32 false []], []⟩ .coerce =
        .ok narrowPlan ∧
      schemaFieldsEqual (narrowBatch (2 ^ 40) rfl).schema ⟨[.mk "n" .int64 false []], []⟩ = true ∧
      ¬ Agree (narrowPlan.applyBatch Arrow.small (narrowBatch (2 ^ 40) rfl))
        (InterchangePlan.applyBatch Pyarrow.small (.ofRust narrowPlan)
          (.ofRust (narrowBatch (2 ^ 40) rfl))) := by
  refine ⟨rfl, decide_eq_true rfl, ?_⟩
  intro agree
  have rust : ∃ failure, narrowPlan.applyBatch Arrow.small (narrowBatch (2 ^ 40) rfl) = .error failure :=
    ⟨_, rfl⟩
  have python : ∃ result, InterchangePlan.applyBatch Pyarrow.small (.ofRust narrowPlan)
      (.ofRust (narrowBatch (2 ^ 40) rfl)) = .ok result := ⟨_, rfl⟩
  obtain ⟨failure, ran⟩ := rust
  obtain ⟨result, run⟩ := python
  rw [ran, run] at agree
  exact agree

end FsspecData.Python
