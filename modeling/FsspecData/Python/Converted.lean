import FsspecData.Python.Pipeline
import FsspecData.Python.Rows
import FsspecData.Stream.Endless

/-! What a conversion does to the rows of its source, from the bytes read to the bytes
written. What it needs of the format libraries is that one reads back what it wrote. -/
namespace FsspecData

open DecodedStream

namespace DecodedStream

variable {B R : Type} [BatchLike B R]

theorem grants_mem {budget : Option Nat} {source : List B} {grant : B × Nat}
    (member : grant ∈ grants budget source) : grant.1 ∈ source := by
  induction source generalizing budget with
  | nil => simp [grants] at member
  | cons batch rest ih =>
    rcases List.mem_cons.mp member with rfl | later
    · exact List.mem_cons_self
    · exact List.mem_cons_of_mem _ (ih later)

/-- What a stream yields of batches are stretches of them. -/
theorem reference_cutout {batches : List B} {options : StreamOptions} (positive : 0 < options.batchSize) {output : B}
    (member : .ok output ∈ reference (batches.map .ok) options) :
    ∃ batch ∈ batches, ∃ offset length, output = cutout batch offset length := by
  rw [reference_ok batches positive] at member
  obtain ⟨stretch, among, same⟩ := List.mem_map.mp (limitBytes_member member)
  cases same
  obtain ⟨grant, granted, among⟩ := List.mem_flatMap.mp among
  obtain ⟨same, -⟩ := slices_within among
  exact ⟨_, same ▸ grants_mem granted, stretch.offset, stretch.length, rfl⟩

end DecodedStream

namespace Python

open Plan Codec Fallible

/-- A library's reader: the schema and the batches of some data, at most of a given size. -/
abbrev LibraryReader :=
  DataFormat → List UInt8 → Option Schema → Nat → Except CodecError (Schema × List (Item FsspecData.RecordBatch))

/-- The schema that the reader of a format is told. -/
def told (format : DataFormat) (schema : Option Schema) : Option Schema :=
  if format = .csv ∨ format = .jsonLines then schema else none

/-- What data hold: the rows that the library finds, however it cuts them into batches. -/
def Holds (library : LibraryReader) (format : DataFormat) (data : List UInt8) (provided : Option Schema)
    (schema : Schema) (rows : List (List (Option Value))) : Prop :=
  ∀ size > 0, ∃ batches : List FsspecData.RecordBatch,
    library format data (told format provided) size = .ok (schema, batches.map .ok) ∧
      (∀ batch ∈ batches, batch.schema = schema) ∧ batches.flatMap (·.rowList) = rows

/-- The decoded stream lies over the library's reader, and a batch is taken over as it is. -/
structure Natives.Streams [Slicing] (natives : Natives) (library : LibraryReader) : Prop where
  /-- The byte counter saturates at the largest limit, which therefore is none. -/
  reads (format : DataFormat) (data : List UInt8) (given : Option Schema) (options : StreamOptions) (schema : Schema)
    (items : List (Item FsspecData.RecordBatch)) : options.byteLimit ≠ some usizeMax →
    (natives.read format data given options = .ok (schema, items) ↔ ∃ source s last,
      library format data given options.batchSize = .ok (schema, source) ∧
      DecodedStream.new schema (Source.ofList source) options false = .ok s ∧ Yields s items last)
  imports (batch : RecordBatch) (imported : FsspecData.RecordBatch) : natives.importBatch batch = .ok imported →
    imported.schema = batch.schema ∧ imported.rowList = batch.rowList

/-- A format whose library reads back what its codec has encoded. Rows without columns need
not be kept. -/
def Natives.Keeps (natives : Natives) (library : LibraryReader) (format : DataFormat) : Prop :=
  ∀ codec schema batches bytes, named format.asStr = .ok codec → (∀ batch ∈ batches, batch.schema = schema) →
    (schema.fields = [] → batches.flatMap (·.rowList) = []) →
    codec.encode (natives.writers format) schema batches = some (.ok bytes) →
    Holds library format bytes (some schema) schema (batches.flatMap (·.rowList))

/-! Reading. -/

theorem options_below {options : StreamOptions} (limited : options.byteLimit ≠ some usizeMax) {limit : Nat}
    (same : options.byteLimit = some limit) : limit < usizeMax := by
  have word := options.byteLimit_le limit same
  have distinct : limit ≠ usizeMax := by
    rintro rfl
    exact limited same
  omega

section Reading

variable [Slicing] {natives : Natives} {library : LibraryReader} (streams : natives.Streams library)
  {format : DataFormat} {data : List UInt8} {provided : Option Schema} {schema : Schema}
  {rows : List (List (Option Value))} (holds : Holds library format data provided schema rows)
  {options : StreamOptions} (limited : options.byteLimit ≠ some usizeMax)

include streams holds limited in
/-- Reading yields the reference of the batches that the library finds. -/
theorem read_iff (positive : 0 < options.batchSize) : ∃ batches : List FsspecData.RecordBatch,
    ((∀ batch ∈ batches, batch.schema = schema) ∧ batches.flatMap (·.rowList) = rows) ∧
      ∀ decoded items, natives.read format data (told format provided) options = .ok (decoded, items) ↔
        decoded = schema ∧ items = reference (batches.map .ok) options := by
  obtain ⟨batches, whole, own⟩ := holds options.batchSize positive
  refine ⟨batches, own, fun decoded items => ?_⟩
  rw [streams.reads format data (told format provided) options decoded items limited]
  obtain ⟨s, made, live, left⟩ := new_live schema (batches.map .ok) options positive fun _ => options_below limited
  obtain ⟨last, yields⟩ := yields_expected _ live left
  constructor
  · rintro ⟨source, s', last', found, made', yields'⟩
    cases found.symm.trans whole
    cases made.symm.trans made'
    exact ⟨rfl, (yields'.unique yields).1⟩
  · rintro ⟨rfl, rfl⟩
    exact ⟨_, s, last, whole, made, yields⟩

theorem reference_rowList {batches outputs : List FsspecData.RecordBatch} (positive : 0 < options.batchSize)
    (own : ∀ batch ∈ batches, batch.schema = schema) (all : reference (batches.map .ok) options = outputs.map .ok) :
    (∀ output ∈ outputs, output.schema = schema) ∧
      outputs.flatMap (·.rowList) = takeRows options.rowLimit (batches.flatMap (·.rowList)) := by
  constructor
  · intro output member
    obtain ⟨batch, inside, offset, length, rfl⟩ := reference_cutout positive (all ▸ List.mem_map_of_mem member)
    exact (batch.cutout_cuts.schema offset length).trans (own batch inside)
  · have rows := (reference_rows (batches.map .ok) options positive).2 (by simp [all])
    rwa [all, untilError_ok, yielded_ok, yielded_ok] at rows

include streams holds limited in
/-- What is read of data are their rows up to the row limit, in batches of their schema. -/
theorem read_rows {decoded : Schema} {outputs : List FsspecData.RecordBatch}
    (read : natives.read format data (told format provided) options = .ok (decoded, outputs.map .ok)) :
    decoded = schema ∧ (∀ output ∈ outputs, output.schema = schema) ∧
      outputs.flatMap (·.rowList) = takeRows options.rowLimit rows := by
  have positive : 0 < options.batchSize := by
    obtain ⟨_, s, _, -, made, -⟩ := (streams.reads _ _ _ _ _ _ limited).mp read
    unfold DecodedStream.new at made
    split at made
    next => cases made
    next some_size => exact Nat.pos_of_ne_zero some_size
  obtain ⟨batches, ⟨own, rfl⟩, reads⟩ := read_iff streams holds limited positive
  obtain ⟨rfl, all⟩ := (reads _ _).mp read
  exact ⟨rfl, reference_rowList positive own all.symm⟩

include streams holds in
/-- Without a byte limit all of them are read. -/
theorem read_whole (positive : 0 < options.batchSize) (unlimited : options.byteLimit = none) :
    ∃ outputs : List FsspecData.RecordBatch,
      natives.read format data (told format provided) options = .ok (schema, outputs.map .ok) ∧
        (∀ output ∈ outputs, output.schema = schema) ∧
        outputs.flatMap (·.rowList) = takeRows options.rowLimit rows := by
  obtain ⟨batches, ⟨own, rfl⟩, reads⟩ := read_iff streams holds (by simp [unlimited]) positive
  have all : reference (batches.map .ok) options = (((grants options.rowLimit batches).flatMap
      (grantSlices options.batchSize)).map Stretch.output).map .ok := by
    rw [reference_ok batches positive, unlimited, limitBytes_none, List.map_map]
    rfl
  exact ⟨_, (reads _ _).mpr ⟨rfl, all.symm⟩, reference_rowList positive own all⟩

end Reading

/-! Through the interpreter. -/

section Interpreter

variable (natives : Natives) {format : DataFormat} {data : List UInt8} {limits : Limits}

/-- An item of a decoded stream, as Python gets it. -/
def pythonItem (item : Item FsspecData.RecordBatch) : Except FileSystemError RecordBatch :=
  (item.map RecordBatch.ofRust).mapError .interchange

/-- A decoded stream has the schema that its format is told, or its reader's own. -/
theorem iterBatches_read {provided : Option Schema} {decoded : Decoded}
    (read : natives.iterBatches format data provided limits = .ok decoded) :
    ∃ options own items, limits.options = .ok options ∧
      natives.read format data (told format provided) options = .ok (own, items) ∧
      decoded.schema = (told format provided).getD own ∧ decoded.batches = items.map pythonItem := by
  obtain ⟨options, bounded, read⟩ := bind_eq_ok.mp read
  obtain ⟨codec, own, read⟩ := bind_eq_ok.mp read
  obtain ⟨⟨schema, items⟩, found, made⟩ := bind_eq_ok.mp read
  cases made
  have found := mapError_eq_ok.mp found
  cases format with
  | arrow | parquet | avro =>
    cases own
    exact ⟨options, schema, items, bounded, found, rfl, rfl⟩
  | csv | jsonLines =>
    cases own
    cases provided with
    | none => cases found
    | some given =>
      obtain ⟨rfl, own, found⟩ := (decodeReader_told rfl).mp found
      exact ⟨options, own, items, bounded, found, rfl, rfl⟩

theorem iterBatches_of_read {given schema : Schema} {options : StreamOptions}
    {items : List (Item FsspecData.RecordBatch)} (bounded : limits.options = .ok options)
    (read : natives.read format data (told format (some given)) options = .ok (schema, items)) :
    natives.iterBatches format data (some given) limits =
      .ok ⟨(told format (some given)).getD schema, items.map pythonItem⟩ := by
  refine bind_eq_ok.mpr ⟨options, bounded, ?_⟩
  cases format with
  | arrow | parquet | avro => exact bind_eq_ok.mpr ⟨_, rfl, bind_eq_ok.mpr ⟨_, mapError_eq_ok.mpr read, rfl⟩⟩
  | csv | jsonLines =>
    exact bind_eq_ok.mpr ⟨_, rfl, bind_eq_ok.mpr
      ⟨_, mapError_eq_ok.mpr ((decodeReader_told rfl).mpr ⟨rfl, schema, read⟩), rfl⟩⟩

variable {Base : Type} (base : Engine Base)

/-- The batches of a stream that a plan takes whole. -/
theorem applied_ok {plan : InterchangePlan} {items : List (Item FsspecData.RecordBatch)} {written : List RecordBatch}
    (applied : (items.map pythonItem).map (FormattedPlan.applyItem base plan) = written.map .ok) :
    ∃ batches : List FsspecData.RecordBatch, items = batches.map .ok ∧
      List.Forall₂ (fun part output => plan.applyBatch base.pyarrow part = .ok output)
        (batches.map RecordBatch.ofRust) written := by
  induction items generalizing written with
  | nil =>
    cases written with
    | nil => exact ⟨[], rfl, .nil⟩
    | cons => cases applied
  | cons item rest ih =>
    cases written with
    | nil => cases applied
    | cons first written =>
      obtain ⟨one, others⟩ := List.cons.inj applied
      obtain ⟨batches, rfl, runs⟩ := ih others
      cases item with
      | error error => cases one
      | ok batch => exact ⟨batch :: batches, rfl, .cons (mapError_eq_ok.mp one) runs⟩

end Interpreter

theorem imported_rows [Slicing] {natives : Natives} {library : LibraryReader} (streams : natives.Streams library)
    {batches : List RecordBatch} {imported : List FsspecData.RecordBatch} {schema : Schema}
    (own : ∀ batch ∈ batches, batch.schema = schema) (all : batches.mapM natives.importBatch = .ok imported) :
    (∀ batch ∈ imported, batch.schema = schema) ∧
      imported.flatMap (·.rowList) = batches.flatMap (·.rowList) := by
  have each := mapM_eq_ok.mp all
  clear all
  induction each with
  | nil => exact ⟨by simp, rfl⟩
  | cons one _ ih =>
    obtain ⟨kept, rows⟩ := streams.imports _ _ one
    rw [List.forall_mem_cons] at own
    obtain ⟨schemas, later⟩ := ih own.2
    refine ⟨List.forall_mem_cons.mpr ⟨kept.trans own.1, schemas⟩, ?_⟩
    rw [List.flatMap_cons, List.flatMap_cons, rows, later]

/-! Conversions. -/

section Conversions

variable {Base : Type} {natives : Natives} {base : Engine Base} {fs : DataFileSystem} {path : String}
  {providedFormat requestedFormat : DataFormat} {provided : Option ResolvedSchema} {conversion : Conversion}

/-- A conversion that returns has read, planned, applied its plan and encoded what that made. -/
theorem convert_stages (reads : DataFileSystem.orInferred fs.providedFormat fs.fo = .ok providedFormat)
    (writes : DataFileSystem.orInferred fs.requestedFormat path = .ok requestedFormat)
    (provides : (natives.engine base).resolve fs.providedSchema = .ok provided)
    (returned : fs.convert (natives.engine base) path = .ok conversion) :
    ∃ decoded written, fs.decode (natives.engine base) providedFormat (provided.map (·.schema)) = .ok decoded ∧
      base.planSchema (orSchema (provided.map (·.schema)) decoded.schema) conversion.encodedSchema fs.policy
        fs.operations = .ok conversion.plan ∧
      decoded.batches.map (FormattedPlan.applyItem base conversion.plan) = written.map .ok ∧
      natives.encodeBatches requestedFormat conversion.encodedSchema written = .ok conversion.output := by
  simp only [DataFileSystem.convert, reads, writes, provides, ok_bind] at returned
  obtain ⟨requested, -, rest⟩ := bind_eq_ok.mp returned
  obtain ⟨decoded, decodes, rest⟩ := bind_eq_ok.mp rest
  obtain ⟨plan, made, rest⟩ := bind_eq_ok.mp rest
  obtain ⟨⟨written, output⟩, encoded, rest⟩ := bind_eq_ok.mp rest
  cases rest
  have applied := encodeBatchesTo_written encoded
  rw [applied] at encoded
  exact ⟨decoded, written, decodes, made, applied, (encodeBatchesTo_iff natives base _ _ _ _).mp ⟨written, encoded⟩⟩

variable {schema : Schema}

/-- A plan is made for a schema with the source's fields. -/
theorem provided_same (same : ∀ given, provided = some given → schemaFieldsEqual schema given.schema = true) :
    schemaFieldsEqual schema (orSchema (provided.map (·.schema))
      ((told providedFormat (provided.map (·.schema))).getD schema)) = true := by
  have itself : schemaFieldsEqual schema schema = true := decide_eq_true rfl
  cases provided with
  | none =>
    rw [told, Option.map_none, ite_self]
    exact itself
  | some given =>
    simp only [Option.map_some, orSchema, told]
    split_ifs
    all_goals first | exact same given rfl | exact itself

/-- What a plan makes of batches has its schema, and the images of their rows. -/
theorem planned_rows {slotCast : SlotCast} (documented : base.arrow.Documented)
    (follows : base.pyarrow.Documented base.arrow) (slotwise : base.pyarrow.Slotwise slotCast)
    {source requested : Schema} {policy : SchemaPolicy} {operations : Operations} {plan : InterchangePlan}
    (made : base.planSchema source requested policy operations = .ok plan)
    {batches : List FsspecData.RecordBatch} {written : List RecordBatch}
    (own : ∀ batch ∈ batches, schemaFieldsEqual batch.schema source = true)
    (runs : List.Forall₂ (fun part output => plan.applyBatch base.pyarrow part = .ok output)
      (batches.map RecordBatch.ofRust) written) :
    (∀ batch ∈ written, batch.schema = requested) ∧ written.flatMap (·.rowList) =
      if requested.fields = [] then [] else (batches.flatMap (·.rowList)).map (plan.image slotCast) := by
  have wanted := planSchema_requested made
  constructor
  · intro batch member
    obtain ⟨i, inside, rfl⟩ := List.getElem_of_mem member
    have run := (List.forall₂_iff_get.mp runs).2 i (runs.length_eq ▸ inside) inside
    exact (applyBatch_schema run).trans wanted
  · obtain ⟨projection, -, planning⟩ := bind_eq_ok.mp made
    obtain ⟨rust, built, planning⟩ := bind_eq_ok.mp planning
    cases planning
    have planned := planSchemaWith_planned (mapError_eq_ok.mp built)
    rw [outputs_rows documented follows slotwise planned (List.forall_mem_map.mpr own) runs, List.flatMap_map]
    rfl

variable [Slicing] {library : LibraryReader} {slotCast : SlotCast} (streams : natives.Streams library)
  (documented : base.arrow.Documented) (follows : base.pyarrow.Documented base.arrow)
  (slotwise : base.pyarrow.Slotwise slotCast) {data : List UInt8} {rows : List (List (Option Value))}
  {options : StreamOptions}

include streams documented follows slotwise in
/-- What a conversion writes holds the images of its source's rows. -/
theorem convert_holds (opened : base.openSource fs.fo = .ok data)
    (reads : DataFileSystem.orInferred fs.providedFormat fs.fo = .ok providedFormat)
    (writes : DataFileSystem.orInferred fs.requestedFormat path = .ok requestedFormat)
    (provides : (natives.engine base).resolve fs.providedSchema = .ok provided)
    (same : ∀ given, provided = some given → schemaFieldsEqual schema given.schema = true)
    (bounded : fs.limits.options = .ok options) (limited : options.byteLimit ≠ some usizeMax)
    (holds : Holds library providedFormat data (provided.map (·.schema)) schema rows)
    (keeps : natives.Keeps library requestedFormat)
    (returned : fs.convert (natives.engine base) path = .ok conversion) :
    Holds library requestedFormat conversion.output (some conversion.encodedSchema) conversion.encodedSchema
      (if conversion.encodedSchema.fields = [] then []
        else (takeRows options.rowLimit rows).map (conversion.plan.image slotCast)) := by
  obtain ⟨decoded, written, decodes, made, applied, encodes⟩ := convert_stages reads writes provides returned
  obtain ⟨_, again, read, -⟩ := decode_ok.mp decodes
  cases opened.symm.trans again
  obtain ⟨_, found_schema, items, bounded', found, stream, batches_read⟩ := iterBatches_read natives read
  cases bounded.symm.trans bounded'
  rw [batches_read] at applied
  obtain ⟨batches, rfl, runs⟩ := applied_ok base applied
  obtain ⟨rfl, schemas, rows_read⟩ := read_rows streams holds limited found
  have own : ∀ batch ∈ batches, schemaFieldsEqual batch.schema
      (orSchema (provided.map (·.schema)) decoded.schema) = true := by
    intro batch member
    rw [schemas batch member, stream]
    exact provided_same same
  obtain ⟨output_schema, images⟩ := planned_rows documented follows slotwise made own runs
  obtain ⟨codec, codec_own, -⟩ := named_asStr requestedFormat
  obtain ⟨imported, all, encodes⟩ := (encodeBatches_ok natives codec_own _ _ _).mp encodes
  obtain ⟨imported_schema, imported_rows⟩ := imported_rows streams output_schema all
  rw [← imported_rows] at images
  rw [← rows_read, ← images]
  exact keeps codec _ imported _ codec_own imported_schema (fun empty => images.trans (if_pos empty)) encodes

end Conversions

/-! Files converted one after the other. -/

/-- Data in a format, with the schema that they are read with. -/
structure File where
  format : DataFormat
  data : List UInt8
  schema : Schema

/-- A filesystem over some storage, and what it is asked for. -/
structure Stage where
  openSource : String → Except FileSystemError (List UInt8)
  fs : DataFileSystem
  path : String
  requestedFormat : DataFormat
  options : StreamOptions

def Stage.engine (natives : Natives) {Base : Type} (base : Engine Base) (stage : Stage) : Engine natives.Started :=
  natives.engine { base with openSource := stage.openSource }

/-- What a stage makes of rows, when its conversion is this one. -/
def Stage.makes (slotCast : SlotCast) (stage : Stage) (conversion : Conversion) (rows : List (List (Option Value))) :
    List (List (Option Value)) :=
  if conversion.encodedSchema.fields = [] then []
  else (takeRows stage.options.rowLimit rows).map (conversion.plan.image slotCast)

/-- A stage opens one file in its format and converts it to another one. A schema that is
provided has the file's fields, and is its own where the format needs it. -/
structure Converts (natives : Natives) {Base : Type} (base : Engine Base) (source : File) (stage : Stage)
    (conversion : Conversion) (target : File) : Prop where
  opened : stage.openSource stage.fs.fo = .ok source.data
  reads : DataFileSystem.orInferred stage.fs.providedFormat stage.fs.fo = .ok source.format
  writes : DataFileSystem.orInferred stage.fs.requestedFormat stage.path = .ok stage.requestedFormat
  provides : ∃ provided, (stage.engine natives base).resolve stage.fs.providedSchema = .ok provided ∧
    told source.format (provided.map (·.schema)) = told source.format (some source.schema) ∧
    ∀ given, provided = some given → schemaFieldsEqual source.schema given.schema = true
  bounded : stage.fs.limits.options = .ok stage.options
  returned : stage.fs.convert (stage.engine natives base) stage.path = .ok conversion
  written : target = ⟨stage.requestedFormat, conversion.output, conversion.encodedSchema⟩

/-- The rows that a file holds. -/
def File.Holds (library : LibraryReader) (file : File) (rows : List (List (Option Value))) : Prop :=
  Python.Holds library file.format file.data (some file.schema) file.schema rows

section Stages

variable [Slicing] {Base : Type} {natives : Natives} {base : Engine Base} {library : LibraryReader}
  {slotCast : SlotCast} (streams : natives.Streams library) (documented : base.arrow.Documented)
  (follows : base.pyarrow.Documented base.arrow) (slotwise : base.pyarrow.Slotwise slotCast) {source target : File}
  {rows : List (List (Option Value))}

include streams documented follows slotwise in
theorem Converts.holds {stage : Stage} {conversion : Conversion}
    (converts : Converts natives base source stage conversion target)
    (keeps : natives.Keeps library stage.requestedFormat) (limited : stage.options.byteLimit ≠ some usizeMax)
    (holds : source.Holds library rows) : target.Holds library (stage.makes slotCast conversion rows) := by
  obtain ⟨provided, provides, given, same⟩ := converts.provides
  rw [converts.written]
  have holds : Python.Holds library source.format source.data (provided.map (·.schema)) source.schema rows := by
    unfold Python.Holds
    rw [given]
    exact holds
  let opening : Engine Base := { base with openSource := stage.openSource }
  have documented : opening.arrow.Documented := documented
  have follows : opening.pyarrow.Documented opening.arrow := follows
  have slotwise : opening.pyarrow.Slotwise slotCast := slotwise
  exact convert_holds streams documented follows slotwise converts.opened converts.reads converts.writes provides same
    converts.bounded limited holds keeps converts.returned

include streams documented follows slotwise in
/-- Stages in a row make of the rows of a file what each of them makes in its turn. -/
theorem stages_hold {trace : List (Stage × Conversion)}
    (run : Machine.Run (Converts natives base) source trace target)
    (kept : ∀ entry ∈ trace, natives.Keeps library entry.1.requestedFormat ∧
      entry.1.options.byteLimit ≠ some usizeMax) (holds : source.Holds library rows) :
    target.Holds library (trace.foldl (fun rows entry => entry.1.makes slotCast entry.2 rows) rows) := by
  induction run generalizing rows with
  | nil => exact holds
  | cons converts _ ih =>
    rw [List.forall_mem_cons] at kept
    obtain ⟨⟨keeps, limited⟩, others⟩ := kept
    exact ih others (converts.holds streams documented follows slotwise keeps limited holds)

include streams documented follows slotwise in
/-- However many conversions follow one another, the last file is read back, and its rows are
those of the first one as each plan maps them and each limit cuts them. -/
theorem converted_rows {trace : List (Stage × Conversion)}
    (run : Machine.Run (Converts natives base) source trace target)
    (kept : ∀ entry ∈ trace, natives.Keeps library entry.1.requestedFormat ∧
      entry.1.options.byteLimit ≠ some usizeMax) (holds : source.Holds library rows) {limits : Limits}
    {options : StreamOptions} (bounded : limits.options = .ok options) (positive : 0 < options.batchSize)
    (unlimited : options.byteLimit = none) :
    ∃ batches : List FsspecData.RecordBatch,
      natives.iterBatches target.format target.data (some target.schema) limits =
        .ok ⟨target.schema, batches.map fun batch => .ok (.ofRust batch)⟩ ∧
      (∀ batch ∈ batches, batch.schema = target.schema) ∧ batches.flatMap (·.rowList) =
        takeRows options.rowLimit (trace.foldl (fun rows entry => entry.1.makes slotCast entry.2 rows) rows) := by
  have holds := stages_hold streams documented follows slotwise run kept holds
  obtain ⟨batches, read, own, rows_read⟩ := read_whole streams holds positive unlimited
  refine ⟨batches, ?_, own, rows_read⟩
  have own_schema : (told target.format (some target.schema)).getD target.schema = target.schema := by
    unfold told
    split <;> rfl
  rw [iterBatches_of_read natives bounded read, own_schema, List.map_map]
  rfl

end Stages

/-! A library that streams and keeps what it takes. -/

namespace Small

/-- Reading as the reference of the library's batches. -/
def referenceRead [Slicing] (library : LibraryReader) (format : DataFormat) (data : List UInt8) (given : Option Schema)
    (options : StreamOptions) : Except CodecError (Schema × List (Item FsspecData.RecordBatch)) := do
  let (schema, source) ← library format data given options.batchSize
  if options.batchSize = 0 then .error (.interchange .invalidBatchSize) else .ok (schema, reference source options)

theorem referenceRead_ok [Slicing] {library : LibraryReader} {format : DataFormat} {data : List UInt8}
    {given : Option Schema} {options : StreamOptions} {schema : Schema} {items : List (Item FsspecData.RecordBatch)}
    (limited : options.byteLimit ≠ some usizeMax) :
    referenceRead library format data given options = .ok (schema, items) ↔ ∃ source s last,
      library format data given options.batchSize = .ok (schema, source) ∧
      DecodedStream.new schema (Source.ofList source) options false = .ok s ∧ Yields s items last := by
  rw [referenceRead, bind_eq_ok]
  constructor
  · rintro ⟨⟨schema', source⟩, found, made⟩
    simp only at made
    split at made
    next => cases made
    next some_size =>
      cases made
      obtain ⟨s, made, live, left⟩ :=
        new_live schema source options (Nat.pos_of_ne_zero some_size) fun _ => options_below limited
      obtain ⟨last, yields⟩ := yields_expected _ live left
      exact ⟨source, s, last, found, made, yields⟩
  · rintro ⟨source, s, last, found, made, yields⟩
    refine ⟨(schema, source), found, ?_⟩
    simp only
    split
    next none_size =>
      rw [DecodedStream.new, if_pos none_size] at made
      cases made
    next some_size =>
      obtain ⟨s', made', live, left⟩ :=
        new_live schema source options (Nat.pos_of_ne_zero some_size) fun _ => options_below limited
      cases made.symm.trans made'
      obtain ⟨last', yields'⟩ := yields_expected _ live left
      rw [(yields.unique yields').1]

/-- A writer of one column that takes sevens only, and writes one byte for each. -/
def sevens : WriterLibrary Unit where
  create schema := .pure (if schema = column then .ok () else .error (.arrow ⟨"unsupported schema"⟩))
  write _ batch :=
    if batch.rowList.all (· = [some (.integer 7)]) then
      .writeAll (batch.rowList.map fun _ => 7) fun answer => .pure (NativeCodecWriter.Small.wrapped answer (), ())
    else .pure (.error (.arrow ⟨"unsupported value"⟩), ())
  flush _ := .pure (.ok (), ())
  finish _ := .pure (.ok (), ())
  drop _ := .pure ()

def readSevens : LibraryReader := fun _ data _ _ => .ok (column, data.map fun _ => .ok oneRow)

def sevenNatives : Natives where
  Writer _ := Unit
  writers _ := sevens
  read := @referenceRead Slicing.small readSevens
  importBatch := natives.importBatch

theorem sevens_stream : @Natives.Streams Slicing.small sevenNatives readSevens := by
  let _ := Slicing.small
  refine ⟨fun format data given options schema items limited => referenceRead_ok limited, ?_⟩
  intro batch imported taken
  simp only [sevenNatives, natives] at taken
  split at taken
  next =>
    cases taken
    exact ⟨rfl, rfl⟩
  next => cases taken

/-- A batch that is written are sevens, a byte for each. -/
theorem sevens_write {codec : Codec} {writer written : CodecWriter Unit} {batch : FsspecData.RecordBatch}
    (wrote : (codec.writeBatch sevens writer batch).value = (.ok (), written)) :
    batch.rowList = (codec.writeBatch sevens writer batch).output.map fun _ => [some (.integer 7)] := by
  unfold Codec.writeBatch at wrote ⊢
  cases checked : validateBatch writer.schema batch with
  | error error => simp [checked] at wrote
  | ok _ =>
    by_cases all : batch.rowList.all (· = [some (.integer 7)])
    · have same : batch.rowList = batch.rowList.map fun _ => [some (.integer 7)] := by
        rw [List.map_const']
        exact List.eq_replicate_of_mem fun row member => of_decide_eq_true (List.all_eq_true.mp all row member)
      have one : (sevens.write writer.writer batch).value = (.ok (), ()) ∧
          (sevens.write writer.writer batch).output = batch.rowList.map fun _ => 7 := by
        simp only [sevens, if_pos all]
        exact ⟨rfl, List.append_nil _⟩
      cases codec.flushes
      all_goals
        simp only [Output.Program.output_bind, one.1, one.2, Bool.false_eq_true, if_false, if_true]
        rw [List.map_append, List.map_map]
        refine same.trans (List.append_nil _).symm
    · have one : (sevens.write writer.writer batch).value = (.error (.arrow ⟨"unsupported value"⟩), ()) := by
        simp only [sevens, if_neg all]
        rfl
      simp [checked, one] at wrote

/-- What is encoded is one byte for each row. -/
theorem sevens_encode {codec : Codec} {writer : CodecWriter Unit} {batches : List FsspecData.RecordBatch}
    {bytes : List UInt8} (encodes : Encodes codec sevens writer batches bytes) :
    batches.flatMap (·.rowList) = bytes.map fun _ => [some (.integer 7)] := by
  induction batches generalizing writer bytes with
  | nil =>
    obtain ⟨-, rfl⟩ := (encodes_nil codec sevens writer bytes).mp encodes
    unfold Codec.finish
    split <;> rfl
  | cons batch batches ih =>
    cases wrote : (codec.writeBatch sevens writer batch).value with
    | mk result written =>
      cases result with
      | error error => exact absurd encodes (not_encodes_cons codec sevens batches bytes (congrArg Prod.fst wrote))
      | ok _ =>
        obtain ⟨rest, later, rfl⟩ := (encodes_cons codec sevens batches bytes wrote).mp encodes
        rw [List.flatMap_cons, ih later, List.map_append, ← sevens_write wrote]

theorem sevens_kept (format : DataFormat) : sevenNatives.Keeps readSevens format := by
  intro codec schema batches bytes own _ _ encoded size _
  obtain ⟨writer, rest, started, encodes, rfl⟩ := (encode_ok codec sevens schema batches bytes).mp encoded
  obtain rfl : schema = column := by
    by_contra other
    simp only [startWriter, Output.Program.value_bind, sevens, if_neg other] at started
    cases started
  have header : (startWriter sevens column).output = [] := rfl
  refine ⟨rest.map fun _ => oneRow, ?_, ?_, ?_⟩
  · rw [header, List.nil_append, List.map_map]
    rfl
  · intro batch member
    obtain ⟨_, -, rfl⟩ := List.mem_map.mp member
    rfl
  · rw [sevens_encode encodes, List.flatMap_map]
    exact List.map_eq_flatMap.symm

theorem two_le : 2 ≤ usizeMax := by decide

theorem unlimited : ∀ limit, (none : Option Nat) = some limit → limit ≤ usizeMax := by simp

theorem two_fits : ∀ limit, some 2 = some limit → limit ≤ usizeMax := by simp [usizeMax]

/-- A CSV source is cut to two rows and written as Avro. -/
def cutting : Stage where
  openSource _ := .ok [7, 7, 7]
  fs := { Python.filesystem column with
    providedFormat := some .csv, requestedFormat := some .avro, providedSchema := some (.schema column),
    limits := { rowLimit := some 2 } }
  path := "rows"
  requestedFormat := .avro
  options := { rowLimit := some 2, rowLimit_le := two_fits, byteLimit_le := unlimited }

def copying : Stage where
  openSource _ := .ok [7, 7]
  fs := { Python.filesystem column with
    providedFormat := some .avro, requestedFormat := some .parquet, limits := { batchSize := 2 } }
  path := "rows"
  requestedFormat := .parquet
  options := { batchSize := 2, batchSize_le := two_le, rowLimit_le := unlimited, byteLimit_le := unlimited }

end Small

/-- A CSV source is cut to two rows, converted once more and read back. -/
theorem converted_rows_sevens : ∃ (trace : List (Stage × Conversion)) (batches : List FsspecData.RecordBatch),
    trace.map Prod.fst = [Small.cutting, Small.copying] ∧
    Machine.Run (Converts Small.sevenNatives columnEngine) ⟨.csv, [7, 7, 7], column⟩ trace
      ⟨.parquet, [7, 7], column⟩ ∧
    Small.sevenNatives.iterBatches .parquet [7, 7] (some column) {} =
      .ok ⟨column, batches.map fun batch => .ok (.ofRust batch)⟩ ∧
    batches.flatMap (·.rowList) = [[some (.integer 7)], [some (.integer 7)]] := by
  let _ := Slicing.small
  have first : Converts Small.sevenNatives columnEngine ⟨.csv, [7, 7, 7], column⟩ Small.cutting _
      ⟨.avro, [7, 7], column⟩ :=
    ⟨rfl, rfl, rfl, ⟨_, rfl, rfl, fun _ same => by cases same; rfl⟩, rfl, rfl, rfl⟩
  have second : Converts Small.sevenNatives columnEngine ⟨.avro, [7, 7], column⟩ Small.copying _
      ⟨.parquet, [7, 7], column⟩ :=
    ⟨rfl, rfl, rfl, ⟨_, rfl, rfl, fun _ same => by cases same⟩, rfl, rfl, rfl⟩
  have run := Machine.Run.cons first (.cons second .nil)
  have holds : File.Holds Small.readSevens ⟨.csv, [7, 7, 7], column⟩
      [[some (.integer 7)], [some (.integer 7)], [some (.integer 7)]] := by
    refine fun size _ => ⟨[Small.oneRow, Small.oneRow, Small.oneRow], rfl, ?_, rfl⟩
    simp [Small.oneRow]
  obtain ⟨batches, read, -, rows⟩ := converted_rows Small.sevens_stream Arrow.small_documented
    Pyarrow.small_documented Pyarrow.small_slotwise run
    (by simp [Small.sevens_kept, Small.cutting, Small.copying]) holds
    (rfl : (⟨1024, none, none⟩ : Limits).options = .ok {}) (by decide) rfl
  exact ⟨_, batches, rfl, run, read, rows⟩

end Python

end FsspecData
