import FsspecData.Codec.NativeWriter
import FsspecData.Python.Native
import FsspecData.Python.Requested

/-! Two ways to convert. A plan converts bytes: it decodes them, applies itself to each
batch and encodes all results at once. The filesystem decodes, plans and writes each batch
as it comes. -/
namespace FsspecData.Python

open Codec Fallible

/-- What `encode_batches` raises without a schema. -/
def schemaRequired : FileSystemError := .outside "schema is required when encoding no record batches"

/-- A plan with the formats it is made for. -/
structure FormattedPlan where
  plan : InterchangePlan
  providedFormat : DataFormat
  requestedFormat : DataFormat

structure InterchangeRequest where
  providedFormat : DataFormat
  requestedFormat : DataFormat
  providedSchema : Schema
  requestedSchema : Schema
  policy : SchemaPolicy
  operations : Operations

namespace Natives

variable (natives : Natives)

/-- The engine whose codecs are these; a base gives everything else. -/
def engine {Base : Type} (base : Engine Base) : Engine natives.Started where
  libraries := base.libraries
  resolvers := base.resolvers
  arrow := base.arrow
  pyarrow := base.pyarrow
  defaultArray := base.defaultArray
  openSource := base.openSource
  iterBatches := natives.iterBatches
  startWriter := natives.startWriter
  writeBatch := natives.writeBatch
  finish := natives.finish

/-- `Codec.encode_batches`. Without a schema the first batch's is taken. -/
def encodeAll (format : DataFormat) (batches : List RecordBatch) (schema : Option Schema) :
    Except FileSystemError (List UInt8) :=
  match schema, batches with
  | some schema, batches => natives.encodeBatches format schema batches
  | none, [] => .error schemaRequired
  | none, first :: rest => natives.encodeBatches format first.schema (first :: rest)

end Natives

section

variable {Base : Type} (natives : Natives) (base : Engine Base)

def InterchangeRequest.plan (request : InterchangeRequest) : Except FileSystemError FormattedPlan := do
  let _ ← (named request.providedFormat.asStr).mapError nativeError
  let _ ← (named request.requestedFormat.asStr).mapError nativeError
  let plan ← base.planSchema request.providedSchema request.requestedSchema request.policy request.operations
  .ok ⟨plan, request.providedFormat, request.requestedFormat⟩

namespace FormattedPlan

/-- The schema a decoder is given, where the data does not carry one. -/
def decodeSchema (self : FormattedPlan) : Option Schema :=
  if self.providedFormat = .csv ∨ self.providedFormat = .jsonLines then some self.plan.providedSchema else none

/-- What a plan makes of one item of a decoded stream. -/
def applyItem (plan : InterchangePlan) (item : Except FileSystemError RecordBatch) :
    Except FileSystemError RecordBatch := do
  let batch ← item
  (plan.applyBatch base.pyarrow batch).mapError .run

/-- The planned batch stream. -/
def iterBatches (self : FormattedPlan) (data : List UInt8) (limits : Limits) : Except FileSystemError Decoded := do
  let decoded ← natives.iterBatches self.providedFormat data self.decodeSchema limits
  .ok ⟨self.plan.requestedSchema, decoded.batches.map (applyItem base self.plan)⟩

def convert (self : FormattedPlan) (data : List UInt8) (limits : Limits) : Except FileSystemError (List UInt8) := do
  let planned ← self.iterBatches natives base data limits
  let batches ← planned.batches.mapM id
  natives.encodeAll self.requestedFormat batches (some self.plan.requestedSchema)

end FormattedPlan

end

/-! Encoding batch by batch, and all at once. -/

section Encoding

variable (natives : Natives)

theorem mapM_id_ok {ε α : Type} {items : List (Except ε α)} {values : List α} :
    items.mapM id = .ok values ↔ items = values.map .ok := by
  rw [mapM_eq_ok]
  constructor
  · intro each
    induction each with
    | nil => rfl
    | cons same _ ih => rw [List.map_cons, ← ih, ← same]; rfl
  · rintro rfl
    rw [List.forall₂_map_left_iff, List.forall₂_same]
    exact fun _ _ => rfl

section Written

variable {codec : Codec} {format : DataFormat} (own : named format.asStr = .ok codec)
  {writer : CodecWriter (natives.Writer format)} {bytes : List UInt8}

include own

theorem writeBatch_ok {batch : RecordBatch} {next : natives.Started} :
    natives.writeBatch ⟨format, writer, bytes⟩ batch = .ok next ↔ ∃ imported written,
      natives.importBatch batch = .ok imported ∧
      (codec.writeBatch (natives.writers format) writer imported).value = (.ok (), written) ∧
      next = ⟨format, written, bytes ++ (codec.writeBatch (natives.writers format) writer imported).output⟩ := by
  simp only [Natives.writeBatch, own, bind_eq_ok, mapError_eq_ok, Except.ok.injEq, exists_eq_left']
  constructor
  · rintro ⟨imported, taken, _, wrote, rfl⟩
    exact ⟨imported, _, taken, Prod.ext wrote rfl, rfl⟩
  · rintro ⟨imported, written, taken, wrote, rfl⟩
    exact ⟨imported, taken, (), by rw [wrote], by rw [wrote]⟩

theorem finish_ok {output : List UInt8} : natives.finish ⟨format, writer, bytes⟩ = .ok output ↔
    (codec.finish (natives.writers format) writer).value = .ok () ∧
      output = bytes ++ (codec.finish (natives.writers format) writer).output := by
  simp only [Natives.finish, own, bind_eq_ok, mapError_eq_ok, Except.ok.injEq, exists_eq_left']
  constructor
  · rintro ⟨_, done, rfl⟩
    exact ⟨done, rfl⟩
  · rintro ⟨done, rfl⟩
    exact ⟨(), done, rfl⟩

/-- Writing batch by batch from some writer on gives what one encoding gives from there on. -/
theorem written_ok {Base : Type} (base : Engine Base) (batches done : List RecordBatch) (output : List UInt8) :
    (∃ last, (batches.map .ok).foldlM (natives.engine base).writeNext (⟨format, writer, bytes⟩, done) = .ok last ∧
        natives.finish last.1 = .ok output) ↔
      ∃ imported rest, batches.mapM natives.importBatch = .ok imported ∧
        Encodes codec (natives.writers format) writer imported rest ∧ output = bytes ++ rest := by
  induction batches generalizing done writer bytes with
  | nil =>
    simp only [List.map_nil, List.foldlM_nil, List.mapM_nil, pure_eq_ok, exists_eq_left', finish_ok natives own]
    constructor
    · rintro ⟨finished, rfl⟩
      exact ⟨[], _, rfl, (encodes_nil codec _ writer _).mpr ⟨finished, rfl⟩, rfl⟩
    · rintro ⟨_, rest, rfl, encodes, rfl⟩
      obtain ⟨finished, rfl⟩ := (encodes_nil codec _ writer _).mp encodes
      exact ⟨finished, rfl⟩
  | cons batch batches ih =>
    simp only [List.map_cons, List.foldlM_cons, List.mapM_cons, Engine.writeNext, ok_bind, bind_eq_ok]
    constructor
    · rintro ⟨last, ⟨next, ⟨started, one, same⟩, others⟩, finished⟩
      cases same
      obtain ⟨imported, written, taken, wrote, rfl⟩ := (writeBatch_ok natives own).mp one
      obtain ⟨rest, bytes_rest, all, encodes, rfl⟩ := (ih _).mp ⟨last, others, finished⟩
      refine ⟨imported :: rest, _, ⟨imported, taken, rest, all, rfl⟩,
        (encodes_cons codec (natives.writers format) rest _ wrote).mpr ⟨bytes_rest, encodes, rfl⟩, ?_⟩
      rw [List.append_assoc]
    · rintro ⟨_, _, ⟨imported, taken, rest, all, same⟩, encodes, rfl⟩
      cases same
      cases wrote : (codec.writeBatch (natives.writers format) writer imported).value with
      | mk result written =>
        cases result with
        | error error =>
          exact absurd encodes
            (not_encodes_cons codec (natives.writers format) rest _ (congrArg Prod.fst wrote))
        | ok _ =>
          obtain ⟨bytes_rest, encodes_rest, rfl⟩ :=
            (encodes_cons codec (natives.writers format) rest _ wrote).mp encodes
          have one : natives.writeBatch ⟨format, writer, bytes⟩ batch = .ok ⟨format, written, bytes ++ _⟩ :=
            (writeBatch_ok natives own).mpr ⟨imported, written, taken, wrote, rfl⟩
          obtain ⟨last, others, finished⟩ := (ih (done ++ [batch])).mpr
            ⟨rest, bytes_rest, all, encodes_rest, (List.append_assoc _ _ _).symm⟩
          exact ⟨last, ⟨_, ⟨_, one, rfl⟩, others⟩, finished⟩

end Written

/-- An encoding takes all batches over and runs the codec on them. -/
theorem encodeBatches_ok {format : DataFormat} {codec : Codec} (own : named format.asStr = .ok codec)
    (schema : Schema) (batches : List RecordBatch) (output : List UInt8) :
    natives.encodeBatches format schema batches = .ok output ↔
      ∃ imported, batches.mapM natives.importBatch = .ok imported ∧
        codec.encode (natives.writers format) schema imported = some (.ok output) := by
  simp only [Natives.encodeBatches, own, bind_eq_ok, mapError_eq_ok, Except.ok.injEq, exists_eq_left']
  refine exists_congr fun imported => and_congr_right fun _ => ?_
  rw [encode_eq]
  simp only [mapError_eq_ok, Option.some.injEq]

/-- Batches are encoded one by one exactly when they are encoded at once, to the same bytes. -/
theorem encodeBatchesTo_iff {Base : Type} (base : Engine Base) (format : DataFormat) (schema : Schema)
    (batches : List RecordBatch) (output : List UInt8) :
    (∃ written, (natives.engine base).encodeBatchesTo format schema (batches.map .ok) = .ok (written, output)) ↔
      natives.encodeBatches format schema batches = .ok output := by
  obtain ⟨codec, own, -⟩ := named_asStr format
  rw [encodeBatches_ok natives own]
  simp only [encode_ok, Engine.encodeBatchesTo, bind_eq_ok, Except.ok.injEq, Prod.mk.injEq]
  constructor
  · rintro ⟨written, started, start, last, wrote, bytes, finished, -, rfl⟩
    simp only [Natives.engine, Natives.startWriter, own, bind_eq_ok, mapError_eq_ok, Except.ok.injEq,
      exists_eq_left'] at start
    obtain ⟨writer, value, rfl⟩ := start
    obtain ⟨imported, rest, all, encodes, rfl⟩ := (written_ok natives own base batches [] _).mp ⟨last, wrote, finished⟩
    exact ⟨imported, all, writer, rest, value, encodes, rfl⟩
  · rintro ⟨imported, all, writer, rest, value, encodes, rfl⟩
    obtain ⟨last, wrote, finished⟩ :=
      (written_ok natives own base batches [] _).mpr ⟨imported, rest, all, encodes, rfl⟩
    refine ⟨last.2, _, ?_, last, wrote, _, finished, rfl, rfl⟩
    simp only [Natives.engine, Natives.startWriter, own, bind_eq_ok, mapError_eq_ok, Except.ok.injEq, exists_eq_left']
    exact ⟨writer, value, rfl⟩

end Encoding

/-! A conversion by the filesystem beside one by a plan. -/

section Conversions

variable {Base : Type} (natives : Natives) (base : Engine Base)

/-- Only a format without a schema of its own is told one. -/
theorem iterBatches_told (format : DataFormat) (data : List UInt8) {told other : Option Schema} (limits : Limits)
    (same : format = .csv ∨ format = .jsonLines → told = other) :
    natives.iterBatches format data told limits = natives.iterBatches format data other limits := by
  cases format with
  | csv => rw [same (.inl rfl)]
  | jsonLines => rw [same (.inr rfl)]
  | arrow => rfl
  | parquet => rfl
  | avro => rfl

/-- A format that has to be told a schema is not decoded without one. -/
theorem iterBatches_untold {format : DataFormat} {data : List UInt8} {limits : Limits} {decoded : Decoded}
    (read : natives.iterBatches format data none limits = .ok decoded) : format ≠ .csv ∧ format ≠ .jsonLines := by
  obtain ⟨options, -, read⟩ := bind_eq_ok.mp read
  obtain ⟨codec, own, read⟩ := bind_eq_ok.mp read
  obtain ⟨⟨schema, items⟩, items_read, -⟩ := bind_eq_ok.mp read
  constructor
  · rintro rfl
    cases own
    cases items_read
  · rintro rfl
    cases own
    cases items_read

theorem planSchema_provided {provided requested : Schema} {policy : SchemaPolicy} {operations : Operations}
    {plan : InterchangePlan} (planned : base.planSchema provided requested policy operations = .ok plan) :
    plan.providedSchema = provided := by
  obtain ⟨options, -, rest⟩ := bind_eq_ok.mp planned
  obtain ⟨rust, built, made⟩ := bind_eq_ok.mp rest
  cases made
  obtain ⟨operations, -, rfl⟩ := map_eq_ok.mp (mapError_eq_ok.mp built)
  rfl

theorem plan_ok {request : InterchangeRequest} {plan : FormattedPlan} : request.plan base = .ok plan ↔
    ∃ inner, base.planSchema request.providedSchema request.requestedSchema request.policy request.operations =
      .ok inner ∧ plan = ⟨inner, request.providedFormat, request.requestedFormat⟩ := by
  obtain ⟨provided, provided_own, -⟩ := named_asStr request.providedFormat
  obtain ⟨requested, requested_own, -⟩ := named_asStr request.requestedFormat
  simp only [InterchangeRequest.plan, provided_own, requested_own, bind_eq_ok, mapError_eq_ok, Except.ok.injEq,
    exists_eq_left']
  constructor
  · rintro ⟨inner, planned, rfl⟩
    exact ⟨inner, planned, rfl⟩
  · rintro ⟨inner, planned, rfl⟩
    exact ⟨inner, planned, rfl⟩

/-- A plan converts the batches that its formats decode, when each of them is an item it takes. -/
theorem convert_ok (plan : FormattedPlan) (data : List UInt8) (limits : Limits) (output : List UInt8) :
    plan.convert natives base data limits = .ok output ↔
      ∃ decoded written, natives.iterBatches plan.providedFormat data plan.decodeSchema limits = .ok decoded ∧
        decoded.batches.map (FormattedPlan.applyItem base plan.plan) = written.map .ok ∧
        natives.encodeBatches plan.requestedFormat plan.plan.requestedSchema written = .ok output := by
  simp only [FormattedPlan.convert, FormattedPlan.iterBatches, Natives.encodeAll, bind_eq_ok, Except.ok.injEq,
    mapM_id_ok]
  constructor
  · rintro ⟨_, ⟨decoded, read, rfl⟩, written, applied, encoded⟩
    exact ⟨decoded, written, read, applied, encoded⟩
  · rintro ⟨decoded, written, read, applied, encoded⟩
    exact ⟨_, ⟨decoded, read, rfl⟩, written, applied, encoded⟩

variable {fs : DataFileSystem} {path : String} {providedFormat requestedFormat : DataFormat}
  {provided requested : Option ResolvedSchema}

theorem decode_ok {Writer : Type} {engine : Engine Writer} {format : DataFormat} {told : Option Schema}
    {decoded : Decoded} : fs.decode engine format told = .ok decoded ↔
      ∃ data, engine.openSource fs.fo = .ok data ∧ engine.iterBatches format data told fs.limits = .ok decoded ∧
        ∀ schema, told = some schema → engine.pyarrow.schemaEquals decoded.schema schema := by
  simp only [DataFileSystem.decode, bind_eq_ok]
  refine exists_congr fun data => and_congr_right fun _ => ?_
  cases told with
  | none => simp
  | some schema =>
    simp only [Option.some.injEq, forall_eq']
    constructor
    · rintro ⟨_, read, checked⟩
      split at checked
      next same =>
        cases checked
        exact ⟨read, same⟩
      next => cases checked
    · rintro ⟨read, same⟩
      exact ⟨decoded, read, if_pos same⟩

/-- What the filesystem plans for a decoded source. -/
def planned (fs : DataFileSystem) (providedFormat requestedFormat : DataFormat)
    (provided requested : Option ResolvedSchema) (decoded : Decoded) : InterchangeRequest where
  providedFormat := providedFormat
  requestedFormat := requestedFormat
  providedSchema := orSchema (provided.map (·.schema)) decoded.schema
  requestedSchema := orSchema (requested.map (·.schema)) (orSchema (provided.map (·.schema)) decoded.schema)
  policy := fs.policy
  operations := fs.operations

/-- A format that is told its schema is decoded with it. -/
theorem iterBatches_schema {format : DataFormat} {data : List UInt8} {schema : Schema} {limits : Limits}
    {decoded : Decoded} (told : format = .csv ∨ format = .jsonLines)
    (read : natives.iterBatches format data (some schema) limits = .ok decoded) : decoded.schema = schema := by
  obtain ⟨options, -, read⟩ := bind_eq_ok.mp read
  obtain ⟨codec, own, read⟩ := bind_eq_ok.mp read
  obtain ⟨⟨stream, items⟩, items_read, made⟩ := bind_eq_ok.mp read
  have needs : codec.needsSchema = true := by
    rcases told with rfl | rfl <;> (cases own; rfl)
  cases made
  exact ((decodeReader_told needs).mp (mapError_eq_ok.mp items_read)).1

/-- The decoder is told for a plan what the filesystem tells it. -/
theorem decodeSchema_reads {data : List UInt8} {decoded : Decoded} {plan : FormattedPlan}
    (opened : base.openSource fs.fo = .ok data)
    (decodes : fs.decode (natives.engine base) providedFormat (provided.map (·.schema)) = .ok decoded)
    (plans : (planned fs providedFormat requestedFormat provided requested decoded).plan base = .ok plan) :
    natives.iterBatches plan.providedFormat data plan.decodeSchema fs.limits = .ok decoded := by
  obtain ⟨_, again, read, -⟩ := decode_ok.mp decodes
  cases opened.symm.trans again
  obtain ⟨inner, made, rfl⟩ := (plan_ok base).mp plans
  refine (iterBatches_told natives _ data fs.limits fun told => ?_).trans read
  rw [FormattedPlan.decodeSchema, if_pos told]
  show some inner.providedSchema = provided.map (·.schema)
  rw [planSchema_provided base made]
  cases provided with
  | none =>
    obtain ⟨no_csv, no_lines⟩ := iterBatches_untold natives read
    exact absurd told (not_or.mpr ⟨no_csv, no_lines⟩)
  | some schema => exact congrArg some (orSchema_eq_self.mpr (.inr (iterBatches_schema natives told read)))

/-- Converting as a file is read and written is converting all at once: it returns the same
bytes, for every format and schema, whenever the source can be decoded at all. -/
theorem convert_agrees {data : List UInt8} (opened : base.openSource fs.fo = .ok data)
    (reads : DataFileSystem.orInferred fs.providedFormat fs.fo = .ok providedFormat)
    (writes : DataFileSystem.orInferred fs.requestedFormat path = .ok requestedFormat)
    (provides : (natives.engine base).resolve fs.providedSchema = .ok provided)
    (requests : (natives.engine base).resolve fs.requestedSchema = .ok requested)
    (output : List UInt8) :
    (∃ conversion, fs.convert (natives.engine base) path = .ok conversion ∧ conversion.output = output) ↔
      ∃ decoded plan, fs.decode (natives.engine base) providedFormat (provided.map (·.schema)) = .ok decoded ∧
        (planned fs providedFormat requestedFormat provided requested decoded).plan base = .ok plan ∧
        plan.convert natives base data fs.limits = .ok output := by
  simp only [DataFileSystem.convert, reads, writes, provides, requests, ok_bind]
  constructor
  · rintro ⟨conversion, converted, rfl⟩
    obtain ⟨decoded, decodes, rest⟩ := bind_eq_ok.mp converted
    obtain ⟨inner, made, rest⟩ := bind_eq_ok.mp rest
    obtain ⟨⟨written, output⟩, encoded, rest⟩ := bind_eq_ok.mp rest
    cases rest
    have items := encodeBatchesTo_written encoded
    have plans : (planned fs providedFormat requestedFormat provided requested decoded).plan base =
        .ok ⟨inner, providedFormat, requestedFormat⟩ := (plan_ok base).mpr ⟨inner, made, rfl⟩
    refine ⟨decoded, _, decodes, plans, (convert_ok natives base _ data fs.limits _).mpr
      ⟨decoded, written, decodeSchema_reads natives base opened decodes plans, items, ?_⟩⟩
    rw [items] at encoded
    rw [show inner.requestedSchema = _ from planSchema_requested made]
    exact (encodeBatchesTo_iff natives base _ _ _ _).mp ⟨written, encoded⟩
  · rintro ⟨decoded, plan, decodes, plans, converted⟩
    have told := decodeSchema_reads natives base opened decodes plans
    obtain ⟨inner, made, rfl⟩ := (plan_ok base).mp plans
    obtain ⟨_, written, read, items, encoded⟩ := (convert_ok natives base _ data fs.limits _).mp converted
    cases told.symm.trans read
    rw [show inner.requestedSchema = _ from planSchema_requested made] at encoded
    obtain ⟨written', encoded⟩ := (encodeBatchesTo_iff natives base _ _ _ _).mpr encoded
    rw [← items] at encoded
    refine ⟨_, bind_eq_ok.mpr ⟨decoded, decodes, bind_eq_ok.mpr ⟨inner, made,
      bind_eq_ok.mpr ⟨(written', output), encoded, rfl⟩⟩⟩, rfl⟩

end Conversions

namespace Small

def oneRow : FsspecData.RecordBatch :=
  ⟨column, [⟨.int64, .plain [some (.integer 7)], by decide⟩], 1, by decide⟩

/-- Each byte of the data is a row of its own. -/
def natives : Natives where
  Writer _ := List UInt8
  writers _ := NativeCodecWriter.Small.library
  read _ data _ _ := .ok (column, data.map fun _ => .ok oneRow)
  importBatch batch :=
    if valid : FsspecData.RecordBatch.Accepts batch.schema batch.columns batch.numRows then
      .ok ⟨batch.schema, batch.columns, batch.numRows, valid⟩
    else .error (.outside "invalid batch")

def base : Engine Unit := { columnEngine with openSource := fun _ => .ok [0, 0] }

def filesystem : DataFileSystem := { Python.filesystem column with
  providedFormat := some .csv, requestedFormat := some .parquet, providedSchema := some (.schema column) }

end Small

/-- Two rows of a source that does not know its schema are written to a Parquet file. -/
theorem convert_agrees_csv : ∃ conversion,
    Small.filesystem.convert (Small.natives.engine Small.base) "target" = .ok conversion ∧
      conversion.output = [1, 1, 1, 255] := by
  exact (convert_agrees Small.natives Small.base rfl rfl rfl rfl rfl _).mpr
    ⟨⟨column, _⟩, ⟨converted.plan, .csv, .parquet⟩, rfl, rfl, rfl⟩

end FsspecData.Python
