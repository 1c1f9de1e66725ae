import FsspecData.Python.FileSystem
import FsspecData.Python.Pyarrow

/-! Which schema a conversion follows. One is asked for by truth value, and a schema
without fields is false. -/
namespace FsspecData.Python

open Fallible

variable {Writer : Type} {engine : Engine Writer} {arguments : Arguments} {fs : DataFileSystem} {path : String}
  {conversion : Conversion}

/-- The schema an argument asks for, if there is one. -/
def requestedSchema (engine : Engine Writer) (arguments : Arguments) : Except FileSystemError (Option Schema) := do
  let value ← engine.normalize arguments.requestedSchema
  let resolved ← engine.resolve value
  .ok (resolved.map (·.schema))

/-- The schema of a source: the provided one, or the decoded one in its place. -/
def sourceSchema (engine : Engine Writer) (fs : DataFileSystem) : Except FileSystemError Schema := do
  let format ← DataFileSystem.orInferred fs.providedFormat fs.fo
  let resolved ← engine.resolve fs.providedSchema
  let decoded ← fs.decode engine format (resolved.map (·.schema))
  .ok (orSchema (resolved.map (·.schema)) decoded.schema)

/-- A conversion is planned, under its policy, and encoded for a schema. -/
structure Follows (engine : Engine Writer) (fs : DataFileSystem) (conversion : Conversion) (schema : Schema) :
    Prop where
  checked : ∃ source, sourceSchema engine fs = .ok source ∧
    engine.planSchema source schema fs.policy fs.operations = .ok conversion.plan
  planned : conversion.plan.requestedSchema = schema
  encoded : conversion.encodedSchema = schema
  columns : ∀ batch ∈ conversion.written, batch.schema = schema

/-- A conversion follows the schema asked for, and the source's where none was. -/
structure Honours (engine : Engine Writer) (arguments : Arguments) (fs : DataFileSystem) (conversion : Conversion) :
    Prop where
  explicit : ∀ input, arguments.requestedSchema = some input →
    ∃ schema, requestedSchema engine arguments = .ok (some schema) ∧ Follows engine fs conversion schema
  absent : arguments.requestedSchema = none →
    ∃ source, sourceSchema engine fs = .ok source ∧ Follows engine fs conversion source

theorem planSchema_requested {provided requested : Schema} {policy : SchemaPolicy} {operations : Operations}
    {plan : InterchangePlan} (planned : engine.planSchema provided requested policy operations = .ok plan) :
    plan.requestedSchema = requested := by
  obtain ⟨options, -, rest⟩ := bind_eq_ok.mp planned
  obtain ⟨rust, built, made⟩ := bind_eq_ok.mp rest
  cases made
  obtain ⟨operations, -, rfl⟩ := map_eq_ok.mp (mapError_eq_ok.mp built)
  rfl

theorem fromArrays_schema {pyarrow : Pyarrow} {arrays : List (Option ArrayRef)} {schema : Schema}
    {batch : RecordBatch} (made : InterchangePlan.fromArrays pyarrow arrays schema = .ok batch) :
    batch.schema = schema := by
  obtain ⟨columns, -, made⟩ := bind_eq_ok.mp made
  unfold InterchangePlan.fromColumns at made
  split at made
  · contradiction
  · obtain ⟨columns, -, made⟩ := bind_eq_ok.mp made
    split at made
    · cases made
      rfl
    · contradiction

theorem applyBatch_schema {pyarrow : Pyarrow} {plan : InterchangePlan} {batch out : RecordBatch}
    (applied : plan.applyBatch pyarrow batch = .ok out) : out.schema = plan.requestedSchema := by
  obtain ⟨-, -, applied⟩ := bind_eq_ok.mp applied
  obtain ⟨arrays, -, made⟩ := bind_eq_ok.mp applied
  exact fromArrays_schema made

theorem writeAll_written {batches : List (Except FileSystemError RecordBatch)}
    {progress last : Writer × List RecordBatch} (wrote : batches.foldlM engine.writeNext progress = .ok last) :
    ∃ new, last.2 = progress.2 ++ new ∧ batches = new.map .ok := by
  induction batches generalizing progress with
  | nil =>
    cases wrote
    exact ⟨[], by simp⟩
  | cons batch rest ih =>
    rw [List.foldlM_cons] at wrote
    obtain ⟨next, one, others⟩ := bind_eq_ok.mp wrote
    obtain ⟨got, was, one⟩ := bind_eq_ok.mp one
    obtain ⟨writer, -, same⟩ := bind_eq_ok.mp one
    cases same
    obtain ⟨new, all, rfl⟩ := ih others
    exact ⟨got :: new, by simp [all], by rw [was, List.map_cons]⟩

/-- What an encoding that succeeds has written are the batches it was given. -/
theorem encodeBatchesTo_written {format : DataFormat} {schema : Schema}
    {batches : List (Except FileSystemError RecordBatch)} {written : List RecordBatch} {output : List UInt8}
    (encoded : engine.encodeBatchesTo format schema batches = .ok (written, output)) :
    batches = written.map .ok := by
  obtain ⟨writer, -, encoded⟩ := bind_eq_ok.mp encoded
  obtain ⟨last, wrote, finished⟩ := bind_eq_ok.mp encoded
  obtain ⟨bytes, -, same⟩ := bind_eq_ok.mp finished
  cases same
  obtain ⟨new, all, given⟩ := writeAll_written wrote
  rwa [all, List.nil_append]

/-- A conversion that returns follows one schema: the requested one, or the source's in its place. -/
theorem convert_follows (returned : fs.convert engine path = .ok conversion) :
    ∃ resolved source, engine.resolve fs.requestedSchema = .ok resolved ∧ sourceSchema engine fs = .ok source ∧
      Follows engine fs conversion (orSchema (resolved.map (·.schema)) source) := by
  obtain ⟨providedFormat, formatted, rest⟩ := bind_eq_ok.mp returned
  obtain ⟨requestedFormat, -, rest⟩ := bind_eq_ok.mp rest
  obtain ⟨provided, resolves, rest⟩ := bind_eq_ok.mp rest
  obtain ⟨resolved, requests, rest⟩ := bind_eq_ok.mp rest
  obtain ⟨decoded, decodes, rest⟩ := bind_eq_ok.mp rest
  obtain ⟨plan, planned, rest⟩ := bind_eq_ok.mp rest
  obtain ⟨⟨written, output⟩, encoded, rest⟩ := bind_eq_ok.mp rest
  cases rest
  have source : sourceSchema engine fs = .ok (orSchema (provided.map (·.schema)) decoded.schema) := by
    simp [sourceSchema, formatted, resolves, decodes]
  have wanted := planSchema_requested planned
  refine ⟨resolved, _, requests, source, ⟨_, source, planned⟩, wanted, rfl, fun batch member => ?_⟩
  have written_all := encodeBatchesTo_written encoded
  have among : (Except.ok batch : Except FileSystemError RecordBatch) ∈ written.map Except.ok :=
    List.mem_map_of_mem member
  rw [← written_all] at among
  obtain ⟨item, -, applied⟩ := List.mem_map.mp among
  obtain ⟨input, -, applied⟩ := bind_eq_ok.mp applied
  exact (applyBatch_schema (mapError_eq_ok.mp applied)).trans wanted

theorem orSchema_eq_self {schema other : Schema} :
    orSchema (some schema) other = schema ↔ schema.fields ≠ [] ∨ other = schema := by
  unfold orSchema
  by_cases empty : schema.fields = [] <;> simp [empty]

theorem Follows.same {schema other : Schema} (follows : Follows engine fs conversion schema)
    (again : Follows engine fs conversion other) : schema = other := follows.encoded.symm.trans again.encoded

/-- An argument resolves to a schema when it is given. -/
theorem requestedSchema_some {value : Option SchemaValue} {resolved : Option ResolvedSchema}
    (normalized : engine.normalize arguments.requestedSchema = .ok value)
    (resolves : engine.resolve value = .ok resolved) :
    requestedSchema engine arguments = .ok (resolved.map (·.schema)) ∧
      (arguments.requestedSchema = none ↔ resolved = none) := by
  refine ⟨by simp [requestedSchema, normalized, resolves], ?_⟩
  have normalizes := mapError_eq_ok.mp normalized
  have resolution := mapError_eq_ok.mp resolves
  cases given : arguments.requestedSchema with
  | none =>
    rw [given] at normalizes
    cases normalizes
    cases resolution
    simp
  | some input =>
    rw [given] at normalizes
    obtain ⟨found, rfl⟩ := normalizeSchema_some normalizes
    obtain ⟨schema, rfl⟩ := resolveSchema_some resolution
    simp

/-- A conversion honours its request unless the requested schema has no fields and the
source's schema, put in its place, is another one. -/
theorem convert_honours_iff (made : DataFileSystem.new engine arguments = .ok fs)
    (returned : fs.convert engine path = .ok conversion) :
    Honours engine arguments fs conversion ↔ ∀ schema source, requestedSchema engine arguments = .ok (some schema) →
      sourceSchema engine fs = .ok source → schema.fields ≠ [] ∨ source = schema := by
  obtain ⟨resolved, source, resolves, read, follows⟩ := convert_follows returned
  have normalized : engine.normalize arguments.requestedSchema = .ok fs.requestedSchema := by
    obtain ⟨_, -, rest⟩ := bind_eq_ok.mp made
    obtain ⟨_, -, rest⟩ := bind_eq_ok.mp rest
    obtain ⟨_, -, rest⟩ := bind_eq_ok.mp rest
    obtain ⟨value, normalized, rest⟩ := bind_eq_ok.mp rest
    obtain ⟨_, -, same⟩ := bind_eq_ok.mp rest
    cases same
    exact normalized
  obtain ⟨asked, given⟩ := requestedSchema_some normalized resolves
  cases resolved with
  | none =>
    have absent := given.mpr rfl
    constructor
    · intro _ schema _ wanted
      cases asked.symm.trans wanted
    · intro _
      exact ⟨fun input named => by simp [absent] at named, fun _ => ⟨source, read, follows⟩⟩
  | some wanted =>
    have present : arguments.requestedSchema ≠ none := fun absent => by cases given.mp absent
    constructor
    · rintro ⟨explicit, -⟩ schema other requests reads
      cases asked.symm.trans requests
      cases read.symm.trans reads
      obtain ⟨input, named⟩ := Option.ne_none_iff_exists'.mp present
      obtain ⟨schema, requested, follows'⟩ := explicit input named
      cases asked.symm.trans requested
      exact orSchema_eq_self.mp (follows.same follows')
    · intro kept
      refine ⟨fun input _ => ⟨wanted.schema, asked, ?_⟩, fun absent => absurd absent present⟩
      have same := orSchema_eq_self.mpr (kept _ _ asked read)
      rwa [Option.map_some, same] at follows

def column : Schema := ⟨[.mk "a" .int64 false []], []⟩

/-- An engine whose source holds one column and no rows. -/
def columnEngine : Engine Unit where
  libraries :=
    { typeForAlias := fun _ => .error (.outside "unknown type alias")
      urlScheme := fun _ => .ok ""
      fetch := fun _ _ => .error (.outside "not found") }
  resolvers := ⟨fun _ => none, fun _ => none⟩
  arrow := Arrow.small
  pyarrow := Pyarrow.small
  defaultArray _ := .error (.outside "no such value")
  openSource _ := .ok []
  iterBatches _ _ _ _ := .ok ⟨column, []⟩
  startWriter _ _ := .ok ()
  writeBatch _ _ := .ok ()
  finish _ := .ok []

def request (schema : Schema) : Arguments where
  fo := "source"
  providedFormat := some "arrow"
  requestedFormat := some "arrow"
  requestedSchema := some (.schema schema)

def filesystem (schema : Schema) : DataFileSystem where
  fo := "source"
  providedFormat := some .arrow
  requestedFormat := some .arrow
  providedSchema := none
  requestedSchema := some (.schema schema)
  policy := .exact
  operations := {}
  limits := {}

def converted : Conversion where
  providedProvenance := none
  requestedProvenance := some { source := "inline", format := "arrow", provider := "inline" }
  plan := ⟨column, column, .exact, [⟨0, 0, none, false⟩], []⟩
  encodedSchema := column
  written := []
  output := []

theorem request_made (schema : Schema) :
    DataFileSystem.new columnEngine (request schema) = .ok (filesystem schema) := rfl

theorem column_converted : (filesystem column).convert columnEngine "target" = .ok converted := rfl

/-- A conversion to the source's own column honours its request. -/
theorem column_honoured : Honours columnEngine (request column) (filesystem column) converted := by
  refine (convert_honours_iff (request_made column) column_converted).mpr fun schema source wanted _ => .inl ?_
  cases wanted
  simp [column]

/-- A request for no columns is given all of them, under the exact policy. -/
theorem empty_request_replaced : ∃ fs, DataFileSystem.new columnEngine (request ⟨[], []⟩) = .ok fs ∧
    fs.convert columnEngine "target" = .ok converted ∧
    ¬Honours columnEngine (request ⟨[], []⟩) fs converted := by
  refine ⟨filesystem ⟨[], []⟩, request_made _, rfl, fun honours => ?_⟩
  obtain ⟨schema, wanted, follows⟩ := honours.explicit _ rfl
  cases wanted
  cases follows.encoded

end FsspecData.Python
