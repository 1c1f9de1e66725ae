import FsspecData.Library.Machine
import FsspecData.Python.Requested
import Mathlib.Data.List.AList

/-! The sizes that a data filesystem reports. Each successful conversion of a name records
its size, which later calls report without another conversion. -/
namespace FsspecData.Python

open Machine

/-- What a call raises; `file` is an error of its temporary file. -/
inductive OpenError where
  | readOnly
  | conversion (source : FileSystemError)
  | file (message : String)

/-- The message. `conversion` is that of a failed conversion. -/
def OpenError.message (conversion : FileSystemError → String) : OpenError → String
  | .readOnly => "fsspec-data is a read-only filesystem"
  | .conversion source => conversion source
  | .file message => message

inductive Whence where
  | start
  | tail

/-- What a call finds outside: the engine of its conversion, and what `tell` and `seek` on a
temporary file that holds some bytes raise, where they do. -/
structure Outside (Writer : Type) where
  engine : Engine Writer
  tell : List UInt8 → Except String Unit
  seek : List UInt8 → Whence → Except String Unit

structure FileInfo where
  name : String
  size : ℕ
  type : String

inductive Listing where
  | entries (entries : List FileInfo)
  | names (names : List String)

/-- A conversion whose size was told: its name, what it found outside, and what it wrote. -/
structure WrittenFile (Writer : Type) where
  name : String
  outside : Outside Writer
  output : List UInt8

structure SizedFileSystem where
  filesystem : DataFileSystem
  sizes : AList fun _ : String => ℕ

/-- What a call returns or raises, the conversions it made, and what it leaves. -/
structure Outcome (Writer α : Type) where
  result : Except OpenError α
  written : List (WrittenFile Writer)
  after : SizedFileSystem

namespace SizedFileSystem

variable {Writer : Type}

/-- A filesystem as its constructor leaves it. -/
def fresh (filesystem : DataFileSystem) : SizedFileSystem := ⟨filesystem, ∅⟩

-- `strip` is fsspec's `_strip_protocol`, of which nothing is used.
variable (strip : String → String) (outside : Outside Writer) (sized : SizedFileSystem)

/-- `_open`. fsspec's own `open` hands it the stripped path. The size is recorded before the
file is rewound, which may fail as well. -/
def openFile (path mode : String) : Outcome Writer (List UInt8) :=
  if mode ≠ "rb" then ⟨.error .readOnly, [], sized⟩
  else
    let path := strip path
    match sized.filesystem.convert outside.engine path with
    | .error error => ⟨.error (.conversion error), [], sized⟩
    | .ok conversion =>
      match outside.tell conversion.output with
      | .error message => ⟨.error (.file message), [], sized⟩
      | .ok _ => ⟨((fun _ => conversion.output) <$> outside.seek conversion.output .start).mapError .file,
          [⟨path, outside, conversion.output⟩],
          { sized with sizes := sized.sizes.insert path conversion.output.length }⟩

/-- The size of an opened file, by its end. -/
def endOf (bytes : List UInt8) : Except OpenError ℕ :=
  (do
    outside.seek bytes .tail
    outside.tell bytes
    .ok bytes.length : Except String ℕ).mapError .file

def info (path : String) : Outcome Writer FileInfo :=
  let path := strip path
  match sized.sizes.lookup path with
  | some size => ⟨.ok ⟨path, size, "file"⟩, [], sized⟩
  | none =>
    let opened := sized.openFile strip outside path "rb"
    ⟨do
      let bytes ← opened.result
      let size ← endOf outside bytes
      .ok ⟨path, size, "file"⟩, opened.written, opened.after⟩

def ls (path : String) (detail : Bool) : Outcome Writer Listing :=
  let path := strip path
  if path = "" then ⟨.ok (.entries []), [], sized⟩
  else
    let entry := sized.info strip outside path
    ⟨(fun entry => if detail then .entries [entry] else .names [entry.name]) <$> entry.result, entry.written,
      entry.after⟩

inductive Call where
  | openFile (path mode : String)
  | info (path : String)
  | ls (path : String) (detail : Bool)

inductive Answer where
  | file (bytes : List UInt8)
  | info (info : FileInfo)
  | listing (listing : Listing)

structure Reply (Writer : Type) where
  result : Except OpenError Answer
  written : List (WrittenFile Writer)

def step : Call → Reply Writer × SizedFileSystem
  | .openFile path mode =>
    let outcome := sized.openFile strip outside path mode
    (⟨.file <$> outcome.result, outcome.written⟩, outcome.after)
  | .info path =>
    let outcome := sized.info strip outside path
    (⟨.info <$> outcome.result, outcome.written⟩, outcome.after)
  | .ls path detail =>
    let outcome := sized.ls strip outside path detail
    (⟨.listing <$> outcome.result, outcome.written⟩, outcome.after)

/-- The calls as a machine. Each finds the outside in a state of its own. -/
def Steps (input : Outside Writer × Call) (reply : Reply Writer) (after : SizedFileSystem) : Prop :=
  sized.step strip input.1 input.2 = (reply, after)

/-- The conversions of a run, in order. -/
def writtenIn (trace : List ((Outside Writer × Call) × Reply Writer)) : List (WrittenFile Writer) :=
  trace.flatMap fun entry => entry.2.written

/-- The latest conversion of a name. -/
def latest (written : List (WrittenFile Writer)) (name : String) : Option (WrittenFile Writer) :=
  (written.filter (·.name = name)).getLast?

variable {strip outside sized}

theorem latest_append (before later : List (WrittenFile Writer)) (name : String) :
    latest (before ++ later) name = (latest later name).or (latest before name) := by
  rw [latest, List.filter_append, List.getLast?_append, ← latest, ← latest]

theorem latest_singleton (written : WrittenFile Writer) (name : String) :
    latest [written] name = if written.name = name then some written else none := by
  rw [latest, List.filter_singleton]
  split <;> simp_all

theorem mem_of_latest {written : List (WrittenFile Writer)} {name : String} {file : WrittenFile Writer}
    (last : latest written name = some file) : file ∈ written ∧ file.name = name := by
  simpa using List.mem_filter.mp (List.mem_of_getLast? last)

/-- Every call: nothing changed, or one conversion, recorded under its name. -/
inductive Advances (outside : Outside Writer) (sized : SizedFileSystem) :
    List (WrittenFile Writer) → SizedFileSystem → Prop
  | idle : Advances outside sized [] sized
  | wrote (name : String) (conversion : Conversion)
    (converted : sized.filesystem.convert outside.engine name = .ok conversion) :
    Advances outside sized [⟨name, outside, conversion.output⟩]
      { sized with sizes := sized.sizes.insert name conversion.output.length }

theorem openFile_advances (path mode : String) :
    Advances outside sized (sized.openFile strip outside path mode).written
      (sized.openFile strip outside path mode).after := by
  unfold openFile
  split
  next => exact .idle
  next =>
    dsimp only
    split
    next => exact .idle
    next conversion converted =>
      split
      next => exact .idle
      next => exact .wrote _ conversion converted

theorem info_advances (path : String) :
    Advances outside sized (sized.info strip outside path).written (sized.info strip outside path).after := by
  unfold info
  dsimp only
  split
  next => exact .idle
  next => exact openFile_advances _ _

theorem ls_advances (path : String) (detail : Bool) :
    Advances outside sized (sized.ls strip outside path detail).written
      (sized.ls strip outside path detail).after := by
  unfold ls
  dsimp only
  split
  next => exact .idle
  next => exact info_advances _

theorem Steps.advances {input : Outside Writer × Call} {reply : Reply Writer} {after : SizedFileSystem}
    (taken : Steps strip sized input reply after) : Advances input.1 sized reply.written after := by
  obtain ⟨outside, call⟩ := input
  cases call with
  | openFile path mode =>
    cases taken
    exact openFile_advances path mode
  | info path =>
    cases taken
    exact info_advances path
  | ls path detail =>
    cases taken
    exact ls_advances path detail

/-- The recorded sizes are those of the latest conversions. -/
structure Records (filesystem : DataFileSystem) (sized : SizedFileSystem)
    (written : List (WrittenFile Writer)) : Prop where
  same : sized.filesystem = filesystem
  sizes : ∀ name, sized.sizes.lookup name = (latest written name).map (·.output.length)
  converted : ∀ file ∈ written, ∃ conversion, filesystem.convert file.outside.engine file.name = .ok conversion ∧
    conversion.output = file.output

theorem Advances.records {filesystem : DataFileSystem} {before later : List (WrittenFile Writer)}
    {after : SizedFileSystem} (records : Records filesystem sized before)
    (advances : Advances outside sized later after) :
    Records filesystem after (before ++ later) := by
  obtain ⟨rfl, sizes, outputs⟩ := records
  cases advances with
  | idle =>
    rw [List.append_nil]
    exact ⟨rfl, sizes, outputs⟩
  | wrote name conversion converted =>
    refine ⟨rfl, fun other => ?_, ?_⟩
    · rw [latest_append, latest_singleton]
      by_cases same : name = other
      · subst same
        simp
      · rw [AList.lookup_insert_ne (Ne.symm same), sizes, if_neg same, Option.none_or]
    · intro file member
      rcases List.mem_append.mp member with earlier | now
      · exact outputs file earlier
      · obtain rfl := List.mem_singleton.mp now
        exact ⟨conversion, converted, rfl⟩

theorem run_records {filesystem : DataFileSystem} {trace : List ((Outside Writer × Call) × Reply Writer)}
    {before : List (WrittenFile Writer)} {last : SizedFileSystem} (run : Run (Steps strip) sized trace last)
    (records : Records filesystem sized before) : Records filesystem last (before ++ writtenIn trace) := by
  induction run generalizing before with
  | nil =>
    rw [writtenIn, List.flatMap_nil, List.append_nil]
    exact records
  | cons first rest ih =>
    have kept := ih (first.advances.records records)
    rwa [List.append_assoc] at kept

theorem fresh_records (filesystem : DataFileSystem) :
    Records filesystem (fresh filesystem) ([] : List (WrittenFile Writer)) where
  same := rfl
  sizes name := AList.lookup_empty name
  converted _ member := absurd member List.not_mem_nil

theorem info_recorded {path : String} {size : ℕ} (recorded : sized.sizes.lookup (strip path) = some size) :
    sized.info strip outside path = ⟨.ok ⟨strip path, size, "file"⟩, [], sized⟩ := by
  simp only [info, recorded]

theorem info_unrecorded {path : String} (unrecorded : sized.sizes.lookup (strip path) = none) :
    (sized.info strip outside path).result = (do
      let bytes ← (sized.openFile strip outside (strip path) "rb").result
      let size ← endOf outside bytes
      .ok ⟨strip path, size, "file"⟩) := by
  simp only [info, unrecorded]

/-- An open that converts gives what was written, unless its temporary file fails. -/
theorem openFile_result {path : String} {conversion : Conversion}
    (converted : sized.filesystem.convert outside.engine (strip path) = .ok conversion)
    (told : outside.tell conversion.output = .ok ()) (rewound : outside.seek conversion.output .start = .ok ()) :
    (sized.openFile strip outside path "rb").result = .ok conversion.output := by
  simp only [openFile, ne_eq, not_true_eq_false, if_false, converted, told, rewound]
  rfl

theorem openFile_refused {path mode : String}
    (refused : mode = "rb" → ∃ error, sized.filesystem.convert outside.engine (strip path) = .error error) :
    (∃ error, (sized.openFile strip outside path mode).result = .error error) ∧
      (sized.openFile strip outside path mode).after = sized := by
  unfold openFile
  split
  next => exact ⟨⟨_, rfl⟩, rfl⟩
  next readable =>
    obtain ⟨error, failed⟩ := refused (not_not.mp readable)
    simp only [failed]
    exact ⟨⟨_, rfl⟩, trivial⟩

/-- `info` reports the size of the latest conversion under the path's name in the whole
history, and that of a conversion made now where there was none. An open whose conversion
fails records nothing. -/
theorem info_latest {Writer : Type} (strip : String → String) (filesystem : DataFileSystem) :
    ∀ (trace : List ((Outside Writer × Call) × Reply Writer)) (sized : SizedFileSystem),
      Run (Steps strip) (fresh filesystem) trace sized → ∀ (outside : Outside Writer) (path : String),
        (∀ file, latest (writtenIn trace) (strip path) = some file →
          (sized.info strip outside path).result = .ok ⟨strip path, file.output.length, "file"⟩ ∧
          (filesystem.convert outside.engine (strip path) = filesystem.convert file.outside.engine (strip path) →
            strip (strip path) = strip path → outside.tell file.output = .ok () →
            outside.seek file.output .start = .ok () →
            (sized.openFile strip outside (strip path) "rb").result = .ok file.output)) ∧
        (latest (writtenIn trace) (strip path) = none → (sized.info strip outside path).result = (do
          let bytes ← (sized.openFile strip outside (strip path) "rb").result
          let size ← endOf outside bytes
          .ok ⟨strip path, size, "file"⟩)) ∧
        ∀ mode, (mode = "rb" → ∃ error, filesystem.convert outside.engine (strip path) = .error error) →
          (∃ error, (sized.openFile strip outside path mode).result = .error error) ∧
            (sized.openFile strip outside path mode).after = sized := by
  intro trace sized run outside path
  have records := run_records run (fresh_records filesystem)
  rw [List.nil_append] at records
  have recorded := records.sizes (strip path)
  refine ⟨fun file last => ⟨?_, fun unchanged specific told rewound => ?_⟩, fun absent => ?_, fun mode refused => ?_⟩
  · rw [last] at recorded
    rw [info_recorded recorded]
  · obtain ⟨member, named⟩ := mem_of_latest last
    obtain ⟨conversion, converted, output⟩ := records.converted file member
    rw [named, ← unchanged] at converted
    rw [← output] at told rewound ⊢
    exact openFile_result (by rw [specific, records.same, converted]) told rewound
  · rw [absent] at recorded
    exact info_unrecorded recorded
  · rw [← records.same] at refused
    exact openFile_refused refused

/-- An outside whose source object has a column for each byte. What is written has a byte
for each column. -/
def sourceEngine (source : List UInt8) : Engine (List UInt8) where
  libraries := columnEngine.libraries
  resolvers := columnEngine.resolvers
  arrow := columnEngine.arrow
  pyarrow := columnEngine.pyarrow
  defaultArray := columnEngine.defaultArray
  openSource _ := .ok source
  iterBatches _ bytes _ _ := .ok ⟨⟨bytes.map fun _ => .mk "a" .int64 false [], []⟩, []⟩
  startWriter _ schema := .ok (schema.fields.map fun _ => 0)
  writeBatch writer _ := .ok writer
  finish writer := .ok writer

/-- Temporary files that never fail. -/
def sound (source : List UInt8) : Outside (List UInt8) := ⟨sourceEngine source, fun _ => .ok (), fun _ _ => .ok ()⟩

/-- Temporary files on a disk that is full, which rewinding finds out when it writes the rest. -/
def full (source : List UInt8) : Outside (List UInt8) :=
  ⟨sourceEngine source, fun _ => .ok (), fun _ _ => .error "[Errno 28] No space left on device"⟩

def plainFileSystem : DataFileSystem := { Python.filesystem column with requestedSchema := none }

/-- The filesystem after one conversion of a source with one column. -/
def opened : SizedFileSystem := ⟨plainFileSystem, (∅ : AList fun _ : String => ℕ).insert "target" 1⟩

def openedOnce : List ((Outside (List UInt8) × Call) × Reply (List UInt8)) :=
  [((sound [1], .openFile "target" "rb"), ⟨.ok (.file [0]), [⟨"target", sound [1], [0]⟩]⟩)]

theorem openedOnce_run : Run (Steps id) (fresh plainFileSystem) openedOnce opened := by
  have taken : Steps id (fresh plainFileSystem) (sound [1], .openFile "target" "rb")
    ⟨.ok (.file [0]), [⟨"target", sound [1], [0]⟩]⟩ opened := rfl
  exact .cons taken .nil

theorem info_latest_opened : (opened.info id (sound [1]) "target").result = .ok ⟨"target", 1, "file"⟩ ∧
    (opened.openFile id (sound [1]) "target" "rb").result = .ok [0] := by
  have latest := (info_latest id plainFileSystem openedOnce opened openedOnce_run (sound [1]) "target").1
    ⟨"target", sound [1], [0]⟩ rfl
  exact ⟨latest.1, latest.2 rfl rfl rfl rfl⟩

/-- When the source has changed, the reported size is not that of what would be opened. And an
open that fails when it rewinds its file has recorded a size. -/
theorem info_outdated :
    (∃ sized, Run (Steps id) (fresh plainFileSystem) openedOnce sized ∧
      (sized.info id (sound []) "target").result = .ok ⟨"target", 1, "file"⟩ ∧
      (sized.openFile id (sound []) "target" "rb").result = .ok []) ∧
    (∃ error, ((fresh plainFileSystem).openFile id (full [1]) "target" "rb").result = .error error) ∧
      ((fresh plainFileSystem).openFile id (full [1]) "target" "rb").after.sizes.lookup "target" = some 1 ∧
      (fresh plainFileSystem).sizes.lookup "target" = none :=
  ⟨⟨opened, openedOnce_run, rfl, rfl⟩, ⟨_, rfl⟩, rfl, rfl⟩

end SizedFileSystem

end FsspecData.Python
