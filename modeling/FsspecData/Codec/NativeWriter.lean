import FsspecData.Codec.Writer
import FsspecData.Library.Fallible

/-! The codec writer that Python holds. Its calls come in any order; `finish` takes the
writer out, and what is left is closed. -/
namespace FsspecData.Codec

open Output Machine

structure NativeCodecWriter (W : Type) where
  writer : Option (CodecWriter W)

variable {W S : Type}

namespace NativeCodecWriter

/-- The methods, and the collection of the object by Python. -/
inductive Call where
  | writeBatch (batch : RecordBatch)
  | finish
  | collect

inductive Reply where
  | returned (result : Except PyError Unit)
  | panicked

section Methods

variable (codec : Codec) (library : WriterLibrary W)

def writeBatch (self : NativeCodecWriter W) (batch : RecordBatch) :
    Writing (Except PyError Unit × NativeCodecWriter W) :=
  match self.writer with
  | none => return (.error .writerFinished, self)
  | some writer => do
    let (result, writer) ← codec.writeBatch library writer batch
    return (result.mapError toPythonError, ⟨some writer⟩)

def finish (self : NativeCodecWriter W) : Writing (Except PyError Unit × NativeCodecWriter W) :=
  match self.writer with
  | none => return (.ok (), self)
  | some writer => do
    let result ← codec.finish library writer
    return (result.mapError toPythonError, ⟨none⟩)

/-- A writer that was not finished is dropped as it is. -/
def collect (self : NativeCodecWriter W) : Writing (Except PyError Unit × NativeCodecWriter W) :=
  match self.writer with
  | none => return (.ok (), self)
  | some writer => do
    library.drop writer.writer
    return (.ok (), ⟨none⟩)

def perform (self : NativeCodecWriter W) : Call → Writing (Except PyError Unit × NativeCodecWriter W)
  | .writeBatch batch => self.writeBatch codec library batch
  | .finish => self.finish codec library
  | .collect => self.collect library

end Methods

/-- A writer and the sink it writes to. -/
structure Session (W S : Type) where
  native : NativeCodecWriter W
  sink : S

inductive Calls [Write S] (codec : Codec) (library : WriterLibrary W) :
    Session W S → Call → Reply → Session W S → Prop where
  | returned (fuel : Nat) : (s.native.perform codec library call).run (sink S) fuel s.sink =
      some (.returned (result, native), t) → Calls codec library s call (.returned result) ⟨native, t⟩
  -- what a panic leaves of the writer, and what the unwinding still writes, is open
  | panicked (fuel : Nat) (left : Session W S) : (s.native.perform codec library call).run (sink S) fuel s.sink =
      some (.panicked, t) → Calls codec library s call .panicked left

/-- The calls at a sink that takes everything: its bytes stand beside the writer. -/
def spec (codec : Codec) (library : WriterLibrary W) (state : NativeCodecWriter W × List UInt8) (call : Call) :
    Reply × NativeCodecWriter W × List UInt8 :=
  let program := state.1.perform codec library call
  (.returned program.value.1, program.value.2, state.2 ++ program.output)

section Implements

variable {codec : Codec} {library : WriterLibrary W} [Write S] {taken : S → List UInt8} {ready : S → Prop}
  {patience : S → Nat}

/-- The session is in the state that the sink's bytes say. -/
structure Held (taken : S → List UInt8) (ready : S → Prop) (s : Session W S)
    (state : NativeCodecWriter W × List UInt8) : Prop where
  native : s.native = state.1
  bytes : taken s.sink = state.2
  ready : ready s.sink

/-- No sink that goes on taking bytes is told from one that takes them all at once. -/
theorem implements (accepts : Accepts taken ready patience) :
    Implements (Calls (S := S) codec library) (spec codec library) (Held taken ready) where
  answers {s state} call held := by
    obtain ⟨fuel, t, ran, -, -⟩ := accepts.takes.run (s.native.perform codec library call) held.ready
    exact ⟨_, _, .returned fuel ran⟩
  follows {s state call reply t} held taken_step := by
    obtain ⟨enough, u, expected, bytes, ready⟩ := accepts.takes.run (s.native.perform codec library call) held.ready
    obtain ⟨native, before, ready'⟩ := held
    cases taken_step with
    | @returned _ _ result native' t' fuel ran =>
      have one := (Program.run_mono ran (Nat.le_max_left fuel enough)).symm.trans
        (Program.run_mono expected (Nat.le_max_right fuel enough))
      obtain ⟨value, rfl⟩ := Prod.mk.inj (Option.some.inj one)
      have value := Outcome.returned.inj value
      rw [native] at value bytes
      refine ⟨by rw [spec, ← value], ⟨by rw [spec, ← value], ?_, ready⟩⟩
      rw [spec, bytes, before]
    | @panicked _ _ t' fuel left ran =>
      have one := (Program.run_mono ran (Nat.le_max_left fuel enough)).symm.trans
        (Program.run_mono expected (Nat.le_max_right fuel enough))
      cases (Prod.mk.inj (Option.some.inj one)).1

end Implements

/-! What a session answers, and the batches it takes. -/

def Call.closes : Call → Bool
  | .writeBatch _ => false
  | .finish | .collect => true

/-- The answer of a writer for a schema whose library never fails. -/
def answer (schema : Schema) (closed : Bool) : Call → Except PyError Unit
  | .writeBatch batch =>
    if closed then .error .writerFinished
    else if batch.schema = schema then .ok ()
    else .error (toPythonError (.interchange .inputSchema))
  | .finish | .collect => .ok ()

def answers (schema : Schema) : (closed : Bool) → List Call → List Reply
  | _, [] => []
  | closed, call :: calls => .returned (answer schema closed call) :: answers schema (closed || call.closes) calls

/-- The batches of the schema that come before the writer is closed. -/
def accepted (schema : Schema) : List Call → List RecordBatch
  | .writeBatch batch :: calls =>
    if batch.schema = schema then batch :: accepted schema calls else accepted schema calls
  | _ => []

/-- The writer is closed, and first by `finish`. -/
def Finished : List Call → Prop
  | .writeBatch _ :: calls => Finished calls
  | .finish :: _ => True
  | _ => False

section Spec

variable (codec : Codec) (library : WriterLibrary W)

theorem spec_closed (schema : Schema) (bytes : List UInt8) (call : Call) :
    spec codec library (⟨none⟩, bytes) call = (.returned (answer schema true call), ⟨none⟩, bytes) := by
  cases call <;> simp [spec, perform, writeBatch, finish, collect, answer]

/-- A closed writer refuses batches, and does nothing more. -/
theorem outputs_closed (schema : Schema) (bytes : List UInt8) (calls : List Call) :
    outputs (spec codec library) (⟨none⟩, bytes) calls = answers schema true calls ∧
      final (spec codec library) (⟨none⟩, bytes) calls = (⟨none⟩, bytes) := by
  induction calls with
  | nil => exact ⟨rfl, rfl⟩
  | cons call calls ih =>
    obtain ⟨replies, ends⟩ := ih
    simp only [outputs, final, spec_closed codec library schema, answers, Bool.true_or]
    exact ⟨by rw [replies], ends⟩

theorem final_extends (calls : List Call) (state : NativeCodecWriter W × List UInt8) :
    ∃ rest, (final (spec codec library) state calls).2 = state.2 ++ rest := by
  induction calls generalizing state with
  | nil => exact ⟨[], (List.append_nil _).symm⟩
  | cons call calls ih =>
    obtain ⟨rest, ends⟩ := ih (spec codec library state call).2
    refine ⟨(state.1.perform codec library call).output ++ rest, ?_⟩
    rw [final, ends, ← List.append_assoc]
    rfl

/-- A batch of another schema is refused, and leaves everything as it is. -/
theorem spec_refused {writer : CodecWriter W} {batch : RecordBatch} (bytes : List UInt8)
    (other : batch.schema ≠ writer.schema) : spec codec library (⟨some writer⟩, bytes) (.writeBatch batch) =
      (.returned (answer writer.schema false (.writeBatch batch)), ⟨some writer⟩, bytes) := by
  simp [spec, perform, writeBatch, Codec.writeBatch, validateBatch, answer, other, Except.mapError]

theorem spec_written (writer : CodecWriter W) (batch : RecordBatch) (bytes : List UInt8) :
    spec codec library (⟨some writer⟩, bytes) (.writeBatch batch) =
      (.returned ((codec.writeBatch library writer batch).value.1.mapError toPythonError),
        ⟨some (codec.writeBatch library writer batch).value.2⟩,
        bytes ++ (codec.writeBatch library writer batch).output) := by
  simp [spec, perform, writeBatch]

theorem spec_finished (writer : CodecWriter W) (bytes : List UInt8) :
    spec codec library (⟨some writer⟩, bytes) .finish =
      (.returned ((codec.finish library writer).value.mapError toPythonError), ⟨none⟩,
        bytes ++ (codec.finish library writer).output) := by
  simp [spec, perform, finish]

/-- Calls are answered without a failure of the library, and write some bytes, exactly when
the batches they take are encoded to these. -/
theorem outputs_open (calls : List Call) (finished : Finished calls) (writer : CodecWriter W)
    (before bytes : List UInt8) :
    outputs (spec codec library) (⟨some writer⟩, before) calls = answers writer.schema false calls ∧
        (final (spec codec library) (⟨some writer⟩, before) calls).2 = before ++ bytes ↔
      Encodes codec library writer (accepted writer.schema calls) bytes := by
  induction calls generalizing writer before bytes with
  | nil => exact finished.elim
  | cons call calls ih =>
    cases call with
    | collect => exact finished.elim
    | finish =>
      obtain ⟨replies, ends⟩ := outputs_closed codec library writer.schema
        (before ++ (codec.finish library writer).output) calls
      simp only [outputs, final, spec_finished, answers, replies, ends, Call.closes, Bool.or_true, accepted,
        encodes_nil, List.cons.injEq, and_true, List.append_cancel_left_eq]
      cases (codec.finish library writer).value <;> simp [answer, Except.mapError, eq_comm]
    | writeBatch batch =>
      by_cases same : batch.schema = writer.schema
      · have head : answer writer.schema false (.writeBatch batch) = .ok () := by simp [answer, same]
        have taken : accepted writer.schema (.writeBatch batch :: calls) = batch :: accepted writer.schema calls := by
          simp [accepted, same]
        simp only [outputs, final, spec_written, answers, head, taken, Call.closes, Bool.or_false, List.cons.injEq]
        cases wrote : (codec.writeBatch library writer batch).value with
        | mk result written =>
          have schema := writeBatch_schema codec library writer batch
          rw [wrote] at schema
          cases result with
          | error error =>
            have failed := not_encodes_cons codec library (accepted writer.schema calls) bytes (congrArg Prod.fst wrote)
            simp [Except.mapError, failed]
          | ok _ =>
            have others := ih finished written (before ++ (codec.writeBatch library writer batch).output)
            rw [schema] at others
            simp only [Except.mapError, true_and, encodes_cons codec library _ _ wrote]
            constructor
            · rintro ⟨replies, gained⟩
              obtain ⟨rest, ends⟩ := final_extends codec library calls
                (⟨some written⟩, before ++ (codec.writeBatch library writer batch).output)
              refine ⟨rest, (others rest).mp ⟨replies, ends⟩, ?_⟩
              rw [ends, List.append_assoc] at gained
              exact (List.append_cancel_left gained).symm
            · rintro ⟨rest, encoded, rfl⟩
              rw [← List.append_assoc]
              exact (others rest).mpr encoded
      · simp only [outputs, final, spec_refused codec library before same, answers, Call.closes, Bool.or_false,
          List.cons.injEq, true_and, accepted, if_neg same]
        exact ih finished writer before bytes

end Spec

/-! A small library that buffers its rows' counts, and Python objects to write to. -/

namespace Small

def wrapped {A : Type} (answer : Except IoError Unit) (a : A) : Except LibraryError A :=
  match answer with
  | .ok _ => .ok a
  | .error error => .error (.arrow ⟨error.message⟩)

def library : WriterLibrary (List UInt8) where
  create schema := .writeAll [UInt8.ofNat schema.fields.length] fun answer => .pure (wrapped answer [])
  write buffer batch := .pure (.ok (), buffer ++ [UInt8.ofNat batch.numRows])
  flush buffer := .writeAll buffer fun answer => .pure (wrapped answer (), [])
  finish buffer := .writeAll (buffer ++ [255]) fun answer => .pure (wrapped answer (), [])
  drop buffer := .writeAll buffer fun _ => .pure ()

/-- A pipe takes two bytes at a time, and none once it is full. -/
structure Pipe where
  room : Option Nat
  bytes : List UInt8

instance : PyAny Nat where
  extractUsize n := .ok n
  extractU64 n := .ok (.ofNat n)
  castBytes _ := .error ⟨"TypeError"⟩

instance : PythonSink Pipe Nat where
  write pipe buffer :=
    if pipe.room.any (· ≤ pipe.bytes.length) then (.error ⟨"BlockingIOError"⟩, pipe)
    else (.ok (min 2 buffer.length), { pipe with bytes := pipe.bytes ++ buffer.take (min 2 buffer.length) })
  flush pipe := (.ok 0, pipe)

theorem pipe_accepts : PythonSink.Accepts Pipe.bytes fun pipe : Pipe => pipe.room = none where
  write {pipe buffer} free nonempty := by
    have some_bytes := List.length_pos_of_ne_nil nonempty
    refine ⟨min 2 buffer.length, min 2 buffer.length,
      { pipe with bytes := pipe.bytes ++ buffer.take (min 2 buffer.length) },
        ?_, rfl, ?_, Nat.min_le_right _ _, rfl, free⟩
    · simp [PythonSink.write, free]
    · omega
  flush free := ⟨0, _, rfl, rfl, free⟩

theorem pipe_honest : Honest fun writer : PythonWriter Pipe => writer.sink.bytes where
  write_ok {s buffer n t} wrote := by
    simp only [Write.write, PythonSink.write] at wrote
    split at wrote
    next full =>
      split at full
      next => cases wrote
      next => cases full
    next room =>
      split at room
      next => cases room
      next =>
        cases room
        cases wrote
        exact ⟨Nat.min_le_right _ _, rfl⟩
  write_error {s buffer error t} failed := by
    simp only [Write.write, PythonSink.write] at failed
    split at failed
    next full =>
      split at full
      next =>
        cases full
        cases failed
        rfl
      next => cases full
    next room =>
      split at room
      next => cases room
      next =>
        cases room
        cases failed
  flush flushed := by
    cases flushed
    rfl

def threeRows : RecordBatch := ⟨⟨[], []⟩, [], 3, by decide⟩

def twoRows : RecordBatch := ⟨⟨[], []⟩, [], 2, by decide⟩

def otherRows : RecordBatch := ⟨⟨[], [("key", "value")]⟩, [], 1, by decide⟩

end Small

section Session

variable [Write S] {taken : S → List UInt8} {ready : S → Prop} {patience : S → Nat}

/-- A finished session, whatever its order of calls and however short the writes of its sink.
Every sequence of calls is answered. The answers are those of a writer that never fails, and
the sink has gained some bytes, exactly when one encoding of the batches taken gives these
bytes: a refused batch leaves no trace, nor does any call behind `finish`. -/
theorem session_encodes (codec : Codec) (library : WriterLibrary W) (accepts : Accepts taken ready patience)
    {schema : Schema} {fuel : Nat} {before opened : S} {writer : CodecWriter W} (held : ready before)
    (started : (startWriter library schema).run (sink S) fuel before = some (.returned (.ok writer), opened))
    (calls : List Call) (finished : Finished calls) :
    (∃ trace last, trace.map Prod.fst = calls ∧ Run (Calls codec library) ⟨⟨some writer⟩, opened⟩ trace last) ∧
      ∀ trace last, trace.map Prod.fst = calls → Run (Calls codec library) ⟨⟨some writer⟩, opened⟩ trace last →
        ∀ bytes, trace.map Prod.snd = answers schema false calls ∧ taken last.sink = taken before ++ bytes ↔
          codec.encode library schema (accepted schema calls) = some (.ok bytes) := by
  obtain ⟨enough, reached, expected, header, open_ready⟩ := accepts.takes.run (startWriter library schema) held
  have one := (Program.run_mono started (Nat.le_max_left fuel enough)).symm.trans
    (Program.run_mono expected (Nat.le_max_right fuel enough))
  obtain ⟨value, rfl⟩ := Prod.mk.inj (Option.some.inj one)
  have value := Outcome.returned.inj value
  have own := startWriter_schema library value.symm
  have initial : Held taken ready (⟨⟨some writer⟩, opened⟩ : Session W S) (⟨some writer⟩, taken opened) :=
    ⟨rfl, rfl, open_ready⟩
  refine ⟨(implements accepts).run_exists calls initial, fun trace last inputs run bytes => ?_⟩
  have replies := ((implements accepts).run_follows run initial).1
  have bytes_last := ((implements accepts).run_final run initial).bytes
  rw [inputs] at replies bytes_last
  rw [replies, bytes_last, encode_ok, ← value]
  simp only [Except.ok.injEq]
  constructor
  · rintro ⟨answered, gained⟩
    obtain ⟨rest, ends⟩ := final_extends codec library calls (⟨some writer⟩, taken opened)
    have encoded := (outputs_open codec library calls finished writer (taken opened) rest).mp ⟨own ▸ answered, ends⟩
    refine ⟨writer, rest, rfl, own ▸ encoded, ?_⟩
    rw [ends, header, List.append_assoc] at gained
    exact (List.append_cancel_left gained).symm
  · rintro ⟨_, rest, rfl, encoded, rfl⟩
    obtain ⟨answered, ends⟩ :=
      (outputs_open codec library calls finished writer (taken opened) rest).mpr (own ▸ encoded)
    exact ⟨own ▸ answered, by rw [ends, header, List.append_assoc]⟩

/-- Two bytes at a time reach the pipe; one batch is refused before `finish`, one behind it. -/
theorem session_encodes_pipe : ∃ (trace : List (Call × Reply)) (last : Session (List UInt8) (PythonWriter Small.Pipe)),
    trace.map Prod.fst = [.writeBatch Small.threeRows, .writeBatch Small.otherRows, .writeBatch Small.twoRows, .finish,
      .writeBatch Small.twoRows, .finish] ∧
    Run (Calls ParquetCodec Small.library) ⟨⟨some ⟨⟨[], []⟩, []⟩⟩, ⟨⟨none, [7, 0]⟩⟩⟩ trace last ∧
    trace.map Prod.snd = answers ⟨[], []⟩ false (trace.map Prod.fst) ∧ last.sink.sink.bytes = [7, 0, 3, 2, 255] := by
  have started : (startWriter Small.library ⟨[], []⟩).run (sink (PythonWriter Small.Pipe)) 1 ⟨⟨none, [7]⟩⟩ =
      some (.returned (.ok ⟨⟨[], []⟩, []⟩), ⟨⟨none, [7, 0]⟩⟩) := rfl
  obtain ⟨⟨trace, last, inputs, run⟩, answered⟩ := session_encodes ParquetCodec Small.library
    (PythonWriter.accepts Small.pipe_accepts) rfl started [.writeBatch Small.threeRows, .writeBatch Small.otherRows,
      .writeBatch Small.twoRows, .finish, .writeBatch Small.twoRows, .finish] trivial
  obtain ⟨replies, bytes⟩ := (answered trace last inputs run [0, 3, 2, 255]).mpr rfl
  exact ⟨trace, last, inputs, run, inputs ▸ replies, bytes⟩

end Session

end NativeCodecWriter

end FsspecData.Codec
