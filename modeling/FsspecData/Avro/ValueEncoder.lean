import FsspecData.Avro.Queue
import FsspecData.Arrow.SmallKernel
import Mathlib.Logic.Function.Basic

/-! The encoder of individual Avro values, and its values at the decoder. Several encoders
may feed one decoder, each with the schema and the ID it was made for; the Avro library's
encoder and the binary form of a row are parameters. A schema ID without a body waits for
the value after it. -/
namespace FsspecData.Avro

open Machine

/-- The library's builders, and its encoder: it writes rows, and a flush takes them. -/
structure Encoder (D E : Type) where
  buildDecoder : (schema : String) → AvroFraming → (batchSize : Nat) → Except ArrowError D
  decoderSchema : D → Schema
  buildEncoder : Schema → Option UInt32 → Except ArrowError E
  encode : E → RecordBatch → Except ArrowError Unit × E
  flush : E → List (List UInt8) × E

structure AvroValueEncoder (E : Type) where
  encoder : E
  schema : Schema

/-- `RecordBatch::try_new`: the row count is the first column's. -/
def tryNew (arrow : Arrow) (schema : Schema) (columns : List ArrayRef) : Except ArrowError RecordBatch :=
  match columns with
  | [] => .error (arrow.rejection schema [] 0)
  | column :: _ => arrow.tryNewWithOptions schema columns column.length

/-- The metadata key under which the library looks for the Avro schema. -/
def schemaMetadataKey : String := "avro.schema"

def insertMetadata (metadata : Metadata) (key value : String) : Metadata :=
  (metadata.filter (·.1 ≠ key)) ++ [(key, value)]

variable {D E : Type} (library : Encoder D E) (arrow : Arrow)

/-- The Arrow schema that values with an Avro schema decode to. -/
def avroArrowSchema (schema : String) : Except InterchangeError Schema :=
  match library.buildDecoder schema .unframed 1 with
  | .ok decoder => .ok (library.decoderSchema decoder)
  | .error source => .error (.arrow source)

namespace AvroValueEncoder

def new (schema : String) (schemaId : Option UInt32) : Except InterchangeError (AvroValueEncoder E) :=
  match avroArrowSchema library schema with
  | .error error => .error error
  | .ok arrow =>
    let arrow : Schema := ⟨arrow.fields, insertMetadata arrow.metadata schemaMetadataKey schema⟩
    match library.buildEncoder arrow schemaId with
    | .ok encoder => .ok ⟨encoder, arrow⟩
    | .error source => .error (.arrow source)

/-- Each row of a batch, whose columns must match the schema by position. -/
def encode (s : AvroValueEncoder E) (batch : RecordBatch) :
    Except InterchangeError (List (List UInt8)) × AvroValueEncoder E :=
  match tryNew arrow s.schema batch.columns with
  | .error source => (.error (.arrow source), s)
  | .ok batch =>
    match library.encode s.encoder batch with
    | (.error source, encoder) => (.error (.arrow source), { s with encoder })
    | (.ok _, encoder) => (.ok (library.flush encoder).1, { s with encoder := (library.flush encoder).2 })

end AvroValueEncoder

/-! The bytes of a value. -/

/-- A schema ID, most significant byte first. -/
def idBytes (id : UInt32) : List UInt8 :=
  [(id >>> 24).toUInt8, (id >>> 16).toUInt8, (id >>> 8).toUInt8, id.toUInt8]

/-- What an encoder was made for. -/
@[ext] structure Sender where
  schema : String
  schemaId : Option UInt32

def Sender.header (sender : Sender) : List UInt8 :=
  match sender.schemaId with
  | none => []
  | some id => 0 :: idBytes id

theorem byte_testBit (n shift i : Nat) : ((n >>> shift % 2 ^ 8) <<< shift % 2 ^ 32).testBit i =
    (decide (i < 32) && decide (shift ≤ i) && decide (i < shift + 8) && n.testBit i) := by
  rw [Nat.testBit_mod_two_pow, Nat.testBit_shiftLeft, Nat.testBit_mod_two_pow, Nat.testBit_shiftRight]
  by_cases after : shift ≤ i
  · have here : shift + (i - shift) = i := by omega
    have within : i - shift < 8 ↔ i < shift + 8 := by omega
    simp [after, here, within, Bool.and_assoc]
  · simp [after]

/-- The decoder reads the ID that the encoder wrote. -/
theorem schemaId_idBytes (id : UInt32) :
    schemaId (id >>> 24).toUInt8 (id >>> 16).toUInt8 (id >>> 8).toUInt8 id.toUInt8 = id := by
  apply UInt32.toNat_inj.mp
  simp only [schemaId, UInt32.toNat_or, UInt32.toNat_shiftLeft, UInt8.toNat_toUInt32, UInt32.toNat_toUInt8,
    UInt32.toNat_shiftRight]
  have word : id.toNat < 2 ^ 32 := id.toNat_lt
  generalize id.toNat = n at word
  apply Nat.eq_of_testBit_eq
  intro i
  have high (past : 32 ≤ i) : n.testBit i = false :=
    Nat.testBit_lt_two_pow (Nat.lt_of_lt_of_le word (Nat.pow_le_pow_right (by decide) past))
  have lowest : (n % 2 ^ 8).testBit i = (decide (i < 8) && n.testBit i) := Nat.testBit_mod_two_pow ..
  change (((n >>> 24 % 2 ^ 8) <<< 24 % 2 ^ 32 ||| (n >>> 16 % 2 ^ 8) <<< 16 % 2 ^ 32 |||
    (n >>> 8 % 2 ^ 8) <<< 8 % 2 ^ 32 ||| n % 2 ^ 8).testBit i) = _
  rw [Nat.testBit_or, Nat.testBit_or, Nat.testBit_or, byte_testBit, byte_testBit, byte_testBit, lowest]
  cases bit : n.testBit i with
  | false => simp
  | true =>
    have below : i < 32 := by
      by_contra past
      simp [high (by omega)] at bit
    simp only [Bool.and_true, Bool.or_eq_true, Bool.and_eq_true, decide_eq_true_eq]
    omega

/-- The binary form of rows: what a writer schema makes of them, and what they are once resolved. -/
structure RecordWriter (R : Type) where
  write : (writer : String) → R → List UInt8
  resolve : (writer : String) → R → R

namespace Sender

variable {R : Type} (writer : RecordWriter R) (wire : Wire R) (sender : Sender)

def frame (row : R) : List UInt8 := sender.header ++ writer.write sender.schema row

theorem frame_eq {id : UInt32} (named : sender.schemaId = some id) (row : R) : ∃ a b c d,
    Avro.schemaId a b c d = id ∧
      sender.frame writer row = 0 :: a :: b :: c :: d :: writer.write sender.schema row := by
  refine ⟨_, _, _, _, schemaId_idBytes id, ?_⟩
  rw [Sender.frame, header, named]
  rfl

/-- The decoder knows the sender's schema, and reads back what is written with it, whatever
follows. -/
structure Understood : Prop where
  known : match sender.schemaId with
    | none => wire.framing = .unframed ∧ sender.schema = wire.schema
    | some id => wire.writer id = some sender.schema
  reads : ∀ row rest, wire.records.read sender.schema wire.schema (writer.write sender.schema row ++ rest) =
    .complete (writer.write sender.schema row).length (writer.resolve sender.schema row)

variable {writer wire sender} {writers : List (UInt32 × String)}

theorem Understood.framed_known (understood : sender.Understood writer wire)
    (framed : wire.framing = .confluent writers) :
    ∃ id, sender.schemaId = some id ∧ wire.writer id = some sender.schema := by
  have known := understood.known
  cases named : sender.schemaId with
  | none =>
    rw [named] at known
    cases framed.symm.trans known.1
  | some id =>
    rw [named] at known
    exact ⟨id, rfl, known⟩

theorem Understood.unframed_known (understood : sender.Understood writer wire) (bare : wire.framing = .unframed) :
    sender.schemaId = none ∧ sender.schema = wire.schema := by
  have known := understood.known
  cases named : sender.schemaId with
  | none =>
    rw [named] at known
    exact ⟨rfl, known.2⟩
  | some id =>
    rw [named] at known
    simp [Wire.writer, bare] at known

/-- Behind its ID the row is read whole, whatever follows. -/
theorem Understood.body_written (understood : sender.Understood writer wire) {id : UInt32}
    (known : wire.writer id = some sender.schema) (row : R) (rest : List UInt8) :
    wire.body id (writer.write sender.schema row ++ rest) =
      .complete (writer.write sender.schema row).length (writer.resolve sender.schema row) := by
  rw [Wire.body, known]
  exact understood.reads row rest

/-- A bare frame is its row, unless it has no bytes. -/
theorem Understood.frame_reading (understood : sender.Understood writer wire) (bare : wire.framing = .unframed)
    (row : R) : wire.reading none (sender.frame writer row) =
      ⟨if (writer.write sender.schema row).isEmpty then [] else [writer.resolve sender.schema row], none, .done⟩ := by
  obtain ⟨headless, same⟩ := understood.unframed_known bare
  have read := understood.reads row []
  rw [List.append_nil] at read
  have datum : wire.datum (writer.write sender.schema row) = .complete (writer.write sender.schema row).length
      (writer.resolve sender.schema row) := by
    rw [← read, same]
    rfl
  have frame : sender.frame writer row = writer.write sender.schema row := by
    rw [Sender.frame, header, headless]
    rfl
  rw [frame]
  by_cases empty : writer.write sender.schema row = []
  · simp [Wire.reading, bare, Wire.readUnframed, empty]
  · simp [Wire.reading, bare, Wire.readUnframed, empty, datum]

/-- A frame behind an ID is read to its end. An empty row leaves its ID. -/
theorem Understood.frame_messages (understood : sender.Understood writer wire)
    (framed : wire.framing = .confluent writers) (row : R) : wire.Messages none (sender.frame writer row)
      (if (writer.write sender.schema row).isEmpty then [] else [writer.resolve sender.schema row])
      (if (writer.write sender.schema row).isEmpty then sender.schemaId else none) := by
  obtain ⟨id, named, known⟩ := understood.framed_known framed
  have written := understood.body_written known row []
  rw [List.append_nil] at written
  obtain ⟨a, b, c, d, rfl, frame⟩ := sender.frame_eq writer named row
  rw [frame, named]
  apply Wire.Messages.schemaId (by rw [known]; rfl)
  by_cases empty : writer.write sender.schema row = []
  · simp only [empty, List.isEmpty_nil, if_true]
    exact .done
  · simp only [empty, List.isEmpty_iff, if_false]
    exact .body empty written (by rw [List.drop_length]; exact .done)

/-- A row without bytes is read when more bytes follow its ID. -/
theorem Understood.waiting_messages (understood : sender.Understood writer wire)
    (framed : wire.framing = .confluent writers) {row : R} (empty : (writer.write sender.schema row).isEmpty)
    {bytes : List UInt8} {rows : List R} {last : Option UInt32} (unread : bytes ≠ [])
    (messages : wire.Messages none bytes rows last) :
    wire.Messages sender.schemaId bytes (writer.resolve sender.schema row :: rows) last := by
  obtain ⟨id, named, known⟩ := understood.framed_known framed
  have written := understood.body_written known row bytes
  rw [List.isEmpty_iff.mp empty, List.nil_append] at written
  rw [named]
  exact .body unread written messages

end Sender

/-- The library's encoder as documented: it writes with the schema in the metadata it was built
with, one value a row behind the ID it was given, and a flush takes the values written. -/
structure Encoder.Documented {R : Type} (library : Encoder D E) (writer : RecordWriter R)
    (rowsOf : List ArrayRef → List R) (sender : E → Sender) (view : E → List (List UInt8)) : Prop where
  build_view {schema : Schema} {schemaId : Option UInt32} {e : E} : library.buildEncoder schema schemaId = .ok e →
    view e = [] ∧ (sender e).schemaId = schemaId ∧ (schemaMetadataKey, (sender e).schema) ∈ schema.metadata
  encode_sender (e : E) (batch : RecordBatch) : sender (library.encode e batch).2 = sender e
  encode_view {e : E} {batch : RecordBatch} : (library.encode e batch).1 = .ok () →
    view (library.encode e batch).2 = view e ++ (rowsOf batch.columns).map ((sender e).frame writer)
  flush_values (e : E) : (library.flush e).1 = view e
  flush_sender (e : E) : sender (library.flush e).2 = sender e
  flush_view (e : E) : view (library.flush e).2 = []

/-! Encoders side by side. -/

variable {K R : Type} [DecidableEq K]

abbrev Encoded : Type := Except InterchangeError (List (List UInt8))

/-- One of several encoders encodes a batch. -/
inductive Encodes : (K → AvroValueEncoder E) → K × RecordBatch → Encoded → (K → AvroValueEncoder E) → Prop where
  | encode {encoders : K → AvroValueEncoder E} {k : K} {batch : RecordBatch} {result : Encoded}
      {t : AvroValueEncoder E} (encoded : (encoders k).encode library arrow batch = (result, t)) :
      Encodes encoders (k, batch) result (Function.update encoders k t)

/-- The values of some encodings, in the order in which they were returned. -/
def values (trace : List ((K × RecordBatch) × Encoded)) : List (List UInt8) :=
  trace.flatMap fun entry => entry.2.toOption.getD []

/-- The rows behind them, each with its encoder. -/
def sentRows (rowsOf : List ArrayRef → List R) (trace : List ((K × RecordBatch) × Encoded)) : List (K × R) :=
  trace.flatMap fun entry =>
    match entry.2 with
    | .ok _ => (rowsOf entry.1.2.columns).map (entry.1.1, ·)
    | .error _ => []

/-- The library refused nothing: what failed, failed before it. -/
def Clean (schemas : K → Schema) (trace : List ((K × RecordBatch) × Encoded)) : Prop :=
  ∀ entry ∈ trace, ∀ error, entry.2 = .error error →
    ∃ source, tryNew arrow (schemas entry.1.1) entry.1.2.columns = .error source

/-- An encoder between two calls. -/
structure Ready (sender : E → Sender) (view : E → List (List UInt8)) (own : Sender) (schema : Schema)
    (s : AvroValueEncoder E) : Prop where
  sender : sender s.encoder = own
  taken : view s.encoder = []
  schema : s.schema = schema

section Senders

variable {library} {arrow} {writer : RecordWriter R} {rowsOf : List ArrayRef → List R} {sender : E → Sender}
  {view : E → List (List UInt8)} {own : Sender} {schema : Schema} {s t : AvroValueEncoder E}

theorem insertMetadata_member {metadata : Metadata} {key value other : String}
    (member : (key, other) ∈ insertMetadata metadata key value) : other = value := by
  simpa [insertMetadata] using member

theorem new_ready (documented : library.Documented writer rowsOf sender view)
    (made : AvroValueEncoder.new library own.schema own.schemaId = .ok s) : Ready sender view own s.schema s := by
  unfold AvroValueEncoder.new at made
  split at made
  next => cases made
  next arrow _ =>
    dsimp only at made
    split at made
    next encoder built =>
      cases made
      obtain ⟨taken, schemaId, embedded⟩ := documented.build_view built
      exact ⟨Sender.ext (insertMetadata_member embedded) schemaId, taken, rfl⟩
    next => cases made

theorem tryNew_ok {columns : List ArrayRef} {batch : RecordBatch} (made : tryNew arrow schema columns = .ok batch) :
    batch.columns = columns := by
  unfold tryNew at made
  split at made
  next => cases made
  next =>
    obtain ⟨valid, rfl⟩ := Arrow.tryNewWithOptions_ok.mp made
    rfl

theorem encode_ready (documented : library.Documented writer rowsOf sender view)
    (ready : Ready sender view own schema s) {batch : RecordBatch} {sent : List (List UInt8)}
    (encoded : s.encode library arrow batch = (.ok sent, t)) :
    sent = (rowsOf batch.columns).map (own.frame writer) ∧ Ready sender view own schema t := by
  unfold AvroValueEncoder.encode at encoded
  split at encoded
  next => cases encoded
  next checked made =>
    have columns := tryNew_ok made
    have same := documented.encode_sender s.encoder checked
    split at encoded
    next => cases encoded
    next encoder called =>
      have written := documented.encode_view (show (library.encode s.encoder checked).1 = .ok () by rw [called])
      rw [called] at same written
      cases encoded
      rw [ready.sender] at same
      rw [ready.taken, ready.sender, columns] at written
      exact ⟨(documented.flush_values encoder).trans written,
        (documented.flush_sender encoder).trans same, documented.flush_view encoder, ready.schema⟩

theorem encode_refused {batch : RecordBatch} {source : ArrowError} {result : Encoded}
    (refused : tryNew arrow s.schema batch.columns = .error source)
    (encoded : s.encode library arrow batch = (result, t)) : result = .error (.arrow source) ∧ t = s := by
  unfold AvroValueEncoder.encode at encoded
  rw [refused] at encoded
  cases encoded
  exact ⟨rfl, rfl⟩

variable {senders : K → Sender} {schemas : K → Schema} {encoders last : K → AvroValueEncoder E}
  {trace : List ((K × RecordBatch) × Encoded)}

/-- The values of a run are the frames of its rows, whichever encoders took turns. -/
theorem run_values (documented : library.Documented writer rowsOf sender view)
    (run : Run (Encodes library arrow) encoders trace last)
    (ready : ∀ k, Ready sender view (senders k) (schemas k) (encoders k)) (clean : Clean arrow schemas trace) :
    values trace = (sentRows rowsOf trace).map fun sent => (senders sent.1).frame writer sent.2 := by
  induction run with
  | nil => rfl
  | @cons encoders input result next trace last first rest ih =>
    cases first with
    | @encode k batch _ t encoded =>
      have later : Clean arrow schemas trace := fun entry member => clean entry (List.mem_cons_of_mem _ member)
      have kept (held : Ready sender view (senders k) (schemas k) t) (k' : K) :
          Ready sender view (senders k') (schemas k') (Function.update encoders k t k') := by
        by_cases same : k' = k
        · subst same
          simpa using held
        · simpa [same] using ready k'
      cases result with
      | ok sent =>
        obtain ⟨rfl, held⟩ := encode_ready documented (ready k) encoded
        have others := ih (kept held) later
        simp only [values, sentRows, List.flatMap_cons, List.map_append] at others ⊢
        rw [others]
        simp [Except.toOption]
      | error error =>
        obtain ⟨source, refused⟩ := clean _ List.mem_cons_self error rfl
        rw [← (ready k).schema] at refused
        obtain ⟨-, rfl⟩ := encode_refused refused encoded
        have others := ih (kept (ready k)) later
        simp only [values, sentRows, List.flatMap_cons, List.map_append] at others ⊢
        rw [others]
        simp [Except.toOption]

end Senders

/-! What arrives. -/

/-- The values that some calls push. -/
def pushed (calls : List Call) : List (List UInt8) :=
  calls.filterMap fun
    | .push value => some value
    | .flush => none

/-- The rows of a reply, where it has any. -/
def Reply.rows {R : Type} : Reply R → List R
  | .flushed (.ok (some rows)) => rows
  | _ => []

/-- The call failed. -/
def Reply.Failed {R : Type} : Reply R → Prop
  | .pushed (.error _) | .flushed (.error _) => True
  | _ => False

/-- Values read to their ends one after another, and the rows read. -/
inductive ReadAll {R : Type} (wire : Wire R) : Option UInt32 → List (List UInt8) → List R → Prop where
  | nil {awaiting : Option UInt32} : ReadAll wire awaiting [] []
  | cons {awaiting next : Option UInt32} {value : List UInt8} {values : List (List UInt8)} {rows later : List R} :
      wire.reading awaiting value = ⟨rows, next, .done⟩ → ReadAll wire next values later →
      ReadAll wire awaiting (value :: values) (rows ++ later)

section Receiver

variable {wire : Wire R}

/-- However the flushes fall, a last one completes the rows of the values pushed. -/
theorem outputs_rows (rows : List R) (calls : List Call) {awaiting : Option UInt32} {later : List R}
    (read : ReadAll wire awaiting (pushed calls) later) :
    (outputs wire.answer ⟨rows, awaiting⟩ (calls ++ [.flush])).flatMap Reply.rows = rows ++ later ∧
      ∀ reply ∈ outputs wire.answer ⟨rows, awaiting⟩ (calls ++ [.flush]), ¬ reply.Failed := by
  induction calls generalizing rows awaiting later with
  | nil =>
    cases read
    cases rows with
    | nil => simp [outputs, Wire.answer, Reply.rows, Reply.Failed]
    | cons row rest => simp [outputs, Wire.answer, Reply.rows, Reply.Failed]
  | cons call calls ih =>
    cases call with
    | push value =>
      cases read with
      | @cons _ next _ _ own later first rest =>
        have added : wire.push ⟨rows, awaiting⟩ value = (.ok (), ⟨rows ++ own, next⟩) := by
          simp [Wire.push, first, Outcome.result]
        obtain ⟨complete, calm⟩ := ih (rows ++ own) rest
        rw [List.cons_append, outputs, Wire.answer, added]
        refine ⟨?_, List.forall_mem_cons.mpr ⟨not_false, calm⟩⟩
        rw [List.flatMap_cons, complete, List.append_assoc]
        rfl
    | flush =>
      obtain ⟨complete, calm⟩ := ih [] read
      rw [List.cons_append, outputs, Wire.answer]
      refine ⟨?_, List.forall_mem_cons.mpr ⟨not_false, calm⟩⟩
      rw [List.flatMap_cons, complete, List.nil_append]
      cases rows with
      | nil => rfl
      | cons row others => rfl

end Receiver

/-- What of some elements has come out in the end, where `empty` ones have no bytes. A bare
one never does; behind an ID it comes out with the next, so that only a last one is missing. -/
def arrived {α : Type} (framing : AvroFraming) (empty : α → Bool) (sent : List α) : List α :=
  match framing with
  | .unframed => sent.filter (!empty ·)
  | .confluent _ => if sent.getLast?.any empty then sent.dropLast else sent

section Arrived

variable {α : Type} {framing : AvroFraming} {writers : List (UInt32 × String)} {empty : α → Bool} {first second : α}
  {sent : List α}

theorem arrived_all (filled : ∀ element ∈ sent, empty element = false) : arrived framing empty sent = sent := by
  unfold arrived
  split
  next => exact List.filter_eq_self.mpr fun element member => by rw [filled element member]; rfl
  next =>
    cases found : sent.getLast? with
    | none => rfl
    | some last => rw [Option.any_some, filled last (List.mem_of_getLast? found), if_neg Bool.false_ne_true]

theorem arrived_cons_cons :
    arrived (.confluent writers) empty (first :: second :: sent) =
      first :: arrived (.confluent writers) empty (second :: sent) := by
  unfold arrived
  dsimp only
  rw [List.getLast?_cons_cons]
  split <;> rfl

theorem arrived_filled (filled : empty first = false) :
    arrived (.confluent writers) empty (first :: sent) = first :: arrived (.confluent writers) empty sent := by
  cases sent with
  | nil => simp [arrived, filled]
  | cons second sent => exact arrived_cons_cons

theorem arrived_single (bare : empty first = true) : arrived (.confluent writers) empty [first] = [] := by
  simp [arrived, bare]

end Arrived

section Frames

variable {K : Type} {wire : Wire R} {writer : RecordWriter R} {senders : K → Sender} {writers : List (UInt32 × String)}

/-- The datum has no bytes. -/
def bodiless (writer : RecordWriter R) (senders : K → Sender) (sent : K × R) : Bool :=
  (writer.write (senders sent.1).schema sent.2).isEmpty

def resolved (writer : RecordWriter R) (senders : K → Sender) (sent : K × R) : R :=
  writer.resolve (senders sent.1).schema sent.2

theorem reading_messages {awaiting last : Option UInt32} {value : List UInt8} {rows : List R}
    (framed : wire.framing = .confluent writers) :
    wire.reading awaiting value = ⟨rows, last, .done⟩ ↔ wire.Messages awaiting value rows last := by
  rw [wire.reading_framed (by simp [framed]), Wire.readFramed_done_iff]

/-- A row whose ID waits is read first. -/
theorem readAll_waiting (understood : ∀ k, (senders k).Understood writer wire)
    (framed : wire.framing = .confluent writers) {waiting : K × R} (bare : bodiless writer senders waiting = true)
    {value : List UInt8} (unread : value ≠ []) {values : List (List UInt8)} {rows : List R}
    (read : ReadAll wire none (value :: values) rows) :
    ReadAll wire (senders waiting.1).schemaId (value :: values) (resolved writer senders waiting :: rows) := by
  cases read with
  | cons first rest =>
    have messages := (reading_messages framed).mp first
    have waited := (understood waiting.1).waiting_messages framed bare unread messages
    exact .cons ((reading_messages framed).mpr waited) rest

/-- By induction on the rows, with and without an ID that waits for its body. -/
theorem readAll_framed (understood : ∀ k, (senders k).Understood writer wire)
    (framed : wire.framing = .confluent writers) (sent : List (K × R)) :
    ReadAll wire none (sent.map fun entry => (senders entry.1).frame writer entry.2)
        ((arrived (.confluent writers) (bodiless writer senders) sent).map (resolved writer senders)) ∧
      ∀ waiting, bodiless writer senders waiting = true →
        ReadAll wire (senders waiting.1).schemaId (sent.map fun entry => (senders entry.1).frame writer entry.2)
          ((arrived (.confluent writers) (bodiless writer senders) (waiting :: sent)).map
            (resolved writer senders)) := by
  induction sent with
  | nil =>
    refine ⟨.nil, fun waiting bare => ?_⟩
    rw [arrived_single bare]
    exact .nil
  | cons entry sent ih =>
    obtain ⟨idle, waits⟩ := ih
    have first := (reading_messages framed).mpr ((understood entry.1).frame_messages framed entry.2)
    have next : ReadAll wire none ((entry :: sent).map fun entry => (senders entry.1).frame writer entry.2)
        ((arrived (.confluent writers) (bodiless writer senders) (entry :: sent)).map (resolved writer senders)) := by
      rw [List.map_cons]
      cases empty : bodiless writer senders entry with
      | true =>
        rw [bodiless] at empty
        rw [if_pos empty, if_pos empty] at first
        exact .cons first (waits entry empty)
      | false =>
        rw [arrived_filled empty, List.map_cons]
        rw [bodiless] at empty
        rw [if_neg (by simp [empty]), if_neg (by simp [empty])] at first
        exact .cons first idle
    refine ⟨next, fun waiting bare => ?_⟩
    obtain ⟨id, named, _⟩ := (understood entry.1).framed_known framed
    have unread : (senders entry.1).frame writer entry.2 ≠ [] := by simp [Sender.frame, Sender.header, named]
    rw [arrived_cons_cons]
    exact readAll_waiting understood framed bare unread next

theorem readAll_unframed (understood : ∀ k, (senders k).Understood writer wire) (bare : wire.framing = .unframed)
    (sent : List (K × R)) :
    ReadAll wire none (sent.map fun entry => (senders entry.1).frame writer entry.2)
      ((arrived .unframed (bodiless writer senders) sent).map (resolved writer senders)) := by
  induction sent with
  | nil => exact .nil
  | cons entry sent ih =>
    have read := ReadAll.cons ((understood entry.1).frame_reading bare entry.2) ih
    rw [arrived, List.filter_cons, List.map_cons]
    cases empty : bodiless writer senders entry with
    | true =>
      rw [bodiless] at empty
      rwa [if_pos empty] at read
    | false =>
      rw [bodiless] at empty
      rwa [if_neg (ne_true_of_eq_false empty)] at read

theorem readAll_frames (understood : ∀ k, (senders k).Understood writer wire) (sent : List (K × R)) :
    ReadAll wire none (sent.map fun entry => (senders entry.1).frame writer entry.2)
      ((arrived wire.framing (bodiless writer senders) sent).map (resolved writer senders)) := by
  cases framing : wire.framing with
  | unframed => exact readAll_unframed understood framing sent
  | confluent writers => exact (readAll_framed understood framing sent).1

end Frames

/-- Encoders of any number, each with its own schema and ID, and one decoder of any batch size:
the rows come out once each, resolved and in the order in which they were encoded, however the
encoders take turns and wherever flushes fall, but for the rows without bytes that `arrived`
leaves out. -/
theorem encoded_round_trips {D' B : Type} {decoding : Decoder D' B} {batchRows : B → List R} {wire : Wire R}
    {batchSize : Nat} {viewed : D' → Buffer R} {built : D'} {writer : RecordWriter R}
    {rowsOf : List ArrayRef → List R} {sender : E → Sender} {view : E → List (List UInt8)}
    (encodes : library.Documented writer rowsOf sender view)
    (decodes : decoding.Documented wire batchSize batchRows viewed) (positive : 0 < batchSize)
    (fresh : (viewed built).Fresh) (senders : K → Sender) (understood : ∀ k, (senders k).Understood writer wire)
    (encoders : K → AvroValueEncoder E)
    (made : ∀ k, AvroValueEncoder.new library (senders k).schema (senders k).schemaId = .ok (encoders k)) :
    ∀ trace last, Run (Encodes library arrow) encoders trace last → Clean arrow (fun k => (encoders k).schema) trace →
      ∀ calls, pushed calls = values trace →
        (∃ received last', received.map Prod.fst = calls ++ [.flush] ∧
          Run (AvroValueDecoder.Step decoding batchRows) (.new wire.framing built) received last') ∧
        ∀ received last', received.map Prod.fst = calls ++ [.flush] →
          Run (AvroValueDecoder.Step decoding batchRows) (.new wire.framing built) received last' →
          (received.map Prod.snd).flatMap Reply.rows =
              (arrived wire.framing (bodiless writer senders) (sentRows rowsOf trace)).map (resolved writer senders) ∧
            (∀ reply ∈ received.map Prod.snd, ¬ reply.Failed) ∧
            ((∀ sent ∈ sentRows rowsOf trace, bodiless writer senders sent = false) →
              (received.map Prod.snd).flatMap Reply.rows = (sentRows rowsOf trace).map (resolved writer senders)) := by
  have implements := AvroValueDecoder.implements decodes positive
  have initial : AvroValueDecoder.Holds batchRows wire viewed (.new wire.framing built) {} :=
    AvroValueDecoder.new_holds fresh
  intro trace last run clean calls same
  have sent := run_values encodes run (fun k => new_ready encodes (made k)) clean
  refine ⟨implements.run_exists _ initial, fun received last' calls' run' => ?_⟩
  have read := readAll_frames understood (sentRows rowsOf trace)
  rw [← sent, ← same] at read
  obtain ⟨complete, calm⟩ := outputs_rows [] calls read
  rw [List.nil_append] at complete
  rw [(implements.run_follows run' initial).1, calls']
  exact ⟨complete, calm, fun filled => by rw [complete, arrived_all filled]⟩

/-! A library for records of one flag. -/

def flagRows : List ArrayRef → List Bool
  | [column] => column.rows.map (· = some (.boolean true))
  | _ => []

def flagWriter : RecordWriter Bool where
  write writer row := if writer = "fieldless" then [] else if row then [1] else [0]
  resolve writer row := if writer = "fieldless" then false else row

def flagEncoder : Encoder Unit (Sender × List (List UInt8)) where
  buildDecoder _ _ _ := .ok ()
  decoderSchema _ := ⟨[.mk "flag" .boolean false []], []⟩
  buildEncoder schema schemaId :=
    match schema.metadata.find? (·.1 = schemaMetadataKey) with
    | some (_, text) => .ok (⟨text, schemaId⟩, [])
    | none => .error ⟨"Schema error: no Avro schema"⟩
  encode e batch := (.ok (), (e.1, e.2 ++ (flagRows batch.columns).map (e.1.frame flagWriter)))
  flush e := (e.2, (e.1, []))

theorem flagEncoder_documented : flagEncoder.Documented flagWriter flagRows Prod.fst Prod.snd where
  build_view {schema schemaId e} built := by
    simp only [flagEncoder] at built
    split at built
    next key text found =>
      cases built
      have named : key = schemaMetadataKey := by simpa using List.find?_some found
      exact ⟨rfl, rfl, named ▸ List.mem_of_find?_eq_some found⟩
    next => cases built
  encode_sender _ _ := rfl
  encode_view _ := rfl
  flush_values _ := rfl
  flush_sender _ := rfl
  flush_view _ := rfl

/-- Two senders with writer schemas of their own, one of them without fields. -/
def twoSenders : Bool → Sender
  | true => ⟨"flag", some 1⟩
  | false => ⟨"fieldless", some 3⟩

theorem twoSenders_understood (k : Bool) :
    (twoSenders k).Understood flagWriter (flags AvroValueDecoder.threeWriters) := by
  have first : (flags AvroValueDecoder.threeWriters).writer 1 = some "flag" := by decide
  have second : (flags AvroValueDecoder.threeWriters).writer 3 = some "fieldless" := by decide
  cases k with
  | true => exact ⟨first, fun row rest => by cases row <;> rfl⟩
  | false => exact ⟨second, fun row rest => rfl⟩

/-- A column of two flags, with any schema of one such field. -/
def twoFlags : RecordBatch :=
  ⟨⟨[.mk "f" .boolean false []], []⟩, [⟨.boolean, .plain [some (.boolean true), some (.boolean false)], rfl⟩], 2,
    by decide⟩

/-- The encoders of the two senders. -/
def twoEncoders (k : Bool) : AvroValueEncoder (Sender × List (List UInt8)) :=
  ⟨(twoSenders k, []), ⟨[.mk "flag" .boolean false []], [(schemaMetadataKey, (twoSenders k).schema)]⟩⟩

/-- The sender without fields sends first and last: its last row is missing. -/
theorem encoded_round_trips_two_senders :
    ∃ trace last, Run (Encodes flagEncoder Arrow.small) twoEncoders trace last ∧
      values trace = [[0, 0, 0, 0, 3], [0, 0, 0, 0, 3], [0, 0, 0, 0, 1, 1], [0, 0, 0, 0, 1, 0], [0, 0, 0, 0, 3],
        [0, 0, 0, 0, 3]] ∧
      ∃ received last', Run (AvroValueDecoder.Step (buffered (flags AvroValueDecoder.threeWriters) 1) id)
          (.new AvroValueDecoder.threeWriters ({} : Buffer Bool)) received last' ∧
        (received.map Prod.snd).flatMap Reply.rows = [false, false, true, false, false] := by
  have run : ∃ last, Run (Encodes flagEncoder Arrow.small) twoEncoders
      [((false, twoFlags), .ok [[0, 0, 0, 0, 3], [0, 0, 0, 0, 3]]),
        ((true, twoFlags), .ok [[0, 0, 0, 0, 1, 1], [0, 0, 0, 0, 1, 0]]),
        ((false, twoFlags), .ok [[0, 0, 0, 0, 3], [0, 0, 0, 0, 3]])] last :=
    ⟨_, .cons (.encode rfl) (.cons (.encode rfl) (.cons (.encode rfl) .nil))⟩
  obtain ⟨last, run⟩ := run
  have round_trips := encoded_round_trips flagEncoder Arrow.small flagEncoder_documented
    (buffered_documented (flags AvroValueDecoder.threeWriters) 1) (Nat.le_refl 1) Buffer.fresh twoSenders
    twoSenders_understood twoEncoders (fun k => by cases k <;> rfl)
  obtain ⟨⟨received, last', calls, run'⟩, answers⟩ := round_trips _ last run (by simp [Clean])
    [.push [0, 0, 0, 0, 3], .flush, .push [0, 0, 0, 0, 3], .push [0, 0, 0, 0, 1, 1], .flush, .push [0, 0, 0, 0, 1, 0],
      .push [0, 0, 0, 0, 3], .push [0, 0, 0, 0, 3]] rfl
  exact ⟨_, last, run, rfl, received, last', run', (answers received last' calls run').1⟩

end FsspecData.Avro
