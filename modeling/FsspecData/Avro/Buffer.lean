import FsspecData.Avro.Wire

/-! The library's decoder as documented, on its observable state: the buffered rows, the
prefix whose body is still to come, and whether it waits for a flush. -/
namespace FsspecData.Avro

/-- `active` is the writer of the buffered rows, `awaiting` the writer of the next body. -/
structure Buffer (R : Type) where
  rows : List R := []
  active : Option UInt32 := none
  awaiting : Option UInt32 := none
  stopped : Bool := false

namespace Buffer

variable {R : Type}

/-- Rows still fit and no flush is due. -/
def room (batchSize : Nat) (buffer : Buffer R) : Bool :=
  decide (buffer.rows.length < batchSize) && !buffer.stopped

def append (buffer : Buffer R) (row : R) : Buffer R :=
  { buffer with rows := buffer.rows ++ [row], awaiting := none }

/-- A prefix that names another writer than the buffered rows stops the decoder. -/
def await (buffer : Buffer R) (id : UInt32) : Buffer R :=
  if !buffer.rows.isEmpty && buffer.active ≠ some id then
    { buffer with awaiting := some id, stopped := true }
  else { buffer with awaiting := some id, active := some id }

def flushed (buffer : Buffer R) : Buffer R where
  rows := []
  active := if buffer.stopped then buffer.awaiting else buffer.active
  awaiting := buffer.awaiting
  stopped := false

@[simp] theorem append_rows (buffer : Buffer R) (row : R) :
    (buffer.append row).rows = buffer.rows ++ [row] := rfl

@[simp] theorem append_awaiting (buffer : Buffer R) (row : R) : (buffer.append row).awaiting = none := rfl

@[simp] theorem await_rows (buffer : Buffer R) (id : UInt32) : (buffer.await id).rows = buffer.rows := by
  unfold await
  split <;> rfl

@[simp] theorem await_awaiting (buffer : Buffer R) (id : UInt32) :
    (buffer.await id).awaiting = some id := by
  unfold await
  split <;> rfl

@[simp] theorem flushed_rows (buffer : Buffer R) : buffer.flushed.rows = [] := rfl

@[simp] theorem flushed_awaiting (buffer : Buffer R) : buffer.flushed.awaiting = buffer.awaiting := rfl

@[simp] theorem flushed_stopped (buffer : Buffer R) : buffer.flushed.stopped = false := rfl

/-- Only a decoder with rows stops. -/
def Sound (buffer : Buffer R) : Prop := buffer.stopped = true → buffer.rows ≠ []

/-- A decoder just built: it knows some writer, and has read nothing. -/
structure Fresh (buffer : Buffer R) : Prop where
  rows : buffer.rows = []
  awaiting : buffer.awaiting = none
  running : buffer.stopped = false

theorem fresh : ({} : Buffer R).Fresh := ⟨rfl, rfl, rfl⟩

theorem Fresh.sound {buffer : Buffer R} (fresh : buffer.Fresh) : buffer.Sound := by
  simp [Sound, fresh.running]

theorem Sound.append {buffer : Buffer R} (row : R) : (buffer.append row).Sound := by
  simp [Sound]

theorem Sound.await {buffer : Buffer R} (sound : buffer.Sound) (id : UInt32) : (buffer.await id).Sound := by
  unfold Buffer.await
  split
  next switches =>
    intro _
    simp only [Bool.and_eq_true, Bool.not_eq_true', List.isEmpty_eq_false_iff] at switches
    exact switches.1
  next => exact sound

theorem Sound.flushed (buffer : Buffer R) : buffer.flushed.Sound := by simp [Sound]

theorem room_flushed {batchSize : Nat} (positive : 0 < batchSize) (buffer : Buffer R) :
    buffer.flushed.room batchSize = true := by simp [room, positive]

/-- A decoder without room has rows to flush. -/
theorem rows_of_full {batchSize : Nat} (positive : 0 < batchSize) {buffer : Buffer R}
    (sound : buffer.Sound) (full : buffer.room batchSize = false) : buffer.rows ≠ [] := by
  intro empty
  cases stopped : buffer.stopped with
  | true => exact sound stopped empty
  | false => simp [room, empty, positive, stopped] at full

end Buffer

namespace Wire

variable {R : Type} (wire : Wire R)

/-- How much reading is left: a prefix held counts half a byte. -/
def pending (awaiting : Option UInt32) (bytes : List UInt8) : Nat :=
  2 * bytes.length + if awaiting.isSome then 1 else 0

theorem pending_row {awaiting : Option UInt32} {bytes : List UInt8} {length : Nat} {row : R}
    (h : wire.next awaiting bytes = .row length row) :
    pending none (bytes.drop length) < pending awaiting bytes := by
  obtain ⟨id, rfl, read⟩ := wire.next_row h
  simp only [pending, List.length_drop, Option.isSome_none, Option.isSome_some]
  simp only [Bool.false_eq_true, if_false, if_true]
  omega

theorem pending_schemaId {awaiting : Option UInt32} {bytes : List UInt8} {id : UInt32}
    (h : wire.next awaiting bytes = .schemaId id) :
    pending (some id) (bytes.drop 5) < pending awaiting bytes := by
  obtain ⟨rfl, _, long⟩ := wire.next_schemaId h
  simp [pending]
  omega

/-- Framed values: messages are read while data and room remain. An error leaves the
rows read before it. -/
def decodeFramed (batchSize : Nat) (buffer : Buffer R) (bytes : List UInt8) :
    Except ArrowError Nat × Buffer R :=
  if bytes = [] ∨ buffer.room batchSize = false then (.ok 0, buffer)
  else
    match _read : wire.next buffer.awaiting bytes with
    | .row length row =>
      let (result, after) := decodeFramed batchSize (buffer.append row) (bytes.drop length)
      ((length + ·) <$> result, after)
    | .schemaId id =>
      let (result, after) := decodeFramed batchSize (buffer.await id) (bytes.drop 5)
      ((5 + ·) <$> result, after)
    | .wait => (.ok 0, buffer)
    | .fail error => (.error error, buffer)
termination_by pending buffer.awaiting bytes
decreasing_by
  · simpa using wire.pending_row _read
  · simpa using wire.pending_schemaId _read

/-- Bare values: at most one datum is read. -/
def decodeUnframed (batchSize : Nat) (buffer : Buffer R) (bytes : List UInt8) :
    Except ArrowError Nat × Buffer R :=
  if bytes = [] ∨ buffer.room batchSize = false then (.ok 0, buffer)
  else
    match wire.datum bytes with
    | .complete length row => (.ok length, buffer.append row)
    | .incomplete => (.ok 0, buffer)
    | .malformed error => (.error error, buffer)

def decode (batchSize : Nat) (buffer : Buffer R) (bytes : List UInt8) :
    Except ArrowError Nat × Buffer R :=
  match wire.framing with
  | .unframed => wire.decodeUnframed batchSize buffer bytes
  | .confluent _ => wire.decodeFramed batchSize buffer bytes

end Wire

/-- The library's decoder behaves as documented: `view` is its observable state, and
`rowsOf` the rows of a batch. -/
structure Decoder.Documented {D B R : Type} (library : Decoder D B) (wire : Wire R) (batchSize : Nat)
    (rowsOf : B → List R) (view : D → Buffer R) : Prop where
  decode_result (d : D) (bytes : List UInt8) :
    (library.decode d bytes).1 = (wire.decode batchSize (view d) bytes).1
  decode_view (d : D) (bytes : List UInt8) :
    view (library.decode d bytes).2 = (wire.decode batchSize (view d) bytes).2
  flush_none : (view d).rows = [] → (library.flush d).1 = .ok none
  flush_some : (view d).rows ≠ [] →
    ∃ batch, (library.flush d).1 = .ok (some batch) ∧ rowsOf batch = (view d).rows
  flush_view (d : D) : view (library.flush d).2 = (view d).flushed
  full (d : D) : library.batchIsFull d = !(view d).room batchSize
  concat (batches : List B) :
    ∃ batch, library.concatBatches batches = .ok batch ∧ rowsOf batch = batches.flatMap rowsOf

end FsspecData.Avro
