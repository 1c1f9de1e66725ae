import FsspecData.Avro.Buffer

/-! What one push means: the whole value is read, however often the decoder stops in it.
Neither the batch size nor the writer switches are left in this reading. -/
namespace FsspecData.Avro

/-- How the reading of a value ends: at its end, before some bytes, or with a failure. -/
inductive Outcome where
  | done
  | left (count : Nat)
  | failed (error : ArrowError)
  deriving DecidableEq

/-- The rows read, the prefix held at the end, and the end. -/
structure Reading (R : Type) where
  rows : List R
  awaiting : Option UInt32
  outcome : Outcome

def Reading.cons {R : Type} (row : R) (reading : Reading R) : Reading R :=
  { reading with rows := row :: reading.rows }

def Reading.prepend {R : Type} (rows : List R) (reading : Reading R) : Reading R :=
  { reading with rows := rows ++ reading.rows }

namespace Wire

variable {R : Type} (wire : Wire R)

def readFramed (awaiting : Option UInt32) (bytes : List UInt8) : Reading R :=
  if bytes = [] then ⟨[], awaiting, .done⟩
  else
    match _read : wire.next awaiting bytes with
    | .row length row => (readFramed none (bytes.drop length)).cons row
    | .schemaId id => readFramed (some id) (bytes.drop 5)
    | .wait => ⟨[], awaiting, .left bytes.length⟩
    | .fail error => ⟨[], awaiting, .failed error⟩
termination_by pending awaiting bytes
decreasing_by
  · exact wire.pending_row _read
  · exact wire.pending_schemaId _read

def readUnframed (bytes : List UInt8) : Reading R :=
  if bytes = [] then ⟨[], none, .done⟩
  else
    match wire.datum bytes with
    | .complete length row =>
      ⟨[row], none, if length = bytes.length then .done else .left (bytes.length - length)⟩
    | .incomplete => ⟨[], none, .left bytes.length⟩
    | .malformed error => ⟨[], none, .failed error⟩

def reading (awaiting : Option UInt32) (bytes : List UInt8) : Reading R :=
  match wire.framing with
  | .unframed => wire.readUnframed bytes
  | .confluent _ => wire.readFramed awaiting bytes

theorem reading_framed (framed : wire.framing ≠ .unframed) (awaiting : Option UInt32)
    (bytes : List UInt8) : wire.reading awaiting bytes = wire.readFramed awaiting bytes := by
  cases framing : wire.framing with
  | unframed => contradiction
  | confluent writers => simp [reading, framing]

theorem decode_framed (framed : wire.framing ≠ .unframed) (batchSize : Nat) (buffer : Buffer R)
    (bytes : List UInt8) :
    wire.decode batchSize buffer bytes = wire.decodeFramed batchSize buffer bytes := by
  cases framing : wire.framing with
  | unframed => contradiction
  | confluent writers => simp [decode, framing]

theorem decode_roomless {batchSize : Nat} {buffer : Buffer R} (full : buffer.room batchSize = false)
    (bytes : List UInt8) : wire.decode batchSize buffer bytes = (.ok 0, buffer) := by
  cases framing : wire.framing with
  | unframed => simp [decode, framing, decodeUnframed, full]
  | confluent writers =>
    rw [wire.decode_framed (by simp [framing]), decodeFramed]
    simp [full]

/-! The steps of a framed reading. -/

section Framed

variable {awaiting : Option UInt32} {bytes : List UInt8} {length : Nat} {row : R} {id : UInt32}
  {error : ArrowError}

@[simp] theorem readFramed_nil : wire.readFramed awaiting [] = ⟨[], awaiting, .done⟩ := by
  rw [readFramed]
  simp

theorem readFramed_row (unread : bytes ≠ []) (h : wire.next awaiting bytes = .row length row) :
    wire.readFramed awaiting bytes = (wire.readFramed none (bytes.drop length)).cons row := by
  rw [readFramed, if_neg unread]
  split <;> simp_all

theorem readFramed_schemaId (unread : bytes ≠ []) (h : wire.next awaiting bytes = .schemaId id) :
    wire.readFramed awaiting bytes = wire.readFramed (some id) (bytes.drop 5) := by
  rw [readFramed, if_neg unread]
  split <;> simp_all

theorem readFramed_wait (unread : bytes ≠ []) (h : wire.next awaiting bytes = .wait) :
    wire.readFramed awaiting bytes = ⟨[], awaiting, .left bytes.length⟩ := by
  rw [readFramed, if_neg unread]
  split <;> simp_all

theorem readFramed_fail (unread : bytes ≠ []) (h : wire.next awaiting bytes = .fail error) :
    wire.readFramed awaiting bytes = ⟨[], awaiting, .failed error⟩ := by
  rw [readFramed, if_neg unread]
  split <;> simp_all

end Framed

/-- The decoder does not read on: no data, no room, or no complete prefix or body. -/
def Stops (batchSize : Nat) (buffer : Buffer R) (bytes : List UInt8) : Prop :=
  bytes = [] ∨ buffer.room batchSize = false ∨ wire.next buffer.awaiting bytes = .wait

/-- What one call of the library's decoder leaves of a reading. -/
structure Leaves (batchSize : Nat) (before after : Buffer R) (bytes rest : List UInt8) : Prop where
  sound : after.Sound
  reads : ∃ rows, after.rows = before.rows ++ rows ∧
    wire.readFramed before.awaiting bytes = (wire.readFramed after.awaiting rest).prepend rows
  stops : wire.Stops batchSize after rest
  progress : (rest = bytes ∧ after = before) ∨ pending after.awaiting rest < pending before.awaiting bytes

/-- A call that fails has read up to the failure. -/
structure Fails (before after : Buffer R) (bytes : List UInt8) (error : ArrowError) : Prop where
  sound : after.Sound
  reads : ∃ rows, after.rows = before.rows ++ rows ∧
    wire.readFramed before.awaiting bytes = ⟨rows, after.awaiting, .failed error⟩

section Steps

variable {wire : Wire R} {batchSize : Nat} {before after : Buffer R} {bytes rest : List UInt8}
  {length : Nat} {row : R} {id : UInt32} {error : ArrowError}

theorem Leaves.here (sound : before.Sound) (stops : wire.Stops batchSize before bytes) :
    wire.Leaves batchSize before before bytes bytes :=
  ⟨sound, ⟨[], by simp, by simp [Reading.prepend]⟩, stops, .inl ⟨rfl, rfl⟩⟩

theorem Leaves.progress_le (leaves : wire.Leaves batchSize before after bytes rest) :
    pending after.awaiting rest ≤ pending before.awaiting bytes := by
  rcases leaves.progress with ⟨rfl, rfl⟩ | less
  · exact Nat.le_refl _
  · exact Nat.le_of_lt less

theorem Leaves.past_row (unread : bytes ≠ []) (step : wire.next before.awaiting bytes = .row length row)
    (leaves : wire.Leaves batchSize (before.append row) after (bytes.drop length) rest) :
    wire.Leaves batchSize before after bytes rest := by
  obtain ⟨rows, appended, read⟩ := leaves.reads
  refine ⟨leaves.sound, ⟨row :: rows, by simp [appended], ?_⟩, leaves.stops, .inr ?_⟩
  · rw [wire.readFramed_row unread step, ← before.append_awaiting row, read]
    rfl
  · exact Nat.lt_of_le_of_lt leaves.progress_le (by simpa using wire.pending_row step)

theorem Leaves.past_schemaId (unread : bytes ≠ []) (step : wire.next before.awaiting bytes = .schemaId id)
    (leaves : wire.Leaves batchSize (before.await id) after (bytes.drop 5) rest) :
    wire.Leaves batchSize before after bytes rest := by
  obtain ⟨rows, appended, read⟩ := leaves.reads
  refine ⟨leaves.sound, ⟨rows, by simpa using appended, ?_⟩, leaves.stops, .inr ?_⟩
  · rw [wire.readFramed_schemaId unread step, ← before.await_awaiting id, read]
  · exact Nat.lt_of_le_of_lt leaves.progress_le (by simpa using wire.pending_schemaId step)

theorem Fails.past_row (unread : bytes ≠ []) (step : wire.next before.awaiting bytes = .row length row)
    (fails : wire.Fails (before.append row) after (bytes.drop length) error) :
    wire.Fails before after bytes error := by
  obtain ⟨rows, appended, read⟩ := fails.reads
  refine ⟨fails.sound, row :: rows, by simp [appended], ?_⟩
  rw [wire.readFramed_row unread step, ← before.append_awaiting row, read]
  rfl

theorem Fails.past_schemaId (unread : bytes ≠ []) (step : wire.next before.awaiting bytes = .schemaId id)
    (fails : wire.Fails (before.await id) after (bytes.drop 5) error) :
    wire.Fails before after bytes error := by
  obtain ⟨rows, appended, read⟩ := fails.reads
  refine ⟨fails.sound, rows, by simpa using appended, ?_⟩
  rw [wire.readFramed_schemaId unread step, ← before.await_awaiting id, read]

end Steps

/-- What a call of the framed decoder does to the reading of its bytes. -/
theorem decodeFramed_reads (batchSize : Nat) (buffer : Buffer R) (bytes : List UInt8)
    (sound : buffer.Sound) :
    match wire.decodeFramed batchSize buffer bytes with
    | (.ok consumed, after) => consumed ≤ bytes.length ∧
        wire.Leaves batchSize buffer after bytes (bytes.drop consumed)
    | (.error error, after) => wire.Fails buffer after bytes error := by
  fun_induction decodeFramed wire batchSize buffer bytes with
  | case1 buffer bytes stops =>
    exact ⟨by omega, .here sound (stops.imp_right .inl)⟩
  | case2 buffer bytes busy length row step result after called ih =>
    have unread : bytes ≠ [] := fun empty => busy (.inl empty)
    obtain ⟨id, -, read⟩ := wire.next_row step
    have short := wire.body_within read
    specialize ih (.append row)
    rw [called] at ih
    cases result with
    | ok more =>
      obtain ⟨within, leaves⟩ := ih
      rw [List.drop_drop] at leaves
      have : length + more ≤ bytes.length := by simp at within; omega
      exact ⟨this, leaves.past_row unread step⟩
    | error error => exact ih.past_row unread step
  | case3 buffer bytes busy id step result after called ih =>
    have unread : bytes ≠ [] := fun empty => busy (.inl empty)
    obtain ⟨-, -, long⟩ := wire.next_schemaId step
    specialize ih (sound.await id)
    rw [called] at ih
    cases result with
    | ok more =>
      obtain ⟨within, leaves⟩ := ih
      rw [List.drop_drop] at leaves
      have : 5 + more ≤ bytes.length := by simp at within; omega
      exact ⟨this, leaves.past_schemaId unread step⟩
    | error error => exact ih.past_schemaId unread step
  | case4 buffer bytes busy waits => exact ⟨by omega, .here sound (.inr (.inr waits))⟩
  | case5 buffer bytes busy error step =>
    exact ⟨sound, [], by simp, wire.readFramed_fail (fun empty => busy (.inl empty)) step⟩

end Wire

end FsspecData.Avro
