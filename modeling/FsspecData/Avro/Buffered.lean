import FsspecData.Avro.Buffer

/-! The documented decoder itself, as a library: its state is its buffer and a batch is its
rows. -/
namespace FsspecData.Avro

variable {R : Type}

def buffered (wire : Wire R) (batchSize : Nat) : Decoder (Buffer R) (List R) where
  decode := wire.decode batchSize
  flush buffer := (.ok (if buffer.rows.isEmpty then none else some buffer.rows), buffer.flushed)
  batchIsFull buffer := !buffer.room batchSize
  concatBatches batches := .ok batches.flatten

theorem buffered_documented (wire : Wire R) (batchSize : Nat) :
    (buffered wire batchSize).Documented wire batchSize id id where
  decode_result _ _ := rfl
  decode_view _ _ := rfl
  flush_none empty := by simp_all [buffered]
  flush_some {buffer} filled := ⟨buffer.rows, by simp_all [buffered], rfl⟩
  flush_view _ := rfl
  full _ := rfl
  concat batches := ⟨batches.flatten, rfl, by simp [List.flatMap_id]⟩

/-- Records of one flag, written as one byte. A writer without fields writes nothing, and
the flag takes its default. -/
def flagRecords : RecordReader Bool where
  read writer _ bytes :=
    if writer = "fieldless" then .complete 0 false
    else
      match bytes with
      | 0 :: _ => .complete 1 false
      | 1 :: _ => .complete 1 true
      | [] => .incomplete
      | _ => .malformed ⟨"Parser error: Expected 0 or 1 for boolean"⟩
  within {writer reader bytes length row} read := by
    split_ifs at read
    · cases read
      exact Nat.zero_le _
    · split at read <;> cases read <;> simp
  missingPrefix := ⟨"Parser error: Missing magic bytes and fingerprint"⟩
  unknownSchema _ := ⟨"Parser error: Unknown fingerprint"⟩

def flags (framing : AvroFraming) : Wire Bool := ⟨flagRecords, "flag", framing⟩

end FsspecData.Avro
