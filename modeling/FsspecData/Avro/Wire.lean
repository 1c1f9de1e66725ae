import FsspecData.Avro.ValueDecoder

/-! The library's decoder as documented: what it reads off the front of some bytes, and
when it stops. The rows it makes and their type are left to the record reader. -/
namespace FsspecData.Avro

/-- One datum read off the front of some bytes. -/
inductive Datum (R : Type) where
  | complete (length : Nat) (row : R)
  | incomplete
  | malformed (error : ArrowError)

/-- The reader of single datums: written with one schema, resolved to another. -/
structure RecordReader (R : Type) where
  read : (writer reader : String) → List UInt8 → Datum R
  within : read writer reader bytes = .complete length row → length ≤ bytes.length
  missingPrefix : ArrowError
  unknownSchema : UInt32 → ArrowError

/-- What arrives: values of one reader schema in one framing. -/
structure Wire (R : Type) where
  records : RecordReader R
  schema : String
  framing : AvroFraming

/-- One step of reading: a row, a prefix, nothing yet, or a failure. -/
inductive Progress (R : Type) where
  | row (length : Nat) (row : R)
  | schemaId (id : UInt32)
  | wait
  | fail (error : ArrowError)

/-- A big-endian schema ID. -/
def schemaId (a b c d : UInt8) : UInt32 :=
  a.toUInt32 <<< 24 ||| b.toUInt32 <<< 16 ||| c.toUInt32 <<< 8 ||| d.toUInt32

namespace Wire

variable {R : Type} (wire : Wire R)

/-- The writer's schema of an ID. -/
def writer (id : UInt32) : Option String :=
  match wire.framing with
  | .unframed => none
  | .confluent writers => writers.lookup id

/-- A bare datum, written with the reader schema. -/
def datum (bytes : List UInt8) : Datum R := wire.records.read wire.schema wire.schema bytes

/-- A datum behind a prefix. -/
def body (id : UInt32) (bytes : List UInt8) : Datum R :=
  match wire.writer id with
  | some writer => wire.records.read writer wire.schema bytes
  | none => .malformed (wire.records.unknownSchema id)

def ofDatum : Datum R → Progress R
  | .complete length row => .row length row
  | .incomplete => .wait
  | .malformed error => .fail error

/-- The next step of a framed reader, which may hold a prefix already. -/
def next (awaiting : Option UInt32) (bytes : List UInt8) : Progress R :=
  match awaiting with
  | some id => ofDatum (wire.body id bytes)
  | none =>
    match bytes with
    | 0 :: a :: b :: c :: d :: _ =>
      if (wire.writer (schemaId a b c d)).isSome then .schemaId (schemaId a b c d)
      else .fail (wire.records.unknownSchema (schemaId a b c d))
    | [] | [0] | [0, _] | [0, _, _] | [0, _, _, _] => .wait
    | _ => .fail wire.records.missingPrefix

theorem body_within {id : UInt32} {bytes : List UInt8} {length : Nat} {row : R}
    (h : wire.body id bytes = .complete length row) : length ≤ bytes.length := by
  unfold body at h
  split at h
  · exact wire.records.within h
  · contradiction

theorem next_row {awaiting : Option UInt32} {bytes : List UInt8} {length : Nat} {row : R}
    (h : wire.next awaiting bytes = .row length row) :
    ∃ id, awaiting = some id ∧ wire.body id bytes = .complete length row := by
  cases awaiting with
  | some id =>
    refine ⟨id, rfl, ?_⟩
    cases read : wire.body id bytes <;> simp [next, ofDatum, read] at h
    obtain ⟨rfl, rfl⟩ := h
    rfl
  | none =>
    simp only [next] at h
    split at h
    · split_ifs at h
    all_goals contradiction

theorem next_schemaId {awaiting : Option UInt32} {bytes : List UInt8} {id : UInt32}
    (h : wire.next awaiting bytes = .schemaId id) :
    awaiting = none ∧ (wire.writer id).isSome ∧ 5 ≤ bytes.length := by
  cases awaiting with
  | some id' => cases read : wire.body id' bytes <;> simp [next, ofDatum, read] at h
  | none =>
    simp only [next] at h
    split at h
    · split_ifs at h with known
      cases h
      exact ⟨rfl, known, by simp⟩
    all_goals contradiction

end Wire

end FsspecData.Avro
