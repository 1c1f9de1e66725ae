import FsspecData.Avro.Accept

/-! The value decoder as a queue of rows: whatever the batch size, the writers and the
flushes, rows come out once each and in order. Messages without a body are the exception. -/
namespace FsspecData.Avro

open Machine

namespace Wire

variable {R : Type} (wire : Wire R)

/-- A value is one datum of at least one byte, or one framed message. -/
def WellFormed (value : List UInt8) : Prop :=
  (∃ row, wire.single value = some row) ∧ (wire.framing = .unframed → value ≠ [])

/-- Pushes add the row of their value, and a flush returns the rows since the last one. -/
def queue : List R → Call → Reply R × List R
  | rows, .push value => (.pushed (.ok ()), rows ++ (wire.single value).toList)
  | rows, .flush => (.flushed (.ok (if rows.isEmpty then none else some rows)), [])

/-- A message without a body adds no row, but leaves its prefix. -/
theorem push_bodiless {wire : Wire R} {value : List UInt8} (held : Held R)
    (idle : held.awaiting = none) (wellFormed : wire.WellFormed value)
    (empty : ¬wire.HasBody value) :
    ∃ id, wire.push held value = (.ok (), ⟨held.rows, some id⟩) := by
  obtain ⟨⟨row, single⟩, bare⟩ := wellFormed
  cases framing : wire.framing with
  | unframed => simp [HasBody, framing, bare framing] at empty
  | confluent writers =>
    simp only [HasBody, framing] at empty
    have own := messages_of_single framing single
    rw [if_neg empty] at own
    obtain ⟨id, messages⟩ := own
    have pushed : wire.push held value = (.ok (), ⟨held.rows ++ [], some id⟩) :=
      push_messages framing (by rwa [idle])
    rw [List.append_nil] at pushed
    exact ⟨id, pushed⟩

end Wire

namespace AvroValueDecoder

variable {D B R : Type} (library : Decoder D B) (rowsOf : B → List R) (wire : Wire R) (built : D)

/-- Some calls on a new decoder succeed, and are answered as by a queue. -/
def Queued (calls : List Call) : Prop :=
  (∃ trace last, trace.map Prod.fst = calls ∧
    Run (Step library rowsOf) (new wire.framing built) trace last) ∧
  ∀ trace last, trace.map Prod.fst = calls →
    Run (Step library rowsOf) (new wire.framing built) trace last →
    trace.map Prod.snd = outputs wire.queue [] calls

variable {library} {rowsOf} {wire} {built} {batchSize : Nat} {view : D → Buffer R}

/-- A message without a body is missing from the flush after it. -/
theorem not_queued_bodiless (documented : library.Documented wire batchSize rowsOf view)
    (positive : 0 < batchSize) (fresh : (view built).Fresh) {value : List UInt8}
    (wellFormed : wire.WellFormed value) (empty : ¬wire.HasBody value) :
    ¬Queued library rowsOf wire built [.push value, .flush] := by
  rintro ⟨⟨trace, last, same, run⟩, answered⟩
  have follows := ((implements documented positive).run_follows run (new_holds fresh)).1
  obtain ⟨row, single⟩ := wellFormed.1
  obtain ⟨id, pushed⟩ := Wire.push_bodiless {} rfl wellFormed empty
  rw [answered trace last same run, same] at follows
  simp [outputs, Wire.queue, Wire.answer, single, pushed] at follows

/-- Pushes of well-formed values are queued, for all sequences of them and of flushes,
exactly when every value has a body. -/
theorem queued_iff (documented : library.Documented wire batchSize rowsOf view)
    (positive : 0 < batchSize) (fresh : (view built).Fresh) (values : List UInt8 → Prop)
    (wellFormed : ∀ value, values value → wire.WellFormed value) :
    (∀ calls, (∀ value, .push value ∈ calls → values value) → Queued library rowsOf wire built calls) ↔
      ∀ value, values value → wire.HasBody value := by
  have implements := implements documented positive
  have initial : Holds rowsOf wire view (new wire.framing built : AvroValueDecoder D B) {} := new_holds fresh
  constructor
  · intro queued value allowed
    by_contra empty
    exact not_queued_bodiless documented positive fresh (wellFormed value allowed) empty
      (queued [.push value, .flush] (by simp [allowed]))
  · intro bodies calls allowed
    refine ⟨implements.run_exists calls initial, ?_⟩
    intro trace last same run
    rw [(implements.run_follows run initial).1, same]
    refine outputs_eq (fun held rows => held = ⟨rows, none⟩) calls ?_ rfl
    rintro call member _ rows rfl
    cases call with
    | push value =>
      have allowed := allowed value member
      obtain ⟨row, single⟩ := (wellFormed value allowed).1
      have pushed : wire.push ⟨rows, none⟩ value = (.ok (), ⟨rows ++ [row], none⟩) :=
        Wire.push_single rfl single (bodies value allowed)
      simp [Wire.answer, Wire.queue, single, pushed]
    | flush => simp [Wire.answer, Wire.queue]

/-- Two writers of the flag, and one without fields. -/
def threeWriters : AvroFraming := .confluent [(1, "flag"), (2, "flag with doc"), (3, "fieldless")]

theorem queued_iff_two_writers :
    Queued (buffered (flags threeWriters) 1) id (flags threeWriters) {}
      [.push [0, 0, 0, 0, 1, 1], .push [0, 0, 0, 0, 2, 0], .flush, .flush] := by
  refine (queued_iff (buffered_documented (flags threeWriters) 1) (by decide) Buffer.fresh
    (· ∈ [[0, 0, 0, 0, 1, 1], [0, 0, 0, 0, 2, 0]]) ?_).mpr ?_ _ ?_
  · simp only [List.mem_cons, List.not_mem_nil, or_false]
    rintro value (rfl | rfl)
    · exact ⟨⟨true, rfl⟩, fun _ => by simp⟩
    · exact ⟨⟨false, rfl⟩, fun _ => by simp⟩
  · simp [Wire.HasBody, flags, threeWriters]
  · simp

theorem bodiless_message_missing :
    (flags threeWriters).WellFormed [0, 0, 0, 0, 3] ∧
      ¬Queued (buffered (flags threeWriters) 1) id (flags threeWriters) {} [.push [0, 0, 0, 0, 3], .flush] := by
  have wellFormed : (flags threeWriters).WellFormed [0, 0, 0, 0, 3] := ⟨⟨false, rfl⟩, fun _ => by simp⟩
  exact ⟨wellFormed, not_queued_bodiless (buffered_documented (flags threeWriters) 1) (by decide) Buffer.fresh
    wellFormed (by simp [Wire.HasBody, flags, threeWriters])⟩

end AvroValueDecoder

end FsspecData.Avro
