import FsspecData.Avro.Messages
import FsspecData.Avro.Buffered

/-! What an accepted value adds. A push looks only at how many bytes were consumed, so a
bare prefix, an empty value and several messages pass as well. -/
namespace FsspecData.Avro.AvroValueDecoder

open Machine

variable {D B R : Type} (library : Decoder D B) (rowsOf : B → List R)

/-- The rows the next flush returns. -/
def flushedRows (s : AvroValueDecoder D B) : Except InterchangeError (List R) :=
  (fun batch => (batch.map rowsOf).getD []) <$> (flush library s).1

/-- A push from `s` accepts just one datum or message, and then adds just its row. -/
structure ExactlyOne (wire : Wire R) (s : AvroValueDecoder D B) (value : List UInt8)
    (result : Except InterchangeError Unit) (t : AvroValueDecoder D B) : Prop where
  accepts : result = .ok () ↔ ∃ row, wire.single value = some row
  adds : result = .ok () → ∃ row rows, wire.single value = some row ∧
    flushedRows library rowsOf s = .ok rows ∧ flushedRows library rowsOf t = .ok (rows ++ [row])

/-- The calls of a run whose pushes succeed, none of them on a glued value. -/
def Clean (wire : Wire R) : Call → Reply R → Prop
  | .push value, reply => reply = .pushed (.ok ()) ∧ ¬wire.Glued value
  | .flush, _ => True

variable {library} {rowsOf} {wire : Wire R} {batchSize : Nat} {view : D → Buffer R}
  {s t : AvroValueDecoder D B} {held : Held R} {value : List UInt8} {built : D}

theorem Holds.flushedRows (documented : library.Documented wire batchSize rowsOf view)
    (holds : Holds rowsOf wire view s held) : flushedRows library rowsOf s = .ok held.rows := by
  obtain ⟨returned, t, flushed, rows, _⟩ := flush_holds documented holds
  rw [AvroValueDecoder.flushedRows, flushed]
  cases returned with
  | error error => cases rows
  | ok batch =>
    have batch_rows : batch.map rowsOf = if held.rows.isEmpty then none else some held.rows :=
      Except.ok.inj rows
    have all : (batch.map rowsOf).getD [] = held.rows := by
      rw [batch_rows]
      split <;> simp_all
    exact congrArg Except.ok all

/-- No prefix is left over after clean calls. -/
theorem idle_after (documented : library.Documented wire batchSize rowsOf view) (positive : 0 < batchSize)
    (fresh : (view built).Fresh) (run : Run (Step library rowsOf) (new wire.framing built) trace s)
    (clean : ∀ entry ∈ trace, Clean wire entry.1 entry.2) :
    ∃ rows, Holds rowsOf wire view s ⟨rows, none⟩ := by
  refine run.keeps (fun s => ∃ rows, Holds rowsOf wire view s ⟨rows, none⟩) ?_ clean
    ⟨[], new_holds fresh⟩
  rintro s call reply t ⟨rows, holds⟩ step allowed
  obtain ⟨answer, holds_t⟩ := (implements documented positive).follows holds step
  cases call with
  | push value =>
    obtain ⟨accepted, apart⟩ := allowed
    have accepted : (wire.push ⟨rows, none⟩ value).1 = .ok () := by
      rw [answer] at accepted
      exact Reply.pushed.inj accepted
    obtain ⟨row, single, body⟩ := Wire.single_of_push rfl accepted apart
    rw [Wire.answer, Wire.push_single rfl single body] at holds_t
    exact ⟨_, holds_t⟩
  | flush => exact ⟨[], holds_t⟩

/-- Between clean calls, a push does what it should exactly on the values that are not
glued. -/
theorem push_exactlyOne_iff (documented : library.Documented wire batchSize rowsOf view)
    (positive : 0 < batchSize) (fresh : (view built).Fresh)
    (run : Run (Step library rowsOf) (new wire.framing built) trace s)
    (clean : ∀ entry ∈ trace, Clean wire entry.1 entry.2) (value : List UInt8) :
    (∃ result t, Step library rowsOf s (.push value) (.pushed result) t) ∧
      ∀ result t, Step library rowsOf s (.push value) (.pushed result) t →
        (ExactlyOne library rowsOf wire s value result t ↔ ¬wire.Glued value) := by
  obtain ⟨rows, holds⟩ := idle_after documented positive fresh run clean
  refine ⟨?_, fun result t step => ?_⟩
  · obtain ⟨fuel, t, pushed, _⟩ := push_holds documented positive holds value
    exact ⟨_, t, .push pushed⟩
  obtain ⟨answer, holds_t⟩ := (implements documented positive).follows holds step
  obtain rfl : result = (wire.push ⟨rows, none⟩ value).1 := Reply.pushed.inj answer
  have before := holds.flushedRows documented
  have after := holds_t.flushedRows documented
  simp only [Wire.answer] at after
  constructor
  · intro exactly glued
    obtain ⟨added, last, pushed, several⟩ := @Wire.push_glued _ wire ⟨rows, none⟩ value rfl glued
    obtain ⟨row, kept, single, flushes, flushes'⟩ := exactly.adds (by rw [pushed])
    rw [pushed] at after
    obtain rfl : kept = rows := Except.ok.inj (flushes.symm.trans before)
    have same : kept ++ added = kept ++ [row] := Except.ok.inj (after.symm.trans flushes')
    exact several row single (List.append_cancel_left same)
  · intro apart
    refine ⟨⟨fun accepted => ?_, ?_⟩, fun accepted => ?_⟩
    · obtain ⟨row, single, _⟩ := Wire.single_of_push rfl accepted apart
      exact ⟨row, single⟩
    · rintro ⟨row, single⟩
      by_cases body : wire.HasBody value
      · rw [Wire.push_single rfl single body]
      · exact absurd (Wire.glued_of_single single body) apart
    · obtain ⟨row, single, body⟩ := Wire.single_of_push rfl accepted apart
      rw [Wire.push_single rfl single body] at after
      exact ⟨row, rows, single, before, after⟩

theorem push_exactlyOne_iff_second :
    ∃ s result t, Step (buffered (flags .unframed) 1) id s (.push [1]) (.pushed result) t ∧
      ExactlyOne (buffered (flags .unframed) 1) id (flags .unframed) s [1] result t := by
  have clean : ¬(flags .unframed).Glued [0] := by simp [Wire.Glued, flags]
  have apart : ¬(flags .unframed).Glued [1] := by simp [Wire.Glued, flags]
  have first : Step (buffered (flags .unframed) 1) id (new .unframed {}) (.push [0]) (.pushed (.ok ()))
      ⟨{ rows := [false] }, false, []⟩ := .push (show push _ 1 _ _ = _ from rfl)
  obtain ⟨⟨result, t, step⟩, exactly⟩ := push_exactlyOne_iff (buffered_documented (flags .unframed) 1)
    (by decide) Buffer.fresh (.cons first .nil) (by simpa [Clean] using clean) [1]
  exact ⟨_, result, t, step, (exactly result t step).mpr apart⟩

/-- Two flags behind one schema ID each. -/
def gluedFlags : List UInt8 := [0, 0, 0, 0, 1, 1, 0, 0, 0, 0, 1, 0]

theorem gluedFlags_messages : (flags (.confluent [(1, "flag")])).Messages none gluedFlags [true, false] none :=
  .schemaId rfl (.body (by simp) rfl (.schemaId rfl (.body (by simp) rfl .done)))

/-- Glued messages are accepted as one value. -/
theorem glued_messages_accepted :
    ∃ t, Step (buffered (flags (.confluent [(1, "flag")])) 16) id (new (.confluent [(1, "flag")]) {})
        (.push gluedFlags) (.pushed (.ok ())) t ∧
      (flags (.confluent [(1, "flag")])).single gluedFlags = none ∧
      ¬ExactlyOne (buffered (flags (.confluent [(1, "flag")])) 16) id (flags (.confluent [(1, "flag")]))
        (new (.confluent [(1, "flag")]) {}) gluedFlags (.ok ()) t := by
  have none : (flags (.confluent [(1, "flag")])).single gluedFlags = none := rfl
  obtain ⟨fuel, t, pushed, _⟩ := push_holds (buffered_documented (flags (.confluent [(1, "flag")])) 16)
    (by decide) (new_holds Buffer.fresh) gluedFlags
  rw [Wire.push_messages rfl gluedFlags_messages] at pushed
  refine ⟨t, .push pushed, none, fun exactly => ?_⟩
  obtain ⟨row, single⟩ := exactly.accepts.mp rfl
  rw [none] at single
  contradiction

end FsspecData.Avro.AvroValueDecoder
