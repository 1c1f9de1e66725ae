import FsspecData.Avro.Accept

/-! What a rejected value leaves. A push that reads anything before it fails keeps it: the
rows read are flushed, and a prefix read takes the front of the next value. -/
namespace FsspecData.Avro

open Machine

def Progress.reads {R : Type} : Progress R → Bool
  | .row _ _ => true
  | .schemaId _ => true
  | .wait => false
  | .fail _ => false

namespace Wire

variable {R : Type} (wire : Wire R)

/-- A value begins with something to read: a bare datum, a known prefix, or the body of the
prefix held. -/
def Starts (awaiting : Option UInt32) (value : List UInt8) : Prop :=
  match wire.framing with
  | .unframed => (ofDatum (wire.datum value)).reads
  | .confluent _ => (wire.next awaiting value).reads

variable {wire} {held : Held R} {value : List UInt8}

theorem push_unread (bare : wire.framing = .unframed → held.awaiting = none)
    (nothing : ¬wire.Starts held.awaiting value) : (wire.push held value).2 = held := by
  by_cases empty : value = []
  · subst empty
    cases framing : wire.framing with
    | unframed => simp [push, reading, framing, readUnframed, ← bare framing]
    | confluent writers => rw [push_nil (by simp [framing])]
  cases framing : wire.framing with
  | unframed =>
    simp only [Starts, framing] at nothing
    cases read : wire.datum value with
    | complete length row => simp [read, ofDatum, Progress.reads] at nothing
    | incomplete => simp [push, reading, framing, readUnframed, empty, read, ← bare framing]
    | malformed error => simp [push, reading, framing, readUnframed, empty, read, ← bare framing]
  | confluent writers =>
    simp only [Starts, framing] at nothing
    simp only [push, wire.reading_framed (by simp [framing])]
    cases step : wire.next held.awaiting value with
    | row length row => simp [step, Progress.reads] at nothing
    | schemaId id => simp [step, Progress.reads] at nothing
    | wait => simp [wire.readFramed_wait empty step]
    | fail error => simp [wire.readFramed_fail empty step]

/-- Behind a prefix held, a value that adds no row is not accepted. -/
theorem readFramed_held {id : UInt32} (unread : value ≠ [])
    (silent : (wire.readFramed (some id) value).rows = []) :
    (wire.readFramed (some id) value).awaiting = some id ∧
      (wire.readFramed (some id) value).outcome ≠ .done := by
  cases step : wire.next (some id) value with
  | row length row => simp [wire.readFramed_row unread step, Reading.cons] at silent
  | schemaId other => cases (wire.next_schemaId step).1
  | wait => simp [wire.readFramed_wait unread step]
  | fail error => simp [wire.readFramed_fail unread step]

/-- Flushes tell apart what holds different rows. -/
theorem rows_of_flush {held' : Held R} (same : (wire.answer held .flush).1 = (wire.answer held' .flush).1) :
    held.rows = held'.rows := by
  simp only [answer, Reply.flushed.injEq, Except.ok.injEq] at same
  split at same <;> split at same <;> simp_all

/-- A value begun and rejected without a row has left its prefix behind. -/
theorem push_silent (starts : wire.Starts held.awaiting value) (rejected : (wire.push held value).1 ≠ .ok ())
    (silent : (wire.reading held.awaiting value).rows = []) :
    ∃ writers a b c d, wire.framing = .confluent writers ∧ held.awaiting = none ∧
      (wire.writer (schemaId a b c d)).isSome ∧
      (wire.push held value).2 = ⟨held.rows, some (schemaId a b c d)⟩ := by
  cases framing : wire.framing with
  | unframed =>
    simp only [Starts, framing] at starts
    simp only [push, reading, framing, readUnframed] at rejected silent
    by_cases empty : value = []
    · simp [empty, Outcome.result] at rejected
    · cases read : wire.datum value with
      | complete length row => simp [empty, read] at silent
      | incomplete => simp [read, ofDatum, Progress.reads] at starts
      | malformed error => simp [read, ofDatum, Progress.reads] at starts
  | confluent writers =>
    have framed : wire.framing ≠ .unframed := by simp [framing]
    have unread : value ≠ [] := by
      rintro rfl
      exact rejected (by rw [push_nil framed])
    simp only [Starts, framing] at starts
    simp only [push, wire.reading_framed framed] at rejected silent ⊢
    cases step : wire.next held.awaiting value with
    | row length row => simp [wire.readFramed_row unread step, Reading.cons] at silent
    | wait => simp [step, Progress.reads] at starts
    | fail error => simp [step, Progress.reads] at starts
    | schemaId id =>
      obtain ⟨idle, known, _⟩ := wire.next_schemaId step
      rw [wire.readFramed_schemaId unread step] at rejected silent ⊢
      have more : value.drop 5 ≠ [] := by
        intro empty
        simp [empty, Outcome.result] at rejected
      rw [idle] at step
      obtain ⟨a, b, c, d, _, rfl⟩ := prefix_of_next step
      exact ⟨writers, a, b, c, d, rfl, idle, known, by simp [silent, (readFramed_held more silent).1]⟩

/-- A value begun and then rejected changes some later answer: that of the next flush, or
those of a push of the prefix it began with and a flush after it. -/
theorem push_started (starts : wire.Starts held.awaiting value)
    (rejected : (wire.push held value).1 ≠ .ok ()) :
    ∃ inputs, outputs wire.answer held inputs ≠ outputs wire.answer (wire.push held value).2 inputs := by
  by_cases silent : (wire.reading held.awaiting value).rows = []
  · obtain ⟨writers, a, b, c, d, framing, idle, known, left⟩ := push_silent starts rejected silent
    have framed : wire.framing ≠ .unframed := by simp [framing]
    have accepted : wire.push held [0, a, b, c, d] = (.ok (), ⟨held.rows ++ [], some (schemaId a b c d)⟩) :=
      push_messages framing (by rw [idle]; exact .schemaId known .done)
    refine ⟨[.push [0, a, b, c, d], .flush], ?_⟩
    intro same
    rw [left] at same
    simp only [outputs, answer, accepted, List.cons.injEq, Reply.pushed.injEq] at same
    obtain ⟨result, flushes, -⟩ := same
    have rows := @rows_of_flush _ wire ⟨held.rows ++ [], some (schemaId a b c d)⟩
      (wire.push ⟨held.rows, some (schemaId a b c d)⟩ [0, a, b, c, d]).2 flushes
    simp only [push, wire.reading_framed framed, List.append_cancel_left_eq] at rows result
    exact (readFramed_held (by simp) rows.symm).2 (result_ok_iff.mp result.symm)
  · refine ⟨[.flush], fun same => silent ?_⟩
    have rows := rows_of_flush (List.head_eq_of_cons_eq same)
    simpa [push] using rows

end Wire

namespace AvroValueDecoder

variable {D B R : Type} {library : Decoder D B} {rowsOf : B → List R} {wire : Wire R} {batchSize : Nat}
  {view : D → Buffer R} {s t : AvroValueDecoder D B} {value : List UInt8} {built : D}

/-- Without room for a row nothing is ever read. -/
def idleAnswer : Unit → Call → Reply R × Unit
  | _, .push value => (.pushed (if value = [] then .ok () else .error (trailingBytes value.length)), ())
  | _, .flush => (.flushed (.ok none), ())

theorem idle_push (documented : library.Documented wire 0 rowsOf view) (holds : Holds rowsOf wire view s {})
    (value : List UInt8) : ∃ t, push library 1 s value =
        some (if value = [] then .ok () else .error (trailingBytes value.length), t) ∧
      Holds rowsOf wire view t {} := by
  have full : library.batchIsFull s.decoder = true := by simp [documented.full, Buffer.room]
  obtain ⟨t, moved, holds_t, flushed⟩ := setAside_holds documented holds
  rcases call : library.decode t.decoder value with ⟨answer, decoder⟩
  have result := documented.decode_result t.decoder value
  have viewed := documented.decode_view t.decoder value
  rw [call, wire.decode_roomless (by simp [Buffer.room])] at result viewed
  obtain rfl : answer = .ok 0 := result
  have viewed : view decoder = view t.decoder := viewed
  have holds_u := holds_t.grow decoder [] (by rw [viewed]; exact holds_t.sound)
    (by simp [viewed]) fun _ => by rw [viewed, holds_t.awaiting]
  rw [viewed, holds_t.awaiting] at holds_u
  obtain ⟨w, kept, holds_w, _⟩ := setAside_holds documented holds_u
  have rows : (view decoder).rows = [] := (List.append_eq_nil_iff.mp holds_u.rows).2
  have kept : setAside library { t with decoder } = (.ok false, w) := by simpa [rows] using kept
  have decoded : push library 1 s value = retry library 1 { t with decoder } value 0 := by
    simp only [push, full, if_true, moved, decodeValue, call]
  rw [decoded, retry]
  by_cases empty : value = []
  · exact ⟨{ t with decoder }, by simp [empty], holds_u⟩
  have unread : 0 < value.length := List.length_pos_iff.mpr empty
  rw [if_neg empty]
  by_cases framed : t.framed
  · exact ⟨w, by rw [if_pos ⟨framed, unread⟩]; simp [kept], holds_w⟩
  · exact ⟨{ t with decoder }, by simp [framed, Nat.ne_of_lt unread], holds_u⟩

theorem idle_implements (documented : library.Documented wire 0 rowsOf view) :
    Implements (Step library rowsOf) idleAnswer fun s _ => Holds rowsOf wire view s {} := by
  refine .of_unique (Step.unique library rowsOf) fun {s _} holds call => ?_
  cases call with
  | push value =>
    obtain ⟨t, pushed, holds_t⟩ := idle_push documented holds value
    exact ⟨t, .push pushed, holds_t⟩
  | flush => exact flush_step documented holds

/-- In every state reached, a rejected push leaves no trace exactly when the value does not
begin with anything to read, or there is never room to read it. -/
theorem rejected_untraced_iff (documented : library.Documented wire batchSize rowsOf view)
    (fresh : (view built).Fresh) (run : Run (Step library rowsOf) (new wire.framing built) trace s)
    (rejected : Step library rowsOf s (.push value) (.pushed (.error error)) t) :
    Indistinguishable (Step library rowsOf) s t ↔
      batchSize = 0 ∨ ¬wire.Starts (view s.decoder).awaiting value := by
  rcases Nat.eq_zero_or_pos batchSize with rfl | positive
  · have implements := idle_implements documented
    obtain ⟨_, _, holds⟩ := implements.run_follows (a := ()) run (new_holds fresh)
    obtain ⟨_, holds_t⟩ := implements.follows (a := ()) holds rejected
    simp [implements.indistinguishable_iff (a := ()) (b := ()) holds holds_t]
  simp only [Nat.ne_of_gt positive, false_or]
  have implements := implements documented positive
  obtain ⟨_, held, holds⟩ := implements.run_follows run (new_holds fresh)
  obtain ⟨answer, holds_t⟩ := implements.follows holds rejected
  have failed : (wire.push held value).1 = .error error := (Reply.pushed.inj answer).symm
  rw [implements.indistinguishable_iff holds holds_t, holds.awaiting]
  constructor
  · intro same starts
    obtain ⟨inputs, differ⟩ := Wire.push_started starts (by simp [failed])
    exact differ (same inputs)
  · intro nothing inputs
    simp only [Wire.answer, Wire.push_unread holds.bare nothing]

theorem rejected_untraced_iff_malformed :
    ∃ error t, Step (buffered (flags .unframed) 1) id (new .unframed {}) (.push [2]) (.pushed (.error error)) t ∧
      Indistinguishable (Step (buffered (flags .unframed) 1) id) (new .unframed {}) t := by
  have rejected : Step (buffered (flags .unframed) 1) id (new .unframed {}) (.push [2])
      (.pushed (.error (.arrow ⟨"Parser error: Expected 0 or 1 for boolean"⟩))) (new .unframed {}) :=
    .push (show push _ 1 _ _ = _ from rfl)
  have nothing : ¬(flags .unframed).Starts none [2] := by
    simp [Wire.Starts, flags, Wire.datum, flagRecords, Wire.ofDatum, Progress.reads]
  exact ⟨_, _, rejected, (rejected_untraced_iff (buffered_documented (flags .unframed) 1) Buffer.fresh .nil
    rejected).mpr (.inr nothing)⟩

/-- A datum with a byte after it is rejected, and its row is flushed. -/
theorem rejected_row_flushed :
    ∃ t, Step (buffered (flags .unframed) 16) id (new .unframed {}) (.push [1, 0])
        (.pushed (.error (trailingBytes 1))) t ∧
      (flush (buffered (flags .unframed) 16) t).1 = .ok (some [true]) ∧
      ¬Indistinguishable (Step (buffered (flags .unframed) 16) id) (new .unframed {}) t := by
  refine ⟨⟨{ rows := [true] }, false, []⟩, .push (show push _ 1 _ _ = _ from rfl), rfl, ?_⟩
  intro same
  have unpushed : Run (Step (buffered (flags .unframed) 16) id) (new .unframed {})
      [(.flush, .flushed (.ok none))] (new .unframed {}) := .cons (.flush rfl) .nil
  obtain ⟨last, run⟩ := (same _).mp ⟨_, unpushed⟩
  cases run with
  | cons flushed _ => cases (flushed.unique _ _ (.flush rfl)).1

end AvroValueDecoder

end FsspecData.Avro
