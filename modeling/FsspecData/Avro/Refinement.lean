import FsspecData.Avro.Reading
import FsspecData.Library.Machine

/-! The value decoder refines a list of rows with at most one prefix after it: pushes read,
and flushes hand the rows out. Batches, set-aside lists and writer switches do not show. -/
namespace FsspecData.Avro

inductive Call where
  | push (value : List UInt8)
  | flush
  deriving DecidableEq

inductive Reply (R : Type) where
  | pushed (result : Except InterchangeError Unit)
  | flushed (result : Except InterchangeError (Option (List R)))

/-- What a value decoder holds: the rows to flush, and a prefix whose body is to come. -/
structure Held (R : Type) where
  rows : List R := []
  awaiting : Option UInt32 := none

def Outcome.result : Outcome → Except InterchangeError Unit
  | .done => .ok ()
  | .left count => .error (trailingBytes count)
  | .failed error => .error (.arrow error)

namespace Wire

variable {R : Type} (wire : Wire R)

def push (held : Held R) (value : List UInt8) : Except InterchangeError Unit × Held R :=
  let reading := wire.reading held.awaiting value
  (reading.outcome.result, ⟨held.rows ++ reading.rows, reading.awaiting⟩)

def answer (held : Held R) : Call → Reply R × Held R
  | .push value => (.pushed (wire.push held value).1, (wire.push held value).2)
  | .flush =>
    (.flushed (.ok (if held.rows.isEmpty then none else some held.rows)), { held with rows := [] })

variable {wire} {held : Held R} {bytes rest : List UInt8}

/-- Reading part of a value first changes nothing. -/
theorem push_prepend {rows : List R} {awaiting : Option UInt32}
    (reads : wire.reading held.awaiting bytes = (wire.reading awaiting rest).prepend rows) :
    wire.push held bytes = wire.push ⟨held.rows ++ rows, awaiting⟩ rest := by
  simp [push, reads, Reading.prepend]

theorem push_nil (framed : wire.framing ≠ .unframed) : wire.push held [] = (.ok (), held) := by
  simp [push, wire.reading_framed framed, Outcome.result]

theorem push_wait (framed : wire.framing ≠ .unframed) (unread : bytes ≠ [])
    (waits : wire.next held.awaiting bytes = .wait) :
    wire.push held bytes = (.error (trailingBytes bytes.length), held) := by
  simp [push, wire.reading_framed framed, wire.readFramed_wait unread waits, Outcome.result]

end Wire

namespace AvroValueDecoder

variable {D B R : Type} (library : Decoder D B) (rowsOf : B → List R)

/-- One call and its answer. -/
inductive Step : AvroValueDecoder D B → Call → Reply R → AvroValueDecoder D B → Prop where
  | push : push library fuel s value = some (result, t) → Step s (.push value) (.pushed result) t
  | flush : flush library s = (returned, t) →
      Step s .flush (.flushed (Option.map rowsOf <$> returned)) t

/-- More fuel never changes how the loop ends. -/
theorem retry_mono {fuel more : Nat} {s : AvroValueDecoder D B} {value : List UInt8} {consumed : Nat}
    (h : retry library fuel s value consumed = some result) (le : fuel ≤ more) :
    retry library more s value consumed = some result := by
  induction fuel generalizing s consumed more with
  | zero => simp [retry] at h
  | succ fuel ih =>
    obtain ⟨more, rfl⟩ : ∃ k, more = k + 1 := ⟨more - 1, by omega⟩
    have le : fuel ≤ more := by omega
    unfold retry at h ⊢
    split at h
    next unread =>
      rw [if_pos unread]
      split at h
      next moved => simpa [moved] using h
      next moved => simpa [moved] using h
      next moved =>
        split at h
        next fails => simpa [moved, fails] using h
        next reads => simpa [moved, reads] using ih h le
    next read => rwa [if_neg read]

theorem decodeValue_mono {fuel more : Nat} {s : AvroValueDecoder D B} {value : List UInt8}
    (h : decodeValue library fuel s value = some result) (le : fuel ≤ more) :
    decodeValue library more s value = some result := by
  unfold decodeValue at h ⊢
  split at h
  next fails => simpa [fails] using h
  next reads => simpa [reads] using retry_mono library h le

theorem push_mono {fuel more : Nat} {s : AvroValueDecoder D B} {value : List UInt8}
    (h : push library fuel s value = some result) (le : fuel ≤ more) :
    push library more s value = some result := by
  unfold push at h ⊢
  split at h
  next moved => simpa [moved] using h
  next moved => simpa [moved] using decodeValue_mono library h le

theorem Step.unique {s t t' : AvroValueDecoder D B} (first : Step library rowsOf s call reply t)
    (second : Step library rowsOf s call reply' t') : reply = reply' ∧ t = t' := by
  cases first with
  | @push fuel _ _ _ _ h =>
    cases second with
    | @push fuel' _ _ _ _ h' =>
      have same := (push_mono library h (Nat.le_max_left fuel fuel')).symm.trans
        (push_mono library h' (Nat.le_max_right fuel fuel'))
      cases same
      exact ⟨rfl, rfl⟩
  | flush h =>
    cases second with
    | flush h' =>
      cases h.symm.trans h'
      exact ⟨rfl, rfl⟩

/-- The decoder holds these rows: those set aside, none of them empty, then its own. -/
structure Holds (wire : Wire R) (view : D → Buffer R) (s : AvroValueDecoder D B) (held : Held R) :
    Prop where
  framed : s.framed = decide (wire.framing ≠ .unframed)
  sound : (view s.decoder).Sound
  filled : ∀ batch ∈ s.decoded, rowsOf batch ≠ []
  rows : s.decoded.flatMap rowsOf ++ (view s.decoder).rows = held.rows
  awaiting : (view s.decoder).awaiting = held.awaiting
  bare : wire.framing = .unframed → held.awaiting = none

section Refinement

variable {library} {rowsOf} {wire : Wire R} {batchSize : Nat} {view : D → Buffer R}
  {s : AvroValueDecoder D B} {held : Held R} {value : List UInt8} {consumed : Nat}

theorem new_holds {built : D} (fresh : (view built).Fresh) :
    Holds rowsOf wire view (new wire.framing built : AvroValueDecoder D B) {} where
  framed := rfl
  sound := fresh.sound
  filled := by simp [new]
  rows := by simp [new, fresh.rows]
  awaiting := by simp [new, fresh.awaiting]
  bare _ := rfl

/-- The decoder's own rows grow and its prefix changes; what is set aside stays. -/
theorem Holds.grow (holds : Holds rowsOf wire view s held) (decoder : D) (rows : List R)
    (sound : (view decoder).Sound) (grown : (view decoder).rows = (view s.decoder).rows ++ rows)
    (bare : wire.framing = .unframed → (view decoder).awaiting = none) :
    Holds rowsOf wire view { s with decoder } ⟨held.rows ++ rows, (view decoder).awaiting⟩ where
  framed := holds.framed
  sound := sound
  filled := holds.filled
  rows := by simp [grown, ← holds.rows]
  awaiting := rfl
  bare := bare

/-- Rows set aside are still held. -/
theorem Holds.aside (holds : Holds rowsOf wire view s held) (decoder : D) (batch : Option B)
    (rows : batch.toList.flatMap rowsOf = (view s.decoder).rows) (filled : ∀ b ∈ batch, rowsOf b ≠ [])
    (flushed : view decoder = (view s.decoder).flushed) :
    Holds rowsOf wire view { s with decoder, decoded := s.decoded ++ batch.toList } held where
  framed := holds.framed
  sound := flushed ▸ .flushed _
  filled other member := by
    rcases List.mem_append.mp member with aside | new
    · exact holds.filled other aside
    · exact filled other (Option.mem_toList.mp new)
  rows := by simp [flushed, rows, ← holds.rows]
  awaiting := by simp [flushed, holds.awaiting]
  bare := holds.bare

/-- Setting aside finds rows when the decoder has some, and hides nothing. -/
theorem setAside_holds (documented : library.Documented wire batchSize rowsOf view)
    (holds : Holds rowsOf wire view s held) :
    ∃ t, setAside library s = (.ok !(view s.decoder).rows.isEmpty, t) ∧
      Holds rowsOf wire view t held ∧ view t.decoder = (view s.decoder).flushed := by
  have flushed : view (library.flush s.decoder).2 = (view s.decoder).flushed := documented.flush_view _
  rcases call : library.flush s.decoder with ⟨result, decoder⟩
  rw [call] at flushed
  by_cases empty : (view s.decoder).rows = []
  · have found := documented.flush_none empty
    rw [call] at found
    cases found
    exact ⟨_, by simp [setAside, call, empty], holds.aside decoder none (by simp [empty]) (by simp) flushed,
      flushed⟩
  · obtain ⟨batch, found, rows⟩ := documented.flush_some empty
    rw [call] at found
    cases found
    exact ⟨_, by simp [setAside, call, empty],
      holds.aside decoder (some batch) (by simp [rows]) (by simpa [rows] using empty) flushed, flushed⟩

/-- A call of the framed decoder takes the reading some way. -/
theorem decode_holds (documented : library.Documented wire batchSize rowsOf view)
    (framed : wire.framing ≠ .unframed) (holds : Holds rowsOf wire view s held) (bytes : List UInt8) :
    match library.decode s.decoder bytes with
    | (.ok consumed, decoder) => consumed ≤ bytes.length ∧ ∃ held',
        Holds rowsOf wire view { s with decoder } held' ∧
        wire.push held bytes = wire.push held' (bytes.drop consumed) ∧
        wire.Leaves batchSize (view s.decoder) (view decoder) bytes (bytes.drop consumed)
    | (.error error, decoder) => ∃ held',
        Holds rowsOf wire view { s with decoder } held' ∧
        wire.push held bytes = (.error (.arrow error), held') := by
  have reads := wire.decodeFramed_reads batchSize (view s.decoder) bytes holds.sound
  have result := documented.decode_result s.decoder bytes
  have viewed := documented.decode_view s.decoder bytes
  rw [wire.decode_framed framed] at result viewed
  rcases call : library.decode s.decoder bytes with ⟨answer, decoder⟩
  rw [call] at result viewed
  rw [show wire.decodeFramed batchSize (view s.decoder) bytes = (answer, view decoder) from
    Prod.ext result.symm viewed.symm] at reads
  cases answer with
  | ok consumed =>
    obtain ⟨within, leaves⟩ := reads
    obtain ⟨rows, grown, read⟩ := leaves.reads
    have holds' := holds.grow decoder rows leaves.sound grown fun bare => absurd bare framed
    refine ⟨within, _, holds', ?_, leaves⟩
    apply Wire.push_prepend
    rw [wire.reading_framed framed, wire.reading_framed framed, ← holds.awaiting, read]
  | error error =>
    obtain ⟨rows, grown, read⟩ := reads.reads
    refine ⟨_, holds.grow decoder rows reads.sound grown fun bare => absurd bare framed, ?_⟩
    simp [Wire.push, wire.reading_framed framed, ← holds.awaiting, read, Outcome.result]

/-- A measure of the retries: the reading left, and whether there are rows to set aside. -/
def retries (rows : List R) (awaiting : Option UInt32) (bytes : List UInt8) : Nat :=
  2 * Wire.pending awaiting bytes + if rows.isEmpty then 0 else 1

/-- The retry loop ends, as reading the rest of the value does. -/
theorem retry_push (documented : library.Documented wire batchSize rowsOf view) (positive : 0 < batchSize)
    (framed : wire.framing ≠ .unframed) (holds : Holds rowsOf wire view s held)
    (within : consumed ≤ value.length)
    (stops : wire.Stops batchSize (view s.decoder) (value.drop consumed)) :
    ∃ fuel t, retry library fuel s value consumed =
        some ((wire.push held (value.drop consumed)).1, t) ∧
      Holds rowsOf wire view t (wire.push held (value.drop consumed)).2 := by
  -- the induction is on the reading left, as a call that follows a flush reads or finds no rows
  induction measured : retries (view s.decoder).rows (view s.decoder).awaiting (value.drop consumed)
    using Nat.strongRecOn generalizing s held consumed with
  | ind measure ih =>
  have isFramed : s.framed = true := by simp [holds.framed, framed]
  by_cases read : consumed = value.length
  · subst read
    rw [List.drop_length, Wire.push_nil framed]
    exact ⟨1, s, by simp [retry], holds⟩
  have unread : s.framed ∧ consumed < value.length := ⟨isFramed, by omega⟩
  have nonempty : value.drop consumed ≠ [] := by simp [List.drop_eq_nil_iff]; omega
  obtain ⟨t, moved, held_t, flushed⟩ := setAside_holds documented holds
  by_cases empty : (view s.decoder).rows = []
  · -- nothing was set aside: the decoder waits, and the value is rejected
    have waits : wire.next held.awaiting (value.drop consumed) = .wait := by
      rcases stops with none | full | waits
      · contradiction
      · exact absurd empty (Buffer.rows_of_full positive holds.sound full)
      · rwa [holds.awaiting] at waits
    rw [Wire.push_wait framed nonempty waits]
    exact ⟨1, t, by simp [retry, unread, moved, empty], held_t⟩
  · rw [List.isEmpty_eq_false_iff.mpr empty] at moved
    have found : setAside library s = (.ok true, t) := moved
    have reads := decode_holds documented framed held_t (value.drop consumed)
    rcases call : library.decode t.decoder (value.drop consumed) with ⟨answer, decoder⟩
    rw [call] at reads
    cases answer with
    | error error =>
      obtain ⟨held', holds', pushed⟩ := reads
      rw [pushed]
      exact ⟨1, _, by simp [retry, unread, found, call], holds'⟩
    | ok more =>
      obtain ⟨further, held', holds', pushed, leaves⟩ := reads
      simp only [List.length_drop] at further
      rw [List.drop_drop] at pushed leaves
      have less : retries (view decoder).rows (view decoder).awaiting (value.drop (consumed + more)) <
          measure := by
        rw [flushed] at leaves
        subst measured
        rcases leaves.progress with ⟨same, after⟩ | less
        · simp [retries, same, after, empty]
        · simp only [Buffer.flushed_awaiting] at less
          simp only [retries]
          split <;> split <;> omega
      obtain ⟨fuel, u, ends, holds_u⟩ := ih _ less holds' (by omega) leaves.stops rfl
      rw [pushed]
      exact ⟨fuel + 1, u, by simpa [retry, unread, found, call] using ends, holds_u⟩

theorem decodeValue_framed (documented : library.Documented wire batchSize rowsOf view)
    (positive : 0 < batchSize) (framed : wire.framing ≠ .unframed)
    (holds : Holds rowsOf wire view s held) (value : List UInt8) :
    ∃ fuel t, decodeValue library fuel s value = some ((wire.push held value).1, t) ∧
      Holds rowsOf wire view t (wire.push held value).2 := by
  have reads := decode_holds documented framed holds value
  rcases call : library.decode s.decoder value with ⟨answer, decoder⟩
  rw [call] at reads
  cases answer with
  | error error =>
    obtain ⟨held', holds', pushed⟩ := reads
    exact ⟨0, { s with decoder }, by simp [decodeValue, call, pushed], pushed ▸ holds'⟩
  | ok consumed =>
    obtain ⟨within, held', holds', pushed, leaves⟩ := reads
    rw [pushed]
    obtain ⟨fuel, t, ends, holds_t⟩ := retry_push documented positive framed holds' within leaves.stops
    exact ⟨fuel, t, by simpa [decodeValue, call] using ends, holds_t⟩

/-- A bare value is read by one call, which has room for its row. -/
theorem decodeValue_unframed (documented : library.Documented wire batchSize rowsOf view)
    (unframed : wire.framing = .unframed) (holds : Holds rowsOf wire view s held)
    (room : (view s.decoder).room batchSize = true) (value : List UInt8) :
    ∃ fuel t, decodeValue library fuel s value = some ((wire.push held value).1, t) ∧
      Holds rowsOf wire view t (wire.push held value).2 := by
  have result := documented.decode_result s.decoder value
  have viewed := documented.decode_view s.decoder value
  rcases call : library.decode s.decoder value with ⟨answer, decoder⟩
  have isBare : s.framed = false := by simp [holds.framed, unframed]
  have awaiting : (view s.decoder).awaiting = none := holds.awaiting.trans (holds.bare unframed)
  simp only [call, Wire.decode, unframed, Wire.decodeUnframed, room, Bool.true_eq_false, or_false]
    at result viewed
  -- a call that appends nothing leaves what is held
  have unchanged : view decoder = view s.decoder →
      Holds rowsOf wire view { s with decoder } ⟨held.rows ++ [], none⟩ := fun same => by
    have grown := holds.grow decoder [] (by rw [same]; exact holds.sound)
      (by simp [same]) fun _ => by rw [same, awaiting]
    rwa [same, awaiting] at grown
  refine ⟨1, { s with decoder }, ?_⟩
  simp only [decodeValue, call, Wire.push, Wire.reading, unframed, Wire.readUnframed]
  by_cases empty : value = []
  · simp only [empty, if_true] at result viewed ⊢
    subst result
    exact ⟨by simp [retry, Outcome.result], unchanged viewed⟩
  simp only [empty, if_false] at result viewed ⊢
  cases read : wire.datum value with
  | complete length row =>
    simp only [read] at result viewed ⊢
    subst result
    constructor
    · by_cases whole : length = value.length <;> simp [retry, isBare, whole, Outcome.result]
    · have grown := holds.grow decoder [row] (by rw [viewed]; exact .append row)
        (by simp [viewed]) fun _ => by simp [viewed]
      rwa [viewed, Buffer.append_awaiting] at grown
  | incomplete =>
    simp only [read] at result viewed ⊢
    subst result
    have unread : 0 ≠ value.length := fun none => empty (List.length_eq_zero_iff.mp none.symm)
    exact ⟨by simp [retry, isBare, unread, Outcome.result], unchanged viewed⟩
  | malformed error =>
    simp only [read] at result viewed ⊢
    subst result
    exact ⟨rfl, unchanged viewed⟩

/-- A push returns, and reads its value as the held rows and prefix tell. -/
theorem push_holds (documented : library.Documented wire batchSize rowsOf view) (positive : 0 < batchSize)
    (holds : Holds rowsOf wire view s held) (value : List UInt8) :
    ∃ fuel t, push library fuel s value = some ((wire.push held value).1, t) ∧
      Holds rowsOf wire view t (wire.push held value).2 := by
  obtain ⟨found, t, moved, holds_t, room⟩ : ∃ found t,
      (if library.batchIsFull s.decoder then setAside library s else (.ok false, s)) = (.ok found, t) ∧
      Holds rowsOf wire view t held ∧ (view t.decoder).room batchSize = true := by
    have full := documented.full s.decoder
    by_cases room : (view s.decoder).room batchSize = true
    · exact ⟨false, s, by simp [full, room], holds, room⟩
    · obtain ⟨t, moved, holds_t, flushed⟩ := setAside_holds documented holds
      exact ⟨_, t, by simpa [full, room] using moved, holds_t,
        by rw [flushed]; exact Buffer.room_flushed positive _⟩
  have decodes : ∃ fuel u, decodeValue library fuel t value = some ((wire.push held value).1, u) ∧
      Holds rowsOf wire view u (wire.push held value).2 := by
    by_cases unframed : wire.framing = .unframed
    · exact decodeValue_unframed documented unframed holds_t room value
    · exact decodeValue_framed documented positive unframed holds_t value
  obtain ⟨fuel, u, decoded, holds_u⟩ := decodes
  exact ⟨fuel, u, by simp only [push, moved, decoded], holds_u⟩

theorem flush_holds (documented : library.Documented wire batchSize rowsOf view)
    (holds : Holds rowsOf wire view s held) :
    ∃ returned t, flush library s = (returned, t) ∧
      Option.map rowsOf <$> returned = .ok (if held.rows.isEmpty then none else some held.rows) ∧
      Holds rowsOf wire view t { held with rows := [] } := by
  obtain ⟨t, moved, holds_t, flushed⟩ := setAside_holds documented holds
  have own : (view t.decoder).rows = [] := by rw [flushed]; rfl
  have aside : t.decoded.flatMap rowsOf = held.rows := by simpa [own] using holds_t.rows
  by_cases empty : t.decoded = []
  · have noRows : held.rows = [] := by simpa [empty] using aside.symm
    refine ⟨.ok none, t, by simp [flush, moved, empty], by rw [noRows]; rfl, ?_⟩
    rw [← noRows]
    exact holds_t
  · obtain ⟨batch, joined, rows⟩ := documented.concat t.decoded
    have someRows : held.rows ≠ [] := by
      obtain ⟨first, rest, split⟩ := List.exists_cons_of_ne_nil empty
      have filled := holds_t.filled first (by simp [split])
      simp [← aside, split, filled]
    refine ⟨.ok (some batch), { t with decoded := [] }, by simp [flush, moved, empty, joined], ?_, ?_⟩
    · rw [List.isEmpty_eq_false_iff.mpr someRows, ← aside, ← rows]
      rfl
    · exact
        { framed := holds_t.framed
          sound := holds_t.sound
          filled := by simp
          rows := by simp [own]
          awaiting := holds_t.awaiting
          bare := holds_t.bare }

theorem flush_step (documented : library.Documented wire batchSize rowsOf view)
    (holds : Holds rowsOf wire view s held) :
    ∃ t, Step library rowsOf s .flush
        (.flushed (.ok (if held.rows.isEmpty then none else some held.rows))) t ∧
      Holds rowsOf wire view t { held with rows := [] } := by
  obtain ⟨returned, t, flushed, rows, holds_t⟩ := flush_holds documented holds
  rw [← rows]
  exact ⟨t, .flush flushed, holds_t⟩

/-- The decoder answers every call as a list of rows with a prefix does. -/
theorem implements (documented : library.Documented wire batchSize rowsOf view) (positive : 0 < batchSize) :
    Machine.Implements (Step library rowsOf) wire.answer (Holds rowsOf wire view) := by
  refine .of_unique (Step.unique library rowsOf) fun {s held} holds call => ?_
  cases call with
  | push value =>
    obtain ⟨fuel, t, pushed, holds_t⟩ := push_holds documented positive holds value
    exact ⟨t, .push pushed, holds_t⟩
  | flush => exact flush_step documented holds

end Refinement

end AvroValueDecoder

end FsspecData.Avro
