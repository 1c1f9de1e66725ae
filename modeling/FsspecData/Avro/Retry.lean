import FsspecData.Avro.Buffered

/-! The resume loop of a push ends. A round that consumes nothing leaves the library's
decoder empty, so the round after it finds no rows to set aside and is the last. -/
namespace FsspecData.Avro

variable {D B R : Type}

/-- What the loop relies on: no more bytes are consumed than given, no row is buffered without
a byte consumed, and a flush leaves no row, nor finds one where there is none. `rows` counts
the rows that a decoder has buffered. -/
structure Decoder.Frugal (library : Decoder D B) (rows : D → Nat) : Prop where
  within : library.decode d bytes = (.ok consumed, d') → consumed ≤ bytes.length
  unread : library.decode d bytes = (.ok 0, d') → rows d' ≤ rows d
  flushed : library.flush d = (.ok batch, d') → rows d' = 0
  none_left : rows d = 0 → (library.flush d).1 = .ok none

namespace AvroValueDecoder

variable (library : Decoder D B)

/-- A round of the loop that leads to another look at its condition: there were rows to set
aside, and the library has decoded on. -/
inductive Round (value : List UInt8) : AvroValueDecoder D B → Nat → AvroValueDecoder D B → Nat → Prop where
  | resumed : s.framed = true → consumed < value.length → setAside library s = (.ok true, t) →
      library.decode t.decoder (value.drop consumed) = (.ok more, d) →
      Round value s consumed { t with decoder := d } (consumed + more)

/-- The loop heads of a push: every decoder and count that the condition is looked at with. -/
inductive Heads (s : AvroValueDecoder D B) (value : List UInt8) : AvroValueDecoder D B → Nat → Prop where
  | first : (if library.batchIsFull s.decoder then setAside library s else (.ok false, s)) = (.ok found, t) →
      library.decode t.decoder value = (.ok consumed, d) → Heads s value { t with decoder := d } consumed
  | next : Heads s value t consumed → Round library value t consumed u further → Heads s value u further

/-- The loop gives up at this head: bytes are left, and no rows are found. -/
def GivesUp (value : List UInt8) (s : AvroValueDecoder D B) (consumed : Nat) : Prop :=
  ∃ t, setAside library s = (.ok false, t) ∧ ∀ fuel,
    retry library (fuel + 1) s value consumed = some (.error (trailingBytes (value.length - consumed)), t)

variable {library} {rows : D → Nat} {value : List UInt8} {s t : AvroValueDecoder D B} {consumed further : Nat}

theorem retry_round (round : Round library value s consumed t further) (fuel : Nat) :
    retry library (fuel + 1) s value consumed = retry library fuel t value further := by
  cases round with
  | resumed framed unread moved reads =>
    rw [retry, if_pos ⟨framed, unread⟩]
    simp only [moved, reads]

/-- Without another round the loop has its result. -/
theorem retry_last (last : ∀ t further, ¬ Round library value s consumed t further) (fuel : Nat) :
    ∃ result, retry library (fuel + 1) s value consumed = some result := by
  by_cases unread : s.framed = true ∧ consumed < value.length
  · rw [retry, if_pos unread]
    rcases moved : setAside library s with ⟨_ | found, t⟩
    · exact ⟨_, rfl⟩
    · cases found with
      | false => exact ⟨_, rfl⟩
      | true =>
        rcases reads : library.decode t.decoder (value.drop consumed) with ⟨_ | more, decoder⟩
        · exact ⟨_, by simp only [reads]; rfl⟩
        · exact absurd (.resumed unread.1 unread.2 moved reads) (last _ _)
  · rw [retry, if_neg unread]
    split
    · exact ⟨_, rfl⟩
    · exact ⟨_, rfl⟩

/-- Rows set aside leave none behind. -/
theorem setAside_rows (frugal : library.Frugal rows) (moved : setAside library s = (.ok found, t)) :
    rows t.decoder = 0 := by
  unfold setAside at moved
  split at moved
  next => cases moved
  next batch decoder flush =>
    cases moved
    exact frugal.flushed flush

theorem setAside_none (frugal : library.Frugal rows) (empty : rows s.decoder = 0) :
    ∃ t, setAside library s = (.ok false, t) := by
  have none_found := frugal.none_left empty
  unfold setAside
  rcases flush : library.flush s.decoder with ⟨result, decoder⟩
  rw [flush] at none_found
  obtain rfl : result = .ok none := none_found
  exact ⟨_, rfl⟩

/-- A round consumes, or it leaves the decoder empty. -/
theorem round_progress (frugal : library.Frugal rows) (round : Round library value s consumed t further) :
    further ≤ value.length ∧ (consumed < further ∨ further = consumed ∧ rows t.decoder = 0) := by
  cases round with
  | @resumed _ _ t d more framed unread moved reads =>
    have within := frugal.within reads
    rw [List.length_drop] at within
    refine ⟨by omega, ?_⟩
    by_cases idle : more = 0
    · subst idle
      have kept := frugal.unread reads
      have empty := setAside_rows frugal moved
      exact .inr ⟨rfl, by simp only; omega⟩
    · exact .inl (by omega)

theorem round_unread (round : Round library value s consumed t further) :
    t.framed = true ∧ consumed < value.length := by
  cases round with
  | resumed framed unread moved reads =>
    unfold setAside at moved
    split at moved
    next => cases moved
    next =>
      obtain ⟨_, rfl⟩ := Prod.mk.inj moved
      exact ⟨framed, unread⟩

/-- A round that consumes nothing is followed by the end of the loop. -/
theorem round_givesUp (frugal : library.Frugal rows) (round : Round library value s consumed t further)
    (idle : further = consumed) (empty : rows t.decoder = 0) : GivesUp library value t further := by
  obtain ⟨u, none_found⟩ := setAside_none frugal empty
  refine ⟨u, none_found, fun fuel => ?_⟩
  obtain ⟨framed, unread⟩ := round_unread round
  rw [retry, if_pos ⟨framed, by rwa [idle]⟩]
  simp only [none_found]

/-- There are no more rounds than bytes left: each consumes, but for a last one. -/
theorem retry_ends (frugal : library.Frugal rows) {fuel : Nat} (enough : value.length - consumed < fuel) :
    ∃ result, retry library fuel s value consumed = some result := by
  induction fuel generalizing s consumed with
  | zero => omega
  | succ fuel ih =>
    by_cases resumes : ∃ t further, Round library value s consumed t further
    · obtain ⟨t, further, round⟩ := resumes
      rw [retry_round round]
      obtain ⟨within, progress⟩ := round_progress frugal round
      have unread := (round_unread round).2
      rcases progress with more | ⟨idle, empty⟩
      · exact ih (by omega)
      · -- bytes are left, so there is fuel for the round that gives up
        obtain ⟨u, _, stops⟩ := round_givesUp frugal round idle empty
        obtain ⟨fuel, rfl⟩ : ∃ k, fuel = k + 1 := ⟨fuel - 1, by omega⟩
        exact ⟨_, stops fuel⟩
    · exact retry_last (fun t further round => resumes ⟨t, further, round⟩) fuel

theorem heads_within (frugal : library.Frugal rows) (head : Heads library s value t consumed) :
    consumed ≤ value.length := by
  induction head with
  | first _ reads => exact frugal.within reads
  | next _ round _ => exact (round_progress frugal round).1

/-- Every push returns, whatever the bytes and the decoder are, and the bytes bound its
rounds. At every loop head the rest of the value is in range; a round consumes more of it, or
the next one finds no rows and stops. -/
theorem push_ends (frugal : library.Frugal rows) (s : AvroValueDecoder D B) (value : List UInt8) :
    (∃ result, push library (value.length + 1) s value = some result) ∧
      ∀ t consumed, Heads library s value t consumed → consumed ≤ value.length ∧
        ∀ u further, Round library value t consumed u further →
          consumed < further ∨ (further = consumed ∧ GivesUp library value u further) := by
  refine ⟨?_, fun t consumed head => ⟨heads_within frugal head, fun u further round => ?_⟩⟩
  · unfold push
    split
    next => exact ⟨_, rfl⟩
    next _ t _ =>
      unfold decodeValue
      split
      next => exact ⟨_, rfl⟩
      next consumed decoder _ => exact retry_ends frugal (by omega)
  · rcases (round_progress frugal round).2 with more | ⟨idle, empty⟩
    · exact .inl more
    · exact .inr ⟨idle, round_givesUp frugal round idle empty⟩

end AvroValueDecoder

/-! The documented decoder is such a library wherever rows take bytes. -/

/-- No row is read off no bytes. -/
structure Wire.Sized (wire : Wire R) : Prop where
  datum (bytes : List UInt8) (row : R) : wire.datum bytes ≠ .complete 0 row
  body (id : UInt32) (bytes : List UInt8) (row : R) : wire.body id bytes ≠ .complete 0 row

namespace Wire

variable {wire : Wire R} {batchSize consumed : Nat} {buffer after : Buffer R} {bytes : List UInt8}

theorem decodeFramed_within (wire : Wire R) (batchSize : Nat) (buffer : Buffer R) (bytes : List UInt8) :
    ∀ consumed, (wire.decodeFramed batchSize buffer bytes).1 = .ok consumed → consumed ≤ bytes.length := by
  fun_induction decodeFramed wire batchSize buffer bytes with
  | case1 => simp
  | case2 buffer bytes busy length row step result after called ih =>
    obtain ⟨id, -, read⟩ := wire.next_row step
    have short := wire.body_within read
    rw [called] at ih
    intro consumed total
    cases result with
    | error => cases total
    | ok more =>
      cases total
      have := ih more rfl
      rw [List.length_drop] at this
      show _ + more ≤ bytes.length
      omega
  | case3 buffer bytes busy id step result after called ih =>
    obtain ⟨-, -, long⟩ := wire.next_schemaId step
    rw [called] at ih
    intro consumed total
    cases result with
    | error => cases total
    | ok more =>
      cases total
      have := ih more rfl
      rw [List.length_drop] at this
      show _ + more ≤ bytes.length
      omega
  | case4 => simp
  | case5 => simp

theorem decode_within (reads : (wire.decode batchSize buffer bytes).1 = .ok consumed) : consumed ≤ bytes.length := by
  cases framing : wire.framing with
  | confluent writers =>
    rw [decode, framing] at reads
    exact wire.decodeFramed_within batchSize buffer bytes consumed reads
  | unframed =>
    simp only [decode, framing, decodeUnframed] at reads
    split at reads
    next =>
      cases reads
      exact Nat.zero_le _
    next =>
      split at reads
      next length row read =>
        cases reads
        exact wire.records.within read
      next =>
        cases reads
        exact Nat.zero_le _
      next => cases reads

theorem Sized.decodeFramed_unread (sized : wire.Sized) (batchSize : Nat) (buffer : Buffer R) (bytes : List UInt8) :
    (wire.decodeFramed batchSize buffer bytes).1 = .ok 0 → (wire.decodeFramed batchSize buffer bytes).2 = buffer := by
  fun_induction decodeFramed wire batchSize buffer bytes with
  | case1 => simp
  | case2 buffer bytes busy length row step result after called ih =>
    obtain ⟨id, -, read⟩ := wire.next_row step
    intro total
    cases result with
    | error => cases total
    | ok more =>
      have none_read : length + more = 0 := Except.ok.inj total
      obtain rfl : length = 0 := by omega
      exact absurd read (sized.body id bytes row)
  | case3 buffer bytes busy id step result after called ih =>
    intro total
    cases result with
    | error => cases total
    | ok more =>
      have none_read : 5 + more = 0 := Except.ok.inj total
      omega
  | case4 => simp
  | case5 => simp

/-- Where rows take bytes, a call that consumes nothing changes nothing. -/
theorem Sized.decode_unread (sized : wire.Sized) (reads : (wire.decode batchSize buffer bytes).1 = .ok 0) :
    (wire.decode batchSize buffer bytes).2 = buffer := by
  cases framing : wire.framing with
  | confluent writers =>
    simp only [decode, framing] at reads ⊢
    exact sized.decodeFramed_unread batchSize buffer bytes reads
  | unframed =>
    simp only [decode, framing, decodeUnframed] at reads ⊢
    split at reads
    next stops => rw [if_pos stops]
    next busy =>
      rw [if_neg busy]
      split at reads
      next length row read =>
        cases reads
        exact absurd read (sized.datum bytes row)
      next => rfl
      next => cases reads

end Wire

/-- The documented decoder keeps what the loop relies on, where rows take bytes. -/
theorem Decoder.Documented.frugal {library : Decoder D B} {wire : Wire R} {batchSize : Nat} {rowsOf : B → List R}
    {view : D → Buffer R} (documented : library.Documented wire batchSize rowsOf view) (sized : wire.Sized) :
    library.Frugal fun d => (view d).rows.length where
  within {d bytes consumed d'} reads := by
    have result := documented.decode_result d bytes
    rw [reads] at result
    exact Wire.decode_within result.symm
  unread {d bytes d'} reads := by
    have result := documented.decode_result d bytes
    have viewed := documented.decode_view d bytes
    rw [reads] at result viewed
    exact Nat.le_of_eq (by rw [viewed, sized.decode_unread result.symm])
  flushed {d batch d'} moved := by
    have viewed := documented.flush_view d
    rw [moved] at viewed
    rw [viewed, Buffer.flushed_rows, List.length_nil]
  none_left empty := documented.flush_none (List.eq_nil_of_length_eq_zero empty)

/-- Two writers of the flag. -/
def twoWriters : AvroFraming := .confluent [(1, "flag"), (2, "flag with doc")]

theorem twoWriters_sized : (flags twoWriters).Sized := by
  have read (writer : String) (bytes : List UInt8) (row : Bool) (fields : writer ≠ "fieldless") :
      flagRecords.read writer "flag" bytes ≠ .complete 0 row := by
    simp only [flagRecords, if_neg fields]
    split <;> simp
  refine ⟨fun bytes row => read "flag" bytes row (by decide), fun id bytes row => ?_⟩
  unfold Wire.body
  split
  next writer known =>
    refine read writer bytes row ?_
    rintro rfl
    simp only [Wire.writer, flags, twoWriters, List.lookup_cons, List.lookup_nil] at known
    split at known
    next => simp at known
    next => split at known <;> simp at known
  next => simp

namespace AvroValueDecoder

/-- A row is buffered when a cut off prefix arrives: the one round consumes nothing. -/
theorem push_ends_torn :
    (∃ result, push (buffered (flags twoWriters) 2) 3 ⟨{ rows := [true] }, true, []⟩ [0, 0] = some result) ∧
      ∃ s t, Heads (buffered (flags twoWriters) 2) ⟨{ rows := [true] }, true, []⟩ [0, 0] s 0 ∧
        Round (buffered (flags twoWriters) 2) [0, 0] s 0 t 0 ∧ GivesUp (buffered (flags twoWriters) 2) [0, 0] t 0 := by
  have waits (buffer : Buffer Bool) (idle : buffer.awaiting = none) (room : buffer.room 2 = true) :
      (buffered (flags twoWriters) 2).decode buffer [0, 0] = (.ok 0, buffer) := by
    change (flags twoWriters).decodeFramed 2 buffer [0, 0] = (.ok 0, buffer)
    have torn : (flags twoWriters).next buffer.awaiting [0, 0] = .wait := by rw [idle]; rfl
    rw [Wire.decodeFramed, if_neg (by simp [room])]
    split <;> simp_all
  obtain ⟨returns, heads⟩ := push_ends ((buffered_documented (flags twoWriters) 2).frugal twoWriters_sized)
    ⟨{ rows := [true] }, true, []⟩ [0, 0]
  have first : Heads (buffered (flags twoWriters) 2) ⟨{ rows := [true] }, true, []⟩ [0, 0]
      ⟨{ rows := [true] }, true, []⟩ 0 :=
    .first (t := ⟨{ rows := [true] }, true, []⟩) rfl (waits _ rfl rfl)
  have idle : Round (buffered (flags twoWriters) 2) [0, 0] ⟨{ rows := [true] }, true, []⟩ 0
      ⟨{}, true, [[true]]⟩ (0 + 0) :=
    .resumed (t := ⟨{}, true, [[true]]⟩) rfl (Nat.succ_pos 1) rfl (waits _ rfl rfl)
  rcases (heads _ _ first).2 _ _ idle with more | ⟨_, stops⟩
  · exact absurd more (Nat.lt_irrefl _)
  · exact ⟨returns, _, _, first, idle, stops⟩

end AvroValueDecoder

end FsspecData.Avro
