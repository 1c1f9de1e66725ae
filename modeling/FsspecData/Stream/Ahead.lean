import FsspecData.Stream.Ended
import FsspecData.Stream.Reference

/-! No reading ahead. An output is cut from the answer to the last poll, and every row
before that answer has been yielded: this is what a call of `next` restores. -/
namespace FsspecData.DecodedStream

open FsspecData Machine

variable {B R : Type} [BatchLike B R]

def answerRows : Option (Item B) → List R
  | some (.ok batch) => rows batch
  | some (.error _) | none => []

/-- The rows of the source's first answers. -/
def pulledRows (source : Source B) (polls : Nat) : List R :=
  (List.range polls).flatMap fun poll => answerRows (source poll)

def replyRows : Reply B → List R
  | .item item => answerRows item
  | .cancelled => []

/-- The rows that some calls have yielded. -/
def received (trace : List (Call × Reply B)) : List R := trace.flatMap fun entry => replyRows entry.2

/-! Lists collected from the first numbers. -/

theorem flatMap_range_succ (f : Nat → List α) (n : Nat) :
    (List.range (n + 1)).flatMap f = (List.range n).flatMap f ++ f n := by
  simp [List.range_succ]

theorem flatMap_range_le (f : Nat → List α) {n m : Nat} (le : n ≤ m) :
    (List.range n).flatMap f <+: (List.range m).flatMap f := by
  induction le with
  | refl => exact List.prefix_rfl
  | step _ ih =>
    rw [flatMap_range_succ]
    exact ih.trans (List.prefix_append _ _)

theorem flatMap_range_blank {f : Nat → List α} {n m : Nat} (le : n ≤ m)
    (blank : ∀ i, n ≤ i → i < m → f i = []) : (List.range m).flatMap f = (List.range n).flatMap f := by
  induction le with
  | refl => rfl
  | @step m further ih =>
    rw [flatMap_range_succ, blank m further (Nat.lt_succ_self m), List.append_nil]
    exact ih fun i first bound => blank i first (Nat.lt_succ_of_lt bound)

theorem pulledRows_succ (source : Source B) (polls : Nat) :
    pulledRows source (polls + 1) = pulledRows source polls ++ answerRows (source polls) :=
  flatMap_range_succ _ polls

theorem pulledRows_le (source : Source B) {polls more : Nat} (le : polls ≤ more) :
    pulledRows source polls <+: pulledRows source more :=
  flatMap_range_le _ le

/-- Answers without rows add none. -/
theorem pulledRows_blank {source : Source B} {polls more : Nat} (le : polls ≤ more)
    (blank : ∀ poll, polls ≤ poll → poll < more → answerRows (source poll) = []) :
    pulledRows source more = pulledRows source polls :=
  flatMap_range_blank le blank

theorem rows_nil {batch : B} (rowless : numRows batch = 0) : rows batch = [] :=
  List.eq_nil_of_length_eq_zero ((BatchLike.rows_length batch).trans rowless)

/-- Up to its end, a dry source answers with neither rows nor errors. -/
theorem Dry.answers {s : DecodedStream B} {count poll : Nat} (dry : Dry s count) (first : s.polls ≤ poll)
    (bound : poll < s.polls + count + 1) :
    answerRows (s.source poll) = [] ∧ ∀ error, s.source poll ≠ some (.error error) := by
  obtain ⟨i, rfl⟩ := Nat.exists_eq_add_of_le first
  by_cases at_end : i = count
  · rw [at_end, dry.ended]
    exact ⟨rfl, nofun⟩
  · obtain ⟨batch, answer, rowless⟩ := dry.rowless i (by omega)
    rw [answer]
    exact ⟨rows_nil rowless, nofun⟩

/-- Where the loop of `next` finds unread rows: in the pending batch, or in the first
answer with rows. The last number counts the polls taken by then. -/
inductive Draws (s : DecodedStream B) : B → Nat → Nat → Prop where
  | held : s.pending = some (batch, offset) → offset < numRows batch → Draws s batch offset s.polls
  | fresh (polls : Nat) : (∀ batch offset, s.pending = some (batch, offset) → numRows batch ≤ offset) →
      s.polls ≤ polls → (∀ poll, s.polls ≤ poll → poll < polls → answerRows (s.source poll) = []) →
      s.source polls = some (.ok batch) → 0 < numRows batch → Draws s batch 0 (polls + 1)

theorem Draws.unread {s : DecodedStream B} {batch : B} {offset polls : Nat} (draws : Draws s batch offset polls) :
    offset < numRows batch := by
  cases draws with
  | held _ unread => exact unread
  | fresh _ _ _ _ _ unread => exact unread

theorem Draws.further {s : DecodedStream B} {batch : B} {offset polls : Nat} (draws : Draws s batch offset polls) :
    s.polls ≤ polls := by
  cases draws with
  | held => exact Nat.le_refl _
  | fresh _ _ further => exact Nat.le_succ_of_le further

/-- A pending batch that is read up is passed over. -/
theorem Draws.passed {s : DecodedStream B} {passed batch : B} {read offset polls : Nat}
    (held : s.pending = some (passed, read)) (up : numRows passed ≤ read)
    (draws : Draws { s with pending := none } batch offset polls) : Draws s batch offset polls := by
  cases draws with
  | held held' => contradiction
  | fresh polls _ further blank answer unread =>
    refine .fresh polls (fun batch offset held' => ?_) further blank answer unread
    cases held.symm.trans held'
    exact up

/-- An answer without rows is passed over. -/
theorem Draws.polled {s : DecodedStream B} {first batch : B} {offset polls : Nat} (empty : s.pending = none)
    (answer : s.source s.polls = some (.ok first)) (rowless : numRows first = 0)
    (draws : Draws { s with polls := s.polls + 1 } batch offset polls) : Draws s batch offset polls := by
  cases draws with
  | held held' => cases empty.symm.trans held'
  | fresh polls _ further blank answer' unread =>
    refine .fresh polls (fun batch offset held' => ?_) (Nat.le_of_succ_le further) (fun poll start bound => ?_)
      answer' unread
    · cases empty.symm.trans held'
    · by_cases here : poll = s.polls
      · rw [here, answer]
        exact rows_nil rowless
      · exact blank poll (Nat.lt_of_le_of_ne start (Ne.symm here)) bound

theorem pull_draws {fuel offset : Nat} {s t : DecodedStream B} {batch : B}
    (loop : pull fuel s = some (.ready batch offset, t)) :
    ∃ polls, Draws s batch offset polls ∧ t = { s with pending := none, polls := polls } := by
  induction fuel generalizing s with
  | zero => simp [pull] at loop
  | succ fuel ih =>
    simp only [pull] at loop
    split at loop
    next held_batch held_offset held =>
      split at loop
      next unread =>
        cases loop
        exact ⟨s.polls, .held held unread, rfl⟩
      next read =>
        obtain ⟨polls, draws, rfl⟩ := ih loop
        exact ⟨polls, draws.passed held (Nat.le_of_not_lt read), rfl⟩
    next empty =>
      split at loop
      next => cases loop
      next first answer =>
        split at loop
        next unread =>
          cases loop
          have unheld : ∀ batch offset, s.pending = some (batch, offset) → numRows batch ≤ offset := by
            intro batch offset held
            cases empty.symm.trans held
          exact ⟨s.polls + 1, .fresh s.polls unheld (Nat.le_refl _) (fun _ _ bound => by omega) answer unread,
            by rw [← empty]⟩
        next read =>
          obtain ⟨polls, draws, rfl⟩ := ih loop
          exact ⟨polls, draws.polled empty answer (Nat.eq_zero_of_not_pos read), rfl⟩
      next => cases loop

/-- A call that yields: from an open stream, some rows of the batch found, within the limit. -/
inductive Outputs (s : DecodedStream B) : B → DecodedStream B → Prop where
  | cut (polls length bytes : Nat) : Open s → Draws s batch offset polls → 0 < length →
      offset + length ≤ numRows batch →
      (∀ limit, s.options.rowLimit = some limit → s.emittedRows + length ≤ limit) →
      Outputs s (cutout batch offset length) { s with
        pending := if offset + length < numRows batch then some (batch, offset + length) else none
        polls := polls
        emittedRows := (s.emittedRows + length) % (usizeMax + 1)
        emittedBytes := bytes }

/-- A call that yields passes the checks, and cuts its output of what the loop finds. -/
theorem next_ok {s t : DecodedStream B} {output : B} (called : Next s (some (.ok output)) t) :
    Open s ∧ ∃ fuel batch offset u, pull fuel s = some (.ready batch offset, u) ∧
      emit u batch offset = (some (.ok output), t) := by
  obtain ⟨fuel, h⟩ := called
  have starts : Open s := by
    unfold next at h
    split_ifs at h with fin flag met
    · cases h
    · cases h
    · cases h
    · refine ⟨by simpa using fin, by simpa using flag, fun limit limited => ?_⟩
      simpa [limited] using met
  rw [next_open starts] at h
  obtain ⟨⟨pulled, u⟩, loop, settled⟩ := Option.map_eq_some_iff.mp h
  cases pulled with
  | exhausted => cases settled
  | failed => cases settled
  | ready batch offset => exact ⟨starts, fuel, batch, offset, u, loop, settled⟩

theorem next_outputs {s t : DecodedStream B} {output : B} (called : Next s (some (.ok output)) t) :
    Outputs s output t := by
  obtain ⟨starts, fuel, batch, offset, u, loop, emitted⟩ := next_ok called
  obtain ⟨polls, draws, rfl⟩ := pull_draws loop
  obtain ⟨some_left, rfl, _, rfl⟩ := emit_ok_iff.mp emitted
  unfold leftover
  have unread := draws.unread
  have available := outputLength_le { s with pending := none, polls := polls } batch offset
  have within (limit : Nat) (limited : s.options.rowLimit = some limit) :=
    outputLength_limited { s with pending := none, polls := polls } batch offset limited
  generalize outputLength { s with pending := none, polls := polls } batch offset = length
    at some_left available within
  have inside : offset + length ≤ numRows batch := by omega
  have budgeted (limit : Nat) (limited : s.options.rowLimit = some limit) : s.emittedRows + length ≤ limit := by
    have unmet := starts.unmet limit limited
    have kept := within limit limited
    simp only at kept
    omega
  have split_alike : (length < numRows batch - offset) = (offset + length < numRows batch) := by
    apply propext
    omega
  rw [numRows_cutout batch offset length inside]
  simp only [split_alike]
  exact .cut polls length _ starts draws (Nat.pos_of_ne_zero some_left) inside budgeted

/-! What has been read, while the stream is not finished. -/

/-- The rows yielded are those of all answers but for the unread part of the last one. -/
structure Reading (s : DecodedStream B) (read : List R) : Prop where
  unheld : s.pending = none → read = pulledRows s.source s.polls
  held : ∀ batch offset, s.pending = some (batch, offset) → offset < numRows batch ∧
    ∃ polls, s.polls = polls + 1 ∧ s.source polls = some (.ok batch) ∧
      read = pulledRows s.source polls ++ (rows batch).take offset
  counted : ∀ limit, s.options.rowLimit = some limit → s.emittedRows = read.length ∧ read.length ≤ limit

/-- The last row yielded is one of the last answer. -/
structure LastRead (s : DecodedStream B) (read : List R) : Prop where
  in_last : ∃ polls batch taken, s.polls = polls + 1 ∧ s.source polls = some (.ok batch) ∧ 0 < taken ∧
    taken ≤ numRows batch ∧ read = pulledRows s.source polls ++ (rows batch).take taken

/-- Where the loop finds unread rows, all rows before them have been yielded. -/
theorem Draws.position {s : DecodedStream B} {read : List R} {batch : B} {offset polls : Nat}
    (draws : Draws s batch offset polls) (reading : Reading s read) :
    ∃ last, polls = last + 1 ∧ s.source last = some (.ok batch) ∧
      read = pulledRows s.source last ++ (rows batch).take offset := by
  cases draws with
  | held held unread =>
    obtain ⟨_, last, polled, answer, rows_read⟩ := reading.held batch offset held
    exact ⟨last, polled, answer, rows_read⟩
  | fresh last unheld further blank answer unread =>
    refine ⟨last, rfl, answer, ?_⟩
    rw [List.take_zero, List.append_nil, pulledRows_blank further blank]
    apply reading.unheld
    cases pending : s.pending with
    | none => rfl
    | some slice =>
      have read_out := unheld slice.1 slice.2 pending
      have unread_left := (reading.held slice.1 slice.2 pending).1
      omega

theorem Outputs.reading {s t : DecodedStream B} {read : List R} {output : B} (outputs : Outputs s output t)
    (reading : Reading s read) : Reading t (read ++ rows output) ∧ LastRead t (read ++ rows output) := by
  cases outputs with
  | @cut batch offset polls length bytes starts draws positive inside budgeted =>
    obtain ⟨last, rfl, answer, rows_read⟩ := draws.position reading
    have rows_after : read ++ rows (cutout batch offset length) =
        pulledRows s.source last ++ (rows batch).take (offset + length) := by
      rw [rows_cutout batch offset length inside, rows_read, List.append_assoc, List.take_add]
    have length_after : (read ++ rows (cutout batch offset length)).length = read.length + length := by
      rw [List.length_append, BatchLike.rows_length, numRows_cutout batch offset length inside]
    refine ⟨⟨fun unheld => ?_, fun batch' offset' held => ?_, fun limit limited => ?_⟩,
      ⟨last, batch, offset + length, rfl, answer, by omega, inside, rows_after⟩⟩
    · have whole : offset + length = numRows batch := by
        by_contra part
        simp [Nat.lt_of_le_of_ne inside part] at unheld
      rw [rows_after, whole, ← BatchLike.rows_length, List.take_length, pulledRows_succ, answer]
      rfl
    · split at held
      next part =>
        cases held
        exact ⟨part, last, rfl, answer, rows_after⟩
      next => cases held
    · obtain ⟨counted, _⟩ := reading.counted limit limited
      have within := budgeted limit limited
      have word := s.options.rowLimit_le limit limited
      rw [length_after, ← counted, Nat.mod_eq_of_lt (by omega)]
      exact ⟨rfl, within⟩

/-- The answers taken are the shortest beginning of the source with all rows yielded. -/
theorem LastRead.shortest {s : DecodedStream B} {read : List R} (last : LastRead s read) (polls : Nat) :
    read <+: pulledRows s.source polls ↔ s.polls ≤ polls := by
  obtain ⟨before, batch, taken, polled, answer, positive, inside, rows_read⟩ := last.in_last
  constructor
  · intro contained
    by_contra fewer
    have shorter := (pulledRows_le s.source (show polls ≤ before by omega)).length_le
    have longer := contained.length_le
    rw [rows_read, List.length_append, List.length_take, BatchLike.rows_length] at longer
    omega
  · intro more
    refine List.IsPrefix.trans ?_ (pulledRows_le s.source more)
    rw [polled, pulledRows_succ, answer, rows_read]
    exact (List.prefix_append_right_inj _).mpr (List.take_prefix _ _)

/-- The source's own end adds no row. -/
theorem Reading.drained {s : DecodedStream B} {read : List R} {count : Nat} (reading : Reading s read)
    (dry : Dry s count) : Reading (s.drained count) read := by
  have unheld : s.pending = none := by
    cases pending : s.pending with
    | none => rfl
    | some slice =>
      have read_out := dry.read slice.1 slice.2 pending
      have unread_left := (reading.held slice.1 slice.2 pending).1
      omega
  refine ⟨fun _ => ?_, nofun, reading.counted⟩
  rw [reading.unheld unheld]
  refine (pulledRows_blank (by simp only [DecodedStream.drained]; omega) fun poll first bound => ?_).symm
  exact (dry.answers first bound).1

/-- Calls leave the source and the options as they are. -/
structure SameSettings (s t : DecodedStream B) : Prop where
  source : t.source = s.source
  options : t.options = s.options

theorem next_settings {s t : DecodedStream B} {item : Option (Item B)} (called : Next s item t) :
    SameSettings s t := by
  obtain ⟨fuel, h⟩ := called
  unfold next at h
  split_ifs at h with fin flag met
  · cases h
    exact ⟨rfl, rfl⟩
  · cases h
    exact ⟨rfl, rfl⟩
  · cases h
    exact ⟨rfl, rfl⟩
  · obtain ⟨⟨pulled, u⟩, loop, settled⟩ := Option.map_eq_some_iff.mp h
    cases pull_pulling loop with
    | exhausted =>
      cases settled
      exact ⟨rfl, rfl⟩
    | failed =>
      cases settled
      exact ⟨rfl, rfl⟩
    | ready =>
      cases emit_emits settled with
      | empty => exact ⟨rfl, rfl⟩
      | exceeded => exact ⟨rfl, rfl⟩
      | yielded => exact ⟨rfl, rfl⟩

theorem run_settings {s last : DecodedStream B} {trace : List (Call × Reply B)} (run : Run Calls s trace last) :
    SameSettings s last := by
  induction run with
  | nil => exact ⟨rfl, rfl⟩
  | cons first _ ih =>
    cases first with
    | next called =>
      have settings := next_settings called
      exact ⟨ih.source.trans settings.source, ih.options.trans settings.options⟩
    | cancel => exact ⟨ih.source, ih.options⟩

/-- A stream that is finished, or has read what it has yielded. -/
def Tracks (s : DecodedStream B) (read : List R) : Prop := s.finished = true ∨ Reading s read

theorem tracks_calls {s t : DecodedStream B} {call : Call} {reply : Reply B} {read : List R}
    (tracks : Tracks s read) (taken : Calls s call reply t) : Tracks t (read ++ replyRows reply) := by
  rcases tracks with fin | reading
  · exact .inl (frozen_calls ⟨fin, rfl, rfl, rfl⟩ taken).2.finished
  · cases calls_leaves taken with
    | finished fin => exact .inl fin
    | cancelled =>
      apply Or.inr
      rw [replyRows, List.append_nil]
      exact ⟨reading.unheld, reading.held, reading.counted⟩
    | drained starts dry =>
      apply Or.inr
      rw [replyRows, answerRows, List.append_nil]
      exact reading.drained dry
    | yielded called => exact .inr ((next_outputs called).reading reading).1

theorem tracks_run {s last : DecodedStream B} {trace : List (Call × Reply B)} {read : List R}
    (run : Run Calls s trace last) (tracks : Tracks s read) : Tracks last (read ++ received trace) := by
  induction run generalizing read with
  | nil => simpa [received] using tracks
  | cons first _ ih =>
    have later := ih (tracks_calls tracks first)
    rwa [List.append_assoc] at later

theorem tracks_new {schema : Schema} {source : Source B} {options : StreamOptions} {flag : Bool}
    {s₀ : DecodedStream B} (created : new schema source options flag = .ok s₀) : Tracks s₀ ([] : List R) := by
  unfold new at created
  split_ifs at created with unsized
  cases created
  exact .inr ⟨fun _ => rfl, nofun, fun _ _ => ⟨rfl, Nat.zero_le _⟩⟩

/-- Nothing is polled any more: the stream is finished, or its row limit is met. -/
def Satisfied (s : DecodedStream B) : Prop :=
  s.finished = true ∨ ∃ limit, s.options.rowLimit = some limit ∧ limit ≤ s.emittedRows

theorem satisfied_calls {s t : DecodedStream B} {call : Call} {reply : Reply B} (satisfied : Satisfied s)
    (taken : Calls s call reply t) : t.polls = s.polls ∧ Satisfied t := by
  rcases satisfied with fin | ⟨limit, limited, met⟩
  · have frozen := (frozen_calls ⟨fin, rfl, rfl, rfl⟩ taken).2
    exact ⟨frozen.polls, .inl frozen.finished⟩
  · cases taken with
    | cancel => exact ⟨rfl, .inr ⟨limit, limited, met⟩⟩
    | next called =>
      obtain ⟨fuel, h⟩ := called
      unfold next at h
      split_ifs at h with fin flag unmet
      · cases h
        exact ⟨rfl, .inl fin⟩
      · cases h
        exact ⟨rfl, .inl rfl⟩
      · cases h
        exact ⟨rfl, .inl rfl⟩
      · simp [limited, met] at unmet

/-- A decoded stream does not read ahead. After a batch is yielded, the answers taken are
the shortest beginning of the source that has all rows yielded, and the last of these is
in the last answer; and no poll follows once the row limit is yielded. -/
theorem never_reads_ahead (schema : Schema) (source : Source B) (options : StreamOptions) (flag : Bool) :
    ∀ s₀, new schema source options flag = .ok s₀ → ∀ trace s, Run Calls s₀ trace s →
      (∀ batch t, Next s (some (.ok batch)) t →
        (∀ polls, received trace ++ rows batch <+: pulledRows source polls ↔ t.polls ≤ polls) ∧
        ∃ polls last taken, t.polls = polls + 1 ∧ source polls = some (.ok last) ∧ 0 < taken ∧
          taken ≤ numRows last ∧ received trace ++ rows batch = pulledRows source polls ++ (rows last).take taken) ∧
      ∀ limit, options.rowLimit = some limit → limit ≤ (received trace).length →
        ∀ more last, Run Calls s more last → last.polls = s.polls := by
  intro s₀ created trace s run
  have tracks : Tracks s ([] ++ received trace) := tracks_run run (tracks_new created)
  rw [List.nil_append] at tracks
  have settings := run_settings run
  obtain ⟨source_kept, options_kept⟩ : s₀.source = source ∧ s₀.options = options := by
    unfold new at created
    split_ifs at created
    cases created
    exact ⟨rfl, rfl⟩
  have same_source : s.source = source := settings.source.trans source_kept
  have same_options : s.options = options := settings.options.trans options_kept
  constructor
  · intro batch t called
    rcases tracks with fin | reading
    · cases (called.unique (next_finished fin)).1
    · have last := ((next_outputs called).reading reading).2
      have kept : t.source = source := (next_settings called).source.trans same_source
      rw [← kept]
      exact ⟨last.shortest, last.in_last⟩
  · intro limit limited yielded more last later
    have satisfied : Satisfied s := by
      rcases tracks with fin | reading
      · exact .inl fin
      · rw [← same_options] at limited
        exact .inr ⟨limit, limited, (reading.counted limit limited).1 ▸ yielded⟩
    exact (later.guarantees (fun u => u.polls = s.polls ∧ Satisfied u) (fun _ _ => True) (fun held taken => by
      obtain ⟨polls, satisfied⟩ := satisfied_calls held.2 taken
      exact ⟨trivial, polls.trans held.1, satisfied⟩) ⟨rfl, satisfied⟩).2.1

/-- A limit inside the second of two batches. -/
def threeRows : StreamOptions where
  batchSize := 2
  rowLimit := some 3
  rowLimit_le := by simp [usizeMax]

def twoBatches : Source ColumnlessBatch := Source.ofList [.ok ⟨2, by decide⟩, .ok ⟨5, by decide⟩]

theorem never_reads_ahead_limited :
    ∃ s₀ s t u : DecodedStream ColumnlessBatch, new ⟨[], []⟩ twoBatches threeRows false = .ok s₀ ∧
      Next s₀ (some (.ok ⟨2, by decide⟩)) s ∧ Next s (some (.ok ⟨1, by decide⟩)) t ∧ Next t none u ∧
      (∀ polls, [(), (), ()] <+: pulledRows twoBatches polls ↔ t.polls ≤ polls) ∧ u.polls = t.polls := by
  obtain ⟨s₀, s, t, u, created, first, second, stop⟩ : ∃ s₀ s t u : DecodedStream ColumnlessBatch,
      new ⟨[], []⟩ twoBatches threeRows false = .ok s₀ ∧ Next s₀ (some (.ok ⟨2, by decide⟩)) s ∧
      Next s (some (.ok ⟨1, by decide⟩)) t ∧ Next t none u :=
    ⟨_, _, _, _, rfl, ⟨1, rfl⟩, ⟨1, rfl⟩, ⟨1, rfl⟩⟩
  have reads := never_reads_ahead ⟨[], []⟩ twoBatches threeRows false s₀ created
  have shortest := ((reads _ s (.cons (.next first) .nil)).1 _ t second).1
  have quiet := (reads _ t (.cons (.next first) (.cons (.next second) .nil))).2 3 rfl (by decide) _ u
    (.cons (.next stop) .nil)
  exact ⟨s₀, s, t, u, created, first, second, stop, shortest, quiet⟩

end FsspecData.DecodedStream
