import FsspecData.Stream.Ahead
import FsspecData.Stream.Refinement
import Mathlib.Algebra.GroupWithZero.Nat

/-! The counters of a stream as machine words. The row limit bounds the row counter; without
one nothing does, and it is the only counter that does not saturate. -/
namespace FsspecData.DecodedStream

open FsspecData Machine

variable {B R : Type} [BatchLike B R]

/-- The arithmetic behind the loop of `next`: no subtraction underflows, no addition overflows,
and the branch for an empty output is not taken. Rows are counted once the byte limit has let
the output pass. -/
structure Checked (s : DecodedStream B) (batch : B) (offset : Nat) : Prop where
  available : offset ≤ numRows batch
  rowRemaining : ∀ limit, s.options.rowLimit = some limit → s.emittedRows ≤ limit
  nonempty : s.outputLength batch offset ≠ 0
  further : offset + s.outputLength batch offset ≤ usizeMax
  counted : ∀ output t, s.emit batch offset = (some (.ok output), t) → s.emittedRows + numRows output ≤ usizeMax

/-- A pending batch has unread rows, the row limit is kept, and so is the arithmetic of the
next call where it gets behind its loop. -/
structure InRange (s : DecodedStream B) : Prop where
  pending : ∀ batch offset, s.pending = some (batch, offset) → offset < numRows batch
  limited : ∀ limit, s.options.rowLimit = some limit → s.emittedRows ≤ limit
  checked : ∀ fuel batch offset t, Open s → pull fuel s = some (.ready batch offset, t) → Checked t batch offset

/-! What a source without a row limit is cut into. -/

def answerCuts (size : Nat) : Option (Item B) → List (Stretch B)
  | some (.ok batch) => cuts size batch 0
  | some (.error _) | none => []

/-- The slices of the source's first answers. -/
def pulledCuts (size : Nat) (source : Source B) (polls : Nat) : List (Stretch B) :=
  (List.range polls).flatMap fun poll => answerCuts size (source poll)

def rowCount (stretches : List (Stretch B)) : Nat := (stretches.map Stretch.length).sum

def memory (stretches : List (Stretch B)) : Nat :=
  (stretches.map fun stretch => getArrayMemorySize stretch.output).sum

/-- The byte limit lets the slices pass. -/
def Affords (byteLimit : Option Nat) (stretches : List (Stretch B)) : Prop :=
  ∀ limit, byteLimit = some limit → min (memory stretches) usizeMax ≤ limit

def Silent (source : Source B) (polls : Nat) : Prop := ∀ poll < polls, ∀ error, source poll ≠ some (.error error)

/-- There is no row limit, and of the answers before any error some leading slices pass the
byte limit that have more rows than a `usize` counts. -/
def Overruns (source : Source B) (options : StreamOptions) : Prop :=
  options.rowLimit = none ∧ ∃ polls count, Silent source polls ∧
    Affords options.byteLimit ((pulledCuts options.batchSize source polls).take count) ∧
    usizeMax < rowCount ((pulledCuts options.batchSize source polls).take count)

/-! The bounds that every call keeps, whatever the source is. -/

structure Bounded (s : DecodedStream B) : Prop where
  positive : 0 < s.options.batchSize
  pending : ∀ batch offset, s.pending = some (batch, offset) → offset < numRows batch
  limited : ∀ limit, s.options.rowLimit = some limit → s.emittedRows ≤ limit

/-- No call, whatever it answers, leaves a pending batch that is read or rows over the limit. -/
theorem emit_bounded {s t : DecodedStream B} {batch : B} {offset : Nat} {item : Option (Item B)} (bounded : Bounded s)
    (unread : offset < numRows batch) (emitted : emit s batch offset = (item, t)) : Bounded t := by
  have within := s.outputLength_le batch offset
  have leftover_unread : ∀ other start, s.leftover batch offset = some (other, start) → start < numRows other := by
    intro other start held
    unfold leftover at held
    split at held
    next part =>
      cases held
      omega
    next => exact bounded.pending other start held
  cases emit_emits emitted with
  | empty => exact ⟨bounded.positive, bounded.pending, bounded.limited⟩
  | exceeded => exact ⟨bounded.positive, leftover_unread, bounded.limited⟩
  | @yielded output _ cut =>
    refine ⟨bounded.positive, leftover_unread, fun limit limited => ?_⟩
    have kept := bounded.limited limit limited
    have short := s.outputLength_limited batch offset limited
    have rows : numRows output = s.outputLength batch offset := cut ▸ numRows_output s unread
    calc (s.emittedRows + numRows output) % (usizeMax + 1)
      _ ≤ s.emittedRows + numRows output := Nat.mod_le _ _
      _ ≤ limit := by omega

theorem bounded_next {s t : DecodedStream B} {item : Option (Item B)} (bounded : Bounded s) (called : Next s item t) :
    Bounded t := by
  obtain ⟨fuel, h⟩ := called
  unfold next at h
  split_ifs at h
  · cases h
    exact bounded
  · cases h
    exact ⟨bounded.positive, bounded.pending, bounded.limited⟩
  · cases h
    exact ⟨bounded.positive, bounded.pending, bounded.limited⟩
  · obtain ⟨⟨pulled, u⟩, loop, settled⟩ := Option.map_eq_some_iff.mp h
    cases pull_pulling loop with
    | exhausted =>
      cases settled
      exact ⟨bounded.positive, nofun, bounded.limited⟩
    | failed =>
      cases settled
      exact ⟨bounded.positive, nofun, bounded.limited⟩
    | ready polls unread =>
      exact emit_bounded (s := { s with pending := none, polls := polls })
        ⟨bounded.positive, nofun, bounded.limited⟩ unread settled

theorem bounded_new {schema : Schema} {source : Source B} {options : StreamOptions} {flag : Bool} {s : DecodedStream B}
    (created : new schema source options flag = .ok s) : Bounded s := by
  unfold new at created
  split_ifs at created with unsized
  cases created
  exact ⟨Nat.pos_of_ne_zero unsized, nofun, fun _ _ => Nat.zero_le _⟩

theorem bounded_run {s last : DecodedStream B} {trace : List (Call × Reply B)} (run : Run Calls s trace last)
    (bounded : Bounded s) : Bounded last := by
  induction run with
  | nil => exact bounded
  | cons first _ ih =>
    cases first with
    | next called => exact ih (bounded_next bounded called)
    | cancel => exact ih ⟨bounded.positive, bounded.pending, bounded.limited⟩

theorem next_of_emit {s t u : DecodedStream B} {batch output : B} {fuel offset : Nat} (starts : Open s)
    (loop : pull fuel s = some (.ready batch offset, u)) (emitted : emit u batch offset = (some (.ok output), t)) :
    Next s (some (.ok output)) t :=
  ⟨fuel, by rw [next_open starts, loop]; exact congrArg some emitted⟩

/-- Of a bounded state only the row counter can leave its range. -/
theorem inRange_iff {s : DecodedStream B} (bounded : Bounded s) :
    InRange s ↔ ∀ output t, Next s (some (.ok output)) t → s.emittedRows + numRows output ≤ usizeMax := by
  constructor
  · intro inRange output t called
    obtain ⟨starts, fuel, batch, offset, u, loop, emitted⟩ := next_ok called
    have counted := (inRange.checked fuel batch offset u starts loop).counted output t emitted
    obtain ⟨polls, _, rfl⟩ := pull_draws loop
    exact counted
  · intro counts
    refine ⟨bounded.pending, bounded.limited, fun fuel batch offset u starts loop => ?_⟩
    have counted output t (emitted : emit u batch offset = (some (.ok output), t)) :=
      counts output t (next_of_emit starts loop emitted)
    obtain ⟨polls, draws, rfl⟩ := pull_draws loop
    have unread := draws.unread
    have some_left := outputLength_pos (s := { s with pending := none, polls := polls }) bounded.positive
      starts.unmet unread
    have within := outputLength_le { s with pending := none, polls := polls } batch offset
    have word := BatchLike.numRows_le batch
    exact ⟨by omega, bounded.limited, by omega, by omega, counted⟩

/-- A row limit keeps the row counter in range. -/
theorem inRange_limited {s : DecodedStream B} (bounded : Bounded s) {limit : Nat}
    (limited : s.options.rowLimit = some limit) : InRange s := by
  rw [inRange_iff bounded]
  intro output t called
  have word := s.options.rowLimit_le limit limited
  cases next_outputs called with
  | cut polls length bytes starts draws positive inside budgeted =>
    have kept := budgeted limit limited
    rw [numRows_cutout _ _ _ inside]
    omega

/-! Without a row limit, a stream that is not finished has yielded leading slices of the answers
it has taken, and holds the others. -/

theorem pulledCuts_succ (size : Nat) (source : Source B) (polls : Nat) :
    pulledCuts size source (polls + 1) = pulledCuts size source polls ++ answerCuts size (source polls) :=
  flatMap_range_succ _ polls

theorem pulledCuts_le (size : Nat) (source : Source B) {polls more : Nat} (le : polls ≤ more) :
    pulledCuts size source polls <+: pulledCuts size source more :=
  flatMap_range_le _ le

theorem answerCuts_blank {size : Nat} (positive : 0 < size) {answer : Option (Item B)}
    (blank : answerRows answer = []) : answerCuts size answer = [] := by
  rcases answer with _ | _ | batch
  · rfl
  · rfl
  · apply cuts_read positive
    have length := BatchLike.rows_length batch
    have none_left : rows batch = [] := blank
    simp [none_left] at length
    omega

theorem pulledCuts_blank {size : Nat} (positive : 0 < size) {source : Source B} {polls more : Nat}
    (le : polls ≤ more) (blank : ∀ poll, polls ≤ poll → poll < more → answerRows (source poll) = []) :
    pulledCuts size source more = pulledCuts size source polls :=
  flatMap_range_blank le fun poll first bound => answerCuts_blank positive (blank poll first bound)

structure Paced (s : DecodedStream B) (done : List (Stretch B)) : Prop where
  cut : pulledCuts s.options.batchSize s.source s.polls = done ++ held s
  silent : Silent s.source s.polls
  rows : s.emittedRows = rowCount done % (usizeMax + 1)
  bytes : s.emittedBytes = min (memory done) usizeMax
  affords : Affords s.options.byteLimit done

theorem rowCount_append (done behind : List (Stretch B)) :
    rowCount (done ++ behind) = rowCount done + rowCount behind := by
  simp [rowCount]

theorem memory_append (done behind : List (Stretch B)) :
    memory (done ++ behind) = memory done + memory behind := by
  simp [memory]

theorem rowCount_singleton (stretch : Stretch B) : rowCount [stretch] = stretch.length := by
  simp [rowCount]

theorem memory_cons (stretch : Stretch B) (behind : List (Stretch B)) :
    memory (stretch :: behind) = getArrayMemorySize stretch.output + memory behind := by
  simp [memory]

theorem Affords.leading {byteLimit : Option Nat} {done behind : List (Stretch B)}
    (affords : Affords byteLimit (done ++ behind)) : Affords byteLimit done := by
  intro limit limited
  have whole := affords limit limited
  rw [memory_append] at whole
  omega

/-- The next slice of what the loop finds. -/
def stretch (size : Nat) (batch : B) (offset : Nat) : Stretch B := ⟨batch, offset, min size (numRows batch - offset)⟩

theorem held_nil {s : DecodedStream B} (bounded : Bounded s)
    (read : ∀ batch offset, s.pending = some (batch, offset) → numRows batch ≤ offset) : held s = [] := by
  cases pending : s.pending with
  | none => rw [held, pending]
  | some slice =>
    have read := read slice.1 slice.2 pending
    have left := bounded.pending slice.1 slice.2 pending
    omega

/-- Where the loop finds unread rows, all slices before them have been yielded. -/
theorem Draws.paced {s : DecodedStream B} {done : List (Stretch B)} {batch : B} {offset polls : Nat}
    (draws : Draws s batch offset polls) (paced : Paced s done) (bounded : Bounded s) :
    pulledCuts s.options.batchSize s.source polls = done ++ cuts s.options.batchSize batch offset := by
  cases draws with
  | held held unread =>
    rw [paced.cut, DecodedStream.held, held]
  | fresh last unheld further blank answer unread =>
    rw [pulledCuts_succ, pulledCuts_blank bounded.positive further blank, paced.cut, held_nil bounded unheld,
      List.append_nil, answer]
    rfl

theorem outputLength_unlimited {s : DecodedStream B} (unlimited : s.options.rowLimit = none) (batch : B)
    (offset : Nat) :
    s.outputLength batch offset = min s.options.batchSize (numRows batch - offset) := by
  have word := BatchLike.numRows_le batch
  simp only [outputLength, rowRemaining, unlimited, Option.map_none, Option.getD_none]
  omega

theorem pull_silent {fuel offset : Nat} {s t : DecodedStream B} {batch : B} (silent : Silent s.source s.polls)
    (loop : pull fuel s = some (.ready batch offset, t)) :
    ∃ polls, Draws s batch offset polls ∧ Silent s.source polls ∧ t = { s with pending := none, polls := polls } := by
  obtain ⟨polls, draws, rfl⟩ := pull_draws loop
  refine ⟨polls, draws, fun poll bound error failed => ?_, rfl⟩
  generalize same : ({ s with pending := none, polls := polls } : DecodedStream B) = t at loop
  cases pull_pulling loop with
  | ready further unread le answers =>
    obtain rfl : polls = further := congrArg DecodedStream.polls same
    by_cases early : poll < s.polls
    · exact silent poll early error failed
    · obtain ⟨other, answer⟩ := answers poll (Nat.le_of_not_lt early) bound
      cases failed.symm.trans answer

/-- A call that yields adds the next slice, and the rows of its output to the counter. -/
theorem Paced.yielded {s t : DecodedStream B} {done : List (Stretch B)} {batch output : B} {offset polls : Nat}
    (paced : Paced s done) (bounded : Bounded s) (unlimited : s.options.rowLimit = none)
    (draws : Draws s batch offset polls) (silent : Silent s.source polls)
    (emitted : emit { s with pending := none, polls := polls } batch offset = (some (.ok output), t)) :
    numRows output = (stretch s.options.batchSize batch offset).length ∧
      Paced t (done ++ [stretch s.options.batchSize batch offset]) := by
  obtain ⟨_, rfl, passes, rfl⟩ := emit_ok_iff.mp emitted
  have unread := draws.unread
  have cut := outputLength_unlimited (s := { s with pending := none, polls := polls }) unlimited batch offset
  have counts := numRows_output { s with pending := none, polls := polls } unread
  rw [cut] at counts passes ⊢
  have charged : memory [stretch s.options.batchSize batch offset] =
      getArrayMemorySize (cutout batch offset (min s.options.batchSize (numRows batch - offset))) := memory_cons _ []
  have counted : rowCount [stretch s.options.batchSize batch offset] =
      min s.options.batchSize (numRows batch - offset) := rowCount_singleton _
  refine ⟨counts, ⟨?_, silent, ?_, ?_, fun limit limited => ?_⟩⟩
  · change pulledCuts s.options.batchSize s.source polls = _
    rw [draws.paced paced bounded, cuts_unread bounded.positive unread, List.append_assoc]
    refine congrArg (done ++ stretch s.options.batchSize batch offset :: ·) ?_
    simp only [held, leftover, cut]
    by_cases more : min s.options.batchSize (numRows batch - offset) < numRows batch - offset
    · rw [if_pos more]
      rfl
    · rw [if_neg more]
      exact cuts_read bounded.positive (by omega)
  · simp only [counts, paced.rows, rowCount_append, counted]
    exact Nat.mod_add_mod _ _ _
  · simp only [attemptedBytes, paced.bytes, memory_append, charged]
    omega
  · have passes := passes limit limited
    simp only [attemptedBytes, paced.bytes] at passes
    rw [memory_append, charged]
    omega

/-- The source's own end changes nothing about the pace. -/
theorem Paced.drained {s : DecodedStream B} {done : List (Stretch B)} {count : Nat} (paced : Paced s done)
    (bounded : Bounded s) (dry : Dry s count) : Paced (s.drained count) done := by
  refine ⟨?_, fun poll bound => ?_, paced.rows, paced.bytes, paced.affords⟩
  · change pulledCuts s.options.batchSize s.source (s.polls + count + 1) = _
    rw [pulledCuts_blank bounded.positive (by omega) fun poll first bound => (dry.answers first bound).1, paced.cut,
      held_nil bounded dry.read]
    rfl
  · by_cases early : poll < s.polls
    · exact paced.silent poll early
    · exact (dry.answers (Nat.le_of_not_lt early) bound).2

/-- The slices yielded have no more rows than a `usize` counts, where none overrun it. -/
theorem Paced.fits {s : DecodedStream B} {done : List (Stretch B)} (paced : Paced s done)
    (unlimited : s.options.rowLimit = none) (kept : ¬ Overruns s.source s.options) : rowCount done ≤ usizeMax := by
  by_contra longer
  have leading : (pulledCuts s.options.batchSize s.source s.polls).take done.length = done := by
    rw [paced.cut, List.take_left]
  refine kept ⟨unlimited, s.polls, done.length, paced.silent, ?_, ?_⟩
  · rw [leading]
    exact paced.affords
  · rw [leading]
    omega

theorem paced_calls {s t : DecodedStream B} {call : Call} {reply : Reply B} (bounded : Bounded s)
    (unlimited : s.options.rowLimit = none) (pace : s.finished = true ∨ ∃ done, Paced s done)
    (taken : Calls s call reply t) : t.finished = true ∨ ∃ done, Paced t done := by
  rcases pace with fin | ⟨done, paced⟩
  · exact .inl (frozen_calls ⟨fin, rfl, rfl, rfl⟩ taken).2.finished
  · cases calls_leaves taken with
    | finished fin => exact .inl fin
    | cancelled => exact .inr ⟨done, paced.cut, paced.silent, paced.rows, paced.bytes, paced.affords⟩
    | drained starts dry => exact .inr ⟨done, paced.drained bounded dry⟩
    | yielded called =>
      obtain ⟨_, fuel, batch, offset, u, loop, emitted⟩ := next_ok called
      obtain ⟨polls, draws, silent, rfl⟩ := pull_silent paced.silent loop
      exact .inr ⟨_, (paced.yielded bounded unlimited draws silent emitted).2⟩

theorem paced_run {s last : DecodedStream B} {trace : List (Call × Reply B)} (run : Run Calls s trace last)
    (bounded : Bounded s) (unlimited : s.options.rowLimit = none)
    (pace : s.finished = true ∨ ∃ done, Paced s done) : last.finished = true ∨ ∃ done, Paced last done := by
  induction run with
  | nil => exact pace
  | cons first _ ih =>
    have settings := run_settings (.cons first .nil)
    refine ih (bounded_run (.cons first .nil) bounded) (by rw [settings.options, unlimited]) ?_
    exact paced_calls bounded unlimited pace first

/-- Where nothing overruns the counter, every state that keeps pace is in range. -/
theorem Paced.inRange {s : DecodedStream B} {done : List (Stretch B)} (paced : Paced s done) (bounded : Bounded s)
    (unlimited : s.options.rowLimit = none) (kept : ¬ Overruns s.source s.options) : InRange s := by
  rw [inRange_iff bounded]
  intro output t called
  obtain ⟨_, fuel, batch, offset, u, loop, emitted⟩ := next_ok called
  obtain ⟨polls, draws, silent, rfl⟩ := pull_silent paced.silent loop
  obtain ⟨counts, paced'⟩ := paced.yielded bounded unlimited draws silent emitted
  have settings := next_settings called
  have fits := paced'.fits (by rw [settings.options, unlimited]) (by rwa [settings.source, settings.options])
  rw [rowCount_append, rowCount_singleton, ← counts] at fits
  have before : s.emittedRows ≤ rowCount done := paced.rows ▸ Nat.mod_le _ _
  omega

/-- The counter is exact until a call overruns it. -/
theorem Paced.outside {s t : DecodedStream B} {done : List (Stretch B)} {output : B} (paced : Paced s done)
    (bounded : Bounded s) (fits : rowCount done ≤ usizeMax) (called : Next s (some (.ok output)) t)
    (longer : usizeMax < rowCount done + numRows output) : ¬ InRange s := by
  intro inRange
  have counted := (inRange_iff bounded).mp inRange output t called
  have unwrapped : s.emittedRows = rowCount done := by
    rw [paced.rows]
    exact Nat.mod_eq_of_lt (by omega)
  omega

/-! Conversely, slices that overrun the counter are yielded up to the one that does. -/

/-- With no error ahead, the loop returns at the next rows or at a `None`, if there are any. -/
theorem pull_before {polls : Nat} {s : DecodedStream B} (empty : s.pending = none) (further : s.polls ≤ polls)
    (silent : Silent s.source polls) :
    (∀ poll, s.polls ≤ poll → poll < polls → answerRows (s.source poll) = []) ∨
      ∃ fuel pulled t, pull fuel s = some (pulled, t) ∧ s.polls < t.polls ∧ t.polls ≤ polls := by
  by_cases here : s.polls = polls
  · exact .inl fun poll first bound => by omega
  · cases answer : s.source s.polls with
    | none =>
      exact .inr ⟨1, .exhausted, { s with polls := s.polls + 1 }, by simp [pull, empty, answer], by simp,
        by simp only; omega⟩
    | some item =>
      cases item with
      | error error => exact absurd answer (silent s.polls (by omega) error)
      | ok batch =>
        by_cases unread : 0 < numRows batch
        · exact .inr ⟨1, .ready batch 0, { s with polls := s.polls + 1 }, by simp [pull, empty, answer, unread],
            by simp, by simp only; omega⟩
        · rcases pull_before (s := { s with polls := s.polls + 1 }) empty (by simp only; omega) silent with
            blank | ⟨fuel, pulled, t, loop, more, bound⟩
          · refine .inl fun poll first bound => ?_
            by_cases early : poll = s.polls
            · rw [early, answer]
              exact rows_nil (by omega)
            · exact blank poll (by simp only; omega) bound
          · refine .inr ⟨fuel + 1, pulled, t, ?_, Nat.lt_of_succ_lt more, bound⟩
            simpa [pull, empty, answer, unread] using loop
termination_by polls - s.polls
decreasing_by omega

/-- A call returns while slices are left of the answers before an error: it yields one, or it
answers `None` and takes a poll. -/
theorem Paced.proceeds {s : DecodedStream B} {done : List (Stretch B)} {polls : Nat} (paced : Paced s done)
    (bounded : Bounded s) (further : s.polls ≤ polls) (silent : Silent s.source polls)
    (left : done.length < (pulledCuts s.options.batchSize s.source polls).length) :
    (∃ fuel count, pull fuel s = some (.exhausted, s.drained count) ∧ Dry s count ∧ s.polls + count < polls) ∨
      ∃ fuel batch offset taken,
        pull fuel s = some (.ready batch offset, { s with pending := none, polls := taken }) ∧
        Draws s batch offset taken ∧ taken ≤ polls := by
  cases pending : s.pending with
  | some slice =>
    obtain ⟨batch, offset⟩ := slice
    have unread := bounded.pending batch offset pending
    exact .inr ⟨1, batch, offset, s.polls, by simp [pull, pending, unread], .held pending unread, further⟩
  | none =>
    rcases pull_before pending further silent with blank | ⟨fuel, pulled, t, loop, more, bound⟩
    · have none_left := pulledCuts_blank bounded.positive further blank
      rw [none_left, paced.cut, held_nil bounded (by simp [pending])] at left
      simp at left
    · cases pulled with
      | exhausted =>
        cases pull_pulling loop with
        | exhausted dry => exact .inl ⟨fuel, _, loop, dry, bound⟩
      | failed error =>
        cases pull_pulling loop with
        | failed taken answer => exact absurd answer (silent taken bound error)
      | ready batch offset =>
        obtain ⟨taken, draws, rfl⟩ := pull_draws loop
        exact .inr ⟨fuel, batch, offset, taken, loop, draws, bound⟩

/-- The loop finds the slice that comes next. -/
theorem Draws.next_cut {s : DecodedStream B} {done behind : List (Stretch B)} {ahead : Stretch B} {batch : B}
    {offset taken polls : Nat} (draws : Draws s batch offset taken) (paced : Paced s done) (bounded : Bounded s)
    (bound : taken ≤ polls) (leads : done ++ ahead :: behind <+: pulledCuts s.options.batchSize s.source polls) :
    stretch s.options.batchSize batch offset = ahead := by
  have found := pulledCuts_le s.options.batchSize s.source bound
  obtain ⟨after, whole⟩ := leads
  rw [draws.paced paced bounded, cuts_unread bounded.positive draws.unread, ← whole, List.append_assoc,
    List.prefix_append_right_inj, List.cons_append, List.cons_prefix_cons] at found
  exact found.1

/-- A slice that passes the byte limit is yielded. -/
theorem Draws.emits {s : DecodedStream B} {done behind : List (Stretch B)} {batch : B} {offset taken : Nat}
    (draws : Draws s batch offset taken) (paced : Paced s done) (bounded : Bounded s)
    (unlimited : s.options.rowLimit = none)
    (affords : Affords s.options.byteLimit (done ++ stretch s.options.batchSize batch offset :: behind)) :
    ∃ output t, emit { s with pending := none, polls := taken } batch offset = (some (.ok output), t) := by
  have cut := outputLength_unlimited (s := { s with pending := none, polls := taken }) unlimited batch offset
  have some_left := outputLength_pos (s := { s with pending := none, polls := taken }) bounded.positive
    (by simp [unlimited]) draws.unread
  refine ⟨_, _, emit_ok_iff.mpr ⟨Nat.ne_of_gt some_left, rfl, fun limit limited => ?_, rfl⟩⟩
  have passes := affords limit limited
  have charged : memory (stretch s.options.batchSize batch offset :: behind) =
      getArrayMemorySize (cutout batch offset (min s.options.batchSize (numRows batch - offset))) + memory behind :=
    memory_cons _ _
  rw [memory_append, charged] at passes
  rw [cut]
  simp only [attemptedBytes, paced.bytes]
  omega

/-- Slices that pass the byte limit and overrun the row counter leave it out of range. -/
theorem overrun_reached {s : DecodedStream B} {done behind : List (Stretch B)} {polls : Nat} (bounded : Bounded s)
    (starts : Open s) (unlimited : s.options.rowLimit = none) (paced : Paced s done)
    (further : s.polls ≤ polls) (silent : Silent s.source polls)
    (leads : done ++ behind <+: pulledCuts s.options.batchSize s.source polls)
    (affords : Affords s.options.byteLimit (done ++ behind)) (fits : rowCount done ≤ usizeMax)
    (longer : usizeMax < rowCount (done ++ behind)) : ∃ trace t, Run Calls s trace t ∧ ¬ InRange t := by
  -- each call takes a poll, when it answers `None`, or yields one of the slices left
  induction measured : (polls - s.polls) + behind.length using Nat.strongRecOn generalizing s done behind with
  | ind measure ih =>
  cases behind with
  | nil =>
    rw [List.append_nil] at longer
    omega
  | cons ahead behind =>
    have left : done.length < (pulledCuts s.options.batchSize s.source polls).length := by
      have shorter := leads.length_le
      rw [List.length_append, List.length_cons] at shorter
      omega
    rw [List.length_cons] at measured
    rcases paced.proceeds bounded further silent left with
      ⟨fuel, count, loop, dry, bound⟩ | ⟨fuel, batch, offset, taken, loop, draws, bound⟩
    · have called := next_dry starts dry
      have less : (polls - (s.drained count).polls) + (ahead :: behind).length < measure := by
        simp only [drained, List.length_cons]
        omega
      obtain ⟨trace, t, run, outside⟩ := ih _ less (bounded_next bounded called)
        ⟨starts.unfinished, starts.uncancelled, starts.unmet⟩ unlimited (paced.drained bounded dry)
        (Nat.succ_le_of_lt bound) silent leads affords fits longer rfl
      exact ⟨_, t, .cons (.next called) run, outside⟩
    · obtain rfl := draws.next_cut paced bounded bound leads
      obtain ⟨output, t, emitted⟩ := draws.emits paced bounded unlimited affords
      have called := next_of_emit starts loop emitted
      have silent' : Silent s.source taken := fun poll early => silent poll (by omega)
      obtain ⟨counts, paced'⟩ := paced.yielded bounded unlimited draws silent' emitted
      by_cases fits' : rowCount (done ++ [stretch s.options.batchSize batch offset]) ≤ usizeMax
      · have rejoined : (done ++ [stretch s.options.batchSize batch offset]) ++ behind =
            done ++ stretch s.options.batchSize batch offset :: behind := by simp
        have less : (polls - taken) + behind.length < measure := by
          have := draws.further
          omega
        have bounded' := bounded_next bounded called
        obtain ⟨_, _, _, rfl⟩ := emit_ok_iff.mp emitted
        obtain ⟨trace, t, run, outside⟩ := ih _ less bounded'
          ⟨starts.unfinished, starts.uncancelled, by simp [unlimited]⟩ unlimited paced' bound silent
          (rejoined ▸ leads) (rejoined ▸ affords) fits' (rejoined ▸ longer) rfl
        exact ⟨_, t, .cons (.next called) run, outside⟩
      · rw [rowCount_append, rowCount_singleton, ← counts] at fits'
        exact ⟨[], s, .nil, paced.outside bounded fits called (Nat.lt_of_not_le fits')⟩

/-! The condition read off the source. -/

theorem rowCount_cuts {size : Nat} (positive : 0 < size) (batch : B) (offset : Nat) :
    rowCount (cuts size batch offset) = numRows batch - offset := by
  by_cases unread : offset < numRows batch
  · have later := rowCount_cuts positive batch (offset + min size (numRows batch - offset))
    have head : rowCount (cuts size batch offset) = min size (numRows batch - offset) +
        rowCount (cuts size batch (offset + min size (numRows batch - offset))) := by
      rw [cuts_unread positive unread]
      simp [rowCount]
    omega
  · rw [cuts_read positive (by omega)]
    simp only [rowCount, List.map_nil, List.sum_nil]
    omega
termination_by numRows batch - offset

theorem rowCount_pulledCuts {size : Nat} (positive : 0 < size) (source : Source B) (polls : Nat) :
    rowCount (pulledCuts size source polls) = (pulledRows source polls).length := by
  induction polls with
  | zero => rfl
  | succ polls ih =>
    rw [pulledCuts_succ, pulledRows_succ, rowCount_append, List.length_append, ih]
    congr 1
    rcases source polls with _ | _ | batch
    · rfl
    · rfl
    · exact (rowCount_cuts positive batch 0).trans (BatchLike.rows_length batch).symm

theorem rowCount_take (stretches : List (Stretch B)) (count : Nat) :
    rowCount (stretches.take count) ≤ rowCount stretches := by
  have whole := rowCount_append (stretches.take count) (stretches.drop count)
  rw [List.take_append_drop] at whole
  omega

/-- Sources with no more rows before an error than a `usize` counts do not overrun it. -/
theorem not_overruns {source : Source B} {options : StreamOptions} (positive : 0 < options.batchSize)
    (few : ∀ polls, Silent source polls → (pulledRows source polls).length ≤ usizeMax) :
    ¬ Overruns source options := by
  rintro ⟨_, polls, count, silent, _, longer⟩
  have fits := few polls silent
  have part := rowCount_take (pulledCuts options.batchSize source polls) count
  rw [rowCount_pulledCuts positive] at part
  omega

/-- Without limits that is all the condition says. -/
theorem overruns_iff {source : Source B} {options : StreamOptions} (positive : 0 < options.batchSize)
    (rows : options.rowLimit = none) (bytes : options.byteLimit = none) :
    Overruns source options ↔ ∃ polls, Silent source polls ∧ usizeMax < (pulledRows source polls).length := by
  constructor
  · intro overruns
    by_contra fits
    refine not_overruns positive (fun polls silent => ?_) overruns
    by_contra longer
    exact fits ⟨polls, silent, by omega⟩
  · rintro ⟨polls, silent, longer⟩
    refine ⟨rows, polls, (pulledCuts options.batchSize source polls).length, silent, by simp [Affords, bytes], ?_⟩
    rwa [List.take_length, rowCount_pulledCuts positive]

/-- No call takes a cancellation back. -/
theorem cancelled_run {s last : DecodedStream B} {trace : List (Call × Reply B)} (run : Run Calls s trace last)
    (flagged : s.cancelled = true) : last.cancelled = true := by
  induction run with
  | nil => exact flagged
  | @cons s call reply t _ _ first _ ih =>
    apply ih
    cases first with
    | cancel => rfl
    | next called =>
      cases fin : s.finished with
      | true =>
        obtain ⟨_, rfl⟩ := called.unique (next_finished fin)
        exact flagged
      | false =>
        obtain ⟨_, rfl⟩ := called.unique (next_cancelled fin flagged)
        exact flagged

/-- In every run of calls, whatever the source yields: all counters stay in range exactly when
the stream is cancelled from the start, or no slices of the source overrun the row counter. -/
theorem inRange_run_iff (schema : Schema) (source : Source B) (options : StreamOptions) (flag : Bool) :
    ∀ s₀, new schema source options flag = .ok s₀ →
      ((∀ trace s, Run Calls s₀ trace s → InRange s) ↔ flag = true ∨ ¬ Overruns source options) := by
  intro s₀ created
  have bounded := bounded_new created
  unfold new at created
  split_ifs at created
  cases created
  have paced : Paced (⟨schema, source, 0, options, flag, none, 0, 0, false⟩ : DecodedStream B) [] :=
    ⟨rfl, fun _ bound => absurd bound (Nat.not_lt_zero _), rfl, rfl, fun _ _ => Nat.zero_le _⟩
  constructor
  · intro inRange
    by_contra reached
    rw [not_or, not_not] at reached
    obtain ⟨unflagged, unlimited, polls, count, silent, affords, longer⟩ := reached
    obtain ⟨trace, t, run, outside⟩ := overrun_reached bounded ⟨rfl, by simpa using unflagged, by simp [unlimited]⟩
      unlimited paced (Nat.zero_le polls) silent (List.take_prefix count _) affords (Nat.zero_le _) longer
    exact outside (inRange trace t run)
  · intro kept trace s run
    have bounded' := bounded_run run bounded
    have settings := run_settings run
    cases limited : options.rowLimit with
    | some limit => exact inRange_limited bounded' (by rw [settings.options]; exact limited)
    | none =>
      have unlimited : s.options.rowLimit = none := by rw [settings.options]; exact limited
      rcases kept with flagged | kept
      · rw [inRange_iff bounded']
        intro output t called
        have closed := cancelled_run run flagged
        rw [(next_ok called).1.uncancelled] at closed
        contradiction
      · rcases paced_run run bounded limited (.inr ⟨[], paced⟩) with fin | ⟨done, paced'⟩
        · rw [inRange_iff bounded']
          intro output t called
          cases (called.unique (next_finished fin)).1
        · exact paced'.inRange bounded' unlimited (by rwa [settings.source, settings.options])

/-- A stream without limits over batches that are read to their end. -/
theorem inRange_run_iff_unlimited : ∃ s₀, new ⟨[], []⟩ twoBatches {} false = .ok s₀ ∧
    ∀ trace s, Run Calls s₀ trace s → InRange s := by
  refine ⟨_, rfl, (inRange_run_iff ⟨[], []⟩ twoBatches {} false _ rfl).mpr (.inr ?_)⟩
  apply not_overruns (by decide)
  intro polls _
  have seven : (pulledRows twoBatches 2).length = 7 := rfl
  have few : (pulledRows twoBatches polls).length ≤ 7 := by
    rcases Nat.le_total polls 2 with early | late
    · exact seven ▸ (pulledRows_le twoBatches early).length_le
    · rw [pulledRows_blank late fun poll first _ => ?_, seven]
      have ended : twoBatches poll = none := List.getElem?_eq_none (by simpa using first)
      rw [ended]
      rfl
  have word : 7 ≤ usizeMax := by decide
  omega

/-- All rows that fit the word, and one more. -/
def longSource : Source ColumnlessBatch := Source.ofList [.ok ⟨usizeMax, Nat.le_refl _⟩, .ok ⟨1, by decide⟩]

/-- Without a row limit the row counter overflows: unchecked, it starts again at zero. -/
theorem row_counter_wraps :
    ∃ s₀ s t, new ⟨[], []⟩ longSource { batchSize := usizeMax, batchSize_le := Nat.le_refl _ } false = .ok s₀ ∧
      Next s₀ (some (.ok ⟨usizeMax, Nat.le_refl _⟩)) s ∧ Next s (some (.ok ⟨1, by decide⟩)) t ∧
      s.emittedRows = usizeMax ∧ t.emittedRows = 0 ∧ ¬ InRange s := by
  obtain ⟨s₀, s, t, created, first, second, full, wrapped⟩ :
      ∃ s₀ s t, new ⟨[], []⟩ longSource { batchSize := usizeMax, batchSize_le := Nat.le_refl _ } false = .ok s₀ ∧
        Next s₀ (some (.ok ⟨usizeMax, Nat.le_refl _⟩)) s ∧ Next s (some (.ok ⟨1, by decide⟩)) t ∧
        s.emittedRows = usizeMax ∧ t.emittedRows = 0 :=
    ⟨_, _, _, rfl, ⟨1, rfl⟩, ⟨1, rfl⟩, rfl, rfl⟩
  refine ⟨s₀, s, t, created, first, second, full, wrapped, fun inRange => ?_⟩
  have counted := (inRange_iff (bounded_next (bounded_new created) first)).mp inRange _ t second
  rw [full] at counted
  exact absurd counted (by decide)

end FsspecData.DecodedStream
