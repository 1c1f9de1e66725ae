import FsspecData.Stream.Decoded
import FsspecData.Library.Machine

/-! Calls on a decoded stream, in any order: `next` by its consumer and `cancel` by any
holder of the token. Every way `next` returns is listed once; all but the source's own
end set `finished`, and only a finished stream is over for good. -/
namespace FsspecData.DecodedStream

open FsspecData Machine

variable {B R : Type} [BatchLike B R]

inductive Call where
  | next
  | cancel
  deriving DecidableEq

inductive Reply (B : Type) where
  | item (item : Option (Item B))
  | cancelled

/-- `CancellationToken::cancel` stores the flag that the stream and the token share. -/
def cancel (s : DecodedStream B) : DecodedStream B := { s with cancelled := true }

inductive Calls : DecodedStream B → Call → Reply B → DecodedStream B → Prop where
  | next : Next s item t → Calls s .next (.item item) t
  | cancel : Calls s .cancel .cancelled s.cancel

/-- `None` or an error. -/
def Ends (item : Option (Item B)) : Prop := ∀ batch, item ≠ some (.ok batch)

/-- From here on, whatever is called, `next` answers `None`, leaves the source alone
and counts nothing. -/
def Over (s : DecodedStream B) : Prop :=
  ∀ trace last, Run Calls s trace last →
    last.polls = s.polls ∧ last.emittedRows = s.emittedRows ∧ last.emittedBytes = s.emittedBytes ∧
      (∃ t, Next last none t) ∧ ∀ item, (.next, .item item) ∈ trace → item = none

/-- Nothing unread is pending, and after `count` batches without rows the source answers
the next poll with `None`. -/
structure Dry (s : DecodedStream B) (count : Nat) : Prop where
  read : ∀ batch offset, s.pending = some (batch, offset) → numRows batch ≤ offset
  rowless : ∀ i < count, ∃ batch, s.source (s.polls + i) = some (.ok batch) ∧ numRows batch = 0
  ended : s.source (s.polls + count) = none

/-- No check before the loop of `next` stops it. -/
structure Open (s : DecodedStream B) : Prop where
  unfinished : s.finished = false
  uncancelled : s.cancelled = false
  unmet : ∀ limit, s.options.rowLimit = some limit → s.emittedRows < limit

/-- The next call of `next` runs into the source's end. -/
def Exhausts (s : DecodedStream B) : Prop := Open s ∧ ∃ count, Dry s count

/-- The state in which the source's end leaves the stream: still open. -/
def drained (s : DecodedStream B) (count : Nat) : DecodedStream B :=
  { s with pending := none, polls := s.polls + count + 1 }

/-- How the loop of `next` ends, and what it has taken by then. -/
inductive Pulling (s : DecodedStream B) : Pulled B → DecodedStream B → Prop where
  | exhausted : Dry s count → Pulling s .exhausted (s.drained count)
  | failed (polls : Nat) : s.source polls = some (.error error) →
      Pulling s (.failed error) { s with pending := none, polls := polls + 1 }
  | ready (polls : Nat) : offset < numRows batch → s.polls ≤ polls →
      (∀ poll, s.polls ≤ poll → poll < polls → ∃ batch, s.source poll = some (.ok batch)) →
      Pulling s (.ready batch offset) { s with pending := none, polls := polls }

/-- A round that skips a batch without rows. -/
theorem Pulling.skip {s : DecodedStream B} {pulled : Pulled B} (empty : s.pending = none)
    (answer : s.source s.polls = some (.ok batch)) (rowless : numRows batch = 0)
    (later : Pulling { s with polls := s.polls + 1 } pulled t) : Pulling s pulled t := by
  cases later with
  | @exhausted count dry =>
    have same : drained { s with polls := s.polls + 1 } count = s.drained (count + 1) := by
      simp only [drained, Nat.add_assoc, Nat.add_comm 1]
    rw [same]
    apply Pulling.exhausted
    refine ⟨fun _ _ held => by simp [empty] at held, ?_, ?_⟩
    · intro i bound
      cases i with
      | zero => exact ⟨batch, answer, rowless⟩
      | succ i =>
        obtain ⟨other, answer, rowless⟩ := dry.rowless i (by omega)
        have shift : s.polls + (i + 1) = s.polls + 1 + i := by omega
        exact ⟨other, by rw [shift]; exact answer, rowless⟩
    · have shift : s.polls + (count + 1) = s.polls + 1 + count := by omega
      rw [shift]
      exact dry.ended
  | failed polls answer => exact .failed polls answer
  | ready polls unread further answers =>
    refine .ready polls unread (Nat.le_of_succ_le further) fun poll first bound => ?_
    by_cases here : poll = s.polls
    · exact ⟨batch, here ▸ answer⟩
    · exact answers poll (show s.polls + 1 ≤ poll by omega) bound

/-- A round that drops a pending batch read to its end. -/
theorem Pulling.drop {s : DecodedStream B} {pulled : Pulled B} (held : s.pending = some (batch, offset))
    (read : numRows batch ≤ offset) (later : Pulling { s with pending := none } pulled t) :
    Pulling s pulled t := by
  cases later with
  | exhausted dry =>
    refine .exhausted ⟨?_, dry.rowless, dry.ended⟩
    intro batch' offset' held'
    rw [held] at held'
    cases held'
    exact read
  | failed polls answer => exact .failed polls answer
  | ready polls unread further answers => exact .ready polls unread further answers

theorem pull_pulling {fuel : Nat} {s t : DecodedStream B} {pulled : Pulled B}
    (h : pull fuel s = some (pulled, t)) : Pulling s pulled t := by
  induction fuel generalizing s with
  | zero => simp [pull] at h
  | succ fuel ih =>
    simp only [pull] at h
    split at h
    next batch offset held =>
      split at h
      next unread =>
        cases h
        exact .ready s.polls unread (Nat.le_refl _) fun poll first bound => by omega
      next read =>
        apply Pulling.drop held (by omega)
        exact ih h
    next empty =>
      have same : { s with pending := none, polls := s.polls + 1 } = { s with polls := s.polls + 1 } := by
        rw [← empty]
      split at h
      next answer =>
        cases h
        rw [← same]
        have dry : Dry s 0 := by
          refine ⟨fun _ _ held => ?_, fun _ bound => ?_, answer⟩
          · simp [empty] at held
          · omega
        exact .exhausted dry
      next batch answer =>
        split at h
        next unread =>
          cases h
          rw [← same]
          refine .ready (s.polls + 1) unread (Nat.le_succ _) fun poll first bound => ?_
          obtain rfl : poll = s.polls := by omega
          exact ⟨batch, answer⟩
        next read =>
          apply Pulling.skip empty answer (by omega)
          exact ih h
      next error answer =>
        cases h
        rw [← same]
        exact .failed s.polls answer

/-- Every way a call of `next` returns, and what it leaves. -/
inductive Returns (s : DecodedStream B) : Option (Item B) → DecodedStream B → Prop where
  | finished : s.finished = true → Returns s none s
  | cancelled : Returns s (some (.error .streamCancelled)) { s with finished := true }
  | stopped : t.finished = true → Returns s none t
  | exhausted : Open s → Dry s count → Returns s none (s.drained count)
  | failed (polls : Nat) : s.source polls = some (.error error) → t.finished = true →
      Returns s (some (.error error)) t
  | exceeded : s.options.byteLimit = some limit → limit < attempted → attempted ≤ usizeMax →
      t.finished = true → Returns s (some (.error (.byteLimitExceeded limit attempted))) t
  | yielded : t.source = s.source → t.options = s.options → Returns s (some (.ok batch)) t

theorem emit_returns {s u t : DecodedStream B} {batch : B} {offset : Nat} {item : Option (Item B)}
    (source : u.source = s.source) (options : u.options = s.options)
    (h : emit u batch offset = (item, t)) : Returns s item t := by
  cases emit_emits h with
  | empty => exact .stopped rfl
  | exceeded _ _ limited exceeds => exact .exceeded (options ▸ limited) exceeds (Nat.min_le_right _ _) rfl
  | yielded => exact .yielded source options

theorem next_returns {s t : DecodedStream B} {item : Option (Item B)} (called : Next s item t) :
    Returns s item t := by
  obtain ⟨fuel, h⟩ := called
  unfold next at h
  split at h
  next fin =>
    cases h
    exact .finished fin
  next unfinished =>
    split at h
    next flag =>
      cases h
      exact .cancelled
    next uncancelled =>
      split at h
      next met =>
        cases h
        exact .stopped rfl
      next unmet =>
        have starts : Open s := by
          refine ⟨by simpa using unfinished, by simpa using uncancelled, ?_⟩
          intro limit limited
          simpa [limited] using unmet
        obtain ⟨⟨pulled, u⟩, loop, settled⟩ := Option.map_eq_some_iff.mp h
        cases pull_pulling loop with
        | exhausted dry =>
          cases settled
          exact .exhausted starts dry
        | failed polls answer =>
          cases settled
          exact .failed polls answer rfl
        | ready polls => exact emit_returns (u := { s with pending := none, polls := polls }) rfl rfl settled

/-- Only the source's own end leaves an ended stream unfinished. -/
theorem ended_finished {s t : DecodedStream B} {item : Option (Item B)} (called : Next s item t)
    (ends : Ends item) (not_dry : ¬ Exhausts s) : t.finished = true := by
  cases next_returns called with
  | finished fin => exact fin
  | cancelled => rfl
  | stopped fin => exact fin
  | exhausted starts dry => exact absurd ⟨starts, _, dry⟩ not_dry
  | failed polls answer fin => exact fin
  | exceeded limited exceeds bound fin => exact fin
  | yielded => exact absurd rfl (ends _)

theorem next_finished {s : DecodedStream B} (fin : s.finished = true) : Next s none s :=
  ⟨0, by simp [next, fin]⟩

/-- A finished stream that has moved no counter since `s`. -/
structure Frozen (s u : DecodedStream B) : Prop where
  finished : u.finished = true
  polls : u.polls = s.polls
  rows : u.emittedRows = s.emittedRows
  bytes : u.emittedBytes = s.emittedBytes

theorem frozen_calls {s u t : DecodedStream B} {call : Call} {reply : Reply B} (frozen : Frozen s u)
    (taken : Calls u call reply t) : (∀ item, reply = .item item → item = none) ∧ Frozen s t := by
  cases taken with
  | next called =>
    obtain ⟨rfl, rfl⟩ := called.unique (next_finished frozen.finished)
    exact ⟨fun item same => (Reply.item.inj same).symm, frozen⟩
  | cancel => exact ⟨nofun, frozen.finished, frozen.polls, frozen.rows, frozen.bytes⟩

theorem finished_over {s : DecodedStream B} (fin : s.finished = true) : Over s := by
  intro trace last run
  obtain ⟨silent, frozen⟩ := run.guarantees (Frozen s)
    (fun _ reply => ∀ item, reply = .item item → item = none) frozen_calls ⟨fin, rfl, rfl, rfl⟩
  refine ⟨frozen.polls, frozen.rows, frozen.bytes, ⟨last, next_finished frozen.finished⟩, ?_⟩
  exact fun item member => silent _ member item rfl

/-- A dry source ends the loop, whatever batches without rows come before its end. -/
theorem pull_dry {count : Nat} {s : DecodedStream B} (dry : Dry s count) :
    ∃ fuel, pull fuel s = some (.exhausted, s.drained count) := by
  have unpending (count : Nat) (u : DecodedStream B) (empty : u.pending = none) (dry : Dry u count) :
      pull (count + 1) u = some (.exhausted, u.drained count) := by
    induction count generalizing u with
    | zero =>
      have answer : u.source u.polls = none := dry.ended
      simp [pull, empty, answer, drained]
    | succ count ih =>
      obtain ⟨batch, answer, rowless⟩ := dry.rowless 0 (by omega)
      have shift (i : Nat) : u.polls + 1 + i = u.polls + (i + 1) := by omega
      have rest : Dry { u with polls := u.polls + 1 } count := by
        refine ⟨fun _ _ held => by simp [empty] at held, fun i bound => ?_, ?_⟩
        · simpa only [shift] using dry.rowless (i + 1) (by omega)
        · simpa only [shift] using dry.ended
      have later := ih { u with polls := u.polls + 1 } empty rest
      rw [Nat.add_zero] at answer
      simp only [pull, empty, answer, rowless, gt_iff_lt, Nat.lt_irrefl, ↓reduceIte] at later ⊢
      rw [later]
      simp only [drained, shift]
  cases pending : s.pending with
  | none => exact ⟨_, unpending count s pending dry⟩
  | some slice =>
    obtain ⟨batch, offset⟩ := slice
    have read : ¬ numRows batch > offset := Nat.not_lt.mpr (dry.read batch offset pending)
    refine ⟨count + 2, ?_⟩
    rw [pull, pending]
    simp only [read, ↓reduceIte]
    exact unpending count { s with pending := none } rfl ⟨fun _ _ held => by simp at held, dry.rowless, dry.ended⟩

theorem next_open {s : DecodedStream B} (starts : Open s) (fuel : Nat) :
    next fuel s = (pull fuel s).map fun pulled => pulled.2.settle pulled.1 := by
  have unmet : s.options.rowLimit.any (s.emittedRows ≥ ·) = false := by
    cases limited : s.options.rowLimit with
    | none => rfl
    | some limit =>
      have := starts.unmet limit limited
      simp only [Option.any_some, decide_eq_false_iff_not]
      omega
  simp [next, starts.unfinished, starts.uncancelled, unmet]

theorem next_dry {s : DecodedStream B} (starts : Open s) (dry : Dry s count) :
    Next s none (s.drained count) := by
  obtain ⟨fuel, loop⟩ := pull_dry dry
  exact ⟨fuel, by simp [next_open starts, loop, settle]⟩

/-- A cancelled stream that is not finished reports the cancellation. -/
theorem next_cancelled {s : DecodedStream B} (unfinished : s.finished = false) (flag : s.cancelled = true) :
    Next s (some (.error .streamCancelled)) { s with finished := true } :=
  ⟨0, by simp [next, flag, unfinished]⟩

/-- The stream is open after the source's end, so a cancellation still shows. -/
theorem drained_not_over {s : DecodedStream B} (starts : Open s) (count : Nat) :
    ¬ Over (s.drained count) := by
  intro silenced
  have unfinished : (s.drained count).finished = false := starts.unfinished
  obtain ⟨_, _, _, _, silent⟩ := silenced _ _ (.cons .cancel (.cons (.next (next_cancelled unfinished rfl)) .nil))
  exact absurd (silent (some (.error .streamCancelled)) (by simp)) (by simp)

/-- What a call leaves: a finished stream, or one that was cancelled, reached its source's end
or yielded. -/
inductive Leaves (s : DecodedStream B) : Reply B → DecodedStream B → Prop where
  | finished : t.finished = true → Leaves s reply t
  | cancelled : Leaves s .cancelled s.cancel
  | drained : Open s → Dry s count → Leaves s (.item none) (s.drained count)
  | yielded : Next s (some (.ok output)) t → Leaves s (.item (some (.ok output))) t

theorem calls_leaves {s t : DecodedStream B} {call : Call} {reply : Reply B} (taken : Calls s call reply t) :
    Leaves s reply t := by
  cases taken with
  | cancel => exact .cancelled
  | @next item _ called =>
    rcases item with _ | error | output
    · cases next_returns called with
      | finished fin => exact .finished fin
      | stopped fin => exact .finished fin
      | exhausted starts dry => exact .drained starts dry
    · apply Leaves.finished
      apply ended_finished called nofun
      rintro ⟨starts, count, dry⟩
      cases (called.unique (next_dry starts dry)).1
    · exact .yielded called

/-- In every run of calls, whatever the source would yield after `None`: an ended stream
stays ended exactly when it was not the source's own end that ended it. -/
theorem ended_over_iff (schema : Schema) (source : Source B) (options : StreamOptions) (flag : Bool) :
    ∀ s₀, new schema source options flag = .ok s₀ →
      ∀ trace s item t, Run Calls s₀ trace s → Next s item t → Ends item → (Over t ↔ ¬ Exhausts s) := by
  intro s₀ _ trace s item t _ called ends
  constructor
  · rintro silenced ⟨starts, count, dry⟩
    obtain ⟨_, rfl⟩ := called.unique (next_dry starts dry)
    exact drained_not_over starts count silenced
  · exact fun not_dry => finished_over (ended_finished called ends not_dry)

/-- A source error after two rows is such an end. -/
theorem ended_over_error :
    ∃ s₀ s t, new ⟨[], []⟩ (Source.ofList [.ok (⟨2, by decide⟩ : ColumnlessBatch), .error .inputSchema])
        {} false = .ok s₀ ∧
      Next s₀ (some (.ok ⟨2, by decide⟩)) s ∧ Next s (some (.error .inputSchema)) t ∧ Over t := by
  obtain ⟨s₀, s, t, created, first, second, not_dry⟩ :
      ∃ s₀ s t, new ⟨[], []⟩ (Source.ofList [.ok (⟨2, by decide⟩ : ColumnlessBatch), .error .inputSchema])
          {} false = .ok s₀ ∧
        Next s₀ (some (.ok ⟨2, by decide⟩)) s ∧ Next s (some (.error .inputSchema)) t ∧ ¬ Exhausts s := by
    refine ⟨_, _, _, rfl, ⟨1, rfl⟩, ⟨1, rfl⟩, ?_⟩
    rintro ⟨_, count, dry⟩
    cases count with
    | zero => exact absurd dry.ended (by simp [Source.ofList])
    | succ count =>
      obtain ⟨batch, answer, _⟩ := dry.rowless 0 (by omega)
      simp [Source.ofList] at answer
  have ends : Ends (some (.error .inputSchema) : Option (Item ColumnlessBatch)) := by simp [Ends]
  refine ⟨s₀, s, t, created, first, second, ?_⟩
  exact (ended_over_iff _ _ _ _ s₀ created _ s _ t (.cons (.next first) .nil) second ends).mpr not_dry

/-- An empty source: `next` has answered `None`, the consumer cancels what it has drained,
and the ended stream answers with an error. -/
theorem empty_source_not_over :
    ∃ s₀ t u, new ⟨[], []⟩ (Source.ofList ([] : List (Item ColumnlessBatch))) {} false = .ok s₀ ∧
      Next s₀ none t ∧ Next t.cancel (some (.error .streamCancelled)) u ∧ ¬ Over t := by
  have starts : Open (B := ColumnlessBatch)
      ⟨⟨[], []⟩, Source.ofList [], 0, {}, false, none, 0, 0, false⟩ := ⟨rfl, rfl, by simp⟩
  have dry : Dry (B := ColumnlessBatch)
      ⟨⟨[], []⟩, Source.ofList [], 0, {}, false, none, 0, 0, false⟩ 0 := ⟨by simp, by simp, rfl⟩
  exact ⟨_, _, _, rfl, next_dry starts dry, next_cancelled rfl rfl, drained_not_over starts 0⟩

end FsspecData.DecodedStream
