import FsspecData.Stream.Reference

/-! Every finite stream yields its reference. A live state determines what is still
expected, and each call of `next` takes the head of it. -/
namespace FsspecData.DecodedStream

open FsspecData

variable {B R : Type} [BatchLike B R]

/-- The pieces left of the batch the stream holds. -/
def held (s : DecodedStream B) : List (Stretch B) :=
  match s.pending with
  | some (batch, offset) => cuts s.options.batchSize batch offset
  | none => []

/-- The pieces of the source that no poll has taken. -/
def untaken (source : List (Item B)) (s : DecodedStream B) : List (Except InterchangeError (Stretch B)) :=
  pieces s.options.batchSize (untilError (source.drop s.polls))

def remaining (source : List (Item B)) (s : DecodedStream B) :
    List (Except InterchangeError (Stretch B)) :=
  (held s).map .ok ++ untaken source s

/-- The rows the limit still admits. -/
def budget (s : DecodedStream B) : Option Nat := s.options.rowLimit.map (· - s.emittedRows)

/-- What a stream in state `s` still has to yield. -/
def expected (source : List (Item B)) (s : DecodedStream B) : List (Item B) :=
  limitBytes s.options.byteLimit s.emittedBytes (outputs (limitRows s.budget (remaining source s)))

/-- The states between two yielded batches. The counters never exceed their limits,
so the wrapping and the saturating additions of `emit` are plain ones. -/
structure Live (source : List (Item B)) (s : DecodedStream B) : Prop where
  answers : s.source = Source.ofList source
  unfinished : s.finished = false
  uncancelled : s.cancelled = false
  positive : 0 < s.options.batchSize
  rows : ∀ limit, s.options.rowLimit = some limit → s.emittedRows ≤ limit
  bytes : ∀ limit, s.options.byteLimit = some limit → s.emittedBytes ≤ limit ∧ limit < usizeMax

/-- The loop of `next` ends with the first remaining piece, and keeps the others. -/
inductive Pulls (source : List (Item B)) (s : DecodedStream B) :
    List (Except InterchangeError (Stretch B)) → Prop where
  | exhausted (fuel : Nat) : pull fuel s = some (.exhausted, s') → Pulls source s []
  | failed (fuel : Nat) : pull fuel s = some (.failed error, s') → Pulls source s [.error error]
  | ready (fuel taken : Nat) :
      pull fuel s = some (.ready batch offset, { s with pending := none, polls := taken }) →
      offset < numRows batch →
      length = min s.options.batchSize (numRows batch - offset) →
      Pulls source s (.ok ⟨batch, offset, length⟩ ::
        ((cuts s.options.batchSize batch (offset + length)).map .ok ++
          pieces s.options.batchSize (untilError (source.drop taken))))

/-- A loop round that finds nothing to read leaves the same pieces to the next one. -/
theorem Pulls.skip {source : List (Item B)} {s t : DecodedStream B} (taken : Nat)
    (round : ∀ fuel, pull (fuel + 1) s = pull fuel t)
    (same : t = { s with pending := none, polls := taken }) (later : Pulls source t list) :
    Pulls source s list := by
  subst same
  cases later with
  | exhausted fuel h => exact .exhausted (fuel + 1) ((round fuel).trans h)
  | failed fuel h => exact .failed (fuel + 1) ((round fuel).trans h)
  | ready fuel taken h unread length => exact .ready (fuel + 1) taken ((round fuel).trans h) unread length

theorem pulls_untaken {source : List (Item B)} (items : List (Item B)) (s : DecodedStream B)
    (live : Live source s) (empty : s.pending = none) (rest : source.drop s.polls = items) :
    Pulls source s (pieces s.options.batchSize (untilError items)) := by
  induction items generalizing s with
  | nil =>
    have answer : s.source s.polls = none := by
      rw [live.answers]
      exact List.getElem?_eq_none (List.drop_eq_nil_iff.mp rest)
    exact .exhausted 1 (by simp [pull, empty, answer]; rfl)
  | cons item items ih =>
    have answer : s.source s.polls = some item := by
      rw [live.answers]
      have head := congrArg List.head? rest
      rwa [List.head?_drop] at head
    have tail : source.drop (s.polls + 1) = items := by
      rw [← List.drop_drop, rest]; rfl
    cases item with
    | error error => exact .failed 1 (by simp [pull, empty, answer]; rfl)
    | ok batch =>
      simp only [untilError, pieces_ok]
      by_cases unread : 0 < numRows batch
      · rw [cuts_unread live.positive unread, ← tail]
        exact .ready 1 (s.polls + 1) (by simp [pull, empty, answer, unread])
          unread (by simp)
      · rw [cuts_read live.positive (by omega)]
        have next_live : Live source { s with polls := s.polls + 1 } :=
          ⟨live.answers, live.unfinished, live.uncancelled, live.positive, live.rows, live.bytes⟩
        refine .skip (s.polls + 1) (fun fuel => ?_) (by rw [empty])
          (ih { s with polls := s.polls + 1 } next_live empty tail)
        simp [pull, empty, answer, unread]

theorem pulls_remaining {source : List (Item B)} {s : DecodedStream B} (live : Live source s) :
    Pulls source s (remaining source s) := by
  cases pending : s.pending with
  | none => simpa [remaining, held, pending, untaken] using pulls_untaken _ s live pending rfl
  | some slice =>
    obtain ⟨batch, offset⟩ := slice
    simp only [remaining, held, pending]
    by_cases unread : offset < numRows batch
    · rw [cuts_unread live.positive unread]
      exact .ready 1 s.polls (by simp [pull, pending, unread]) unread rfl
    · rw [cuts_read live.positive (by omega)]
      have next_live : Live source { s with pending := none } :=
        ⟨live.answers, live.unfinished, live.uncancelled, live.positive, live.rows, live.bytes⟩
      refine .skip s.polls (fun fuel => ?_) rfl (pulls_untaken _ _ next_live rfl rfl)
      simp [pull, pending, unread]

/-- `usize::MAX` stands for no row limit: no batch is longer. -/
theorem emit_length (s : DecodedStream B) (batch : B) (offset : Nat) :
    min (min (numRows batch - offset) s.options.batchSize) s.rowRemaining =
      granted s.budget (min s.options.batchSize (numRows batch - offset)) := by
  have bound := BatchLike.numRows_le batch
  unfold rowRemaining granted budget
  cases s.options.rowLimit with
  | none => simp only [Option.map_none, Option.getD_none]; omega
  | some limit => simp only [Option.map_some, Option.getD_some]; omega

/-- What the budget grants stays within the row limit. -/
theorem Live.rows_within {source : List (Item B)} {s : DecodedStream B} (live : Live source s) {limit : Nat}
    (limited : s.options.rowLimit = some limit) (wanted : Nat) : s.emittedRows + granted s.budget wanted ≤ limit := by
  have left : granted s.budget wanted ≤ limit - s.emittedRows := by
    simp only [granted, budget, limited, Option.map_some, Option.getD_some]
    omega
  have := live.rows limit limited
  omega

theorem Live.rows_unwrapped {source : List (Item B)} {s : DecodedStream B} (live : Live source s) {limit : Nat}
    (limited : s.options.rowLimit = some limit) (wanted : Nat) :
    (s.emittedRows + granted s.budget wanted) % (usizeMax + 1) = s.emittedRows + granted s.budget wanted := by
  apply Nat.mod_eq_of_lt
  have := live.rows_within limited wanted
  have := s.options.rowLimit_le limit limited
  omega

/-- The output is charged in full: neither counter wraps or saturates on a live stream. -/
theorem live_emit {source : List (Item B)} {s : DecodedStream B} (live : Live source s)
    (unspent : s.budget ≠ some 0) {batch : B} {offset : Nat} (taken : Nat)
    (unread : offset < numRows batch) :
    let length := granted s.budget (min s.options.batchSize (numRows batch - offset))
    let output := cutout batch offset length
    let attempted := s.emittedBytes + getArrayMemorySize output
    ∃ item t, emit { s with pending := none, polls := taken } batch offset = (some item, t) ∧
      ((∃ limit, s.options.byteLimit = some limit ∧ limit < attempted ∧ t.finished = true ∧
          item = .error (.byteLimitExceeded limit (min attempted usizeMax))) ∨
        ((∀ limit, s.options.byteLimit = some limit → attempted ≤ limit) ∧ item = .ok output ∧
          Live source t ∧ t.options = s.options ∧ t.polls = taken ∧
          held t = cuts s.options.batchSize batch (offset + length) ∧
          t.budget = s.budget.map (· - length) ∧
          (s.options.byteLimit ≠ none → t.emittedBytes = attempted))) := by
  intro length output attempted
  have left_le : length ≤ numRows batch - offset :=
    Nat.le_trans (granted_le _ _) (Nat.min_le_right _ _)
  have length_pos : 0 < length := by
    apply granted_pos unspent
    have := live.positive
    omega
  have output_rows : numRows output = length := numRows_cutout batch offset length (by omega)
  have computed : outputLength { s with pending := none, polls := taken } batch offset = length :=
    emit_length { s with pending := none, polls := taken } batch offset
  rcases emitted : emit { s with pending := none, polls := taken } batch offset with ⟨item, t⟩
  cases emit_emits emitted with
  | empty none_left =>
    rw [computed] at none_left
    omega
  | @exceeded charged limit _ cut limited exceeds =>
    obtain rfl : charged = output := by rw [cut, computed]
    refine ⟨_, _, rfl, .inl ⟨limit, limited, exceeds.trans_le (Nat.min_le_left _ _), rfl, rfl⟩⟩
  | @yielded yielded _ cut passes =>
    obtain rfl : yielded = output := by rw [cut, computed]
    have within (limit : Nat) (limited : s.options.byteLimit = some limit) : attempted ≤ limit := by
      have word := (live.bytes limit limited).2
      have passed : min attempted usizeMax ≤ limit := passes limit limited
      omega
    have unwrapped (limit : Nat) (limited : s.options.rowLimit = some limit) :
        (s.emittedRows + numRows output) % (usizeMax + 1) = s.emittedRows + length := by
      rw [output_rows]
      exact live.rows_unwrapped limited _
    refine ⟨_, _, rfl, .inr ⟨within, rfl, ?_, rfl, rfl, ?_, ?_, ?_⟩⟩
    · refine ⟨live.answers, live.unfinished, live.uncancelled, live.positive, ?_, ?_⟩
      · intro limit limited
        exact (unwrapped limit limited).trans_le (live.rows_within limited _)
      · intro limit limited
        have := within limit limited
        exact ⟨Nat.le_trans (Nat.min_le_left _ _) this, (live.bytes limit limited).2⟩
    · simp only [held, leftover, computed]
      by_cases more : length < numRows batch - offset
      · simp [more]
      · simp [more, cuts_read live.positive (show numRows batch ≤ offset + length by omega)]
    · unfold budget
      cases limited : s.options.rowLimit with
      | none => rfl
      | some limit =>
        have plain := congrArg (limit - ·) (unwrapped limit limited)
        exact congrArg some (plain.trans (Nat.sub_sub _ _ _).symm)
    · intro limited
      obtain ⟨limit, limited⟩ := Option.ne_none_iff_exists'.mp limited
      have := within limit limited
      have := (live.bytes limit limited).2
      exact Nat.min_eq_left (show attempted ≤ usizeMax by omega)

theorem Live.next_spent {source : List (Item B)} {s : DecodedStream B} (live : Live source s)
    (spent : s.budget = some 0) : Next s none { s with finished := true } := by
  obtain ⟨limit, limited, left⟩ := Option.map_eq_some_iff.mp spent
  have met : s.emittedRows ≥ limit := by omega
  exact ⟨0, by simp [next, live.unfinished, live.uncancelled, limited, met]⟩

/-- Within its budget a live stream pulls. -/
theorem Live.next_eq {source : List (Item B)} {s : DecodedStream B} (live : Live source s)
    (unspent : s.budget ≠ some 0) (fuel : Nat) :
    next fuel s = (pull fuel s).map fun pulled => pulled.2.settle pulled.1 := by
  have unmet : s.options.rowLimit.any (s.emittedRows ≥ ·) = false := by
    cases limited : s.options.rowLimit with
    | none => rfl
    | some limit =>
      have : limit - s.emittedRows ≠ 0 := fun spent => unspent (by simp [budget, limited, spent])
      simp only [Option.any_some, decide_eq_false_iff_not]
      omega
  simp [next, live.unfinished, live.uncancelled, unmet]

/-- One call of `next` takes the first expected item; only an error ends the stream early. -/
theorem live_next {source : List (Item B)} {s : DecodedStream B} (live : Live source s) :
    (expected source s = [] ∧ ∃ t, Next s none t) ∨
    ∃ x xs t, expected source s = x :: xs ∧ Next s (some x) t ∧
      ((xs = [] ∧ t.finished = true) ∨ (Live source t ∧ expected source t = xs)) := by
  by_cases unspent : s.budget = some 0
  · exact .inl ⟨by simp [expected, unspent, outputs, limitBytes], _, live.next_spent unspent⟩
  · have pulls := pulls_remaining live
    unfold expected
    cases remain : remaining source s with
    | nil =>
      rw [remain] at pulls
      cases pulls with
      | @exhausted t fuel h =>
        exact .inl ⟨by simp [outputs, limitBytes], t, fuel, by simp [live.next_eq unspent fuel, h, settle]⟩
    | cons head rest =>
      right
      rw [remain] at pulls
      cases pulls with
      | @failed t error fuel h =>
        refine ⟨.error error, [], { t with finished := true }, ?_, ⟨fuel, ?_⟩, .inl ⟨rfl, rfl⟩⟩
        · simp [limitRows_error unspent, outputs, limitBytes, Except.map]
        · simp [live.next_eq unspent fuel, h, settle]
      | @ready batch offset length fuel taken h unread cut =>
        subst cut
        obtain ⟨item, t, emitted, result⟩ := live_emit live unspent taken unread
        have step : Next s item t := ⟨fuel, by simp [live.next_eq unspent fuel, h, settle, emitted]⟩
        rw [limitRows_ok unspent, limitRows_tail]
        simp only [outputs, List.map_cons, Except.map, Stretch.output]
        rcases result with ⟨limit, limited, exceeds, ended, rfl⟩ |
          ⟨within, rfl, live', same, polled, left, budgeted, charged⟩
        · refine ⟨_, [], t, ?_, step, .inl ⟨rfl, ended⟩⟩
          simp [limitBytes, limited, exceeds]
        · refine ⟨_, _, t, ?_, step, .inr ⟨live', rfl⟩⟩
          simp only [remaining, untaken, same, polled, left, budgeted]
          cases limited : s.options.byteLimit with
          | none => simp [limitBytes_none]
          | some limit =>
            rw [limited] at charged
            rw [charged (by simp)]
            have := within limit limited
            simp only [limitBytes]
            rw [if_neg (by omega)]

theorem yields_expected {source : List (Item B)} (items : List (Item B)) {s : DecodedStream B}
    (live : Live source s) (left : expected source s = items) : ∃ last, Yields s items last := by
  induction items generalizing s with
  | nil =>
    rcases live_next live with ⟨_, t, step⟩ | ⟨x, xs, t, more, _⟩
    · exact ⟨t, .done step⟩
    · simp [left] at more
  | cons item items ih =>
    rcases live_next live with ⟨none_left, _⟩ | ⟨x, xs, t, more, step, after⟩
    · simp [left] at none_left
    · obtain ⟨rfl, rfl⟩ := List.cons.inj (left.symm.trans more)
      rcases after with ⟨rfl, ended⟩ | ⟨live', later⟩
      · exact ⟨t, .item step (.done ⟨0, by simp [next, ended]⟩)⟩
      · obtain ⟨last, rest⟩ := ih live' later
        exact ⟨last, .item step rest⟩

theorem new_live (schema : Schema) (source : List (Item B)) (options : StreamOptions)
    (positive : 0 < options.batchSize)
    (below : ∀ limit, options.byteLimit = some limit → limit < usizeMax) :
    ∃ s, new schema (Source.ofList source) options false = .ok s ∧ Live source s ∧
      expected source s = reference source options := by
  refine ⟨_, if_neg (by omega), ⟨rfl, rfl, rfl, positive, fun _ _ => Nat.zero_le _, ?_⟩, ?_⟩
  · exact fun limit limited => ⟨Nat.zero_le _, below limit limited⟩
  · have whole : options.rowLimit.map (· - 0) = options.rowLimit := by simp
    simp [expected, budget, remaining, held, untaken, reference]

/-- An uncancelled stream over any finite source yields exactly the reference up to
its first `None`: no row lost, repeated or moved, no batch empty or too long. -/
theorem yields_reference (schema : Schema) (source : List (Item B)) (options : StreamOptions)
    (positive : 1 ≤ options.batchSize)
    (below : ∀ limit, options.byteLimit = some limit → limit < usizeMax) :
    ∃ s, new schema (Source.ofList source) options false = .ok s ∧
      (∀ items, (∃ last, Yields s items last) ↔ items = reference source options) ∧
      (∀ batch, .ok batch ∈ reference source options →
        0 < numRows batch ∧ numRows batch ≤ options.batchSize) ∧
      yielded (reference source options) <+: yielded (untilError source) ∧
      ((∀ bytes attempted, .error (.byteLimitExceeded bytes attempted) ∉ reference source options) →
        yielded (reference source options) =
          takeRows options.rowLimit (yielded (untilError source))) := by
  obtain ⟨s, created, live, whole⟩ := new_live schema source options positive below
  obtain ⟨last, yields⟩ := yields_expected _ live whole
  obtain ⟨leading, all⟩ := reference_rows source options positive
  refine ⟨s, created, fun items => ⟨?_, ?_⟩, fun _ => reference_batches source options positive,
    leading, all⟩
  · rintro ⟨last', yields'⟩
    exact (yields'.unique yields).1
  · rintro rfl
    exact ⟨last, yields⟩

theorem yields_reference_columnless :
    ∃ s, new ⟨[], []⟩ (Source.ofList [.ok (⟨5, by decide⟩ : ColumnlessBatch), .error .inputSchema])
        { batchSize := 2, rowLimit := some 4, rowLimit_le := by decide } false = .ok s ∧
      ∃ last, Yields s [.ok ⟨2, by decide⟩, .ok ⟨2, by decide⟩] last := by
  obtain ⟨s, created, yields, _⟩ := yields_reference ⟨[], []⟩
    [.ok (⟨5, by decide⟩ : ColumnlessBatch), .error .inputSchema]
    { batchSize := 2, rowLimit := some 4, rowLimit_le := by decide } (by decide) (by simp)
  exact ⟨s, created, (yields _).mpr rfl⟩

end FsspecData.DecodedStream
