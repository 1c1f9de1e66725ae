import FsspecData.Stream.Refinement
import FsspecData.Stream.Ended
import FsspecData.Stream.Grants

/-! Streams over any source without errors, also one that never ends or that would yield
again after `None`. What calls bring up is decided by finite beginnings of the source. -/
namespace FsspecData.DecodedStream

open FsspecData

variable {B R : Type} [BatchLike B R]

/-- The items of some calls of `next`, before any `None`. -/
inductive Takes : DecodedStream B → List (Item B) → DecodedStream B → Prop where
  | nil : Takes s [] s
  | item : Next s (some x) s' → Takes s' xs last → Takes s (x :: xs) last

/-- The first answers of the source are these batches. -/
def Begins (source : Source B) (batches : List B) : Prop :=
  ∀ poll < batches.length, source poll = batches[poll]?.map .ok

/-- Behind these batches nothing is yielded: the source ends, or the row limit is met. -/
def Suffices (rowLimit : Option Nat) (source : Source B) (batches : List B) : Prop :=
  source batches.length = none ∨
    ∃ limit, rowLimit = some limit ∧ limit ≤ (batches.flatMap rows).length

/-- No error can come up. -/
structure Quiet (s : DecodedStream B) : Prop where
  unfinished : s.finished = false
  uncancelled : s.cancelled = false
  unlimited : s.options.byteLimit = none
  positive : 0 < s.options.batchSize
  sound : ∀ poll error, s.source poll ≠ some (.error error)

/-- The same stream on another source. -/
def feed (s : DecodedStream B) (source : Source B) : DecodedStream B := { s with source := source }

theorem Takes.append {s t : DecodedStream B} (first : Takes s xs t) (second : Takes t ys last) :
    Takes s (xs ++ ys) last := by
  induction first with
  | nil => exact second
  | item step _ ih => exact .item step (ih second)

theorem Takes.split {s last : DecodedStream B} (takes : Takes s (xs ++ ys) last) :
    ∃ t, Takes s xs t ∧ Takes t ys last := by
  induction xs generalizing s with
  | nil => exact ⟨s, .nil, takes⟩
  | cons x xs ih =>
    cases takes with
    | item step rest =>
      obtain ⟨t, first, second⟩ := ih rest
      exact ⟨t, .item step first, second⟩

theorem yields_iff_takes {s last : DecodedStream B} :
    Yields s xs last ↔ ∃ t, Takes s xs t ∧ Next t none last := by
  constructor
  · intro yields
    induction yields with
    | done stop => exact ⟨_, .nil, stop⟩
    | item step _ ih =>
      obtain ⟨t, takes, stop⟩ := ih
      exact ⟨t, .item step takes, stop⟩
  · rintro ⟨t, takes, stop⟩
    induction takes with
    | nil => exact .done stop
    | item step _ ih => exact .item step (ih stop)

theorem Takes.leading {s t last : DecodedStream B} (takes : Takes s xs t) (yields : Yields s ys last) :
    xs <+: ys := by
  induction takes generalizing ys with
  | nil => exact List.nil_prefix
  | item step _ ih =>
    cases yields with
    | done stop => cases (step.unique stop).1
    | item step' rest =>
      obtain ⟨same, rfl⟩ := step.unique step'
      obtain rfl := Option.some.inj same
      obtain ⟨behind, rfl⟩ := ih rest
      exact ⟨behind, rfl⟩

/-! The calls of a quiet stream. -/

/-- How a call of `next` returns on a quiet stream. -/
inductive Proceeds (s : DecodedStream B) : Option (Item B) → DecodedStream B → Prop where
  | met (limit : Nat) : s.options.rowLimit = some limit → limit ≤ s.emittedRows → Proceeds s none t
  | exhausted (count : Nat) : Open s → Dry s count → Proceeds s none t
  | yielded : Quiet t → t.source = s.source → t.options = s.options → s.polls ≤ t.polls →
      (∀ poll, s.polls ≤ poll → poll < t.polls → ∃ batch, s.source poll = some (.ok batch)) →
      (∀ limit, s.options.rowLimit = some limit → s.emittedRows ≤ limit →
        t.emittedRows = s.emittedRows + numRows batch ∧ t.emittedRows ≤ limit) →
      Proceeds s (some (.ok batch)) t

theorem quiet_emit {s : DecodedStream B} (quiet : Quiet s) (starts : Open s) {polls offset : Nat} {batch : B}
    (unread : offset < numRows batch) (further : s.polls ≤ polls)
    (answers : ∀ poll, s.polls ≤ poll → poll < polls → ∃ batch, s.source poll = some (.ok batch)) :
    ∃ output t, emit { s with pending := none, polls := polls } batch offset = (some (.ok output), t) ∧
      Proceeds s (some (.ok output)) t := by
  have some_left := outputLength_pos (s := { s with pending := none, polls := polls }) quiet.positive
    starts.unmet unread
  have output_rows := numRows_output { s with pending := none, polls := polls } unread
  refine ⟨_, _, emit_ok_iff.mpr ⟨Nat.ne_of_gt some_left, rfl, fun limit limited => ?_, rfl⟩,
    .yielded ?_ rfl rfl further answers ?_⟩
  · cases quiet.unlimited.symm.trans limited
  · exact ⟨quiet.unfinished, quiet.uncancelled, quiet.unlimited, quiet.positive, quiet.sound⟩
  · intro limit limited within
    have bound := s.options.rowLimit_le limit limited
    have short := outputLength_limited { s with pending := none, polls := polls } batch offset limited
    simp only at short
    rw [output_rows, Nat.mod_eq_of_lt (by simp only; omega)]
    refine ⟨rfl, ?_⟩
    simp only
    omega

theorem quiet_next {s t : DecodedStream B} {item : Option (Item B)} (quiet : Quiet s)
    (called : Next s item t) : Proceeds s item t := by
  by_cases met : ∃ limit, s.options.rowLimit = some limit ∧ limit ≤ s.emittedRows
  · obtain ⟨limit, limited, reached⟩ := met
    have stop : Next s none { s with finished := true } :=
      ⟨0, by simp [next, quiet.unfinished, quiet.uncancelled, limited, reached]⟩
    obtain ⟨rfl, rfl⟩ := called.unique stop
    exact .met limit limited reached
  · have starts : Open s := by
      refine ⟨quiet.unfinished, quiet.uncancelled, fun limit limited => ?_⟩
      by_contra reached
      exact met ⟨limit, limited, by omega⟩
    obtain ⟨fuel, h⟩ := called
    rw [next_open starts] at h
    obtain ⟨⟨pulled, u⟩, loop, settled⟩ := Option.map_eq_some_iff.mp h
    cases pull_pulling loop with
    | exhausted dry =>
      cases settled
      exact .exhausted _ starts dry
    | failed polls answer => exact absurd answer (quiet.sound polls _)
    | ready polls unread further answers =>
      obtain ⟨output, t', emitted, proceeds⟩ := quiet_emit quiet starts unread further answers
      cases settled.symm.trans emitted
      exact proceeds

/-- What some calls leave of a quiet stream. -/
structure Advances (s : DecodedStream B) (items : List (Item B)) (t : DecodedStream B) : Prop where
  quiet : Quiet t
  source : t.source = s.source
  options : t.options = s.options
  further : s.polls ≤ t.polls
  answers : ∀ poll, s.polls ≤ poll → poll < t.polls → ∃ batch, s.source poll = some (.ok batch)
  counted : ∀ limit, s.options.rowLimit = some limit → s.emittedRows ≤ limit →
    t.emittedRows = s.emittedRows + (yielded items).length

theorem Takes.advances {s t : DecodedStream B} (takes : Takes s xs t) (quiet : Quiet s) : Advances s xs t := by
  induction takes with
  | nil => exact ⟨quiet, rfl, rfl, Nat.le_refl _, fun _ _ _ => by omega, fun _ _ _ => rfl⟩
  | @item s x u xs last step rest ih =>
    cases quiet_next quiet step with
    | @yielded _ batch quiet' source options further answers counted =>
      obtain ⟨quiet'', source', options', further', answers', counted'⟩ := ih quiet'
      refine ⟨quiet'', source'.trans source, options'.trans options, further.trans further', ?_, ?_⟩
      · intro poll first bound
        by_cases early : poll < u.polls
        · exact answers poll first early
        · rw [← source]
          exact answers' poll (Nat.le_of_not_lt early) bound
      · intro limit limited within
        obtain ⟨here, within'⟩ := counted limit limited within
        have later := counted' limit (by rw [options, limited]) within'
        have rows_here : (yielded (.ok batch :: xs)).length = numRows batch + (yielded xs).length := by
          rw [yielded, List.flatMap_cons, List.length_append, BatchLike.rows_length]
          rfl
        rw [later, here, rows_here]
        omega

/-! Two sources that agree as far as they are polled are read alike. -/

theorem pull_polls {fuel : Nat} {s t : DecodedStream B} {pulled : Pulled B}
    (loop : pull fuel s = some (pulled, t)) : s.polls ≤ t.polls := by
  induction fuel generalizing s with
  | zero => simp [pull] at loop
  | succ fuel ih =>
    simp only [pull] at loop
    split at loop
    next batch offset held =>
      split at loop
      next unread =>
        cases loop
        exact Nat.le_refl _
      next read => exact ih (s := { s with pending := none }) loop
    next held =>
      split at loop
      next answer =>
        cases loop
        exact Nat.le_succ _
      next batch answer =>
        split at loop
        next unread =>
          cases loop
          exact Nat.le_succ _
        next read => exact Nat.le_of_succ_le (ih (s := { s with polls := s.polls + 1 }) loop)
      next error answer =>
        cases loop
        exact Nat.le_succ _

theorem pull_agree {fuel : Nat} {s t : DecodedStream B} {pulled : Pulled B} {source : Source B}
    (loop : pull fuel s = some (pulled, t)) (agree : ∀ poll < t.polls, source poll = s.source poll) :
    pull fuel (s.feed source) = some (pulled, t.feed source) := by
  induction fuel generalizing s with
  | zero => simp [pull] at loop
  | succ fuel ih =>
    have further := pull_polls loop
    simp only [pull, feed] at loop ⊢
    cases held : s.pending with
    | some slice =>
      obtain ⟨batch, offset⟩ := slice
      simp only [held] at loop ⊢
      split at loop
      next unread =>
        cases loop
        rw [if_pos unread]
      next read =>
        rw [if_neg read]
        exact ih (s := { s with pending := none }) loop agree
    | none =>
      simp only [held] at loop ⊢
      cases answer : s.source s.polls with
      | none =>
        rw [answer] at loop
        cases loop
        rw [agree s.polls (Nat.lt_succ_self _), answer]
      | some item =>
        rw [answer] at loop
        cases item with
        | error error =>
          cases loop
          rw [agree s.polls (Nat.lt_succ_self _), answer]
        | ok batch =>
          simp only at loop
          split at loop
          next unread =>
            cases loop
            rw [agree s.polls (Nat.lt_succ_self _), answer]
            exact if_pos unread
          next read =>
            have further := pull_polls loop
            rw [agree s.polls further, answer]
            refine (if_neg read).trans ?_
            exact ih (s := { s with pending := none, polls := s.polls + 1 }) loop agree

theorem emit_agree {s t : DecodedStream B} {batch : B} {offset : Nat} {item : Option (Item B)}
    (emitted : emit s batch offset = (item, t)) (source : Source B) :
    t.polls = s.polls ∧ emit (s.feed source) batch offset = (item, t.feed source) := by
  simp only [emit] at emitted ⊢
  split at emitted
  next none_left =>
    cases emitted
    exact ⟨rfl, if_pos none_left⟩
  next some_left =>
    split at emitted
    next exceeds =>
      cases emitted
      exact ⟨rfl, (if_neg some_left).trans (if_pos exceeds)⟩
    next within =>
      cases emitted
      exact ⟨rfl, (if_neg some_left).trans (if_neg within)⟩

theorem next_agree {s t : DecodedStream B} {item : Option (Item B)} {source : Source B}
    (called : Next s item t) (agree : ∀ poll < t.polls, source poll = s.source poll) :
    Next (s.feed source) item (t.feed source) := by
  obtain ⟨fuel, h⟩ := called
  refine ⟨fuel, ?_⟩
  unfold next at h ⊢
  split at h
  next fin =>
    cases h
    exact if_pos fin
  next fin =>
    split at h
    next flag =>
      cases h
      exact (if_neg fin).trans (if_pos flag)
    next flag =>
      split at h
      next met =>
        cases h
        exact (if_neg fin).trans ((if_neg flag).trans (if_pos met))
      next unmet =>
        refine (if_neg fin).trans ((if_neg flag).trans ((if_neg unmet).trans ?_))
        obtain ⟨⟨pulled, u⟩, loop, settled⟩ := Option.map_eq_some_iff.mp h
        cases pulled with
        | exhausted =>
          cases settled
          rw [pull_agree loop agree]
          rfl
        | failed error =>
          cases settled
          rw [pull_agree loop agree]
          rfl
        | ready batch offset =>
          obtain ⟨polls, emitted⟩ := emit_agree (s := u) settled source
          rw [pull_agree loop (polls ▸ agree)]
          exact congrArg some emitted

theorem Takes.agree {s t : DecodedStream B} (takes : Takes s xs t) (quiet : Quiet s) (source : Source B)
    (agree : ∀ poll < t.polls, source poll = s.source poll) : Takes (s.feed source) xs (t.feed source) := by
  induction takes with
  | nil => exact .nil
  | item step rest ih =>
    cases quiet_next quiet step with
    | yielded quiet' source options further answers counted =>
      have advances := rest.advances quiet'
      refine .item (next_agree step fun poll bound => agree poll (bound.trans_le advances.further)) ?_
      exact ih quiet' fun poll bound => source ▸ agree poll bound

/-! A new stream on a source of batches. -/

/-- The stream `new` returns. -/
def start (schema : Schema) (source : Source B) (options : StreamOptions) : DecodedStream B :=
  ⟨schema, source, 0, options, false, none, 0, 0, false⟩

theorem new_start {schema : Schema} {source : Source B} {options : StreamOptions}
    (positive : 1 ≤ options.batchSize) : new schema source options false = .ok (start schema source options) :=
  if_neg (by omega)

theorem yielded_ok (batches : List B) : yielded (batches.map .ok) = batches.flatMap rows := by
  rw [yielded, List.flatMap_map]

section Start

variable (schema : Schema) {source : Source B} {options : StreamOptions} (positive : 1 ≤ options.batchSize)
  (unlimited : options.byteLimit = none) (sound : ∀ poll error, source poll ≠ some (.error error))

theorem ofList_sound (batches : List B) (poll : Nat) (error : InterchangeError) :
    Source.ofList (batches.map .ok) poll ≠ some (.error error) := by
  simp [Source.ofList]

include positive unlimited in
theorem start_quiet (sound : ∀ poll error, source poll ≠ some (.error error)) :
    Quiet (start schema source options) := ⟨rfl, rfl, unlimited, positive, sound⟩

include positive unlimited in
/-- A finite source yields its reference, by calls that stop behind its batches. -/
theorem list_yields (batches : List B) : ∃ t last,
    Takes (start schema (Source.ofList (batches.map .ok)) options) (reference (batches.map .ok) options) t ∧
      Next t none last ∧ t.polls ≤ batches.length := by
  obtain ⟨s, created, live, whole⟩ := new_live schema (batches.map .ok) options positive (by simp [unlimited])
  obtain rfl := Except.ok.inj ((new_start positive).symm.trans created)
  obtain ⟨last, yields⟩ := yields_expected _ live whole
  obtain ⟨t, takes, stop⟩ := yields_iff_takes.mp yields
  refine ⟨t, last, takes, stop, ?_⟩
  have advances := takes.advances (start_quiet schema positive unlimited (ofList_sound batches))
  by_contra beyond
  obtain ⟨batch, answer⟩ := advances.answers (t.polls - 1) (Nat.zero_le _) (by omega)
  have none_left : (batches.map Except.ok)[t.polls - 1]? = (none : Option (Item B)) := by
    apply List.getElem?_eq_none
    rw [List.length_map]
    omega
  change (batches.map Except.ok)[t.polls - 1]? = some (.ok batch) at answer
  rw [none_left] at answer
  contradiction

/-- As far as it begins with the batches, the source is the list of them. -/
theorem Begins.ofList {batches : List B} (begins : Begins source batches) {poll : Nat}
    (bound : poll < batches.length) : source poll = Source.ofList (batches.map .ok) poll := by
  rw [begins poll bound, Source.ofList, List.getElem?_map]

/-- The batches a sound source has answered before a poll. -/
theorem begins_exists {polls : Nat} (answers : ∀ poll < polls, ∃ batch, source poll = some (.ok batch)) :
    ∃ batches, batches.length = polls ∧ Begins source batches := by
  induction polls with
  | zero => exact ⟨[], rfl, fun _ bound => absurd bound (Nat.not_lt_zero _)⟩
  | succ polls ih =>
    obtain ⟨batches, length, begins⟩ := ih fun poll bound => answers poll (by omega)
    obtain ⟨batch, answer⟩ := answers polls (Nat.lt_succ_self _)
    refine ⟨batches ++ [batch], by simp [length], fun poll bound => ?_⟩
    by_cases early : poll < batches.length
    · rw [begins poll early, List.getElem?_append_left early]
    · have here : poll = polls := by simp at bound; omega
      rw [here, answer, List.getElem?_append_right (by omega), length, Nat.sub_self]
      rfl

include positive unlimited in
/-- What calls take of a sound source they take of a list it begins with. -/
theorem takes_of_begins {batches : List B} (begins : Begins source batches) : ∃ t,
    Takes (start schema source options) (reference (batches.map .ok) options) t ∧
      t.source = source ∧ t.polls ≤ batches.length ∧ ∃ u last,
        Takes (start schema (Source.ofList (batches.map .ok)) options) (reference (batches.map .ok) options) u ∧
        Next u none last ∧ t = u.feed source := by
  obtain ⟨u, last, takes, stop, bound⟩ := list_yields schema positive unlimited batches
  have fed := takes.agree (start_quiet schema positive unlimited (ofList_sound batches)) source ?_
  · exact ⟨u.feed source, fed, rfl, bound, u, last, takes, stop, rfl⟩
  · intro poll before
    exact begins.ofList (before.trans_le bound)

include positive unlimited sound in
theorem begins_of_takes {xs : List (Item B)} {t : DecodedStream B}
    (takes : Takes (start schema source options) xs t) (more : Nat)
    (answers : ∀ i < more, ∃ batch, source (t.polls + i) = some (.ok batch)) :
    ∃ batches, Begins source batches ∧ batches.length = t.polls + more ∧
      Takes (start schema (Source.ofList (batches.map .ok)) options) xs
        (t.feed (Source.ofList (batches.map .ok))) := by
  have quiet := start_quiet schema positive unlimited sound
  have advances := takes.advances quiet
  have answered : ∀ poll < t.polls + more, ∃ batch, source poll = some (.ok batch) := by
    intro poll bound
    by_cases early : poll < t.polls
    · exact advances.answers poll (Nat.zero_le _) early
    · obtain ⟨batch, answer⟩ := answers (poll - t.polls) (by omega)
      exact ⟨batch, by rwa [Nat.add_sub_cancel' (Nat.le_of_not_lt early)] at answer⟩
  obtain ⟨batches, length, begins⟩ := begins_exists answered
  refine ⟨batches, begins, length, takes.agree quiet _ fun poll bound => ?_⟩
  exact (begins.ofList (by omega)).symm

include positive unlimited sound in
/-- Calls take exactly the leading items of references of beginnings. -/
theorem takes_iff (xs : List (Item B)) : (∃ t, Takes (start schema source options) xs t) ↔
    ∃ batches, Begins source batches ∧ xs <+: reference (batches.map .ok) options := by
  constructor
  · rintro ⟨t, takes⟩
    obtain ⟨batches, begins, _, takes'⟩ := begins_of_takes schema positive unlimited sound takes 0
      (fun _ bound => absurd bound (Nat.not_lt_zero _))
    obtain ⟨u, last, whole, stop, _⟩ := list_yields schema positive unlimited batches
    exact ⟨batches, begins, takes'.leading (yields_iff_takes.mpr ⟨u, whole, stop⟩)⟩
  · rintro ⟨batches, begins, behind, same⟩
    obtain ⟨t, takes, _⟩ := takes_of_begins schema positive unlimited begins
    rw [← same] at takes
    obtain ⟨u, first, _⟩ := takes.split
    exact ⟨u, first⟩

/-- The rows a reference without a byte limit yields. -/
theorem reference_length (positive : 1 ≤ options.batchSize) (unlimited : options.byteLimit = none)
    (batches : List B) : yielded (reference (batches.map .ok) options) =
      takeRows options.rowLimit (batches.flatMap rows) := by
  obtain ⟨_, all⟩ := reference_rows (batches.map .ok) options positive
  rw [untilError_ok, yielded_ok] at all
  apply all
  intro bytes attempted
  rw [reference_ok batches positive, unlimited, limitBytes_none]
  simp

include positive unlimited sound in
/-- The row counter of a stream that has yielded a reference. -/
theorem reference_counted {batches : List B} {t : DecodedStream B}
    (takes : Takes (start schema source options) (reference (batches.map .ok) options) t) {limit : Nat}
    (limited : options.rowLimit = some limit) : t.emittedRows = min limit (batches.flatMap rows).length := by
  have advances := takes.advances (start_quiet schema positive unlimited sound)
  have counted := advances.counted limit limited (Nat.zero_le _)
  rw [counted, reference_length positive unlimited, limited, takeRows, List.length_take]
  exact Nat.zero_add _

theorem next_met {s : DecodedStream B} (quiet : Quiet s) {limit : Nat} (limited : s.options.rowLimit = some limit)
    (met : limit ≤ s.emittedRows) : Next s none { s with finished := true } :=
  ⟨0, by simp [next, quiet.unfinished, quiet.uncancelled, limited, met]⟩

include positive unlimited in
/-- What a list's stream yields up to its `None` is the list's reference. -/
theorem yields_list {batches : List B} {xs : List (Item B)} {t u : DecodedStream B}
    (takes : Takes (start schema (Source.ofList (batches.map .ok)) options) xs t) (stop : Next t none u) :
    xs = reference (batches.map .ok) options := by
  obtain ⟨v, last, takes', stop', _⟩ := list_yields schema positive unlimited batches
  exact ((yields_iff_takes.mpr ⟨_, takes, stop⟩).unique (yields_iff_takes.mpr ⟨v, takes', stop'⟩)).1

include positive unlimited sound in
/-- Calls up to the first `None` read a beginning that suffices, and yield its reference. -/
theorem suffices_of_yields {xs : List (Item B)} {last : DecodedStream B}
    (yields : Yields (start schema source options) xs last) :
    ∃ batches, Begins source batches ∧ Suffices options.rowLimit source batches ∧
      xs = reference (batches.map .ok) options := by
  obtain ⟨t, takes, stop⟩ := yields_iff_takes.mp yields
  have advances := takes.advances (start_quiet schema positive unlimited sound)
  cases quiet_next advances.quiet stop with
  | met limit limited reached =>
    obtain ⟨batches, begins, _, begun⟩ := begins_of_takes schema positive unlimited sound takes 0
      (fun _ bound => absurd bound (Nat.not_lt_zero _))
    have begun_quiet := (begun.advances (start_quiet schema positive unlimited (ofList_sound batches))).quiet
    have same := yields_list schema positive unlimited begun (next_met begun_quiet limited reached)
    rw [advances.options] at limited
    rw [reference_counted schema positive unlimited sound (same ▸ takes) limited] at reached
    exact ⟨batches, begins, .inr ⟨limit, limited, reached.trans (Nat.min_le_right _ _)⟩, same⟩
  | exhausted count starts dry =>
    obtain ⟨batches, begins, length, begun⟩ := begins_of_takes schema positive unlimited sound takes count
      (fun i bound => by
        obtain ⟨batch, answer, _⟩ := dry.rowless i bound
        rw [advances.source] at answer
        exact ⟨batch, answer⟩)
    have ended : source batches.length = none := by
      have answer := dry.ended
      rw [advances.source] at answer
      rw [length]
      exact answer
    -- the list of what is read stops where the source does
    have dry' : Dry (t.feed (Source.ofList (batches.map .ok))) count := by
      refine ⟨dry.read, fun i bound => ?_, ?_⟩
      · obtain ⟨batch, answer, rowless⟩ := dry.rowless i bound
        rw [advances.source] at answer
        have inside : t.polls + i < batches.length := by omega
        exact ⟨batch, (begins.ofList inside).symm.trans answer, rowless⟩
      · change (batches.map Except.ok)[t.polls + count]? = none
        apply List.getElem?_eq_none
        rw [List.length_map, length]
    exact ⟨batches, begins, .inl ended, yields_list schema positive unlimited begun
      (next_dry ⟨starts.unfinished, starts.uncancelled, starts.unmet⟩ dry')⟩

/-- A source that ends behind its list runs dry where the list does. -/
theorem Begins.dry {batches : List B} {u : DecodedStream B} {count : Nat} (begins : Begins source batches)
    (ended : source batches.length = none) (listed : u.source = Source.ofList (batches.map .ok))
    (bound : u.polls ≤ batches.length) (dry : Dry u count) : Dry (u.feed source) count := by
  have read_on (i : Nat) (within : u.polls + i ≤ batches.length) :
      source (u.polls + i) = u.source (u.polls + i) := by
    rw [listed]
    rcases Nat.lt_or_eq_of_le within with before | here
    · exact begins.ofList before
    · rw [here, ended]
      symm
      apply List.getElem?_eq_none
      rw [List.length_map]
  have short : u.polls + count ≤ batches.length := by
    by_contra beyond
    obtain ⟨batch, answer, _⟩ := dry.rowless (batches.length - u.polls) (by omega)
    rw [← read_on _ (by omega), Nat.add_sub_cancel' bound, ended] at answer
    contradiction
  refine ⟨dry.read, fun i before => ?_, (read_on count short).trans dry.ended⟩
  obtain ⟨batch, answer, rowless⟩ := dry.rowless i before
  exact ⟨batch, (read_on i (by omega)).trans answer, rowless⟩

include positive unlimited sound in
/-- The reference of a beginning that suffices is yielded up to a `None`. -/
theorem yields_of_suffices {batches : List B} (begins : Begins source batches)
    (suffices' : Suffices options.rowLimit source batches) :
    ∃ last, Yields (start schema source options) (reference (batches.map .ok) options) last := by
  obtain ⟨t, takes, fed, bound, u, last, listed, stop, rfl⟩ :=
    takes_of_begins schema positive unlimited begins
  have advances := takes.advances (start_quiet schema positive unlimited sound)
  have met (limit : Nat) (limited : (u.feed source).options.rowLimit = some limit)
      (reached : limit ≤ (u.feed source).emittedRows) :
      ∃ last, Yields (start schema source options) (reference (batches.map .ok) options) last :=
    ⟨_, yields_iff_takes.mpr ⟨_, takes, next_met advances.quiet limited reached⟩⟩
  rcases suffices' with ended | ⟨limit, limited, enough⟩
  · have listed_advances := listed.advances (start_quiet schema positive unlimited (ofList_sound batches))
    cases quiet_next listed_advances.quiet stop with
    | met limit limited reached => exact met limit limited reached
    | exhausted count starts dry =>
      have dry' := begins.dry ended listed_advances.source bound dry
      exact ⟨_, yields_iff_takes.mpr
        ⟨_, takes, next_dry ⟨starts.unfinished, starts.uncancelled, starts.unmet⟩ dry'⟩⟩
  · apply met limit
    · rw [advances.options]
      exact limited
    · rw [reference_counted schema positive unlimited sound takes limited]
      exact Nat.le_min.mpr ⟨Nat.le_refl _, enough⟩

include positive unlimited sound in
/-- Calls up to the first `None` take exactly the references of beginnings that suffice. -/
theorem yields_iff (xs : List (Item B)) : (∃ last, Yields (start schema source options) xs last) ↔
    ∃ batches, Begins source batches ∧ Suffices options.rowLimit source batches ∧
      xs = reference (batches.map .ok) options := by
  constructor
  · rintro ⟨last, yields⟩
    exact suffices_of_yields schema positive unlimited sound yields
  · rintro ⟨batches, begins, suffices', rfl⟩
    exact yields_of_suffices schema positive unlimited sound begins suffices'

end Start

end FsspecData.DecodedStream
