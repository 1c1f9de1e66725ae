import FsspecData.Stream.Ahead

/-! Cancellation between two calls of `next`. Up to then the stream yields what it would
yield anyway; from then on it answers with one error and with `None`. -/
namespace FsspecData.DecodedStream

open FsspecData Machine

variable {B R : Type} [BatchLike B R]

/-- A call of `next` that yields a batch. -/
def Yielding (entry : Call × Reply B) : Prop := ∃ batch, entry = (.next, .item (some (.ok batch)))

/-- The answers of `next` among some replies. -/
def answers (replies : List (Reply B)) : List (Option (Item B)) :=
  replies.filterMap fun
    | .item item => some item
    | .cancelled => none

/-- The answers of a cancelled stream: the error once, and `None` from then on. -/
def ending : Nat → List (Option (Item B))
  | 0 => []
  | count + 1 => some (.error .streamCancelled) :: List.replicate count none

/-- What a cancelled stream replies, by whether it has reported the cancellation. -/
def cancelledReply : Bool → Call → Reply B × Bool
  | reported, .cancel => (.cancelled, reported)
  | false, .next => (.item (some (.error .streamCancelled)), true)
  | true, .next => (.item none, true)

/-- A stream cancelled in the state `s`, which has not polled since. -/
structure CancelledAt (s u : DecodedStream B) (reported : Bool) : Prop where
  flagged : u.cancelled = true
  finished : u.finished = reported
  polls : u.polls = s.polls

theorem Calls.unique {s t t' : DecodedStream B} {call : Call} {reply reply' : Reply B}
    (taken : Calls s call reply t) (taken' : Calls s call reply' t') : reply = reply' ∧ t = t' := by
  cases taken with
  | next called =>
    cases taken' with
    | next called' =>
      obtain ⟨rfl, rfl⟩ := called.unique called'
      exact ⟨rfl, rfl⟩
  | cancel =>
    cases taken'
    exact ⟨rfl, rfl⟩

theorem cancelled_implements (s : DecodedStream B) : Implements Calls cancelledReply (CancelledAt s) := by
  refine .of_unique Calls.unique fun {u reported} held call => ?_
  cases call with
  | cancel => exact ⟨u.cancel, .cancel, rfl, held.finished, held.polls⟩
  | next =>
    cases reported with
    | false => exact ⟨_, .next (next_cancelled held.finished held.flagged), held.flagged, rfl, held.polls⟩
    | true => exact ⟨u, .next (next_finished held.finished), held⟩

theorem answers_reported (calls : List Call) :
    answers (Machine.outputs cancelledReply true calls) =
      (List.replicate (calls.count .next) none : List (Option (Item B))) := by
  induction calls with
  | nil => rfl
  | cons call rest ih =>
    cases call with
    | next => simpa [Machine.outputs, cancelledReply, answers, List.replicate_succ] using ih
    | cancel => simpa [Machine.outputs, cancelledReply, answers] using ih

theorem answers_cancelled (calls : List Call) :
    answers (Machine.outputs cancelledReply false calls) =
      (ending (calls.count .next) : List (Option (Item B))) := by
  induction calls with
  | nil => rfl
  | cons call rest ih =>
    cases call with
    | next =>
      have later : answers (Machine.outputs cancelledReply true rest) =
        (List.replicate (rest.count .next) none : List (Option (Item B))) := answers_reported rest
      simpa [Machine.outputs, cancelledReply, answers, ending] using later
    | cancel => simpa [Machine.outputs, cancelledReply, answers] using ih

/-- Calls that only yield leave the stream unfinished, and start on an uncancelled one. -/
theorem yielding_run {s t : DecodedStream B} {trace : List (Call × Reply B)} (run : Run Calls s trace t)
    (yielding : ∀ entry ∈ trace, Yielding entry) :
    t.finished = s.finished ∧ (trace = [] ∨ s.cancelled = false) := by
  induction run with
  | nil => exact ⟨rfl, .inl rfl⟩
  | cons first _ ih =>
    rw [List.forall_mem_cons] at yielding
    obtain ⟨⟨batch, same⟩, later⟩ := yielding
    cases same
    cases first with
    | next called =>
      cases next_outputs called with
      | cut _ _ _ starts => exact ⟨(ih later).1, .inr starts.uncancelled⟩

/-- Equal calls get equal replies, so the shorter of two runs begins the longer one. -/
theorem run_begins {s t last : DecodedStream B} {trace whole : List (Call × Reply B)} (run : Run Calls s trace t)
    (other : Run Calls s whole last) (calls : trace.map Prod.fst <+: whole.map Prod.fst) : trace <+: whole := by
  induction run generalizing whole with
  | nil => exact List.nil_prefix
  | @cons s call reply u trace t first _ ih =>
    cases other with
    | nil => simp at calls
    | cons first' rest' =>
      rw [List.map_cons, List.map_cons, List.cons_prefix_cons] at calls
      obtain ⟨rfl, calls⟩ := calls
      obtain ⟨rfl, rfl⟩ := first.unique first'
      exact List.cons_prefix_cons.mpr ⟨rfl, ih rest' calls⟩

theorem new_unfinished {schema : Schema} {source : Source B} {options : StreamOptions} {flag : Bool}
    {s : DecodedStream B} (created : new schema source options flag = .ok s) :
    s.finished = false ∧ s.cancelled = flag := by
  unfold new at created
  split_ifs at created
  cases created
  exact ⟨rfl, rfl⟩

theorem calls_next {trace : List (Call × Reply B)} (nexts : ∀ entry ∈ trace, entry.1 = .next) :
    trace.map Prod.fst = List.replicate trace.length .next := by
  refine List.eq_replicate_iff.mpr ⟨List.length_map _, fun call member => ?_⟩
  obtain ⟨entry, listed, rfl⟩ := List.mem_map.mp member
  exact nexts entry listed

/-- A stream is cut cleanly by its first cancellation. What it yielded by then is what it
yields uncancelled; from then on the source is not polled, and `next` answers with the
cancellation once and with `None` from then on, wherever further cancels fall. -/
theorem cancelled_cleanly (schema : Schema) (source : Source B) (options : StreamOptions) (flag : Bool) :
    ∀ s₀, new schema source options flag = .ok s₀ → ∀ uncancelled, new schema source options false = .ok uncancelled →
      ∀ before s, Run Calls s₀ before s → (∀ entry ∈ before, Yielding entry) →
        ((∃ u, Run Calls uncancelled before u) ∧
          ∀ whole u, Run Calls uncancelled whole u → (∀ entry ∈ whole, entry.1 = .next) →
            before.length ≤ whole.length → before <+: whole) ∧
        (∀ calls, ∃ after last, Run Calls s.cancel after last ∧ after.map Prod.fst = calls) ∧
        ∀ after last, Run Calls s.cancel after last → last.polls = s.polls ∧
          answers (after.map Prod.snd) = ending ((after.map Prod.fst).count .next) := by
  intro s₀ created uncancelled created' before s run yielding
  obtain ⟨unfinished, flagged⟩ := new_unfinished created
  obtain ⟨kept, begins⟩ := yielding_run run yielding
  have held : CancelledAt s s.cancel false := ⟨rfl, kept.trans unfinished, rfl⟩
  have implements := cancelled_implements s
  have alike : ∃ u, Run Calls uncancelled before u := by
    rcases begins with rfl | open_
    · exact ⟨uncancelled, .nil⟩
    · rw [← flagged, open_] at created
      cases created.symm.trans created'
      exact ⟨s, run⟩
  have nexts : ∀ entry ∈ before, entry.1 = .next := by
    intro entry listed
    obtain ⟨batch, rfl⟩ := yielding entry listed
    rfl
  refine ⟨⟨alike, fun whole u other calls longer => ?_⟩, fun calls => ?_, fun after last later => ?_⟩
  · obtain ⟨_, run'⟩ := alike
    refine run_begins run' other ?_
    rw [calls_next nexts, calls_next calls, ← Nat.add_sub_cancel' longer, ← List.replicate_append_replicate]
    exact List.prefix_append _ _
  · obtain ⟨after, last, same, later⟩ := implements.run_exists calls held
    exact ⟨after, last, later, same⟩
  · obtain ⟨replies, reported, ends⟩ := implements.run_follows later held
    refine ⟨ends.polls, ?_⟩
    rw [replies, answers_cancelled]

/-- A cancel inside a batch, when the row limit is met but not yet reported. -/
theorem cancelled_cleanly_sliced :
    ∃ s₀ s t last : DecodedStream ColumnlessBatch, ∃ after, new ⟨[], []⟩ twoBatches threeRows false = .ok s₀ ∧
      Next s₀ (some (.ok ⟨2, by decide⟩)) s ∧ Next s (some (.ok ⟨1, by decide⟩)) t ∧ Run Calls t.cancel after last ∧
      after.map Prod.fst = [.next, .cancel, .next] ∧ last.polls = t.polls ∧
      answers (after.map Prod.snd) = [some (.error .streamCancelled), none] := by
  obtain ⟨s₀, s, t, created, first, second⟩ : ∃ s₀ s t : DecodedStream ColumnlessBatch,
      new ⟨[], []⟩ twoBatches threeRows false = .ok s₀ ∧ Next s₀ (some (.ok ⟨2, by decide⟩)) s ∧
      Next s (some (.ok ⟨1, by decide⟩)) t := ⟨_, _, _, rfl, ⟨1, rfl⟩, ⟨1, rfl⟩⟩
  obtain ⟨_, exists_run, cut⟩ := cancelled_cleanly ⟨[], []⟩ twoBatches threeRows false s₀ created s₀ created
    _ t (.cons (.next first) (.cons (.next second) .nil)) (by simp [Yielding])
  obtain ⟨after, last, run, calls⟩ := exists_run [.next, .cancel, .next]
  obtain ⟨polls, replied⟩ := cut after last run
  exact ⟨s₀, s, t, last, after, created, first, second, run, calls, polls, by rw [replied, calls]; rfl⟩

end FsspecData.DecodedStream
