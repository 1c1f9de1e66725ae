import FsspecData.Stream.Cancelled
import FsspecData.Library.Linearizable

/-! The stream on one thread and its token on others. `next` loads the shared flag once and
does not look at it again; what it does then, round by round, may have stores of the flag
between. Every such execution has the replies of atomic calls, in an order that keeps the
calls that do not overlap. -/
namespace FsspecData.DecodedStream

open FsspecData Machine Linearizable

variable {B R : Type} [BatchLike B R] {Id : Type}

/-- One round of the loop of `next`: on to another, or out of it. -/
def round (s : DecodedStream B) : DecodedStream B ⊕ (Pulled B × DecodedStream B) :=
  match s.pending with
  | some (batch, offset) =>
    if numRows batch > offset then .inr (.ready batch offset, { s with pending := none })
    else .inl { s with pending := none }
  | none =>
    match s.source s.polls with
    | none => .inr (.exhausted, { s with polls := s.polls + 1 })
    | some (.ok batch) =>
      if numRows batch > 0 then .inr (.ready batch 0, { s with polls := s.polls + 1 })
      else .inl { s with polls := s.polls + 1 }
    | some (.error error) => .inr (.failed error, { s with polls := s.polls + 1 })

theorem pull_succ (fuel : Nat) (s : DecodedStream B) : pull (fuel + 1) s =
    match round s with
    | .inl t => pull fuel t
    | .inr pulled => some pulled := by
  rw [pull, round]
  rcases s.pending with _ | ⟨batch, offset⟩
  · rcases s.source s.polls with _ | error | batch
    · rfl
    · rfl
    · by_cases unread : numRows batch > 0
      · simp only [unread, if_true]
      · simp only [unread, if_false]
  · by_cases unread : numRows batch > offset
    · simp only [unread, if_true]
    · simp only [unread, if_false]

theorem round_cancel (s : DecodedStream B) :
    round s.cancel = (round s).map cancel (Prod.map id cancel) := by
  obtain ⟨schema, source, polls, options, flag, pending, emittedRows, emittedBytes, finished⟩ := s
  rcases pending with _ | ⟨batch, offset⟩
  · simp only [round, cancel]
    rcases source polls with _ | error | batch
    · rfl
    · rfl
    · dsimp only
      split <;> rfl
  · simp only [round, cancel]
    split <;> rfl

theorem emit_cancel (s : DecodedStream B) (batch : B) (offset : Nat) :
    emit s.cancel batch offset = Prod.map id cancel (emit s batch offset) := by
  unfold emit
  dsimp only
  rw [apply_ite (Prod.map id cancel), apply_ite (Prod.map id cancel)]
  rfl

theorem settle_cancel (s : DecodedStream B) (pulled : Pulled B) :
    settle s.cancel pulled = Prod.map id cancel (settle s pulled) := by
  cases pulled with
  | ready batch offset => exact emit_cancel s batch offset
  | exhausted => rfl
  | failed error => rfl

/-- Where the consumer is: outside `next`, before its load of the flag, behind it, in the loop. -/
inductive Phase (Id : Type) where
  | idle
  | called (id : Id)
  | loaded (id : Id) (flag : Bool)
  | pulling (id : Id)

/-- How a call behind its load answers when nothing else touches the stream. -/
inductive Finishes : DecodedStream B → Phase Id → Option (Item B) → DecodedStream B → Prop where
  | observed {s : DecodedStream B} {id : Id} :
      Finishes s (.loaded id true) (some (.error .streamCancelled)) { s with finished := true }
  | limited {s : DecodedStream B} {id : Id} (met : s.options.rowLimit.any (s.emittedRows ≥ ·) = true) :
      Finishes s (.loaded id false) none { s with finished := true }
  | entered {s t : DecodedStream B} {id : Id} {item : Option (Item B)}
      (unmet : s.options.rowLimit.any (s.emittedRows ≥ ·) = false) (later : Finishes s (.pulling id) item t) :
      Finishes s (.loaded id false) item t
  | skipped {s t u : DecodedStream B} {id : Id} {item : Option (Item B)} (rounds : round s = .inl u)
      (later : Finishes u (.pulling id) item t) : Finishes s (.pulling id) item t
  | answered {s u : DecodedStream B} {id : Id} {pulled : Pulled B} (rounds : round s = .inr (pulled, u)) :
      Finishes s (.pulling id) (u.settle pulled).1 (u.settle pulled).2

variable {s t : DecodedStream B} {phase : Phase Id} {id : Id} {item : Option (Item B)}

theorem Finishes.pull (finishes : Finishes s phase item t) (at_loop : phase = .pulling id) :
    ∃ fuel, (pull fuel s).map (fun pulled => pulled.2.settle pulled.1) = some (item, t) := by
  induction finishes with
  | observed | limited | entered => cases at_loop
  | skipped rounds _ ih =>
    obtain ⟨fuel, loop⟩ := ih at_loop
    exact ⟨fuel + 1, by rw [pull_succ, rounds]; exact loop⟩
  | answered rounds => exact ⟨1, by rw [pull_succ, rounds]; rfl⟩

/-- Behind its load of the flag, an undisturbed call answers as an atomic one. -/
theorem Finishes.next (finishes : Finishes s (.loaded id s.cancelled) item t) (unfinished : s.finished = false) :
    Next s item t := by
  cases flag : s.cancelled with
  | true =>
    rw [flag] at finishes
    cases finishes
    exact next_cancelled unfinished flag
  | false =>
    rw [flag] at finishes
    cases finishes with
    | limited met => exact ⟨0, by simp [DecodedStream.next, unfinished, flag, met]⟩
    | entered unmet later =>
      obtain ⟨fuel, loop⟩ := later.pull rfl
      refine ⟨fuel, ?_⟩
      simpa [DecodedStream.next, unfinished, flag, unmet] using loop

/-- A store of the flag does not disturb it. -/
theorem Finishes.cancel (finishes : Finishes s phase item t) : Finishes s.cancel phase item t.cancel := by
  induction finishes with
  | observed => exact .observed
  | limited met => exact .limited met
  | entered unmet _ ih => exact .entered unmet ih
  | skipped rounds _ ih => exact .skipped (by rw [round_cancel, rounds]; rfl) ih
  | @answered s u id pulled rounds =>
    have stored : round s.cancel = .inr (pulled, u.cancel) := by
      rw [round_cancel, rounds]
      rfl
    have settled := settle_cancel u pulled
    have answered : Finishes s.cancel (.pulling id) (u.cancel.settle pulled).1 (u.cancel.settle pulled).2 :=
      .answered stored
    rwa [settled] at answered

/-- Nor is it needed for the answer. -/
theorem Finishes.uncancel (finishes : Finishes t phase item u) (stored : t = s.cancel) :
    ∃ v, Finishes s phase item v := by
  induction finishes generalizing s with
  | observed => exact ⟨_, .observed⟩
  | limited met =>
    subst stored
    exact ⟨_, .limited met⟩
  | entered unmet _ ih =>
    obtain ⟨v, later⟩ := ih stored
    subst stored
    exact ⟨v, .entered unmet later⟩
  | @skipped _ _ u _ _ rounds _ ih =>
    subst stored
    rw [round_cancel] at rounds
    cases before : round s with
    | inr pulled => simp [before] at rounds
    | inl u₀ =>
      rw [before] at rounds
      obtain ⟨v, later⟩ := ih (Sum.inl.inj rounds).symm
      exact ⟨v, .skipped before later⟩
  | @answered _ u _ pulled rounds =>
    subst stored
    rw [round_cancel] at rounds
    cases before : round s with
    | inl u₀ => simp [before] at rounds
    | inr outcome =>
      obtain ⟨pulled₀, u₀⟩ := outcome
      rw [before] at rounds
      obtain ⟨rfl, rfl⟩ := Prod.mk.inj (Sum.inr.inj rounds)
      rw [settle_cancel]
      exact ⟨_, .answered before⟩

/-! All threads. -/

/-- What has become of a call. -/
inductive Task where
  | unused
  | next
  | cancelling
  | stored
  | returned
  deriving DecidableEq

structure Shared (B Id : Type) where
  stream : DecodedStream B
  phase : Phase Id
  task : Id → Task

variable [DecidableEq Id] in
/-- The consumer's call returns and leaves the stream. -/
def Shared.leave (σ : Shared B Id) (id : Id) (stream : DecodedStream B) : Shared B Id :=
  ⟨stream, .idle, Function.update σ.task id .returned⟩

variable [DecidableEq Id] in
/-- One atomic step of some thread, and what it shows. `next` takes the stream by mutable
reference, so there is one call of it at a time; `cancel` is called by any holder of a token. -/
inductive Step : Shared B Id → Option (Event Id Call (Reply B)) → Shared B Id → Prop where
  | invokeNext {σ : Shared B Id} {id : Id} (idle : σ.phase = .idle) (unused : σ.task id = .unused) :
      Step σ (some (.invoke id .next)) { σ with phase := .called id, task := Function.update σ.task id .next }
  | finished {σ : Shared B Id} {id : Id} (at_call : σ.phase = .called id) (over_ : σ.stream.finished = true) :
      Step σ (some (.respond id (.item none))) (σ.leave id σ.stream)
  | load {σ : Shared B Id} {id : Id} (at_call : σ.phase = .called id) (unfinished : σ.stream.finished = false) :
      Step σ none { σ with phase := .loaded id σ.stream.cancelled }
  | observe {σ : Shared B Id} {id : Id} (at_load : σ.phase = .loaded id true) :
      Step σ (some (.respond id (.item (some (.error .streamCancelled)))))
        (σ.leave id { σ.stream with finished := true })
  | limit {σ : Shared B Id} {id : Id} (at_load : σ.phase = .loaded id false)
      (met : σ.stream.options.rowLimit.any (σ.stream.emittedRows ≥ ·) = true) :
      Step σ (some (.respond id (.item none))) (σ.leave id { σ.stream with finished := true })
  | enter {σ : Shared B Id} {id : Id} (at_load : σ.phase = .loaded id false)
      (unmet : σ.stream.options.rowLimit.any (σ.stream.emittedRows ≥ ·) = false) :
      Step σ none { σ with phase := .pulling id }
  | skip {σ : Shared B Id} {id : Id} {t : DecodedStream B} (at_loop : σ.phase = .pulling id)
      (rounds : round σ.stream = .inl t) : Step σ none { σ with stream := t }
  | answer {σ : Shared B Id} {id : Id} {pulled : Pulled B} {t : DecodedStream B} (at_loop : σ.phase = .pulling id)
      (rounds : round σ.stream = .inr (pulled, t)) :
      Step σ (some (.respond id (.item (t.settle pulled).1))) (σ.leave id (t.settle pulled).2)
  | invokeCancel {σ : Shared B Id} {id : Id} (unused : σ.task id = .unused) :
      Step σ (some (.invoke id .cancel)) { σ with task := Function.update σ.task id .cancelling }
  | store {σ : Shared B Id} (id : Id) (cancelling : σ.task id = .cancelling) :
      Step σ none { σ with stream := σ.stream.cancel, task := Function.update σ.task id .stored }
  | returnCancel {σ : Shared B Id} {id : Id} (stored : σ.task id = .stored) :
      Step σ (some (.respond id .cancelled)) { σ with task := Function.update σ.task id .returned }

variable [DecidableEq Id] in
/-- Steps of any threads in any order, and the calls and returns they show. -/
inductive Execution : Shared B Id → List (Event Id Call (Reply B)) → Shared B Id → Prop where
  | nil {σ : Shared B Id} : Execution σ [] σ
  | cons {σ τ υ : Shared B Id} {shown : Option (Event Id Call (Reply B))} {later : List (Event Id Call (Reply B))}
      (step : Step σ shown τ) (rest : Execution τ later υ) : Execution σ (shown.toList ++ later) υ

/-- No call has been made. -/
def Shared.start (s : DecodedStream B) : Shared B Id := ⟨s, .idle, fun _ => .unused⟩

/-! Where each call stands, seen from the order of the points. -/

/-- The call of a phase. -/
def Phase.id? : Phase Id → Option Id
  | .idle => none
  | .called id | .loaded id _ | .pulling id => some id

/-- The consumer's call is the one under way. -/
def Shared.Serial (σ : Shared B Id) : Prop := ∀ id, σ.task id = .next ↔ σ.phase.id? = some id

theorem serial_start (s : DecodedStream B) : (Shared.start s : Shared B Id).Serial := by
  intro id
  simp [Shared.start, Phase.id?]

/-- The stage of a call, with the reply that the one under way is known to give. -/
def stage (known : Option (Reply B)) : Task → Stage Call (Reply B)
  | .unused => .fresh
  | .next =>
    match known with
    | none => .invoked .next
    | some reply => .taken reply
  | .cancelling => .invoked .cancel
  | .stored => .taken .cancelled
  | .returned => .returned

/-- What the calls so far have made of the stream, when the call under way takes effect at its
load if it ever returns. -/
inductive Related (later : List (Event Id Call (Reply B))) :
    Shared B Id → Option (Reply B) → DecodedStream B → Prop where
  | idle {σ : Shared B Id} (idle : σ.phase = .idle) : Related later σ none σ.stream
  | called {σ : Shared B Id} {id : Id} (at_call : σ.phase = .called id) : Related later σ none σ.stream
  | taken {σ : Shared B Id} {item : Option (Item B)} {s : DecodedStream B}
      (finishes : Finishes σ.stream σ.phase item s) : Related later σ (some (.item item)) s
  | stuck {σ : Shared B Id} {id : Id} {s : DecodedStream B} (under_way : σ.phase.id? = some id)
      (behind : σ.phase ≠ .called id) (never : ∀ reply, .respond id reply ∉ later) : Related later σ none s

namespace Related

variable {σ τ : Shared B Id} {later later' : List (Event Id Call (Reply B))} {known : Option (Reply B)}

/-- Nothing is known of a call that has not loaded the flag. -/
theorem before (related : Related later σ known s)
    (before : σ.phase = .idle ∨ ∃ id, σ.phase = .called id) : known = none ∧ s = σ.stream := by
  cases related with
  | idle | called => exact ⟨rfl, rfl⟩
  | taken finishes =>
    rcases before with idle | ⟨id, at_call⟩
    · rw [idle] at finishes
      cases finishes
    · rw [at_call] at finishes
      cases finishes
  | stuck under_way behind =>
    rcases before with idle | ⟨id, at_call⟩
    · simp [idle, Phase.id?] at under_way
    · rw [at_call] at under_way behind
      cases under_way
      exact absurd rfl behind

/-- The reply of a call that returns is known from its load on. -/
theorem behind (related : Related later σ known s) (under_way : σ.phase.id? = some id) (behind : σ.phase ≠ .called id)
    {reply : Reply B} (returns : .respond id reply ∈ later) :
    ∃ item, known = some (.item item) ∧ Finishes σ.stream σ.phase item s := by
  cases related with
  | idle idle => simp [idle, Phase.id?] at under_way
  | called at_call =>
    rw [at_call] at under_way behind
    cases under_way
    exact absurd rfl behind
  | taken finishes => exact ⟨_, rfl, finishes⟩
  | stuck under_way' _ never =>
    cases under_way.symm.trans under_way'
    exact absurd returns (never reply)

/-- A step of another call leaves the relation alone. -/
theorem aside (related : Related later σ known s) (phase : τ.phase = σ.phase) (stream : τ.stream = σ.stream)
    (fewer : later' ⊆ later) : Related later' τ known s := by
  cases related with
  | idle idle => exact stream ▸ .idle (phase.trans idle)
  | called at_call => exact stream ▸ .called (phase.trans at_call)
  | taken finishes =>
    apply Related.taken
    rwa [phase, stream]
  | stuck under_way behind never =>
    refine .stuck (phase ▸ under_way) (phase ▸ behind) fun reply member => ?_
    exact never reply (fewer member)

/-- A store of the flag reaches both sides. -/
theorem cancel (related : Related later σ known s) (phase : τ.phase = σ.phase)
    (stream : τ.stream = σ.stream.cancel) : Related later τ known s.cancel := by
  cases related with
  | idle idle => exact stream ▸ .idle (phase.trans idle)
  | called at_call => exact stream ▸ .called (phase.trans at_call)
  | taken finishes =>
    apply Related.taken
    rw [phase, stream]
    exact finishes.cancel
  | stuck under_way behind never => exact .stuck (phase ▸ under_way) (phase ▸ behind) never

end Related

variable [DecidableEq Id]

theorem Step.serial {σ τ : Shared B Id} {shown : Option (Event Id Call (Reply B))} (step : Step σ shown τ)
    (serial : σ.Serial) : τ.Serial := by
  intro id
  have here := serial id
  cases step with
  | @invokeNext other idle unused =>
    by_cases same : id = other
    · simp [same, Phase.id?]
    · have apart : other ≠ id := fun eq => same eq.symm
      simpa [same, apart, idle, Phase.id?] using here
  | @finished other at_call | @observe other at_call | @limit other at_call | @answer other _ _ at_call =>
    by_cases same : id = other
    · simp [same, Shared.leave, Phase.id?]
    · have apart : other ≠ id := fun eq => same eq.symm
      simpa [same, apart, at_call, Shared.leave, Phase.id?] using here
  | load at_call | enter at_call | skip at_call => simpa [at_call, Phase.id?] using here
  | @invokeCancel other task | store other task | @returnCancel other task =>
    by_cases same : id = other
    · subst same
      have apart : σ.task id ≠ .next := by simp [task]
      simpa using fun under_way => apart (here.mpr under_way)
    · simpa [same] using here

/-- If the call behind its load ever returns, its answer is known from the start. -/
theorem Execution.foresees {σ τ : Shared B Id} {later : List (Event Id Call (Reply B))} {id : Id} {reply : Reply B}
    (execution : Execution σ later τ) (serial : σ.Serial) (under_way : σ.phase.id? = some id)
    (behind : σ.phase ≠ .called id) (returns : .respond id reply ∈ later) :
    ∃ item s, Finishes σ.stream σ.phase item s := by
  induction execution with
  | nil => simp at returns
  | @cons σ τ _ shown later step rest ih =>
    have serial' := step.serial serial
    cases step with
    | invokeNext idle => simp [idle, Phase.id?] at under_way
    | finished at_call | load at_call =>
      rw [at_call] at under_way behind
      cases under_way
      exact absurd rfl behind
    | observe at_load =>
      rw [at_load]
      exact ⟨_, _, .observed⟩
    | limit at_load met =>
      rw [at_load]
      exact ⟨_, _, .limited met⟩
    | enter at_load unmet =>
      rw [at_load] at under_way
      cases under_way
      obtain ⟨item, s, finishes⟩ := ih serial' rfl nofun (by simpa using returns)
      rw [at_load]
      exact ⟨item, s, .entered unmet finishes⟩
    | skip at_loop rounds =>
      obtain ⟨item, s, finishes⟩ := ih serial' under_way behind (by simpa using returns)
      dsimp only at finishes
      rw [at_loop] at finishes ⊢
      exact ⟨item, s, .skipped rounds finishes⟩
    | answer at_loop rounds =>
      rw [at_loop]
      exact ⟨_, _, .answered rounds⟩
    | invokeCancel unused => exact ih serial' under_way behind (by simpa using returns)
    | store _ cancelling =>
      obtain ⟨item, s, finishes⟩ := ih serial' under_way behind (by simpa using returns)
      obtain ⟨t, finishes⟩ := finishes.uncancel rfl
      exact ⟨item, t, finishes⟩
    | @returnCancel other stored =>
      have apart : id ≠ other := by
        rintro rfl
        simp [(serial id).mpr under_way] at stored
      exact ih serial' under_way behind (by simpa [apart] using returns)

/-- The stages of all calls. -/
def Shared.stages (σ : Shared B Id) (known : Option (Reply B)) : Id → Stage Call (Reply B) :=
  fun id => stage known (σ.task id)

theorem stages_update (known : Option (Reply B)) (task : Id → Task) (id : Id) (new : Task) :
    (fun id' => stage known (Function.update task id new id')) =
      Function.update (fun id' => stage known (task id')) id (stage known new) := by
  funext id'
  by_cases same : id' = id
  · simp [same]
  · simp [same]

/-- The batch of a reply. -/
def Reply.batch? : Reply B → Option B
  | .item (some (.ok batch)) => some batch
  | _ => none

/-- The batches of an execution, in the order in which the calls returned them. -/
def batches (shown : List (Event Id Call (Reply B))) : List B :=
  shown.filterMap fun
    | .invoke _ _ => none
    | .respond _ reply => reply.batch?

/-- The batches of a run of atomic calls. -/
def batchesOf (trace : List (Call × Reply B)) : List B := trace.filterMap (·.2.batch?)

/-- The batch that the call under way is known to return. -/
def awaited (known : Option (Reply B)) : List B := (known.bind Reply.batch?).toList

/-- A step as marks: what it shows, and the points of the calls that take effect in it. -/
structure Marks (σ τ : Shared B Id) (shown : Option (Event Id Call (Reply B))) (known known' : Option (Reply B))
    (s s' : DecodedStream B) (marks : List (Mark Id Call (Reply B))) : Prop where
  shows : history marks = shown.toList
  legal : Run Calls s ((points marks).map Prod.snd) s'
  yields : awaited known ++ batchesOf ((points marks).map Prod.snd) = batches shown.toList ++ awaited known'
  paced : ∀ rest, Paced (τ.stages known') rest → Paced (σ.stages known) (marks ++ rest)

/-- The call under way, and no other, changes its stage when its reply becomes known. -/
theorem stages_known {σ : Shared B Id} (serial : σ.Serial) (under_way : σ.phase.id? = some id) (reply : Reply B) :
    σ.stages (some reply) = Function.update (σ.stages none) id (.taken reply) := by
  have at_next : σ.task id = .next := (serial id).mpr under_way
  funext id'
  by_cases same : id' = id
  · simp [Shared.stages, same, at_next, stage]
  · have other : σ.task id' ≠ .next := by
      intro next
      rw [serial id', under_way] at next
      exact same (Option.some.inj next).symm
    cases task : σ.task id' with
    | next => exact absurd task other
    | unused | cancelling | stored | returned => simp [Shared.stages, same, task, stage]

/-- It returns with that reply. -/
theorem stages_leave {σ : Shared B Id} (serial : σ.Serial) (under_way : σ.phase.id? = some id) (reply : Reply B)
    (stream : DecodedStream B) :
    (σ.leave id stream).stages none = Function.update (σ.stages (some reply)) id .returned := by
  rw [stages_known serial under_way, Function.update_idem]
  exact stages_update none σ.task id .returned

theorem Marks.leave {σ : Shared B Id} {s stream : DecodedStream B}
    (serial : σ.Serial) (under_way : σ.phase.id? = some id) (reply : Reply B) :
    Marks σ (σ.leave id stream) (some (.respond id reply)) (some reply) none s s [.event (.respond id reply)] where
  shows := rfl
  legal := .nil
  yields := by
    cases found : reply.batch? with
    | none => simp [awaited, batchesOf, batches, found]
    | some batch => simp [awaited, batchesOf, batches, found]
  paced rest paced := by
    have taken : σ.stages (some reply) id = .taken reply := by
      simp [Shared.stages, (serial id).mpr under_way, stage]
    rw [stages_leave serial under_way reply] at paced
    exact .respond taken paced

theorem Marks.invoke {σ τ : Shared B Id} {id : Id} {call : Call} {task : Task} (known : Option (Reply B))
    (s : DecodedStream B) (unused : σ.task id = .unused) (tasks : τ.task = Function.update σ.task id task)
    (invoked : stage known task = .invoked call) :
    Marks σ τ (some (.invoke id call)) known known s s [.event (.invoke id call)] where
  shows := rfl
  legal := .nil
  yields := by simp [batchesOf, batches]
  paced rest paced := by
    have fresh : σ.stages known id = .fresh := by simp [Shared.stages, unused, stage]
    have here : τ.stages known = Function.update (σ.stages known) id (.invoked call) := by
      rw [← invoked]
      unfold Shared.stages
      rw [tasks]
      exact stages_update known σ.task id task
    exact .invoke fresh (here ▸ paced)

theorem Marks.silent {σ τ : Shared B Id} (known : Option (Reply B)) (s : DecodedStream B)
    (tasks : τ.task = σ.task) : Marks σ τ none known known s s [] where
  shows := rfl
  legal := .nil
  yields := by simp [batchesOf, batches]
  paced rest paced := by
    unfold Shared.stages at paced
    rwa [tasks] at paced

/-- The call under way takes effect. -/
theorem Marks.take {σ τ : Shared B Id} {id : Id} {s : DecodedStream B} {item : Option (Item B)} (serial : σ.Serial)
    (under_way : σ.phase.id? = some id) (tasks : τ.task = σ.task) (called : Next s item t) :
    Marks σ τ none none (some (.item item)) s t [.point id .next (.item item)] where
  shows := rfl
  legal := .cons (.next called) .nil
  yields := by
    cases found : Reply.batch? (.item item) with
    | none => simp [awaited, batchesOf, batches, found]
    | some batch => simp [awaited, batchesOf, batches, found]
  paced rest paced := by
    have invoked : σ.stages none id = .invoked .next := by
      simp [Shared.stages, (serial id).mpr under_way, stage]
    have here : τ.stages (some (.item item)) = σ.stages (some (.item item)) := by
      unfold Shared.stages
      rw [tasks]
    rw [here, stages_known serial under_way] at paced
    exact .point invoked paced

/-- Every step is one of atomic calls: a call of `next` takes effect where it loads the flag,
a cancel where it stores it. -/
theorem Step.marked {σ τ υ : Shared B Id} {shown : Option (Event Id Call (Reply B))}
    {later : List (Event Id Call (Reply B))} {known : Option (Reply B)} (step : Step σ shown τ)
    (rest : Execution τ later υ) (serial : σ.Serial) (related : Related (shown.toList ++ later) σ known s) :
    ∃ marks known' s', Marks σ τ shown known known' s s' marks ∧ Related later τ known' s' := by
  have serial' := step.serial serial
  cases step with
  | invokeNext idle unused =>
    obtain ⟨rfl, rfl⟩ := related.before (.inl idle)
    exact ⟨_, none, _, Marks.invoke none σ.stream unused rfl rfl, .called rfl⟩
  | @finished id at_call over_ =>
    obtain ⟨rfl, rfl⟩ := related.before (.inr ⟨_, at_call⟩)
    have under_way : σ.phase.id? = some id := congrArg Phase.id? at_call
    have takes : Marks σ σ none none (some (.item none)) σ.stream σ.stream [.point id .next (.item none)] :=
      .take serial under_way rfl (next_finished over_)
    have leaves : Marks σ (σ.leave id σ.stream) _ _ none σ.stream σ.stream _ := .leave serial under_way (.item none)
    refine ⟨[.point id .next (.item none), .event (.respond id (.item none))], none, σ.stream, ?_, .idle rfl⟩
    exact ⟨rfl, takes.legal, rfl, fun rest paced => takes.paced _ (leaves.paced rest paced)⟩
  | @load id at_call unfinished =>
    obtain ⟨rfl, rfl⟩ := related.before (.inr ⟨_, at_call⟩)
    have under_way : σ.phase.id? = some id := congrArg Phase.id? at_call
    by_cases returns : ∃ reply, .respond id reply ∈ later
    · obtain ⟨reply, returns⟩ := returns
      obtain ⟨item, t, finishes⟩ := rest.foresees serial' rfl nofun returns
      exact ⟨_, _, t, .take serial under_way rfl (finishes.next unfinished), .taken finishes⟩
    · exact ⟨[], none, σ.stream, .silent none _ rfl, .stuck rfl nofun fun reply member => returns ⟨reply, member⟩⟩
  | observe at_load =>
    have under_way : σ.phase.id? = some _ := congrArg Phase.id? at_load
    obtain ⟨item, rfl, finishes⟩ := related.behind under_way (by simp [at_load]) List.mem_cons_self
    rw [at_load] at finishes
    cases finishes
    exact ⟨_, none, _, .leave serial under_way _, .idle rfl⟩
  | limit at_load met =>
    have under_way : σ.phase.id? = some _ := congrArg Phase.id? at_load
    obtain ⟨item, rfl, finishes⟩ := related.behind under_way (by simp [at_load]) List.mem_cons_self
    rw [at_load] at finishes
    cases finishes with
    | limited _ => exact ⟨_, none, _, .leave serial under_way _, .idle rfl⟩
    | entered unmet _ => cases met.symm.trans unmet
  | enter at_load unmet =>
    refine ⟨[], known, s, .silent known s rfl, ?_⟩
    cases related with
    | idle idle => cases at_load.symm.trans idle
    | called at_call => cases at_load.symm.trans at_call
    | taken finishes =>
      rw [at_load] at finishes
      cases finishes with
      | limited met => cases met.symm.trans unmet
      | entered _ later => exact .taken later
    | stuck under_way _ never =>
      rw [at_load] at under_way
      exact .stuck under_way nofun never
  | skip at_loop rounds =>
    refine ⟨[], known, s, .silent known s rfl, ?_⟩
    cases related with
    | idle idle => cases at_loop.symm.trans idle
    | called at_call => cases at_loop.symm.trans at_call
    | taken finishes =>
      apply Related.taken
      dsimp only
      rw [at_loop] at finishes ⊢
      cases finishes with
      | skipped rounds' later =>
        cases rounds.symm.trans rounds'
        exact later
      | answered rounds' => cases rounds.symm.trans rounds'
    | stuck under_way behind never => exact .stuck under_way behind never
  | answer at_loop rounds =>
    have under_way : σ.phase.id? = some _ := congrArg Phase.id? at_loop
    obtain ⟨item, rfl, finishes⟩ := related.behind under_way (by simp [at_loop]) List.mem_cons_self
    rw [at_loop] at finishes
    cases finishes with
    | skipped rounds' _ => cases rounds.symm.trans rounds'
    | answered rounds' =>
      cases rounds.symm.trans rounds'
      exact ⟨_, none, _, .leave serial under_way _, .idle rfl⟩
  | invokeCancel unused => exact ⟨_, known, s, .invoke known s unused rfl rfl, related.aside rfl rfl (by simp)⟩
  | store id cancelling =>
    have yields : awaited known ++ batchesOf [(.cancel, .cancelled)] =
        batches ([] : List (Event Id Call (Reply B))) ++ awaited known := by
      simp [batchesOf, batches, Reply.batch?]
    refine ⟨[.point id .cancel .cancelled], known, s.cancel, ⟨rfl, .cons .cancel .nil, yields, fun rest paced => ?_⟩,
      related.cancel rfl rfl⟩
    have invoked : σ.stages known id = .invoked .cancel := by simp [Shared.stages, cancelling, stage]
    exact .point invoked (stages_update known σ.task id .stored ▸ paced)
  | @returnCancel id stored =>
    have yields : awaited known ++ batchesOf [] = batches [.respond id .cancelled] ++ awaited known := by
      simp [batchesOf, batches, Reply.batch?]
    refine ⟨[.event (.respond id .cancelled)], known, s, ⟨rfl, .nil, yields, fun rest paced => ?_⟩,
      related.aside rfl rfl (by simp)⟩
    have taken : σ.stages known id = .taken .cancelled := by simp [Shared.stages, stored, stage]
    exact .respond taken (stages_update known σ.task id .returned ▸ paced)

theorem Execution.marked {σ τ : Shared B Id} {shown : List (Event Id Call (Reply B))} {known : Option (Reply B)}
    (execution : Execution σ shown τ) (serial : σ.Serial) (related : Related shown σ known s) :
    ∃ marks last, Paced (σ.stages known) marks ∧ history marks = shown ∧
      Run Calls s ((points marks).map Prod.snd) last ∧ (τ.phase = .idle → last = τ.stream) ∧
      batches shown <+: awaited known ++ batchesOf ((points marks).map Prod.snd) := by
  induction execution generalizing known s with
  | nil => exact ⟨[], s, .nil, rfl, .nil, fun idle => (related.before (.inl idle)).2, List.nil_prefix⟩
  | @cons σ _ _ shown later step rest ih =>
    obtain ⟨marks, known', s', marked, related'⟩ := step.marked rest serial related
    obtain ⟨marks', last, paced, shows, legal, ends, shorter⟩ := ih (step.serial serial) related'
    refine ⟨marks ++ marks', last, marked.paced marks' paced, ?_, ?_, ends, ?_⟩
    · rw [history, List.filterMap_append]
      exact congrArg₂ _ marked.shows shows
    · rw [points, List.filterMap_append, List.map_append]
      exact marked.legal.append legal
    · have order : points (marks ++ marks') = points marks ++ points marks' := List.filterMap_append
      have both : batches (shown.toList ++ later) = batches shown.toList ++ batches later := List.filterMap_append
      have whole : batchesOf ((points marks ++ points marks').map Prod.snd) =
          batchesOf ((points marks).map Prod.snd) ++ batchesOf ((points marks').map Prod.snd) := by
        rw [List.map_append]
        exact List.filterMap_append
      rw [order, both, whole, ← List.append_assoc, marked.yields, List.append_assoc]
      exact List.prefix_append_right_inj _ |>.mpr shorter

/-- Whatever the threads do in whatever order, the replies are those of atomic calls made in an
order that keeps the calls that do not overlap, and no batch is lost or repeated. -/
theorem execution_linearizes (s₀ : DecodedStream B) (shown : List (Event Id Call (Reply B))) (τ : Shared B Id)
    (execution : Execution (.start s₀) shown τ) :
    ∃ order last, Linearizes Calls s₀ shown order last ∧ (τ.phase = .idle → last = τ.stream) ∧
      batches shown <+: batchesOf (order.map Prod.snd) := by
  obtain ⟨marks, last, paced, rfl, legal, ends, begins⟩ := execution.marked (serial_start s₀) (.idle rfl)
  exact ⟨points marks, last, paced.linearizes legal, ends, begins⟩

theorem Execution.showing {σ τ υ : Shared B Id} {event : Event Id Call (Reply B)}
    {later : List (Event Id Call (Reply B))} (step : Step σ (some event) τ) (rest : Execution τ later υ) :
    Execution σ (event :: later) υ := .cons step rest

theorem Execution.silent {σ τ υ : Shared B Id} {later : List (Event Id Call (Reply B))} (step : Step σ none τ)
    (rest : Execution τ later υ) : Execution σ later υ := .cons step rest

/-- A cancel that starts and returns while `next` is behind its load, and a call after both. -/
def overlapping (batch : B) : List (Event Nat Call (Reply B)) :=
  [.invoke 0 .next, .invoke 1 .cancel, .respond 1 .cancelled, .respond 0 (.item (some (.ok batch))),
    .invoke 2 .next, .respond 2 (.item (some (.error .streamCancelled)))]

/-- The stream of `twoBatches`, before any call. -/
def unread (options : StreamOptions) : DecodedStream ColumnlessBatch :=
  ⟨⟨[], []⟩, twoBatches, 0, options, false, none, 0, 0, false⟩

theorem Step.answer_eq {σ : Shared B Id} {pulled : Pulled B} {u : DecodedStream B} (at_loop : σ.phase = .pulling id)
    (rounds : round σ.stream = .inr (pulled, t)) (settled : t.settle pulled = (item, u)) :
    Step σ (some (.respond id (.item item))) (σ.leave id u) := by
  have answer := Step.answer at_loop rounds
  rwa [settled] at answer

theorem overlapping_execution :
    ∃ τ, Execution (.start (unread {})) (overlapping ⟨2, by decide⟩) τ ∧ τ.phase = .idle :=
  ⟨_, .showing (.invokeNext rfl rfl) <| .silent (.load rfl rfl) <| .silent (.enter rfl rfl) <|
    .showing (.invokeCancel rfl) <| .silent (.store 1 rfl) <| .showing (.returnCancel rfl) <|
    .showing (.answer_eq rfl rfl rfl) <| .showing (.invokeNext rfl rfl) <| .silent (.load rfl rfl) <|
    .showing (.observe rfl) .nil, rfl⟩

theorem execution_linearizes_overlapping :
    ∃ τ order last, Execution (.start (unread {})) (overlapping ⟨2, by decide⟩) τ ∧
      Linearizes Calls (unread {}) (overlapping ⟨2, by decide⟩) order last ∧ last = τ.stream ∧
      [⟨2, by decide⟩] <+: batchesOf (order.map Prod.snd) := by
  obtain ⟨τ, execution, idle⟩ := overlapping_execution
  obtain ⟨order, last, linearizes, ends, begins⟩ := execution_linearizes (unread {}) _ τ execution
  exact ⟨τ, order, last, execution, linearizes, ends idle, begins⟩

/-! A cancelled stream has no more batches, and an uncancelled one is not changed by a cancel
that comes later. -/

/-- A stream with the flag set. -/
theorem next_flagged (flag : s.cancelled = true) (called : Next s item t) :
    t.cancelled = true ∧ (item = none ∨ item = some (.error .streamCancelled)) := by
  cases finished : s.finished with
  | true =>
    obtain ⟨rfl, rfl⟩ := called.unique (next_finished finished)
    exact ⟨flag, .inl rfl⟩
  | false =>
    obtain ⟨rfl, rfl⟩ := called.unique (next_cancelled finished flag)
    exact ⟨flag, .inr rfl⟩

/-- `next` leaves the flag alone. -/
theorem next_flag (called : Next s item t) : t.cancelled = s.cancelled := by
  obtain ⟨fuel, h⟩ := called
  unfold next at h
  split_ifs at h
  · cases h
    rfl
  · cases h
    rfl
  · cases h
    rfl
  · obtain ⟨⟨pulled, u⟩, loop, settled⟩ := Option.map_eq_some_iff.mp h
    cases pull_pulling loop with
    | exhausted dry =>
      cases settled
      rfl
    | failed polls answer =>
      cases settled
      rfl
    | ready polls =>
      cases emit_emits (show emit _ _ _ = (item, t) from settled) with
      | empty => rfl
      | exceeded => rfl
      | yielded => rfl

theorem calls_flagged {call : Call} {reply : Reply B} (flag : s.cancelled = true) (taken : Calls s call reply t) :
    t.cancelled = true ∧ reply.batch? = none := by
  cases taken with
  | cancel => exact ⟨rfl, rfl⟩
  | next called =>
    obtain ⟨flag', rfl | rfl⟩ := next_flagged flag called
    · exact ⟨flag', rfl⟩
    · exact ⟨flag', rfl⟩

theorem run_flagged {trace : List (Call × Reply B)} (run : Run Calls s trace t) (flag : s.cancelled = true) :
    t.cancelled = true ∧ batchesOf trace = [] := by
  obtain ⟨each, flag'⟩ := run.guarantees (·.cancelled = true) (fun _ reply => reply.batch? = none)
    (fun flag taken => (calls_flagged flag taken).symm) flag
  exact ⟨flag', List.filterMap_eq_nil_iff.mpr each⟩

theorem batchesOf_cons (entry : Call × Reply B) (trace : List (Call × Reply B)) :
    batchesOf (entry :: trace) = entry.2.batch?.toList ++ batchesOf trace := by
  cases found : entry.2.batch? with
  | none => simp [batchesOf, found]
  | some batch => simp [batchesOf, found]

/-- The batches of any calls begin those of enough calls on the stream without a cancel. -/
theorem run_batches {whole trace : List (Call × Reply B)} {u : DecodedStream B} (run : Run Calls s trace t)
    (other : Run Calls { s with cancelled := false } whole u) (nexts : ∀ entry ∈ whole, entry.1 = .next)
    (longer : trace.length ≤ whole.length) : batchesOf trace <+: batchesOf whole := by
  induction run generalizing whole with
  | nil => exact List.nil_prefix
  | @cons s call reply s' trace t taken rest ih =>
    cases taken with
    | cancel => exact ih other nexts (Nat.le_of_succ_le longer)
    | @next item _ called =>
      cases flag : s.cancelled with
      | true => simp [(run_flagged (.cons (.next called) rest) flag).2]
      | false =>
        have same : { s with cancelled := false } = s := by rw [← flag]
        rw [same] at other
        cases other with
        | nil => simp at longer
        | @cons _ call' reply' u' whole' _ taken' rest' =>
          rw [List.forall_mem_cons] at nexts
          obtain rfl : call' = .next := nexts.1
          obtain ⟨rfl, rfl⟩ := taken'.unique (.next called)
          have unflagged : { u' with cancelled := false } = u' := by rw [← flag, ← next_flag called]
          have begins := ih (unflagged.symm ▸ rest') nexts.2 (Nat.le_of_succ_le_succ longer)
          rw [batchesOf_cons, batchesOf_cons]
          exact (List.prefix_append_right_inj _).mpr begins

/-- The batches of any calls are those of some calls on the stream without a cancel. -/
theorem run_uncancelled {trace : List (Call × Reply B)} (run : Run Calls s trace t) :
    ∃ whole u, Run Calls { s with cancelled := false } whole u ∧ (∀ entry ∈ whole, entry.1 = .next) ∧
      batchesOf whole = batchesOf trace := by
  induction run with
  | nil => exact ⟨[], _, .nil, nofun, rfl⟩
  | @cons s call reply s' trace t taken rest ih =>
    cases flag : s.cancelled with
    | true => exact ⟨[], _, .nil, nofun, (run_flagged (.cons taken rest) flag).2.symm⟩
    | false =>
      cases taken with
      | cancel =>
        refine ⟨[], _, .nil, nofun, ?_⟩
        rw [batchesOf_cons, (run_flagged rest rfl).2]
        rfl
      | @next item _ called =>
        obtain ⟨whole, u, other, nexts, same⟩ := ih
        rw [show { s' with cancelled := false } = s' by rw [← flag, ← next_flag called]] at other
        refine ⟨(.next, .item item) :: whole, u, ?_, List.forall_mem_cons.mpr ⟨rfl, nexts⟩, ?_⟩
        · rw [show { s with cancelled := false } = s by rw [← flag]]
          exact .cons (.next called) other
        · rw [batchesOf_cons, batchesOf_cons, same]

/-- A cancel that has returned cuts the stream off on every thread: later calls have no batch.
Before it the calls return the batches of the stream without a cancel, in their order. -/
theorem execution_cancelled (s₀ : DecodedStream B) (shown : List (Event Id Call (Reply B))) (τ : Shared B Id)
    (execution : Execution (.start s₀) shown τ) :
    (∀ id id' call item, [.respond id .cancelled, .invoke id' call].Sublist shown → .respond id' (.item item) ∈ shown →
      item = none ∨ item = some (.error .streamCancelled)) ∧
    (∃ whole u, Run Calls { s₀ with cancelled := false } whole u ∧ (∀ entry ∈ whole, entry.1 = .next) ∧
      batches shown <+: batchesOf whole) ∧
    ∀ whole u, Run Calls { s₀ with cancelled := false } whole u → (∀ entry ∈ whole, entry.1 = .next) →
      shown.length ≤ whole.length → batches shown <+: batchesOf whole := by
  obtain ⟨marks, last, paced, rfl, legal, -, begins⟩ := execution.marked (serial_start s₀) (.idle rfl)
  have linearizes := paced.linearizes legal
  refine ⟨?_, ?_, ?_⟩
  · intro id id' call item apart returns
    obtain ⟨before, op, between, op', after, order⟩ := linearizes.split apart returns
    rw [order, List.map_append, List.map_cons, List.map_append, List.map_cons] at legal
    obtain ⟨s, _, ordered⟩ := legal.split
    cases ordered with
    | cons first rest =>
      obtain ⟨t, middle, later⟩ := rest.split
      have flag : t.cancelled = true := by
        cases first
        exact (run_flagged middle rfl).1
      cases later with
      | cons second _ =>
        cases second with
        | next called => exact (next_flagged flag called).2
  · obtain ⟨whole, u, run, nexts, same⟩ := run_uncancelled legal
    exact ⟨whole, u, run, nexts, same ▸ begins⟩
  · intro whole u run nexts longer
    have shorter := linearizes.length_le
    refine begins.trans (run_batches legal run nexts ?_)
    rw [List.length_map]
    omega

/-- The call after the cancel reports it; the batch of the call beside it is the stream's first. -/
theorem execution_cancelled_overlapping :
    ∃ τ, Execution (.start (unread {})) (overlapping ⟨2, by decide⟩) τ ∧
      (∀ item, .respond 2 (.item item) ∈ overlapping (⟨2, by decide⟩ : ColumnlessBatch) →
        item = none ∨ item = some (.error .streamCancelled)) ∧
      ∃ whole u, Run Calls (unread {}) whole u ∧ (∀ entry ∈ whole, entry.1 = .next) ∧
        [⟨2, by decide⟩] <+: batchesOf whole := by
  obtain ⟨τ, execution, _⟩ := overlapping_execution
  obtain ⟨cut, uncancelled, _⟩ := execution_cancelled (unread {}) _ τ execution
  exact ⟨τ, execution, fun item => cut 1 2 .next item (by simp [overlapping]), uncancelled⟩

end FsspecData.DecodedStream
