import Mathlib.Data.List.Infix

/-! Programs that write to a sink. A program hands over output and goes on with the sink's
answer. Where all output is taken it has a value and an output, and it has the same two at
every sink that takes all of it in the end. -/
namespace Output

variable {β Q S A B : Type}

/-- `β` is the unit of output and `Q` an error of the sink. -/
inductive Program (β Q A : Type) where
  | pure (a : A)
  | writeAll (part : List β) (next : Except Q Unit → Program β Q A)
  | flush (next : Except Q Unit → Program β Q A)

/-- How something ends that may panic. -/
inductive Outcome (A : Type) where
  | returned (a : A)
  | panicked
  deriving DecidableEq

/-- A sink may take rounds to answer; `none` when `fuel` of them were not enough. -/
structure Sink (β Q S : Type) where
  writeAll : (fuel : Nat) → S → List β → Option (Outcome (Except Q Unit) × S)
  flush : S → Outcome (Except Q Unit) × S
  writeAll_mono : writeAll fuel s part = some answer → fuel ≤ more → writeAll more s part = some answer

namespace Program

def bind : Program β Q A → (A → Program β Q B) → Program β Q B
  | .pure a, f => f a
  | .writeAll part next, f => .writeAll part fun answer => (next answer).bind f
  | .flush next, f => .flush fun answer => (next answer).bind f

instance : Monad (Program β Q) where
  pure := .pure
  bind := bind

/-- The value where every part is taken. -/
def value : Program β Q A → A
  | .pure a => a
  | .writeAll _ next => (next (.ok ())).value
  | .flush next => (next (.ok ())).value

/-- The output where every part is taken. -/
def output : Program β Q A → List β
  | .pure _ => []
  | .writeAll part next => part ++ (next (.ok ())).output
  | .flush next => (next (.ok ())).output

def run (sink : Sink β Q S) (fuel : Nat) : Program β Q A → S → Option (Outcome A × S)
  | .pure a, s => some (.returned a, s)
  | .writeAll part next, s =>
    match sink.writeAll fuel s part with
    | none => none
    | some (.panicked, t) => some (.panicked, t)
    | some (.returned answer, t) => (next answer).run sink fuel t
  | .flush next, s =>
    match sink.flush s with
    | (.panicked, t) => some (.panicked, t)
    | (.returned answer, t) => (next answer).run sink fuel t

@[simp] theorem value_pure (a : A) : (Pure.pure a : Program β Q A).value = a := rfl

@[simp] theorem output_pure (a : A) : (Pure.pure a : Program β Q A).output = [] := rfl

@[simp] theorem value_bind (program : Program β Q A) (f : A → Program β Q B) :
    (program >>= f).value = (f program.value).value := by
  change (program.bind f).value = _
  induction program with
  | pure a => rfl
  | writeAll part next ih => exact ih (.ok ())
  | flush next ih => exact ih (.ok ())

@[simp] theorem output_bind (program : Program β Q A) (f : A → Program β Q B) :
    (program >>= f).output = program.output ++ (f program.value).output := by
  change (program.bind f).output = _
  induction program with
  | pure a => rfl
  | writeAll part next ih =>
    change part ++ ((next (.ok ())).bind f).output = _
    rw [ih, ← List.append_assoc]
    rfl
  | flush next ih => exact ih (.ok ())

theorem run_mono {sink : Sink β Q S} {fuel more : Nat} {program : Program β Q A} {s : S}
    {ended : Outcome A × S} (ran : program.run sink fuel s = some ended) (le : fuel ≤ more) :
    program.run sink more s = some ended := by
  induction program generalizing s with
  | pure a => exact ran
  | writeAll part next ih =>
    simp only [run] at ran ⊢
    split at ran
    next => cases ran
    next t written =>
      rw [sink.writeAll_mono written le]
      exact ran
    next answer t written =>
      rw [sink.writeAll_mono written le]
      exact ih answer ran
  | flush next ih =>
    simp only [run] at ran ⊢
    split at ran
    next t flushed => exact ran
    next answer t flushed => exact ih answer ran

end Program

/-! Sinks that take everything. -/

/-- From a ready state a sink takes whatever it is given, and `taken` records it. -/
structure Sink.Takes (sink : Sink β Q S) (taken : S → List β) (ready : S → Prop) : Prop where
  writeAll (part : List β) : ready s → ∃ fuel t, sink.writeAll fuel s part = some (.returned (.ok ()), t) ∧
    taken t = taken s ++ part ∧ ready t
  flush : ready s → ∃ t, sink.flush s = (.returned (.ok ()), t) ∧ taken t = taken s ∧ ready t

theorem Sink.Takes.run {sink : Sink β Q S} {taken : S → List β} {ready : S → Prop} (takes : sink.Takes taken ready)
    (program : Program β Q A) {s : S} (held : ready s) :
    ∃ fuel t, program.run sink fuel s = some (.returned program.value, t) ∧
      taken t = taken s ++ program.output ∧ ready t := by
  induction program generalizing s with
  | pure a => exact ⟨0, s, rfl, (List.append_nil _).symm, held⟩
  | writeAll part next ih =>
    obtain ⟨fuel, u, written, here, held⟩ := takes.writeAll part held
    obtain ⟨fuel', t, later, rest, held⟩ := ih (.ok ()) held
    have enough := Program.run_mono later (Nat.le_max_right fuel fuel')
    refine ⟨fuel.max fuel', t, ?_, ?_, held⟩
    · rw [Program.run, sink.writeAll_mono written (Nat.le_max_left fuel fuel')]
      exact enough
    · rw [rest, here, List.append_assoc]
      rfl
  | flush next ih =>
    obtain ⟨u, flushed, here, held⟩ := takes.flush held
    obtain ⟨fuel, t, later, rest, held⟩ := ih (.ok ()) held
    refine ⟨fuel, t, ?_, here ▸ rest, held⟩
    rw [Program.run, flushed]
    exact later

/-! Sinks that may fail. -/

/-- Nothing is a first piece. -/
theorem no_piece {taken : S → List β} {s t : S} (part : List β) (same : taken t = taken s) :
    ∃ piece, piece <+: part ∧ taken t = taken s ++ piece :=
  ⟨[], List.nil_prefix, by rw [same, List.append_nil]⟩

/-- A sink that takes a first piece of what it is given, and all of it where it reports no
error. It never panics. -/
structure Sink.Keeps (sink : Sink β Q S) (taken : S → List β) : Prop where
  writeAll : sink.writeAll fuel s part = some (outcome, t) → ∃ answer, outcome = .returned answer ∧
    (∃ piece, piece <+: part ∧ taken t = taken s ++ piece) ∧ (answer = .ok () → taken t = taken s ++ part)
  flush : sink.flush s = (outcome, t) → (∃ answer, outcome = .returned answer) ∧ taken t = taken s

/-- A program that ends at the first error of its sink, with a value that tells of it. -/
inductive Program.Stops (failed : A → Prop) : Program β Q A → Prop where
  | pure (a : A) : Stops failed (.pure a)
  | writeAll (part : List β) (next : Except Q Unit → Program β Q A) :
      (∀ error, ∃ a, failed a ∧ next (.error error) = .pure a) → Stops failed (next (.ok ())) →
      Stops failed (.writeAll part next)
  | flush (next : Except Q Unit → Program β Q A) :
      (∀ error, ∃ a, failed a ∧ next (.error error) = .pure a) → Stops failed (next (.ok ())) →
      Stops failed (.flush next)

/-- Over a sink that may fail, a program writes a first piece of its output. Where its value
tells of no failure it is the value it has anyway, and the output is complete. -/
theorem Program.Stops.run {sink : Sink β Q S} {taken : S → List β} (keeps : sink.Keeps taken) {failed : A → Prop}
    {program : Program β Q A} (stops : program.Stops failed) {fuel : Nat} {s t : S} {outcome : Outcome A}
    (ran : program.run sink fuel s = some (outcome, t)) :
    ∃ a, outcome = .returned a ∧ (∃ piece, piece <+: program.output ∧ taken t = taken s ++ piece) ∧
      (¬failed a → a = program.value ∧ taken t = taken s ++ program.output) := by
  induction stops generalizing s with
  | pure a =>
    cases ran
    exact ⟨a, rfl, no_piece _ rfl, fun _ => ⟨rfl, (List.append_nil _).symm⟩⟩
  | writeAll part next gives_up _ ih =>
    simp only [Program.run] at ran
    split at ran
    next => cases ran
    next u written =>
      obtain ⟨_, panics, -⟩ := keeps.writeAll written
      cases panics
    next answer u written =>
      obtain ⟨_, same, ⟨piece, first, here⟩, complete⟩ := keeps.writeAll written
      cases same
      cases answer with
      | error error =>
        obtain ⟨a, fails, last⟩ := gives_up error
        rw [last] at ran
        cases ran
        exact ⟨a, rfl, ⟨piece, first.trans (List.prefix_append _ _), here⟩, fun passes => absurd fails passes⟩
      | ok all =>
        obtain ⟨a, returned, ⟨rest, second, there⟩, whole⟩ := ih ran
        have here := complete rfl
        refine ⟨a, returned, ⟨part ++ rest, ?_, ?_⟩, fun passes => ?_⟩
        · exact (List.prefix_append_right_inj part).mpr second
        · rw [there, here, List.append_assoc]
        · obtain ⟨valued, everything⟩ := whole passes
          refine ⟨valued, ?_⟩
          rw [everything, here, List.append_assoc]
          rfl
  | flush next gives_up _ ih =>
    simp only [Program.run] at ran
    split at ran
    next u flushed =>
      obtain ⟨⟨_, panics⟩, -⟩ := keeps.flush flushed
      cases panics
    next answer u flushed =>
      obtain ⟨-, here⟩ := keeps.flush flushed
      cases answer with
      | error error =>
        obtain ⟨a, fails, last⟩ := gives_up error
        rw [last] at ran
        cases ran
        exact ⟨a, rfl, no_piece _ here, fun passes => absurd fails passes⟩
      | ok done =>
        rw [← here]
        exact ih ran

/-- Two programs that stop, in turn: the second runs where the first tells of no failure. -/
theorem Program.Stops.bind {failed : A → Prop} {failed' : B → Prop} {program : Program β Q A}
    {f : A → Program β Q B} (first : program.Stops failed) (second : ∀ a, (f a).Stops failed')
    (passed_on : ∀ a, failed a → ∃ b, failed' b ∧ f a = .pure b) : (program >>= f).Stops failed' := by
  change (program.bind f).Stops failed'
  induction first with
  | pure a => exact second a
  | writeAll part next gives_up _ ih =>
    refine .writeAll part _ (fun error => ?_) ih
    obtain ⟨a, fails, last⟩ := gives_up error
    rw [last]
    exact passed_on a fails
  | flush next gives_up _ ih =>
    refine .flush _ (fun error => ?_) ih
    obtain ⟨a, fails, last⟩ := gives_up error
    rw [last]
    exact passed_on a fails

end Output
