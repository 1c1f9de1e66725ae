import Mathlib.Data.List.Basic

/-! Machines seen through their inputs and outputs. A machine's step is a relation and may
give no answer or several; a specification is a function of its state and input. -/
namespace Machine

variable {S A A' I O : Type}

inductive Run (step : S → I → O → S → Prop) : S → List (I × O) → S → Prop where
  | nil : Run step s [] s
  | cons : step s input output t → Run step t trace last → Run step s ((input, output) :: trace) last

/-- Two states that no run tells apart. -/
def Indistinguishable (step : S → I → O → S → Prop) (s t : S) : Prop :=
  ∀ trace, (∃ last, Run step s trace last) ↔ ∃ last, Run step t trace last

/-- The specification's answers to some inputs. -/
def outputs (spec : A → I → O × A) : A → List I → List O
  | _, [] => []
  | a, input :: inputs => (spec a input).1 :: outputs spec (spec a input).2 inputs

/-- Where some inputs take the specification. -/
def final (spec : A → I → O × A) : A → List I → A
  | a, [] => a
  | a, input :: inputs => final spec (spec a input).2 inputs

/-- A machine answers as the specification does, and always answers. -/
structure Implements (step : S → I → O → S → Prop) (spec : A → I → O × A)
    (related : S → A → Prop) : Prop where
  answers (input : I) : related s a → ∃ output t, step s input output t
  follows : related s a → step s input output t → output = (spec a input).1 ∧ related t (spec a input).2

variable {step : S → I → O → S → Prop} {spec : A → I → O × A} {related : S → A → Prop}

theorem Run.append {trace trace' : List (I × O)} (first : Run step s trace t) (second : Run step t trace' last) :
    Run step s (trace ++ trace') last := by
  induction first with
  | nil => exact second
  | cons taken _ ih => exact .cons taken (ih second)

theorem Run.split {trace trace' : List (I × O)} (run : Run step s (trace ++ trace') last) :
    ∃ t, Run step s trace t ∧ Run step t trace' last := by
  induction trace generalizing s with
  | nil => exact ⟨s, .nil, run⟩
  | cons entry trace ih =>
    cases run with
    | cons taken rest =>
      obtain ⟨t, first, second⟩ := ih rest
      exact ⟨t, .cons taken first, second⟩

/-- What every allowed step keeps, every allowed run keeps. -/
theorem Run.keeps {allowed : I → O → Prop} (invariant : S → Prop)
    (keep : ∀ {s i o t}, invariant s → step s i o t → allowed i o → invariant t)
    (run : Run step s trace last) (each : ∀ entry ∈ trace, allowed entry.1 entry.2)
    (initial : invariant s) : invariant last := by
  induction run with
  | nil => exact initial
  | cons first rest ih =>
    simp only [List.mem_cons, forall_eq_or_imp] at each
    exact ih each.2 (keep initial first each.1)

/-- What each step from an invariant state admits, every entry of a run admits. -/
theorem Run.guarantees (invariant : S → Prop) (admitted : I → O → Prop)
    (keep : ∀ {s i o t}, invariant s → step s i o t → admitted i o ∧ invariant t)
    (run : Run step s trace last) (initial : invariant s) :
    (∀ entry ∈ trace, admitted entry.1 entry.2) ∧ invariant last := by
  induction run with
  | nil => exact ⟨by simp, initial⟩
  | cons first rest ih =>
    obtain ⟨admits, kept⟩ := keep initial first
    obtain ⟨others, ends⟩ := ih kept
    simp only [List.mem_cons, forall_eq_or_imp]
    exact ⟨⟨admits, others⟩, ends⟩

namespace Implements

/-- A machine with one answer implements what it can answer. -/
theorem of_unique
    (unique : ∀ {s i o o' t t'}, step s i o t → step s i o' t' → o = o' ∧ t = t')
    (each : ∀ {s a}, related s a → ∀ input, ∃ t, step s input (spec a input).1 t ∧ related t (spec a input).2) :
    Implements step spec related where
  answers input held := by
    obtain ⟨t, taken, _⟩ := each held input
    exact ⟨_, t, taken⟩
  follows held taken := by
    obtain ⟨t, expected, held'⟩ := each held _
    obtain ⟨rfl, rfl⟩ := unique taken expected
    exact ⟨rfl, held'⟩

/-- The answers of a run are the specification's, and its end is still related. -/
theorem run_follows (implements : Implements step spec related) (run : Run step s trace last)
    (held : related s a) :
    trace.map Prod.snd = outputs spec a (trace.map Prod.fst) ∧ ∃ b, related last b := by
  induction run generalizing a with
  | nil => exact ⟨rfl, a, held⟩
  | cons first rest ih =>
    obtain ⟨answer, held⟩ := implements.follows held first
    obtain ⟨answers, ends⟩ := ih held
    exact ⟨by simp [outputs, answer, answers], ends⟩

/-- A run ends where the specification does. -/
theorem run_final (implements : Implements step spec related) (run : Run step s trace last) (held : related s a) :
    related last (final spec a (trace.map Prod.fst)) := by
  induction run generalizing a with
  | nil => exact held
  | cons first rest ih => exact ih (implements.follows held first).2

/-- Every list of inputs has a run. -/
theorem run_exists (implements : Implements step spec related) (inputs : List I) (held : related s a) :
    ∃ trace last, trace.map Prod.fst = inputs ∧ Run step s trace last := by
  induction inputs generalizing s a with
  | nil => exact ⟨[], s, rfl, .nil⟩
  | cons input inputs ih =>
    obtain ⟨output, t, first⟩ := implements.answers input held
    obtain ⟨trace, last, rfl, rest⟩ := ih (implements.follows held first).2
    exact ⟨(input, output) :: trace, last, rfl, .cons first rest⟩

theorem run_iff (implements : Implements step spec related) (held : related s a) {trace : List (I × O)} :
    (∃ last, Run step s trace last) ↔ trace.map Prod.snd = outputs spec a (trace.map Prod.fst) := by
  constructor
  · rintro ⟨last, run⟩
    exact (implements.run_follows run held).1
  · intro answers
    obtain ⟨other, last, same, run⟩ := implements.run_exists (trace.map Prod.fst) held
    have others := (implements.run_follows run held).1
    rw [same, ← answers] at others
    have : other = trace := by
      rw [← List.zip_unzip other, ← List.zip_unzip trace, List.unzip_eq_map, List.unzip_eq_map]
      simp only [same, others]
    exact ⟨last, this ▸ run⟩

/-- States are told apart exactly when their specifications answer some inputs differently. -/
theorem indistinguishable_iff (implements : Implements step spec related) {b : A} (left : related s a)
    (right : related t b) :
    Indistinguishable step s t ↔ ∀ inputs, outputs spec a inputs = outputs spec b inputs := by
  constructor
  · intro same inputs
    obtain ⟨trace, last, rfl, run⟩ := implements.run_exists inputs left
    rw [← (implements.run_follows run left).1]
    exact (implements.run_iff right).mp ((same trace).mp ⟨last, run⟩)
  · intro same trace
    rw [implements.run_iff left, implements.run_iff right, same]

end Implements

/-- Specifications that answer some inputs alike from related states. -/
theorem outputs_eq {spec' : A' → I → O × A'} (relation : A → A' → Prop) (inputs : List I)
    (alike : ∀ input ∈ inputs, ∀ a b, relation a b →
      (spec a input).1 = (spec' b input).1 ∧ relation (spec a input).2 (spec' b input).2)
    (initial : relation a b) : outputs spec a inputs = outputs spec' b inputs := by
  induction inputs generalizing a b with
  | nil => rfl
  | cons input inputs ih =>
    simp only [List.mem_cons, forall_eq_or_imp] at alike
    obtain ⟨answer, next⟩ := alike.1 a b initial
    simp [outputs, answer, ih alike.2 next]

end Machine
