import Mathlib.Data.List.Basic
import Mathlib.Logic.Relation

/-! Programs that put requests to a service, one at a time, while others change its state. -/
namespace Client

variable {Q R S E A B : Type}

inductive Program (Q R A : Type) where
  | pure (a : A)
  | ask (request : Q) (next : R → Program Q R A)

namespace Program

def bind : Program Q R A → (A → Program Q R B) → Program Q R B
  | .pure a, f => f a
  | .ask request next, f => .ask request fun response => (next response).bind f

instance : Monad (Program Q R) where
  pure := .pure
  bind := bind

def request (request : Q) : Program Q R R := .ask request .pure

theorem bind_pure (program : Program Q R A) : program.bind .pure = program := by
  induction program with
  | pure a => rfl
  | ask request next ih => rw [bind, funext ih]

theorem bind_assoc {C : Type} (program : Program Q R A) (f : A → Program Q R B) (g : B → Program Q R C) :
    (program.bind f).bind g = program.bind fun a => (f a).bind g := by
  induction program with
  | pure a => rfl
  | ask request next ih => rw [bind, bind, bind, funext ih]

instance : LawfulMonad (Program Q R) := LawfulMonad.mk' _ bind_pure (fun _ _ => rfl) bind_assoc

end Program

/-- The runs of a program. The state moves between any two of its requests, and each is
answered in the state that it finds. -/
inductive Runs (answers : S → Q → R → Prop) (moves : S → S → Prop) :
    Program Q R A → S → List (Q × R) → A → S → Prop where
  | pure : Runs answers moves (.pure a) s [] a s
  | ask : Relation.ReflTransGen moves s t → answers t request response →
    Runs answers moves (next response) t trace a last →
    Runs answers moves (.ask request next) s ((request, response) :: trace) a last

variable {answers : S → Q → R → Prop} {moves : S → S → Prop}

theorem Runs.moved {program : Program Q R A} (run : Runs answers moves program s trace a t) :
    Relation.ReflTransGen moves s t := by
  induction run with
  | pure => exact .refl
  | ask moved _ _ ih => exact moved.trans ih

theorem runs_request {request : Q} {response : R} : Runs answers moves (.request request) s trace response t ↔
    Relation.ReflTransGen moves s t ∧ answers t request response ∧ trace = [(request, response)] := by
  constructor
  · intro run
    cases run with
    | ask moved answered rest =>
      cases rest
      exact ⟨moved, answered, rfl⟩
  · rintro ⟨moved, answered, rfl⟩
    exact .ask moved answered .pure

theorem runs_bind {program : Program Q R A} {f : A → Program Q R B} {b : B} :
    Runs answers moves (program >>= f) s trace b last ↔ ∃ a t first rest, trace = first ++ rest ∧
      Runs answers moves program s first a t ∧ Runs answers moves (f a) t rest b last := by
  constructor
  · intro run
    induction program generalizing s trace with
    | pure a => exact ⟨a, s, [], trace, rfl, .pure, run⟩
    | ask request next ih =>
      cases run with
      | ask moved answered later =>
        obtain ⟨a, t, first, rest, rfl, one, others⟩ := ih _ later
        exact ⟨a, t, _ :: first, rest, rfl, .ask moved answered one, others⟩
  · rintro ⟨a, t, first, rest, rfl, one, others⟩
    induction one with
    | pure => exact others
    | ask moved answered _ ih => exact .ask moved answered (ih others)

/-! Programs that may fail. -/

/-- A failure ends a program; else the rest goes on from the state it is left in. -/
theorem runs_except {program : ExceptT E (Program Q R) A} {f : A → ExceptT E (Program Q R) B}
    {result : Except E B} : Runs answers moves (program >>= f).run s trace result last ↔
      (∃ error, result = .error error ∧ Runs answers moves program.run s trace (.error error) last) ∨
      ∃ a t first rest, trace = first ++ rest ∧ Runs answers moves program.run s first (.ok a) t ∧
        Runs answers moves (f a).run t rest result last := by
  rw [ExceptT.run_bind, runs_bind]
  constructor
  · rintro ⟨value, t, first, rest, rfl, one, others⟩
    cases value with
    | error error =>
      cases others
      exact .inl ⟨error, rfl, by rwa [List.append_nil]⟩
    | ok a => exact .inr ⟨a, t, first, rest, rfl, one, others⟩
  · rintro (⟨error, rfl, one⟩ | ⟨a, t, first, rest, rfl, one, others⟩)
    · exact ⟨.error error, last, trace, [], (List.append_nil _).symm, one, .pure⟩
    · exact ⟨.ok a, t, first, rest, rfl, one, others⟩

theorem runs_ok {a : A} {result : Except E A} :
    Runs answers moves (pure a : ExceptT E (Program Q R) A).run s trace result last ↔
      result = .ok a ∧ trace = [] ∧ last = s := by
  constructor
  · intro run
    cases run
    exact ⟨rfl, rfl, rfl⟩
  · rintro ⟨rfl, rfl, rfl⟩
    exact .pure

theorem runs_throw {error : E} {result : Except E A} :
    Runs answers moves (throw error : ExceptT E (Program Q R) A).run s trace result last ↔
      result = .error error ∧ trace = [] ∧ last = s := by
  constructor
  · intro run
    cases run
    exact ⟨rfl, rfl, rfl⟩
  · rintro ⟨rfl, rfl, rfl⟩
    exact .pure

theorem runs_lift {program : Program Q R A} {result : Except E A} :
    Runs answers moves (ExceptT.lift program : ExceptT E (Program Q R) A).run s trace result last ↔
      ∃ a, result = .ok a ∧ Runs answers moves program s trace a last := by
  rw [ExceptT.run_lift, map_eq_pure_bind, runs_bind]
  constructor
  · rintro ⟨a, t, first, rest, rfl, one, others⟩
    cases others
    exact ⟨a, rfl, by rwa [List.append_nil]⟩
  · rintro ⟨a, rfl, one⟩
    exact ⟨a, last, trace, [], (List.append_nil _).symm, one, .pure⟩

/-- A loop of programs each of which does what `good` says, or fails as `bad` says. -/
theorem runs_mapM {C : Type} {f : C → ExceptT E (Program Q R) A} {good : C → A → Prop} {bad : List (Q × R) → E → Prop}
    {begin : S} {list : List C} {result : Except E (List A)}
    (later : ∀ before trace error, bad trace error → bad (before ++ trace) error)
    (each : ∀ c ∈ list, ∀ s trace result last, Relation.ReflTransGen moves begin s →
      Runs answers moves (f c).run s trace result last →
        (∃ a, result = .ok a ∧ good c a) ∨ ∃ error, result = .error error ∧ bad trace error)
    (moved : Relation.ReflTransGen moves begin s) (run : Runs answers moves (list.mapM f).run s trace result last) :
    (∃ results, result = .ok results ∧ List.Forall₂ good list results) ∨
      ∃ error, result = .error error ∧ bad trace error := by
  induction list generalizing s trace result last with
  | nil =>
    rw [List.mapM_nil] at run
    exact .inl ⟨[], (runs_ok.mp run).1, .nil⟩
  | cons c rest ih =>
    rw [List.forall_mem_cons] at each
    rw [List.mapM_cons] at run
    rcases runs_except.mp run with ⟨error, rfl, first⟩ | ⟨a, t, before, after, rfl, first, run⟩
    · obtain ⟨a, impossible, _⟩ | ⟨_, same, failed⟩ := each.1 _ _ _ _ moved first
      · contradiction
      · cases same
        exact .inr ⟨error, rfl, failed⟩
    obtain ⟨_, same, does⟩ | ⟨_, impossible, _⟩ := each.1 _ _ _ _ moved first
    · cases same
      have moved := moved.trans first.moved
      rcases runs_except.mp run with ⟨error, rfl, others⟩ | ⟨results, u, middle, ends, rfl, others, run⟩
      · obtain ⟨_, impossible, _⟩ | ⟨_, same, failed⟩ := ih each.2 moved others
        · contradiction
        · cases same
          exact .inr ⟨error, rfl, later before after error failed⟩
      · obtain ⟨_, same, others_do⟩ | ⟨_, impossible, _⟩ := ih each.2 moved others
        · cases same
          exact .inl ⟨a :: results, (runs_ok.mp run).1, .cons does others_do⟩
        · contradiction
    · contradiction

/-- A loop whose programs all succeed where it begins. -/
theorem runs_mapM_ok {C : Type} {f : C → ExceptT E (Program Q R) A} {g : C → A} {list : List C}
    (each : ∀ c ∈ list, ∃ trace, Runs answers moves (f c).run s trace (.ok (g c)) s) :
    ∃ trace, Runs answers moves (list.mapM f).run s trace (.ok (list.map g)) s := by
  induction list with
  | nil =>
    rw [List.mapM_nil]
    exact ⟨[], .pure⟩
  | cons c rest ih =>
    rw [List.forall_mem_cons] at each
    obtain ⟨⟨first, one⟩, others⟩ := each
    obtain ⟨later, run⟩ := ih others
    rw [List.mapM_cons]
    refine ⟨_, runs_except.mpr (.inr ⟨_, s, first, later ++ [], rfl, one, ?_⟩)⟩
    exact runs_except.mpr (.inr ⟨_, s, later, [], rfl, run, .pure⟩)

/-! Two programs that a service cannot tell apart. -/

/-- Programs alike but for their requests, which are related one by one. -/
inductive Alike (related : Q → Q → Prop) : Program Q R A → Program Q R A → Prop where
  | pure (a : A) : Alike related (.pure a) (.pure a)
  | ask : related request request' → (∀ response, Alike related (next response) (next' response)) →
    Alike related (.ask request next) (.ask request' next')

variable {related : Q → Q → Prop}

theorem Alike.bind {program other : Program Q R A} {f g : A → Program Q R B} (alike : Alike related program other)
    (rest : ∀ a, Alike related (f a) (g a)) : Alike related (program >>= f) (other >>= g) := by
  induction alike with
  | pure a => exact rest a
  | ask same _ ih => exact .ask same ih

theorem Alike.except {program other : ExceptT E (Program Q R) A} {f g : A → ExceptT E (Program Q R) B}
    (alike : Alike related program.run other.run) (rest : ∀ a, Alike related (f a).run (g a).run) :
    Alike related (program >>= f).run (other >>= g).run := by
  rw [ExceptT.run_bind, ExceptT.run_bind]
  apply alike.bind
  intro value
  cases value with
  | error error => exact .pure _
  | ok a => exact rest a

theorem Alike.mapM {C : Type} {f g : C → ExceptT E (Program Q R) A} (alike : ∀ c, Alike related (f c).run (g c).run)
    (list : List C) : Alike related (list.mapM f).run (list.mapM g).run := by
  induction list with
  | nil =>
    rw [List.mapM_nil, List.mapM_nil]
    exact .pure _
  | cons c rest ih =>
    rw [List.mapM_cons, List.mapM_cons]
    exact (alike c).except fun _ => ih.except fun _ => .pure _

/-- Services that answer related requests alike take both programs to the same results. -/
theorem Alike.runs {program other : Program Q R A} (alike : Alike related program other) {answers' : S → Q → R → Prop}
    (blind : ∀ {s request request' response}, related request request' → answers s request response →
      answers' s request' response) (run : Runs answers moves program s trace a last) :
    ∃ trace', Runs answers' moves other s trace' a last ∧
      List.Forall₂ (fun entry entry' => related entry.1 entry'.1 ∧ entry.2 = entry'.2) trace trace' := by
  induction alike generalizing s trace with
  | pure a =>
    cases run
    exact ⟨[], .pure, .nil⟩
  | ask same _ ih =>
    cases run with
    | ask moved answered rest =>
      obtain ⟨trace', run', each⟩ := ih _ rest
      exact ⟨_, .ask moved (blind same answered) run', .cons ⟨same, rfl⟩ each⟩

/-! What a program may ask for. -/

/-- Programs all of whose requests are allowed, whatever is answered. -/
inductive Asks (allowed : Q → Prop) : Program Q R A → Prop where
  | pure (a : A) : Asks allowed (.pure a)
  | ask : allowed request → (∀ response, Asks allowed (next response)) → Asks allowed (.ask request next)

variable {allowed : Q → Prop}

theorem Asks.bind {program : Program Q R A} {f : A → Program Q R B} (asks : Asks allowed program)
    (rest : ∀ a, Asks allowed (f a)) : Asks allowed (program >>= f) := by
  induction asks with
  | pure a => exact rest a
  | ask may _ ih => exact .ask may ih

theorem Asks.except {program : ExceptT E (Program Q R) A} {f : A → ExceptT E (Program Q R) B}
    (asks : Asks allowed program.run) (rest : ∀ a, Asks allowed (f a).run) : Asks allowed (program >>= f).run := by
  rw [ExceptT.run_bind]
  apply asks.bind
  intro value
  cases value with
  | error error => exact .pure _
  | ok a => exact rest a

theorem Asks.mapM {C : Type} {f : C → ExceptT E (Program Q R) A} {list : List C}
    (asks : ∀ c ∈ list, Asks allowed (f c).run) : Asks allowed (list.mapM f).run := by
  induction list with
  | nil =>
    rw [List.mapM_nil]
    exact .pure _
  | cons c rest ih =>
    rw [List.forall_mem_cons] at asks
    rw [List.mapM_cons]
    exact asks.1.except fun _ => (ih asks.2).except fun _ => .pure _

theorem Asks.runs {program : Program Q R A} (asks : Asks allowed program)
    (run : Runs answers moves program s trace a last) : ∀ entry ∈ trace, allowed entry.1 := by
  induction run with
  | pure => exact List.forall_mem_nil _
  | ask _ _ _ ih =>
    cases asks with
    | ask may rest => exact List.forall_mem_cons.mpr ⟨may, ih (rest _)⟩

end Client
