import Mathlib.Data.List.Forall2

/-! Inversion rules for fallible computations: when a chain, a traversal or a loop of
`Except` steps succeeds, and what it then returns. -/
namespace Fallible

variable {ε α β σ : Type}

@[simp] theorem ok_bind {a : α} {f : α → Except ε β} : (.ok a >>= f) = f a := rfl

theorem bind_eq_ok {x : Except ε α} {f : α → Except ε β} {b : β} :
    (x >>= f) = .ok b ↔ ∃ a, x = .ok a ∧ f a = .ok b := by
  cases x <;> simp [bind, Except.bind]

theorem bind_eq_error {x : Except ε α} {f : α → Except ε β} {e : ε} :
    (x >>= f) = .error e ↔ x = .error e ∨ ∃ a, x = .ok a ∧ f a = .error e := by
  cases x <;> simp [bind, Except.bind]

@[simp] theorem map_eq_ok {x : Except ε α} {f : α → β} {b : β} :
    (f <$> x) = .ok b ↔ ∃ a, x = .ok a ∧ f a = b := by
  cases x <;> simp [Functor.map, Except.map]

theorem map_eq_error {x : Except ε α} {f : α → β} {e : ε} : (f <$> x) = .error e ↔ x = .error e := by
  cases x <;> simp [Functor.map, Except.map]

@[simp] theorem mapError_eq_ok {ε' : Type} {x : Except ε α} {wrap : ε → ε'} {a : α} :
    x.mapError wrap = .ok a ↔ x = .ok a := by
  cases x <;> simp [Except.mapError]

theorem pure_eq_ok {a b : α} : (pure a : Except ε α) = .ok b ↔ a = b := by
  simp [pure, Except.pure]

/-- A loop of checks succeeds when each check does. -/
theorem forM_eq_ok {check : α → Except ε Unit} {list : List α} :
    list.forM check = .ok () ↔ ∀ a ∈ list, check a = .ok () := by
  induction list with
  | nil => simp [pure, Except.pure]
  | cons a rest ih =>
    rw [List.forall_mem_cons, ← ih]
    refine bind_eq_ok.trans ?_
    constructor
    · rintro ⟨⟨⟩, first, others⟩
      exact ⟨first, others⟩
    · rintro ⟨first, others⟩
      exact ⟨(), first, others⟩

/-- A failing loop of checks fails as one of its checks does. -/
theorem forM_eq_error {check : α → Except ε Unit} {list : List α} {e : ε} (failed : list.forM check = .error e) :
    ∃ a ∈ list, check a = .error e := by
  induction list with
  | nil => simp [pure, Except.pure] at failed
  | cons a rest ih =>
    rcases bind_eq_error.mp failed with first | ⟨_, _, later⟩
    · exact ⟨a, List.mem_cons_self, first⟩
    · obtain ⟨other, member, fails⟩ := ih later
      exact ⟨other, List.mem_cons_of_mem _ member, fails⟩

/-- A traversal succeeds pointwise. -/
theorem mapM_eq_ok {f : α → Except ε β} {list : List α} {results : List β} :
    list.mapM f = .ok results ↔ List.Forall₂ (fun a b => f a = .ok b) list results := by
  induction list generalizing results with
  | nil => simp [pure, Except.pure, eq_comm]
  | cons a rest ih =>
    rw [List.mapM_cons, bind_eq_ok, List.forall₂_cons_left_iff]
    constructor
    · rintro ⟨b, first, others⟩
      obtain ⟨bs, others, same⟩ := bind_eq_ok.mp others
      exact ⟨b, bs, first, ih.mp others, (pure_eq_ok.mp same).symm⟩
    · rintro ⟨b, bs, first, others, rfl⟩
      exact ⟨b, first, bind_eq_ok.mpr ⟨bs, ih.mpr others, rfl⟩⟩

theorem mapM_eq_some {f : α → Option β} {list : List α} {results : List β} :
    list.mapM f = some results ↔ List.Forall₂ (fun a b => f a = some b) list results := by
  induction list generalizing results with
  | nil => simp [eq_comm]
  | cons a rest ih =>
    rw [List.mapM_cons, List.forall₂_cons_left_iff]
    constructor
    · intro traversed
      obtain ⟨b, first, later⟩ := Option.bind_eq_some_iff.mp traversed
      obtain ⟨bs, others, same⟩ := Option.bind_eq_some_iff.mp later
      exact ⟨b, bs, first, ih.mp others, (Option.some.inj same).symm⟩
    · rintro ⟨b, bs, first, others, rfl⟩
      rw [first, ih.mpr others]
      rfl

/-- A failing traversal fails as one of its elements does. -/
theorem mapM_eq_error {f : α → Except ε β} {list : List α} {e : ε} (h : list.mapM f = .error e) :
    ∃ a ∈ list, f a = .error e := by
  induction list with
  | nil => simp [pure, Except.pure] at h
  | cons a rest ih =>
    rw [List.mapM_cons] at h
    cases first : f a with
    | error e' =>
      rw [first] at h
      cases h
      exact ⟨a, List.mem_cons_self, first⟩
    | ok b =>
      rw [first] at h
      cases others : rest.mapM f with
      | ok bs => rw [others] at h; contradiction
      | error e' =>
        rw [others] at h
        cases h
        obtain ⟨a', member, fails⟩ := ih others
        exact ⟨a', List.mem_cons_of_mem _ member, fails⟩

theorem mapM_exists {f : α → Except ε β} {list : List α} :
    (∃ results, list.mapM f = .ok results) ↔ ∀ a ∈ list, ∃ b, f a = .ok b := by
  constructor
  · rintro ⟨results, traversed⟩ a member
    obtain ⟨i, inside, rfl⟩ := List.mem_iff_getElem.mp member
    have each := mapM_eq_ok.mp traversed
    exact ⟨_, (List.forall₂_iff_get.mp each).2 i inside (each.length_eq ▸ inside)⟩
  · intro each
    cases traversed : list.mapM f with
    | ok results => exact ⟨results, rfl⟩
    | error e =>
      obtain ⟨a, member, fails⟩ := mapM_eq_error traversed
      obtain ⟨b, made⟩ := each a member
      cases fails.symm.trans made

/-- A successful traversal returns the value of each element, and nothing else. -/
theorem mem_mapM {f : α → Except ε β} {list : List α} {results : List β} (traversed : list.mapM f = .ok results)
    {b : β} : b ∈ results ↔ ∃ a ∈ list, f a = .ok b := by
  have each := mapM_eq_ok.mp traversed
  clear traversed
  induction each with
  | nil => simp
  | @cons a b' _ _ first _ ih =>
    rw [List.mem_cons, List.exists_mem_cons_iff, first]
    exact or_congr ⟨fun same => congrArg Except.ok same.symm, fun same => (Except.ok.inj same).symm⟩ ih

/-- Taking a value out of an option, or failing where there is none. -/
def orFail (failure : ε) : Option α → Except ε α
  | some a => .ok a
  | none => .error failure

@[simp] theorem orFail_eq_ok {failure : ε} {found : Option α} {a : α} :
    orFail failure found = .ok a ↔ found = some a := by
  cases found <;> simp [orFail]

theorem mapM_orFail (failure : ε) (row : List α) : (row.map some).mapM (orFail failure) = .ok row := by
  rw [mapM_eq_ok, List.forall₂_map_left_iff, List.forall₂_same]
  exact fun _ _ => rfl

/-- A loop whose fallible part does not read the accumulator is a traversal followed
by an infallible fold. -/
theorem foldlM_eq_mapM {step : σ → α → Except ε σ} {f : α → Except ε β} {push : σ → β → σ}
    (splits : ∀ s a, step s a = push s <$> f a) (list : List α) (s : σ) :
    list.foldlM step s = List.foldl push s <$> list.mapM f := by
  induction list generalizing s with
  | nil => rfl
  | cons a rest ih =>
    rw [List.foldlM_cons, List.mapM_cons, splits]
    cases f a with
    | error e => rfl
    | ok b =>
      change rest.foldlM step (push s b) = _
      rw [ih]
      cases rest.mapM f <;> rfl

end Fallible
