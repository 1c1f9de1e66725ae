import FsspecData.Plan.WellFormed
import FsspecData.Plan.Execute

/-! More permissive planning changes no plan: a stricter policy or a lower cast limit
that succeeds has already chosen what the more permissive one chooses. -/
namespace FsspecData.Plan

open CastRegistry

variable {arrow : Arrow} {provided requested : List FieldDescriptor} {policy policy' : SchemaPolicy}
  {options raised : ProjectionOptions}

/-- Some cast limits of the first are higher in the second; nothing else differs. -/
structure Raises (options raised : ProjectionOptions) : Prop where
  renames : raised.renames = options.renames
  defaults : raised.defaults = options.defaults
  drop : raised.drop = options.drop
  casts : ∀ name, Option.Rel (fun limit limit' => limit.rank ≤ limit'.rank)
    (options.casts.lookup name) (raised.casts.lookup name)

theorem Raises.refl (options : ProjectionOptions) : Raises options options := by
  refine ⟨rfl, rfl, rfl, fun name => ?_⟩
  cases options.casts.lookup name with
  | none => exact .none
  | some limit => exact .some (Nat.le_refl _)

theorem Raises.keys (raises : Raises options raised) (name : String) :
    name ∈ raised.casts.keys ↔ name ∈ options.casts.keys := by
  have related := raises.casts name
  rw [← AList.mem_keys, ← AList.mem_keys, ← AList.lookup_isSome, ← AList.lookup_isSome]
  generalize options.casts.lookup name = limit at related ⊢
  generalize raised.casts.lookup name = limit' at related ⊢
  cases related <;> rfl

theorem Raises.isEmpty (raises : Raises options raised) : raised.isEmpty = options.isEmpty := by
  have casts : raised.casts.entries.isEmpty = options.casts.entries.isEmpty := by
    rw [Bool.eq_iff_iff, List.isEmpty_iff, List.isEmpty_iff]
    have no_keys (map : StringMap CastKind) : map.entries = [] ↔ ∀ name, name ∉ map.keys := by
      rw [← List.eq_nil_iff_forall_not_mem, AList.keys, List.keys, List.map_eq_nil_iff]
    simp only [no_keys, raises.keys]
  simp only [ProjectionOptions.isEmpty, raises.renames, raises.defaults, raises.drop, casts]

theorem Raises.checkNames (raises : Raises options raised)
    (checked : checkNames provided requested options = .ok ()) :
    Plan.checkNames provided requested raised = .ok () := by
  unfold Plan.checkNames checkConflicts at checked ⊢
  rw [raises.renames, raises.defaults, raises.drop]
  simp only [Fallible.bind_eq_ok] at checked ⊢
  obtain ⟨⟨⟩, provided_names, ⟨⟩, conflicts, ⟨⟩, renames, ⟨⟩, defaults, casts⟩ := checked
  refine ⟨(), provided_names, (), conflicts, (), renames, (), defaults, ?_⟩
  rw [checkRequested_eq_ok] at casts ⊢
  exact fun name member => casts name ((raises.keys name).mp member)

/-- A field's own limit is raised, or it has none and the policy's applies. -/
theorem Raises.limitLe (raises : Raises options raised) (le : LimitLe (policyCast policy) (policyCast policy'))
    (name : String) :
    LimitLe ((options.casts.lookup name).or (policyCast policy))
      ((raised.casts.lookup name).or (policyCast policy')) := by
  have related := raises.casts name
  generalize options.casts.lookup name = limit at related ⊢
  generalize raised.casts.lookup name = limit' at related ⊢
  cases related with
  | none => simpa using le
  | some within =>
    rintro max ⟨⟩
    exact ⟨_, rfl, within⟩

theorem choose_mono (raises : Raises options raised)
    (le : LimitLe (policyCast policy) (policyCast policy')) (coercing : policy = .coerce → policy' = .coerce)
    {sources : List Candidate} {entry : FieldDescriptor × Nat} {choice : Choice}
    (chosen : choose arrow sources policy options entry = .ok choice) :
    choose arrow sources policy' raised entry = .ok choice := by
  obtain ⟨target, i⟩ := entry
  unfold choose at chosen ⊢
  rw [raises.defaults]
  dsimp only at chosen ⊢
  generalize sources.zipIdx.filter (fun entry => entry.1.name = target.name) = found at chosen ⊢
  generalize options.defaults.lookup target.name = default at chosen ⊢
  rcases found with _ | ⟨⟨candidate, position⟩, _ | ⟨other, rest⟩⟩ <;> cases default
  case cons.nil.none =>
    obtain ⟨mapping, planned, rfl⟩ := Fallible.map_eq_ok.mp chosen
    obtain ⟨joins, rfl⟩ := planMapping_eq_ok.mp planned
    refine Fallible.map_eq_ok.mpr ⟨_, planMapping_eq_ok.mpr ⟨?_, rfl⟩, rfl⟩
    exact joins.mono (raises.limitLe le target.name) coercing
  all_goals exact chosen

theorem Decided.mono (raises : Raises options raised)
    (le : LimitLe (policyCast policy) (policyCast policy')) (coercing : policy = .coerce → policy' = .coerce)
    (inexact : policy' ≠ .exact) (projecting : policy' = .projection ↔ policy = .projection)
    {choices : List Choice} (decided : Decided arrow provided requested policy options choices) :
    Decided arrow provided requested policy' raised choices := by
  have same_sources : candidates provided raised = candidates provided options := by
    simp only [candidates, raises.renames, raises.drop]
  refine ⟨inexact, raises.checkNames decided.names, ?_, ?_⟩
  · rw [same_sources]
    refine Fallible.mapM_eq_ok.mpr ((Fallible.mapM_eq_ok.mp decided.chosen).imp fun _ _ chosen => ?_)
    exact choose_mono raises le coercing chosen
  · have used := decided.used
    rw [same_sources]
    unfold checkUsed at used ⊢
    simpa only [projecting] using used

theorem planOperations_mono (raises : Raises options raised)
    (le : LimitLe (policyCast policy) (policyCast policy')) (coercing : policy = .coerce → policy' = .coerce)
    (inexact : policy' ≠ .exact) (projecting : policy' = .projection ↔ policy = .projection)
    {operations : List FieldMapping × List FieldAddition}
    (planned : planOperations arrow provided requested policy options = .ok operations) :
    planOperations arrow provided requested policy' raised = .ok operations := by
  obtain ⟨choices, decided, mapped, added⟩ := planOperations_eq_ok.mp planned
  exact planOperations_eq_ok.mpr ⟨choices, decided.mono raises le coercing inexact projecting, mapped, added⟩

theorem compatible_le_coerce : LimitLe (policyCast .compatible) (policyCast .coerce) := by
  rintro max ⟨⟩
  exact ⟨.lossy, rfl, by decide⟩

/-- The exact matcher's plan is the compatible one's. -/
theorem planExact_compatible {mappings : List FieldMapping}
    (planned : planExact provided requested = .ok mappings) :
    planCompatible provided requested = .ok mappings := by
  apply planCompatible_eq_ok.mpr
  apply (planExact_eq_ok.mp planned).mono
  exact fun _ _ joined => joined.1.mono (.none _) nofun

/-- Where provided names are distinct, the exact matcher's plan is the projection's. -/
theorem planExact_projection {mappings : List FieldMapping}
    (distinct : (provided.map (·.name)).Nodup) (planned : planExact provided requested = .ok mappings) :
    planProjection provided requested = .ok mappings := by
  apply planProjection_eq_ok.mpr
  apply Positional.byName _ distinct
  apply (planExact_eq_ok.mp planned).mono
  exact fun _ _ joined => joined.1.mono (.none _) nofun

theorem planCompatible_coerce {mappings : List FieldMapping}
    (planned : planCompatible provided requested = .ok mappings) :
    planCoerce provided requested = .ok mappings := by
  apply planCoerce_eq_ok.mpr
  apply (planCompatible_eq_ok.mp planned).mono
  exact fun _ _ joined => joined.mono compatible_le_coerce fun _ => rfl

theorem planOperations_exact {operations : List FieldMapping × List FieldAddition} :
    planOperations arrow provided requested .exact options ≠ .ok operations := by
  simp [planOperations]

/-- A policy that permits more plans the same, and so do raised cast limits. -/
theorem planSchemaWith_permissive (arrow : Arrow) (provided requested : Schema)
    (options : ProjectionOptions) :
    (∀ plan, planSchemaWith arrow provided requested .exact options = .ok plan →
      planSchemaWith arrow provided requested .compatible options = .ok { plan with policy := .compatible } ∧
      ((provided.fields.map Field.name).Nodup →
        planSchemaWith arrow provided requested .projection options =
          .ok { plan with policy := .projection })) ∧
    (∀ plan, planSchemaWith arrow provided requested .compatible options = .ok plan →
      planSchemaWith arrow provided requested .coerce options = .ok { plan with policy := .coerce }) ∧
    ∀ policy raised plan, Raises options raised →
      planSchemaWith arrow provided requested policy options = .ok plan →
      planSchemaWith arrow provided requested policy raised = .ok plan := by
  refine ⟨fun plan planned => ?_, fun plan planned => ?_, fun policy raised plan raises planned => ?_⟩
  · obtain ⟨shape, ⟨empty, none_added, matched⟩ | ⟨_, operations⟩⟩ := planSchemaWith_eq_ok.mp planned
    · constructor
      · refine planSchemaWith_eq_ok.mpr ⟨by rw [shape], .inl ⟨empty, none_added, ?_⟩⟩
        exact planExact_compatible matched
      · intro distinct
        refine planSchemaWith_eq_ok.mpr ⟨by rw [shape], .inl ⟨empty, none_added, ?_⟩⟩
        apply planExact_projection _ matched
        simpa [schemaDescriptors, describe, Function.comp_def] using distinct
    · exact absurd operations planOperations_exact
  · obtain ⟨shape, ⟨empty, none_added, matched⟩ | ⟨filled, operations⟩⟩ := planSchemaWith_eq_ok.mp planned
    · refine planSchemaWith_eq_ok.mpr ⟨by rw [shape], .inl ⟨empty, none_added, ?_⟩⟩
      exact planCompatible_coerce matched
    · refine planSchemaWith_eq_ok.mpr ⟨by rw [shape], .inr ⟨filled, ?_⟩⟩
      exact planOperations_mono (.refl options) compatible_le_coerce (fun _ => rfl) (by decide)
        (by decide) operations
  · obtain ⟨shape, ⟨empty, none_added, matched⟩ | ⟨filled, operations⟩⟩ := planSchemaWith_eq_ok.mp planned
    · exact planSchemaWith_eq_ok.mpr ⟨shape, .inl ⟨raises.isEmpty.trans empty, none_added, matched⟩⟩
    · refine planSchemaWith_eq_ok.mpr ⟨shape, .inr ⟨raises.isEmpty.trans filled, ?_⟩⟩
      have inexact : policy ≠ .exact := by
        rintro rfl
        exact planOperations_exact operations
      exact planOperations_mono raises (.refl _) id inexact .rfl operations

/-- One cast limit, for the field `s`. -/
def limitOptions (limit : CastKind) : ProjectionOptions where
  casts := ⟨[⟨"s", limit⟩], by simp [List.NodupKeys, List.keys]⟩

theorem limitOptions_raises {limit limit' : CastKind} (le : limit.rank ≤ limit'.rank) :
    Raises (limitOptions limit) (limitOptions limit') := by
  refine ⟨rfl, rfl, rfl, fun name => ?_⟩
  by_cases same : name = "s"
  · subst same
    exact .some le
  · have unlimited (kind : CastKind) : (limitOptions kind).casts.lookup name = none := by
      rw [AList.lookup_eq_none]
      simpa [limitOptions, AList.mem_keys, AList.keys] using same
    rw [unlimited, unlimited]
    exact .none

theorem planSchemaWith_permissive_text :
    (∃ plan, planSchemaWith Arrow.small ⟨[.mk "s" .utf8 true []], []⟩ ⟨[.mk "s" .utf8 true []], []⟩
        .exact {} = .ok plan ∧
      planSchemaWith Arrow.small ⟨[.mk "s" .utf8 true []], []⟩ ⟨[.mk "s" .utf8 true []], []⟩
        .projection {} = .ok { plan with policy := .projection }) ∧
    ∃ plan, planSchemaWith Arrow.small ⟨[.mk "s" .utf8 true []], []⟩ ⟨[.mk "s" .int64 true []], []⟩
        .compatible (limitOptions .runtimeChecked) = .ok plan ∧
      planSchemaWith Arrow.small ⟨[.mk "s" .utf8 true []], []⟩ ⟨[.mk "s" .int64 true []], []⟩
        .coerce (limitOptions .runtimeChecked) = .ok { plan with policy := .coerce } ∧
      planSchemaWith Arrow.small ⟨[.mk "s" .utf8 true []], []⟩ ⟨[.mk "s" .int64 true []], []⟩
        .compatible (limitOptions .lossy) = .ok plan := by
  obtain ⟨plan, planned⟩ : ∃ plan, planSchemaWith Arrow.small ⟨[.mk "s" .utf8 true []], []⟩
      ⟨[.mk "s" .utf8 true []], []⟩ .exact {} = .ok plan := ⟨_, rfl⟩
  obtain ⟨plan', planned'⟩ : ∃ plan, planSchemaWith Arrow.small ⟨[.mk "s" .utf8 true []], []⟩
      ⟨[.mk "s" .int64 true []], []⟩ .compatible (limitOptions .runtimeChecked) = .ok plan := ⟨_, rfl⟩
  obtain ⟨exact, _, _⟩ := planSchemaWith_permissive Arrow.small ⟨[.mk "s" .utf8 true []], []⟩
    ⟨[.mk "s" .utf8 true []], []⟩ {}
  obtain ⟨_, compatible, raise⟩ := planSchemaWith_permissive Arrow.small ⟨[.mk "s" .utf8 true []], []⟩
    ⟨[.mk "s" .int64 true []], []⟩ (limitOptions .runtimeChecked)
  refine ⟨⟨plan, planned, (exact plan planned).2 (by simp)⟩, plan', planned', compatible plan' planned', ?_⟩
  exact raise .compatible _ plan' (limitOptions_raises (by decide)) planned'

end FsspecData.Plan
