import FsspecData.Plan.ByName
import FsspecData.Plan.Idle
import Mathlib.Logic.Equiv.Basic

/-! By-name plans and the order of the provided fields. Positions occur in a plan as
source indices only, so rearranged fields move these and nothing else. -/
namespace FsspecData

open Slots (Rearranged)

namespace Plan

variable {arrow : Arrow} {provided provided' requested : List FieldDescriptor} {policy : SchemaPolicy}
  {options : ProjectionOptions} {σ : Equiv.Perm Nat} {name : String}

/-- Planning that goes by name: the projection policy's, and that of the by-name loop. -/
def PlansByName (policy : SchemaPolicy) (options : ProjectionOptions) : Prop :=
  policy = .projection ∨ (options.isEmpty = false ∧ policy ≠ .exact)

/-- The mapping that reads from where its source was before. -/
def moveSource (σ : Equiv.Perm Nat) (mapping : FieldMapping) : FieldMapping :=
  { mapping with sourceIndex := σ mapping.sourceIndex }

theorem matches_rearranged (moved : Rearranged σ provided provided') {index : Nat} {source : FieldDescriptor} :
    Matches provided' options name index source ↔ Matches provided options name (σ index) source := by
  constructor
  · intro found
    exact ⟨(moved index).symm.trans found.at_index, found.kept, found.named⟩
  · intro found
    exact ⟨(moved index).trans found.at_index, found.kept, found.named⟩

theorem OnlyMatch.rearranged (moved : Rearranged σ provided provided') {index : Nat} {source : FieldDescriptor}
    (only : OnlyMatch provided options name index source) :
    OnlyMatch provided' options name (σ.symm index) source := by
  refine ⟨(matches_rearranged moved).mpr ?_, fun index' source' found => ?_⟩
  · rw [Equiv.apply_symm_apply]
    exact only.match_
  · rw [← only.only _ _ ((matches_rearranged moved).mp found), Equiv.symm_apply_apply]

theorem Admissible.rearranged (moved : Rearranged σ provided provided')
    (admissible : Admissible arrow provided requested policy options) :
    Admissible arrow provided' requested policy options := by
  obtain ⟨names, sourced, joined, used⟩ := admissible
  refine ⟨⟨fun name operated => ?_, names.separate, names.renames, names.defaults, names.casts⟩,
    fun i target at_target => ?_, fun target member index source found => ?_, used.imp_right ?_⟩
  · rw [moved.perm.countP_eq]
    exact names.once name operated
  · cases sourced i target at_target with
    | provided only undefaulted => exact .provided (only.rearranged moved) undefaulted
    | default unmatched given accepted =>
      refine .default (fun index source found => ?_) given accepted
      exact unmatched _ source ((matches_rearranged moved).mp found)
  · exact joined target member _ source ((matches_rearranged moved).mp found)
  · intro matched index source at_index
    exact matched (σ index) source ((moved index).symm.trans at_index)

/-- The mappings of the rearranged fields, with their sources moved back, and the same
additions. -/
theorem Determined.rearranged (moved : Rearranged σ provided provided')
    {mappings mappings' : List FieldMapping} {additions additions' : List FieldAddition}
    (determined : Determined arrow provided requested options mappings additions)
    (determined' : Determined arrow provided' requested options mappings' additions') :
    mappings = mappings'.map (moveSource σ) ∧ additions' = additions := by
  constructor
  · refine Slots.eq_of_ascending determined.mappings_ascend ?_ fun mapping => ?_
    · rw [List.map_map]
      exact determined'.mappings_ascend
    · rw [determined.mappings_iff, List.mem_map]
      constructor
      · rintro ⟨i, target, index, source, at_target, found, rfl⟩
        refine ⟨mappingOf (σ.symm index) i source target, (determined'.mappings_iff _).mpr ?_, ?_⟩
        · refine ⟨i, target, σ.symm index, source, at_target, (matches_rearranged moved).mpr ?_, rfl⟩
          rwa [Equiv.apply_symm_apply]
        · simp [moveSource, mappingOf]
      · rintro ⟨mapping', member, rfl⟩
        obtain ⟨i, target, index, source, at_target, found, rfl⟩ := (determined'.mappings_iff _).mp member
        exact ⟨i, target, σ index, source, at_target, (matches_rearranged moved).mp found, rfl⟩
  · apply Slots.eq_of_ascending determined'.additions_ascend determined.additions_ascend
    intro addition
    rw [determined'.additions_iff, determined.additions_iff]

/-- Projection without options plans what the by-name loop does. -/
theorem plans_byName (byName : PlansByName policy options) {mappings : List FieldMapping}
    {additions : List FieldAddition} :
    Plans arrow provided requested policy options mappings additions ↔
      planOperations arrow provided requested policy options = .ok (mappings, additions) := by
  rcases byName with rfl | ⟨filled, inexact⟩
  · cases empty : options.isEmpty with
    | true =>
      obtain rfl := eq_default_of_isEmpty empty
      have idle : Idle provided requested .projection {} := by
        refine ⟨⟨?_, ?_, ?_⟩, rfl, rfl, ?_⟩
        all_goals simp
      exact (plans_idle idle nofun (.inl rfl)).trans (planOperations_idle idle nofun (.inl rfl)).symm
    | false => simp [Plans, empty]
  · simp [Plans, filled]

theorem PlansByName.inexact (byName : PlansByName policy options) : policy ≠ .exact := by
  rcases byName with rfl | ⟨_, inexact⟩
  · nofun
  · exact inexact

end Plan

/-- The batch with its columns, and their fields, rearranged. -/
structure RecordBatch.Rearranged (σ : Equiv.Perm Nat) (batch batch' : RecordBatch) : Prop where
  fields : Slots.Rearranged σ batch.schema.fields batch'.schema.fields
  columns : Slots.Rearranged σ batch.columns batch'.columns
  numRows : batch'.numRows = batch.numRows

namespace Plan

open InterchangePlan

variable {arrow : Arrow} {provided provided' requested : Schema} {policy : SchemaPolicy}
  {options : ProjectionOptions} {plan plan' : InterchangePlan} {σ : Equiv.Perm Nat}
  {batch batch' : RecordBatch}

theorem schemaFieldsEqual_rearranged {schema schema' : Schema}
    (moved : Rearranged σ provided.fields provided'.fields) (moved' : Rearranged σ schema.fields schema'.fields) :
    schemaFieldsEqual schema' provided' = schemaFieldsEqual schema provided := by
  have fields := moved.map describe
  have fields' := moved'.map describe
  apply decide_eq_decide.mpr
  constructor
  · intro same
    have back := fields'.symm
    rw [show List.map describe schema'.fields = _ from same] at back
    exact back.congr fields.symm
  · intro same
    rw [show List.map describe schema.fields = _ from same] at fields'
    exact fields'.congr fields

/-- A mapping reads from the rearranged columns what it read before. -/
theorem applyMapping_rearranged (moved : batch.Rearranged σ batch') (mapping : FieldMapping) :
    applyMapping arrow requested batch' mapping = applyMapping arrow requested batch (moveSource σ mapping) := by
  unfold applyMapping moveSource
  rw [moved.columns mapping.sourceIndex]

theorem applyBatch_rearranged (moved : Rearranged σ provided.fields provided'.fields)
    (planned : Planned arrow provided requested policy options plan)
    (planned' : Planned arrow provided' requested policy options plan')
    (mappings : plan.mappings = plan'.mappings.map (moveSource σ)) (additions : plan'.additions = plan.additions)
    (moved' : batch.Rearranged σ batch') : plan'.applyBatch arrow batch' = plan.applyBatch arrow batch := by
  have checks := schemaFieldsEqual_rearranged moved moved'.fields
  rw [← planned.providedSchema, ← planned'.providedSchema] at checks
  cases same : schemaFieldsEqual batch.schema plan.providedSchema with
  | false =>
    have same' := checks.trans same
    rw [applyBatch, applyBatch, same, same']
    rfl
  | true =>
    rw [applyBatch_assemble (checks.trans same), applyBatch_assemble same, planned'.requestedSchema,
      planned.requestedSchema, moved'.numRows]
    have covers := planned.covers
    have covers' := planned'.covers
    rw [Covers, planned.requestedSchema] at covers
    rw [Covers, planned'.requestedSchema] at covers'
    refine congrArg (· >>= _) (Slots.assemble_congr Failure.panic Failure.panic covers' covers ?_ ?_)
    · rw [mappings, List.map_map]
      apply List.map_congr_left
      intro mapping _
      exact Prod.ext rfl (applyMapping_rearranged moved' mapping)
    · rw [additions]
      apply List.map_congr_left
      intro addition _
      rw [applyAddition, applyAddition, moved'.numRows]

theorem planSchemaWith_exists (byName : PlansByName policy options) :
    (∃ plan, planSchemaWith arrow provided requested policy options = .ok plan) ↔
      Admissible arrow (schemaDescriptors provided) (schemaDescriptors requested) policy options := by
  rw [← planOperations_exists byName.inexact]
  constructor
  · rintro ⟨plan, planned⟩
    exact ⟨_, (plans_byName byName).mp (planSchemaWith_eq_ok.mp planned).2⟩
  · rintro ⟨⟨mappings, additions⟩, planned⟩
    exact ⟨⟨.arrow, .arrow, provided, requested, policy, mappings, additions⟩,
      planSchemaWith_eq_ok.mpr ⟨rfl, (plans_byName byName).mpr planned⟩⟩

/-- By-name planning does not depend on the order of the provided fields: rearranged ones
have a plan when the others do, it adds the same, it maps from the rearranged places, and
it does to a rearranged batch what the other does to the batch. -/
theorem planSchemaWith_rearranged (arrow : Arrow) (provided provided' requested : Schema)
    (policy : SchemaPolicy) (options : ProjectionOptions) (byName : PlansByName policy options)
    (σ : Equiv.Perm Nat) (moved : Rearranged σ provided.fields provided'.fields) :
    ((∃ plan', planSchemaWith arrow provided' requested policy options = .ok plan') ↔
      ∃ plan, planSchemaWith arrow provided requested policy options = .ok plan) ∧
    ∀ plan plan', planSchemaWith arrow provided requested policy options = .ok plan →
      planSchemaWith arrow provided' requested policy options = .ok plan' →
      plan'.additions = plan.additions ∧ plan.mappings = plan'.mappings.map (moveSource σ) ∧
      ∀ batch batch' : RecordBatch, batch.Rearranged σ batch' →
        plan'.applyBatch arrow batch' = plan.applyBatch arrow batch := by
  have fields := moved.map describe
  refine ⟨?_, fun plan plan' planned planned' => ?_⟩
  · rw [planSchemaWith_exists byName, planSchemaWith_exists byName]
    exact ⟨fun admissible => admissible.rearranged fields.symm, fun admissible => admissible.rearranged fields⟩
  · have determined := planOperations_determined ((plans_byName byName).mp (planSchemaWith_eq_ok.mp planned).2)
    have determined' := planOperations_determined ((plans_byName byName).mp (planSchemaWith_eq_ok.mp planned').2)
    obtain ⟨mappings, additions⟩ := determined.rearranged fields determined'
    refine ⟨additions, mappings, fun batch batch' moved' => ?_⟩
    exact applyBatch_rearranged moved (planSchemaWith_planned planned) (planSchemaWith_planned planned')
      mappings additions moved'

/-- Two columns, and the same the other way round. -/
def pairBatch : RecordBatch :=
  ⟨⟨[.mk "a" .int64 true [], .mk "b" .utf8 false []], []⟩,
    [⟨.int64, .plain [some (.integer 7), none], rfl⟩, ⟨.utf8, .plain [some (.text "s"), some (.text "t")], rfl⟩],
    2, by decide⟩

def swappedBatch : RecordBatch :=
  ⟨⟨[.mk "b" .utf8 false [], .mk "a" .int64 true []], []⟩,
    [⟨.utf8, .plain [some (.text "s"), some (.text "t")], rfl⟩, ⟨.int64, .plain [some (.integer 7), none], rfl⟩],
    2, by decide⟩

theorem pairBatch_swapped : pairBatch.Rearranged (Equiv.swap 0 1) swappedBatch := by
  have two {α : Type} (a b : α) : Rearranged (Equiv.swap 0 1) [a, b] [b, a] := by
    rintro (_ | _ | i)
    · rfl
    · rfl
    · rw [Equiv.swap_apply_of_ne_of_ne (by omega) (by omega)]
      rfl
  exact ⟨two _ _, two _ _, rfl⟩

theorem planSchemaWith_rearranged_pair :
    ∃ plan plan', planSchemaWith Arrow.small pairBatch.schema ⟨[.mk "b" .int64 true []], []⟩ .coerce
        replaceOptions = .ok plan ∧
      planSchemaWith Arrow.small swappedBatch.schema ⟨[.mk "b" .int64 true []], []⟩ .coerce
        replaceOptions = .ok plan' ∧
      plan.mappings = plan'.mappings.map (moveSource (Equiv.swap 0 1)) ∧
      plan'.applyBatch Arrow.small swappedBatch = plan.applyBatch Arrow.small pairBatch := by
  obtain ⟨plan, plan', planned, planned'⟩ : ∃ plan plan', planSchemaWith Arrow.small pairBatch.schema
        ⟨[.mk "b" .int64 true []], []⟩ .coerce replaceOptions = .ok plan ∧
      planSchemaWith Arrow.small swappedBatch.schema ⟨[.mk "b" .int64 true []], []⟩ .coerce
        replaceOptions = .ok plan' := ⟨_, _, rfl, rfl⟩
  obtain ⟨_, plans⟩ := planSchemaWith_rearranged Arrow.small pairBatch.schema swappedBatch.schema
    ⟨[.mk "b" .int64 true []], []⟩ .coerce replaceOptions (.inr ⟨rfl, nofun⟩) (Equiv.swap 0 1)
    pairBatch_swapped.fields
  obtain ⟨_, mappings, runs⟩ := plans plan plan' planned planned'
  exact ⟨plan, plan', planned, planned', mappings, runs _ _ pairBatch_swapped⟩

end Plan

end FsspecData
