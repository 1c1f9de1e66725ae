import FsspecData.Plan.Permissive

/-! Options that ask for nothing. One option is enough to leave the matchers of the
policies for the by-name loop; on such options both plan the same. -/
namespace FsspecData.Plan

open CastRegistry

variable {arrow : Arrow} {provided requested : List FieldDescriptor} {policy : SchemaPolicy}
  {options : ProjectionOptions}

/-- Renames of a field to itself, of fields provided once and requested. -/
structure RenamesIdle (provided requested : List FieldDescriptor) (renames : StringMap String) : Prop where
  itself : ∀ name value, renames.lookup name = some value → value = name
  once : ∀ name, name ∈ renames → provided.countP (·.name = name) = 1
  requested : ∀ name, name ∈ renames → ∃ target ∈ requested, target.name = name

/-- Options without defaults and drops, with idle renames, and with no cast limit but the
policy's own, on requested fields. -/
structure Idle (provided requested : List FieldDescriptor) (policy : SchemaPolicy)
    (options : ProjectionOptions) : Prop where
  renames : RenamesIdle provided requested options.renames
  defaults : options.defaults = ∅
  drop : options.drop = []
  casts : ∀ name limit, options.casts.lookup name = some limit →
    policyCast policy = some limit ∧ ∃ target ∈ requested, target.name = name

/-- The candidate of a provided field that keeps its name. -/
def Candidate.of (entry : FieldDescriptor × Nat) : Candidate := ⟨entry.2, entry.1.name, entry.1⟩

namespace Idle

theorem limit (idle : Idle provided requested policy options) (name : String) :
    (options.casts.lookup name).or (policyCast policy) = policyCast policy := by
  cases given : options.casts.lookup name with
  | none => rfl
  | some limit => exact (idle.casts name limit given).1.symm

theorem names (idle : Idle provided requested policy options) :
    checkNames provided requested options = .ok () := by
  unfold checkNames checkConflicts
  rw [idle.defaults, idle.drop]
  simp only [Fallible.bind_eq_ok]
  refine ⟨(), ?_, (), rfl, (), ?_, (), rfl, ?_⟩
  · rw [List.append_nil]
    apply Fallible.forM_eq_ok.mpr
    intro name member
    exact checkProvided_eq_ok.mpr (idle.renames.once name (AList.mem_keys.mpr member))
  · apply checkRequested_eq_ok.mpr
    intro value member
    obtain ⟨⟨name, value⟩, listed, rfl⟩ := List.mem_map.mp member
    have given : options.renames.lookup name = some value := AList.mem_lookup_iff.mpr listed
    obtain rfl := idle.renames.itself name value given
    apply idle.renames.requested
    exact AList.lookup_isSome.mp (by rw [given]; rfl)
  · apply checkRequested_eq_ok.mpr
    intro name member
    obtain ⟨limit, given⟩ := Option.isSome_iff_exists.mp (AList.lookup_isSome.mpr (AList.mem_keys.mpr member))
    exact (idle.casts name limit given).2

/-- Every provided field is a candidate under its own name. -/
theorem candidates_eq (idle : Idle provided requested policy options) :
    candidates provided options = provided.zipIdx.map Candidate.of := by
  unfold candidates
  have all_kept : provided.zipIdx.filter (fun entry => entry.1.name ∉ options.drop) = provided.zipIdx := by
    simp [idle.drop]
  rw [all_kept]
  apply List.map_congr_left
  intro entry _
  have own : (options.renames.lookup entry.1.name).getD entry.1.name = entry.1.name := by
    cases given : options.renames.lookup entry.1.name with
    | none => rfl
    | some value => exact idle.renames.itself _ _ given
  simp only [Candidate.of, own]

end Idle

/-- Candidates in the order of the fields stand at the fields' positions. -/
theorem zipIdx_candidates (provided : List FieldDescriptor) (start : Nat) :
    ((provided.zipIdx start).map Candidate.of).zipIdx start =
      (provided.zipIdx start).map fun entry => (Candidate.of entry, entry.2) := by
  induction provided generalizing start with
  | nil => rfl
  | cons field rest ih => simp [List.zipIdx_cons, ih]

theorem found_candidates (provided : List FieldDescriptor) (name : String) :
    (provided.zipIdx.map Candidate.of).zipIdx.filter (fun entry => entry.1.name = name) =
      (provided.zipIdx.filter fun entry => entry.1.name = name).map fun entry =>
        (Candidate.of entry, entry.2) := by
  rw [zipIdx_candidates, List.filter_map]
  rfl

/-- On idle options a round of the loop joins the one field of the requested name. -/
theorem choose_idle (idle : Idle provided requested policy options) {target : FieldDescriptor} {i : Nat}
    {choice : Choice} :
    choose arrow (candidates provided options) policy options (target, i) = .ok choice ↔
      ∃ source sourceIndex,
        provided.zipIdx.filter (fun entry => entry.1.name = target.name) = [(source, sourceIndex)] ∧
        Joins policy (policyCast policy) source target ∧
        choice = .inr (mappingOf sourceIndex i source target, sourceIndex) := by
  unfold choose
  dsimp only
  rw [idle.candidates_eq, found_candidates, idle.defaults, AList.lookup_empty]
  generalize provided.zipIdx.filter (fun entry => entry.1.name = target.name) = found
  rcases found with _ | ⟨⟨source, sourceIndex⟩, _ | ⟨other, rest⟩⟩
  · simp
  · simp only [List.map_cons, List.map_nil, Fallible.map_eq_ok, planMapping_eq_ok, idle.limit]
    constructor
    · rintro ⟨mapping, ⟨joins, rfl⟩, rfl⟩
      exact ⟨source, sourceIndex, rfl, joins, rfl⟩
    · rintro ⟨source', sourceIndex', same, joins, rfl⟩
      cases same
      exact ⟨_, ⟨joins, rfl⟩, rfl⟩
  · simp

/-- The choice that a mapping stands for when no candidate is left out. -/
def choiceOf (mapping : FieldMapping) : Choice := .inr (mapping, mapping.sourceIndex)

theorem chosen_idle (mappings : List FieldMapping) :
    chosenMappings (mappings.map choiceOf) = mappings ∧ chosenAdditions (mappings.map choiceOf) = [] := by
  constructor
  · simp [chosenMappings, List.filterMap_map, Function.comp_def, choiceOf]
  · simp [chosenAdditions, List.filterMap_map, Function.comp_def, choiceOf]

theorem mapM_choose_idle (idle : Idle provided requested policy options) {choices : List Choice} :
    requested.zipIdx.mapM (choose arrow (candidates provided options) policy options) = .ok choices ↔
      ∃ mappings, ByName (Joins policy (policyCast policy)) provided requested mappings ∧
        choices = mappings.map choiceOf := by
  rw [Slots.mapM_zipIdx_eq_ok]
  constructor
  · rintro ⟨length, each⟩
    have decided (i : Nat) (target : FieldDescriptor) (at_target : requested[i]? = some target) :
        ∃ source sourceIndex,
          provided.zipIdx.filter (fun entry => entry.1.name = target.name) = [(source, sourceIndex)] ∧
          Joins policy (policyCast policy) source target ∧
          choices[i]? = some (choiceOf (mappingOf sourceIndex i source target)) := by
      obtain ⟨inside, _⟩ := List.getElem?_eq_some_iff.mp at_target
      have at_i := List.getElem?_eq_getElem (length ▸ inside)
      obtain ⟨source, sourceIndex, only, joins, same⟩ :=
        (choose_idle idle).mp (each i target _ at_target at_i)
      exact ⟨source, sourceIndex, only, joins, by rw [at_i, same]; rfl⟩
    have all_mapped : (chosenMappings choices).map choiceOf = choices := by
      have all_right : ∀ choice ∈ choices, ∃ mapping, choice = choiceOf mapping := by
        intro choice member
        obtain ⟨i, at_i⟩ := List.getElem?_of_mem member
        obtain ⟨inside, _⟩ := List.getElem?_eq_some_iff.mp at_i
        obtain ⟨source, sourceIndex, _, _, at_i'⟩ :=
          decided i _ (List.getElem?_eq_getElem (length ▸ inside))
        exact ⟨_, Option.some.inj (at_i.symm.trans at_i')⟩
      clear each length decided
      induction choices with
      | nil => rfl
      | cons choice rest ih =>
        obtain ⟨mapping, rfl⟩ := all_right choice List.mem_cons_self
        have later := ih fun choice member => all_right choice (List.mem_cons_of_mem _ member)
        exact congrArg (choiceOf mapping :: ·) later
    refine ⟨chosenMappings choices, ⟨?_, fun i target at_target => ?_⟩, all_mapped.symm⟩
    · rw [← length, ← congrArg List.length all_mapped, List.length_map]
    · obtain ⟨source, sourceIndex, only, joins, at_i⟩ := decided i target at_target
      refine ⟨source, sourceIndex, only, joins, ?_⟩
      rw [← all_mapped, List.getElem?_map] at at_i
      obtain ⟨mapping, at_mapping, same⟩ := Option.map_eq_some_iff.mp at_i
      rw [at_mapping, (Prod.mk.inj (Sum.inr.inj same)).1]
  · rintro ⟨mappings, byName, rfl⟩
    refine ⟨by rw [List.length_map, byName.length], fun i target choice at_target at_i => ?_⟩
    obtain ⟨source, sourceIndex, only, joins, at_mapping⟩ := byName.each i target at_target
    rw [List.getElem?_map, at_mapping] at at_i
    cases at_i
    exact (choose_idle idle).mpr ⟨source, sourceIndex, only, joins, rfl⟩

/-- The by-name loop on idle options is the by-name matcher of the policy's own limit,
provided every candidate gets used where that is asked. -/
theorem planOperations_idle (idle : Idle provided requested policy options) (inexact : policy ≠ .exact)
    {mappings : List FieldMapping} {additions : List FieldAddition}
    (used : policy = .projection ∨ ((provided.map (·.name)).Nodup ∧
      provided.map (·.name) = requested.map (·.name))) :
    planOperations arrow provided requested policy options = .ok (mappings, additions) ↔
      additions = [] ∧ ByName (Joins policy (policyCast policy)) provided requested mappings := by
  rw [planOperations_eq_ok]
  constructor
  · rintro ⟨choices, decided, rfl, rfl⟩
    obtain ⟨mappings, byName, rfl⟩ := (mapM_choose_idle idle).mp decided.chosen
    obtain ⟨mapped, added⟩ := chosen_idle mappings
    exact ⟨added, mapped.symm ▸ byName⟩
  · rintro ⟨rfl, byName⟩
    obtain ⟨mapped, added⟩ := chosen_idle mappings
    refine ⟨mappings.map choiceOf, ⟨inexact, idle.names, ?_, ?_⟩, mapped.symm, added.symm⟩
    · exact (mapM_choose_idle idle).mpr ⟨mappings, byName, rfl⟩
    · rcases used with rfl | ⟨distinct, aligned⟩
      · rfl
      · refine checkUsed_eq_ok.mpr (.inr fun position inside => ?_)
        rw [idle.candidates_eq, List.length_map, List.length_zipIdx] at inside
        have positional := byName.positional distinct aligned
        have at_source := List.getElem?_eq_getElem inside
        have at_target := List.getElem?_eq_getElem (positional.width ▸ inside)
        obtain ⟨_, _, at_i⟩ := positional.each position _ _ at_source at_target
        exact ⟨_, List.mem_map.mpr ⟨_, List.mem_of_getElem? at_i, rfl⟩⟩

theorem planFieldDescriptors_idle {mappings : List FieldMapping} (inexact : policy ≠ .exact)
    (used : policy = .projection ∨ ((provided.map (·.name)).Nodup ∧
      provided.map (·.name) = requested.map (·.name))) :
    planFieldDescriptors provided requested policy = .ok mappings ↔
      ByName (Joins policy (policyCast policy)) provided requested mappings := by
  cases policy with
  | exact => exact absurd rfl inexact
  | projection => exact planProjection_eq_ok
  | compatible =>
    obtain ⟨distinct, aligned⟩ := used.resolve_left nofun
    refine planCompatible_eq_ok.trans ⟨?_, ?_⟩
    · exact fun positional => positional.byName distinct
    · exact fun byName => byName.positional distinct aligned
  | coerce =>
    obtain ⟨distinct, aligned⟩ := used.resolve_left nofun
    refine planCoerce_eq_ok.trans ⟨?_, ?_⟩
    · exact fun positional => positional.byName distinct
    · exact fun byName => byName.positional distinct aligned

theorem plans_idle (idle : Idle provided requested policy options) (inexact : policy ≠ .exact)
    (used : policy = .projection ∨ ((provided.map (·.name)).Nodup ∧
      provided.map (·.name) = requested.map (·.name)))
    {mappings : List FieldMapping} {additions : List FieldAddition} :
    Plans arrow provided requested policy options mappings additions ↔
      additions = [] ∧ ByName (Joins policy (policyCast policy)) provided requested mappings := by
  rw [Plans, planFieldDescriptors_idle inexact used, planOperations_idle idle inexact used]
  cases options.isEmpty <;> simp

/-- Idle options leave the verdict and the plan of every policy that takes options as they
are: under projection for all schemas, under the two positional policies where both
schemas list the same distinct names. -/
theorem planSchemaWith_idle (arrow : Arrow) (provided requested : Schema) (options : ProjectionOptions) :
    (Idle (schemaDescriptors provided) (schemaDescriptors requested) .projection options →
      ∀ plan, planSchemaWith arrow provided requested .projection options = .ok plan ↔
        planSchema arrow provided requested .projection = .ok plan) ∧
    ∀ policy, policy = .compatible ∨ policy = .coerce →
      (provided.fields.map Field.name).Nodup →
      provided.fields.map Field.name = requested.fields.map Field.name →
      Idle (schemaDescriptors provided) (schemaDescriptors requested) policy options →
      ∀ plan, planSchemaWith arrow provided requested policy options = .ok plan ↔
        planSchema arrow provided requested policy = .ok plan := by
  have no_options (policy : SchemaPolicy) :
      Idle (schemaDescriptors provided) (schemaDescriptors requested) policy {} := by
    refine ⟨⟨?_, ?_, ?_⟩, rfl, rfl, ?_⟩
    all_goals simp
  have both (policy : SchemaPolicy) (inexact : policy ≠ .exact)
      (used : policy = .projection ∨ (((schemaDescriptors provided).map (·.name)).Nodup ∧
        (schemaDescriptors provided).map (·.name) = (schemaDescriptors requested).map (·.name)))
      (idle : Idle (schemaDescriptors provided) (schemaDescriptors requested) policy options)
      (plan : InterchangePlan) : planSchemaWith arrow provided requested policy options = .ok plan ↔
        planSchema arrow provided requested policy = .ok plan := by
    rw [planSchema, planSchemaWith_eq_ok, planSchemaWith_eq_ok, plans_idle idle inexact used,
      plans_idle (no_options policy) inexact used]
  constructor
  · exact both .projection nofun (.inl rfl)
  · intro policy positional distinct aligned
    refine both policy ?_ (.inr ?_)
    · rcases positional with rfl | rfl <;> decide
    · simpa [schemaDescriptors, describe, Function.comp_def] using And.intro distinct aligned

/-- The field `s` renamed to itself, with an optional cast limit. -/
def idleOptions (limit : Option CastKind) : ProjectionOptions where
  renames := ⟨[⟨"s", "s"⟩], by simp [List.NodupKeys, List.keys]⟩
  casts := ⟨limit.toList.map fun limit => ⟨"s", limit⟩, by cases limit <;> simp [List.NodupKeys, List.keys]⟩

theorem idleOptions_idle {limit : Option CastKind} (own : ∀ kind, limit = some kind → policyCast policy = some kind)
    (once : provided.countP (·.name = "s") = 1) (named : ∃ target ∈ requested, target.name = "s") :
    Idle provided requested policy (idleOptions limit) := by
  have renamed (name : String) (member : name ∈ (idleOptions limit).renames) : name = "s" := by
    simpa [idleOptions, AList.mem_keys, AList.keys] using member
  refine ⟨⟨fun name value given => ?_, fun name member => ?_, fun name member => ?_⟩, rfl, rfl,
    fun name kind given => ?_⟩
  · have listed := AList.mem_lookup_iff.mp given
    simp only [idleOptions, List.mem_singleton] at listed
    cases listed
    rfl
  · exact renamed name member ▸ once
  · exact renamed name member ▸ named
  · have listed := AList.mem_lookup_iff.mp given
    obtain ⟨kind', limited, same⟩ := List.mem_map.mp listed
    cases same
    exact ⟨own kind (Option.mem_toList.mp limited), named⟩

theorem planSchemaWith_idle_narrow :
    (∃ plan, planSchemaWith Arrow.small ⟨[.mk "s" .int32 true [], .mk "t" .utf8 true []], []⟩
      ⟨[.mk "s" .int32 true []], []⟩ .projection (idleOptions none) = .ok plan) ∧
    ∃ plan, planSchemaWith Arrow.small ⟨[.mk "s" .int64 true []], []⟩ ⟨[.mk "s" .int32 false []], []⟩
      .coerce (idleOptions (some .lossy)) = .ok plan := by
  obtain ⟨projected, _⟩ := planSchemaWith_idle Arrow.small ⟨[.mk "s" .int32 true [], .mk "t" .utf8 true []], []⟩
    ⟨[.mk "s" .int32 true []], []⟩ (idleOptions none)
  obtain ⟨_, positional⟩ := planSchemaWith_idle Arrow.small ⟨[.mk "s" .int64 true []], []⟩
    ⟨[.mk "s" .int32 false []], []⟩ (idleOptions (some .lossy))
  constructor
  · refine ⟨_, (projected (idleOptions_idle nofun (by decide) ?_) _).mpr rfl⟩
    exact ⟨_, List.mem_singleton_self _, rfl⟩
  · refine ⟨_, (positional .coerce (.inr rfl) (by simp) (by simp [Field.name]) ?_ _).mpr rfl⟩
    exact idleOptions_idle (fun _ same => same) (by decide) ⟨_, List.mem_singleton_self _, rfl⟩

end FsspecData.Plan
