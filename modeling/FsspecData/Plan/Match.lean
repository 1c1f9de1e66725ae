import FsspecData.Plan.Planner
import FsspecData.Library.Slots

/-! The matchers read backwards: when each succeeds, and with which mappings. One check
of a source and a target serves them all; the policies differ in its limit. -/
namespace FsspecData.Plan

open CastRegistry

/-- What planning checks of one mapping between two fields. -/
structure Fits (policy : SchemaPolicy) (limit : Option CastKind) (source target : FieldDescriptor)
    (mapping : FieldMapping) : Prop where
  cast : mapping.cast = classify source.dataType target.dataType
  allowed : source.dataType ≠ target.dataType →
    ∃ kind max, mapping.cast = some kind ∧ limit = some max ∧ kind.rank ≤ max.rank
  nulls : mapping.checkNulls = (source.nullable && !target.nullable)
  coerced : mapping.checkNulls = true → policy = .coerce

/-- The mapping that `Fits` describes, between two indices. -/
def mappingOf (sourceIndex targetIndex : Nat) (source target : FieldDescriptor) : FieldMapping :=
  ⟨sourceIndex, targetIndex, classify source.dataType target.dataType, source.nullable && !target.nullable⟩

/-- Two fields that a mapping can join under a policy and a limit. -/
structure Joins (policy : SchemaPolicy) (limit : Option CastKind) (source target : FieldDescriptor) :
    Prop where
  allowed : source.dataType ≠ target.dataType →
    ∃ kind max, classify source.dataType target.dataType = some kind ∧ limit = some max ∧ kind.rank ≤ max.rank
  coerced : (source.nullable && !target.nullable) = true → policy = .coerce

/-- The limit of the second is at least that of the first. -/
def LimitLe (limit limit' : Option CastKind) : Prop :=
  ∀ max, limit = some max → ∃ max', limit' = some max' ∧ max.rank ≤ max'.rank

variable {provided requested : List FieldDescriptor} {policy policy' : SchemaPolicy}
  {limit limit' : Option CastKind} {source target : FieldDescriptor} {mapping : FieldMapping}

theorem LimitLe.refl (limit : Option CastKind) : LimitLe limit limit :=
  fun max same => ⟨max, same, Nat.le_refl _⟩

theorem LimitLe.none (limit : Option CastKind) : LimitLe none limit := nofun

theorem Joins.fits (joins : Joins policy limit source target) (sourceIndex targetIndex : Nat) :
    Fits policy limit source target (mappingOf sourceIndex targetIndex source target) :=
  ⟨rfl, joins.allowed, rfl, joins.coerced⟩

theorem Fits.joins (fits : Fits policy limit source target mapping) : Joins policy limit source target :=
  ⟨fits.cast ▸ fits.allowed, fits.nulls ▸ fits.coerced⟩

/-- A wider limit joins what a narrower one does. -/
theorem Joins.mono (joins : Joins policy limit source target) (wider : LimitLe limit limit')
    (coercing : policy = .coerce → policy' = .coerce) : Joins policy' limit' source target := by
  refine ⟨fun distinct => ?_, fun narrows => coercing (joins.coerced narrows)⟩
  obtain ⟨kind, max, known, limited, within⟩ := joins.allowed distinct
  obtain ⟨max', limited', le⟩ := wider max limited
  exact ⟨kind, max', known, limited', Nat.le_trans within le⟩

theorem checkCast_eq_ok : checkCast source target (classify source.dataType target.dataType) limit = .ok () ↔
    (source.dataType ≠ target.dataType → ∃ kind max,
      classify source.dataType target.dataType = some kind ∧ limit = some max ∧ kind.rank ≤ max.rank) := by
  unfold checkCast
  by_cases same : source.dataType = target.dataType
  · simp [same]
  · rw [if_neg same]
    cases limit with
    | none => simp [same]
    | some max =>
      cases classify source.dataType target.dataType with
      | none => simp [same]
      | some kind =>
        by_cases exceeds : kind.rank > max.rank
        · simp [same, exceeds]
        · simp [same, Nat.not_lt.mp exceeds]

theorem planMapping_eq_ok {sourceIndex targetIndex : Nat} {castOverride : Option CastKind} :
    planMapping sourceIndex targetIndex source target policy castOverride = .ok mapping ↔
      Joins policy (castOverride.or (policyCast policy)) source target ∧
        mapping = mappingOf sourceIndex targetIndex source target := by
  unfold planMapping
  rw [Fallible.bind_eq_ok]
  constructor
  · rintro ⟨⟨⟩, allowed, h⟩
    dsimp only at h
    split_ifs at h with narrows
    cases h
    refine ⟨⟨checkCast_eq_ok.mp allowed, fun checks => ?_⟩, rfl⟩
    by_contra uncoerced
    exact narrows (by simpa [uncoerced] using checks)
  · rintro ⟨joins, rfl⟩
    refine ⟨(), checkCast_eq_ok.mpr joins.allowed, ?_⟩
    dsimp only
    split_ifs with narrows
    · obtain ⟨narrows, uncoerced⟩ := Bool.and_eq_true_iff.mp narrows
      exact absurd (joins.coerced narrows) (of_decide_eq_true uncoerced)
    · rfl

theorem planPositional_eq_ok {check : Nat → FieldDescriptor → FieldDescriptor →
      Except InterchangeError FieldMapping} {mappings : List FieldMapping} :
    planPositional provided requested check = .ok mappings ↔
      provided.length = requested.length ∧ mappings.length = requested.length ∧
        ∀ i source target mapping, provided[i]? = some source → requested[i]? = some target →
          mappings[i]? = some mapping → source.name = target.name ∧ check i source target = .ok mapping := by
  unfold planPositional
  by_cases widths : provided.length = requested.length
  · rw [if_neg (not_not.mpr widths), Slots.mapM_zipIdx_eq_ok, List.length_zip, widths, Nat.min_self]
    have each (i : Nat) (source target : FieldDescriptor) (mapping : FieldMapping) :
        ((if source.name ≠ target.name then .error (.fieldName i source.name target.name)
          else check i source target : Except InterchangeError FieldMapping) = .ok mapping) ↔
          source.name = target.name ∧ check i source target = .ok mapping := by
      split_ifs with renamed
      · simp [renamed]
      · simp [not_not.mp renamed]
    constructor
    · rintro ⟨length, all⟩
      refine ⟨rfl, length, fun i source target mapping at_source at_target at_i => ?_⟩
      exact (each i source target mapping).mp
        (all i (source, target) mapping (List.getElem?_zip_eq_some.mpr ⟨at_source, at_target⟩) at_i)
    · rintro ⟨-, length, all⟩
      refine ⟨length, fun i pair mapping at_pair at_i => ?_⟩
      obtain ⟨at_source, at_target⟩ := List.getElem?_zip_eq_some.mp at_pair
      exact (each i pair.1 pair.2 mapping).mpr (all i pair.1 pair.2 mapping at_source at_target at_i)
  · simp [widths]

/-- Fields joined by position: as many, of the same names, each pair joined. -/
structure Positional (joins : FieldDescriptor → FieldDescriptor → Prop)
    (provided requested : List FieldDescriptor) (mappings : List FieldMapping) : Prop where
  width : provided.length = requested.length
  length : mappings.length = requested.length
  each : ∀ (i : Nat) source target, provided[i]? = some source → requested[i]? = some target →
    source.name = target.name ∧ joins source target ∧ mappings[i]? = some (mappingOf i i source target)

/-- A positional matcher whose check decides whether two fields join. -/
theorem planPositional_joins {check : Nat → FieldDescriptor → FieldDescriptor →
      Except InterchangeError FieldMapping} {joins : FieldDescriptor → FieldDescriptor → Prop}
    (decides : ∀ i source target mapping, check i source target = .ok mapping ↔
      joins source target ∧ mapping = mappingOf i i source target) {mappings : List FieldMapping} :
    planPositional provided requested check = .ok mappings ↔
      Positional joins provided requested mappings := by
  rw [planPositional_eq_ok]
  constructor
  · rintro ⟨width, length, each⟩
    refine ⟨width, length, fun i source target at_source at_target => ?_⟩
    obtain ⟨inside, _⟩ := List.getElem?_eq_some_iff.mp at_target
    have at_i := List.getElem?_eq_getElem (length ▸ inside)
    obtain ⟨named, checked⟩ := each i source target _ at_source at_target at_i
    obtain ⟨joined, same⟩ := (decides i source target _).mp checked
    exact ⟨named, joined, same ▸ at_i⟩
  · intro positional
    refine ⟨positional.width, positional.length, fun i source target mapping at_source at_target at_i => ?_⟩
    obtain ⟨named, joined, at_i'⟩ := positional.each i source target at_source at_target
    cases at_i.symm.trans at_i'
    exact ⟨named, (decides i source target _).mpr ⟨joined, rfl⟩⟩

/-- Every mapping of a positional plan joins the fields at its own index. -/
theorem Positional.at_index {joins : FieldDescriptor → FieldDescriptor → Prop}
    {mappings : List FieldMapping} (positional : Positional joins provided requested mappings) {i : Nat}
    (at_i : mappings[i]? = some mapping) :
    ∃ source target, provided[i]? = some source ∧ requested[i]? = some target ∧
      source.name = target.name ∧ joins source target ∧ mapping = mappingOf i i source target := by
  obtain ⟨inside, _⟩ := List.getElem?_eq_some_iff.mp at_i
  have inside_requested : i < requested.length := by rwa [← positional.length]
  have inside_provided : i < provided.length := by rwa [positional.width]
  have at_source := List.getElem?_eq_getElem inside_provided
  have at_target := List.getElem?_eq_getElem inside_requested
  obtain ⟨named, joined, at_i'⟩ := positional.each i _ _ at_source at_target
  exact ⟨_, _, at_source, at_target, named, joined, Option.some.inj (at_i.symm.trans at_i')⟩

theorem Positional.mono {joins joins' : FieldDescriptor → FieldDescriptor → Prop}
    {mappings : List FieldMapping} (positional : Positional joins provided requested mappings)
    (weaker : ∀ source target, joins source target → joins' source target) :
    Positional joins' provided requested mappings := by
  refine ⟨positional.width, positional.length, fun i source target at_source at_target => ?_⟩
  obtain ⟨named, joined, at_i⟩ := positional.each i source target at_source at_target
  exact ⟨named, weaker source target joined, at_i⟩

theorem validateField_eq_ok :
    validateField source target = .ok () ↔ Joins .projection none source target := by
  unfold validateField
  split_ifs with distinct narrows
  · simp only [false_iff]
    intro joins
    obtain ⟨_, _, _, limited, _⟩ := joins.allowed distinct
    contradiction
  · simp only [false_iff]
    exact fun joins => nomatch joins.coerced narrows
  · simp only [true_iff]
    exact ⟨fun other => absurd other distinct, fun checks => absurd checks narrows⟩

/-- Without a limit the types are equal, so nothing is cast, and nothing is checked. -/
theorem Joins.mappingOf_eq (joins : Joins policy none source target) (uncoerced : policy ≠ .coerce)
    (sourceIndex targetIndex : Nat) :
    mappingOf sourceIndex targetIndex source target = ⟨sourceIndex, targetIndex, none, false⟩ := by
  have same : source.dataType = target.dataType := by
    by_contra distinct
    obtain ⟨_, _, _, limited, _⟩ := joins.allowed distinct
    contradiction
  have keeps : (source.nullable && !target.nullable) = false := by
    cases narrows : (source.nullable && !target.nullable) with
    | false => rfl
    | true => exact absurd (joins.coerced narrows) uncoerced
  rw [mappingOf, same, classify_self, keeps]

/-- What the exact policy asks of two fields. -/
def JoinsExactly (source target : FieldDescriptor) : Prop :=
  Joins .exact none source target ∧ source.nullable = target.nullable

theorem planExact_eq_ok {mappings : List FieldMapping} :
    planExact provided requested = .ok mappings ↔ Positional JoinsExactly provided requested mappings := by
  unfold planExact
  apply planPositional_joins
  intro i source target mapping
  rw [Fallible.bind_eq_ok]
  constructor
  · rintro ⟨⟨⟩, valid, h⟩
    split_ifs at h with differs
    cases h
    have joins : Joins .exact none source target := (validateField_eq_ok.mp valid).mono (.refl none) nofun
    exact ⟨⟨joins, not_not.mp differs⟩, (joins.mappingOf_eq nofun i i).symm⟩
  · rintro ⟨⟨joins, same⟩, rfl⟩
    refine ⟨(), validateField_eq_ok.mpr (joins.mono (.refl none) nofun), ?_⟩
    rw [if_neg (not_not.mpr same), joins.mappingOf_eq nofun]

theorem planCompatible_eq_ok {mappings : List FieldMapping} :
    planCompatible provided requested = .ok mappings ↔
      Positional (Joins .compatible (some .safe)) provided requested mappings := by
  unfold planCompatible
  apply planPositional_joins
  intro i source target mapping
  rw [Fallible.bind_eq_ok]
  unfold validateNullability
  constructor
  · rintro ⟨⟨⟩, keeps, h⟩
    dsimp only at h
    split_ifs at keeps h with narrows other
    cases h
    have keeps : (source.nullable && !target.nullable) = false := by simpa using narrows
    refine ⟨⟨fun distinct => ?_, fun checks => nomatch keeps.symm.trans checks⟩, by rw [mappingOf, keeps]⟩
    have safe : classify source.dataType target.dataType = some .safe := by
      by_contra other'
      exact other ⟨distinct, other'⟩
    exact ⟨.safe, .safe, safe, rfl, Nat.le_refl _⟩
  · rintro ⟨joins, rfl⟩
    have keeps : (source.nullable && !target.nullable) = false := by
      cases narrows : (source.nullable && !target.nullable) with
      | false => rfl
      | true => cases joins.coerced narrows
    have safe (distinct : source.dataType ≠ target.dataType) :
        classify source.dataType target.dataType = some .safe := by
      obtain ⟨kind, max, known, limited, within⟩ := joins.allowed distinct
      cases limited
      cases kind with
      | safe => exact known
      | lossy | runtimeChecked => exact absurd within (by decide)
    refine ⟨(), by simp [keeps], ?_⟩
    dsimp only
    rw [if_neg (fun refused => refused.2 (safe refused.1)), mappingOf, keeps]

theorem planCoerce_eq_ok {mappings : List FieldMapping} :
    planCoerce provided requested = .ok mappings ↔
      Positional (Joins .coerce (some .lossy)) provided requested mappings := by
  unfold planCoerce
  apply planPositional_joins
  intro i source target mapping
  dsimp only
  split_ifs with unknown
  · simp only [false_iff]
    rintro ⟨joins, rfl⟩
    obtain ⟨kind, max, known, _⟩ := joins.allowed unknown.1
    cases unknown.2.symm.trans known
  · constructor
    · intro h
      cases h
      refine ⟨⟨fun distinct => ?_, fun _ => rfl⟩, rfl⟩
      cases known : classify source.dataType target.dataType with
      | none => exact absurd ⟨distinct, known⟩ unknown
      | some kind => exact ⟨kind, .lossy, rfl, rfl, by cases kind <;> decide⟩
    · rintro ⟨_, rfl⟩
      rfl

/-- Fields joined by name, each requested name provided once. -/
structure ByName (joins : FieldDescriptor → FieldDescriptor → Prop)
    (provided requested : List FieldDescriptor) (mappings : List FieldMapping) : Prop where
  length : mappings.length = requested.length
  each : ∀ (i : Nat) target, requested[i]? = some target → ∃ source sourceIndex,
    provided.zipIdx.filter (fun entry => entry.1.name = target.name) = [(source, sourceIndex)] ∧
      joins source target ∧ mappings[i]? = some (mappingOf sourceIndex i source target)

theorem planProjection_eq_ok {mappings : List FieldMapping} :
    planProjection provided requested = .ok mappings ↔
      ByName (Joins .projection none) provided requested mappings := by
  rw [planProjection, Slots.mapM_zipIdx_eq_ok]
  constructor
  · rintro ⟨length, each⟩
    refine ⟨length, fun i target at_target => ?_⟩
    obtain ⟨inside, _⟩ := List.getElem?_eq_some_iff.mp at_target
    have at_i := List.getElem?_eq_getElem (length ▸ inside)
    have matched := each i target _ at_target at_i
    dsimp only at matched
    split at matched
    next => contradiction
    next source sourceIndex only =>
      obtain ⟨⟨⟩, valid, same⟩ := Fallible.bind_eq_ok.mp matched
      have joins := validateField_eq_ok.mp valid
      refine ⟨source, sourceIndex, only, joins, ?_⟩
      rw [at_i, joins.mappingOf_eq nofun, Except.ok.inj same]
    next => contradiction
  · rintro ⟨length, each⟩
    refine ⟨length, fun i target mapping at_target at_i => ?_⟩
    obtain ⟨source, sourceIndex, only, joins, at_i'⟩ := each i target at_target
    cases at_i.symm.trans at_i'
    dsimp only
    rw [only]
    exact Fallible.bind_eq_ok.mpr ⟨(), validateField_eq_ok.mpr joins, by rw [joins.mappingOf_eq nofun]⟩

/-- What a policy without options asks of the fields, and the mappings it leads to. -/
def Matched (policy : SchemaPolicy) (provided requested : List FieldDescriptor) (mappings : List FieldMapping) : Prop :=
  match policy with
  | .exact => Positional JoinsExactly provided requested mappings
  | .projection => ByName (Joins .projection none) provided requested mappings
  | .compatible => Positional (Joins .compatible (some .safe)) provided requested mappings
  | .coerce => Positional (Joins .coerce (some .lossy)) provided requested mappings

theorem planFieldDescriptors_eq_ok {mappings : List FieldMapping} :
    planFieldDescriptors provided requested policy = .ok mappings ↔ Matched policy provided requested mappings := by
  cases policy with
  | exact => exact planExact_eq_ok
  | projection => exact planProjection_eq_ok
  | compatible => exact planCompatible_eq_ok
  | coerce => exact planCoerce_eq_ok

/-- A name found once is provided at the index found. -/
theorem at_of_found {name : String} {sourceIndex : Nat}
    (only : provided.zipIdx.filter (fun entry => entry.1.name = name) = [(source, sourceIndex)]) :
    provided[sourceIndex]? = some source ∧ source.name = name := by
  have member : (source, sourceIndex) ∈ provided.zipIdx.filter (fun entry => entry.1.name = name) :=
    only ▸ List.mem_singleton_self _
  obtain ⟨listed, named⟩ := List.mem_filter.mp member
  exact ⟨List.mem_zipIdx_iff_getElem?.mp listed, of_decide_eq_true named⟩

/-- Where provided names are distinct, a match by position is the match by name. -/
theorem Positional.byName {joins : FieldDescriptor → FieldDescriptor → Prop} {mappings : List FieldMapping}
    (positional : Positional joins provided requested mappings)
    (distinct : (provided.map (·.name)).Nodup) : ByName joins provided requested mappings := by
  refine ⟨positional.length, fun i target at_target => ?_⟩
  obtain ⟨inside, _⟩ := List.getElem?_eq_some_iff.mp at_target
  have at_source := List.getElem?_eq_getElem (positional.width.symm ▸ inside)
  obtain ⟨named, joined, at_i⟩ := positional.each i _ target at_source at_target
  have found := Slots.filter_zipIdx_key distinct at_source 0
  rw [named, Nat.zero_add] at found
  exact ⟨_, i, found, joined, at_i⟩

/-- Where both list the same distinct names, a match by name is the match by position. -/
theorem ByName.positional {joins : FieldDescriptor → FieldDescriptor → Prop} {mappings : List FieldMapping}
    (byName : ByName joins provided requested mappings)
    (distinct : (provided.map (·.name)).Nodup)
    (aligned : provided.map (·.name) = requested.map (·.name)) :
    Positional joins provided requested mappings := by
  refine ⟨by simpa using congrArg List.length aligned, byName.length, ?_⟩
  intro i source target at_source at_target
  have named : source.name = target.name := by
    have same := congrArg (·[i]?) aligned
    simpa [at_source, at_target] using same
  obtain ⟨source', sourceIndex, only, joined, at_i⟩ := byName.each i target at_target
  have found := Slots.filter_zipIdx_key distinct at_source 0
  rw [named, Nat.zero_add, only] at found
  cases found
  exact ⟨named, joined, at_i⟩

/-- The mappings and additions of a successful plan. -/
def Plans (arrow : Arrow) (provided requested : List FieldDescriptor) (policy : SchemaPolicy)
    (options : ProjectionOptions) (mappings : List FieldMapping) (additions : List FieldAddition) : Prop :=
  (options.isEmpty = true ∧ additions = [] ∧ planFieldDescriptors provided requested policy = .ok mappings) ∨
    (options.isEmpty = false ∧
      planOperations arrow provided requested policy options = .ok (mappings, additions))

theorem planSchemaWith_eq_ok {arrow : Arrow} {provided requested : Schema} {options : ProjectionOptions}
    {plan : InterchangePlan} :
    planSchemaWith arrow provided requested policy options = .ok plan ↔
      plan = ⟨.arrow, .arrow, provided, requested, policy, plan.mappings, plan.additions⟩ ∧
        Plans arrow (schemaDescriptors provided) (schemaDescriptors requested) policy options
          plan.mappings plan.additions := by
  unfold planSchemaWith Plans
  rw [Fallible.map_eq_ok]
  cases empty : options.isEmpty with
  | true =>
    simp only [if_true, Fallible.map_eq_ok]
    constructor
    · rintro ⟨_, ⟨mappings, matched, rfl⟩, rfl⟩
      exact ⟨rfl, .inl ⟨trivial, rfl, matched⟩⟩
    · rintro ⟨shape, ⟨_, none_added, matched⟩ | ⟨filled, _⟩⟩
      · exact ⟨_, ⟨_, matched, rfl⟩, by rw [shape, none_added]⟩
      · contradiction
  | false =>
    simp only [Bool.false_eq_true, if_false]
    constructor
    · rintro ⟨⟨mappings, additions⟩, planned, rfl⟩
      exact ⟨rfl, .inr ⟨trivial, planned⟩⟩
    · rintro ⟨shape, ⟨filled, _⟩ | ⟨_, planned⟩⟩
      · contradiction
      · exact ⟨_, planned, shape.symm⟩

end FsspecData.Plan
