import FsspecData.Plan.Match

/-! Every successful plan is well formed: each requested field has one source or one
default, and every mapping keeps to the cast limit and the nullability of its field. -/
namespace FsspecData.Plan

open CastRegistry

/-- The most permissive cast of a requested field. -/
def castLimit (policy : SchemaPolicy) (options : ProjectionOptions) (name : String) : Option CastKind :=
  (options.casts.lookup name).or (policyCast policy)

/-- A mapping between fields that exist. -/
structure Mapped (provided requested : List FieldDescriptor) (policy : SchemaPolicy)
    (options : ProjectionOptions) (mapping : FieldMapping) : Prop where
  exists_fields : ∃ source target, provided[mapping.sourceIndex]? = some source ∧
    requested[mapping.targetIndex]? = some target ∧
    Fits policy (castLimit policy options target.name) source target mapping

/-- An addition to a field that exists, from its default. -/
structure Added (arrow : Arrow) (requested : List FieldDescriptor) (options : ProjectionOptions)
    (addition : FieldAddition) : Prop where
  exists_default : ∃ target value, requested[addition.targetIndex]? = some target ∧
    options.defaults.lookup target.name = some value ∧
    planAddition arrow addition.targetIndex target value = .ok addition

/-- Targets are covered once, and every operation fits its fields. -/
structure WellFormed (arrow : Arrow) (provided requested : List FieldDescriptor)
    (policy : SchemaPolicy) (options : ProjectionOptions) (mappings : List FieldMapping)
    (additions : List FieldAddition) : Prop where
  covers : (mappings.map (·.targetIndex) ++ additions.map (·.targetIndex)).Perm
    (List.range requested.length)
  mapped : ∀ mapping ∈ mappings, Mapped provided requested policy options mapping
  added : ∀ addition ∈ additions, Added arrow requested options addition

variable {provided requested : List FieldDescriptor} {policy : SchemaPolicy}
  {options : ProjectionOptions} {source target : FieldDescriptor} {mapping : FieldMapping}

/-- A matcher that plans each requested field at its own index covers all of them. -/
theorem wellFormed_of_indexed (arrow : Arrow) {mappings : List FieldMapping}
    (length : mappings.length = requested.length)
    (each : ∀ i mapping, mappings[i]? = some mapping → mapping.targetIndex = i ∧
      Mapped provided requested policy options mapping) :
    WellFormed arrow provided requested policy options mappings [] := by
  refine ⟨?_, fun mapping member => ?_, by simp⟩
  · have own : mappings.map (·.targetIndex) = List.range mappings.length :=
      Slots.map_eq_range fun i m at_i => (each i m at_i).1
    simp [own, length]
  · obtain ⟨i, at_i⟩ := List.getElem?_of_mem member
    exact (each i mapping at_i).2

theorem Positional.wellFormed (arrow : Arrow) {joins : FieldDescriptor → FieldDescriptor → Prop}
    {mappings : List FieldMapping} (positional : Positional joins provided requested mappings)
    (fits : ∀ source target, joins source target → Joins policy (castLimit policy options target.name) source target) :
    WellFormed arrow provided requested policy options mappings [] := by
  apply wellFormed_of_indexed arrow positional.length
  intro i mapping at_i
  obtain ⟨source, target, at_source, at_target, _, joined, rfl⟩ := positional.at_index at_i
  exact ⟨rfl, ⟨source, target, at_source, at_target, (fits _ _ joined).fits i i⟩⟩

theorem ByName.wellFormed (arrow : Arrow) {joins : FieldDescriptor → FieldDescriptor → Prop}
    {mappings : List FieldMapping} (byName : ByName joins provided requested mappings)
    (fits : ∀ source target, joins source target → Joins policy (castLimit policy options target.name) source target) :
    WellFormed arrow provided requested policy options mappings [] := by
  apply wellFormed_of_indexed arrow byName.length
  intro i mapping at_i
  obtain ⟨inside, _⟩ := List.getElem?_eq_some_iff.mp at_i
  have at_target := List.getElem?_eq_getElem (byName.length ▸ inside)
  obtain ⟨source, sourceIndex, only, joined, at_i'⟩ := byName.each i _ at_target
  cases at_i.symm.trans at_i'
  exact ⟨rfl, ⟨source, _, (at_of_found only).1, at_target, (fits _ _ joined).fits sourceIndex i⟩⟩

theorem planFieldDescriptors_wellFormed (arrow : Arrow) {mappings : List FieldMapping}
    (h : planFieldDescriptors provided requested policy = .ok mappings) :
    WellFormed arrow provided requested policy {} mappings [] := by
  cases policy with
  | exact =>
    apply (planExact_eq_ok.mp h).wellFormed arrow
    exact fun _ _ joined => joined.1.mono (.none _) id
  | projection =>
    apply (planProjection_eq_ok.mp h).wellFormed arrow
    exact fun _ _ joined => joined.mono (.none _) id
  | compatible => exact (planCompatible_eq_ok.mp h).wellFormed arrow fun _ _ joined => joined
  | coerce => exact (planCoerce_eq_ok.mp h).wellFormed arrow fun _ _ joined => joined

/-! The by-name matcher. Its loop decides each requested field on its own and only
then records the decision. -/

/-- The decision of one round: an addition, or a mapping and the candidate it uses. -/
abbrev Choice := FieldAddition ⊕ FieldMapping × Nat

def choose (arrow : Arrow) (sources : List Candidate) (policy : SchemaPolicy)
    (options : ProjectionOptions) : FieldDescriptor × Nat → Except InterchangeError Choice :=
  fun (target, targetIndex) =>
    match sources.zipIdx.filter (fun entry => entry.1.name = target.name),
        options.defaults.lookup target.name with
    | [], some value => Sum.inl <$> planAddition arrow targetIndex target value
    | [], none => .error (.missingField target.name)
    | [(candidate, position)], none =>
      (Sum.inr ⟨·, position⟩) <$> planMapping candidate.sourceIndex targetIndex candidate.field target
        policy (options.casts.lookup target.name)
    | [_], some _ => .error (.defaultConflict target.name)
    | _, _ => .error (.ambiguousField target.name)

def record (progress : Progress) : Choice → Progress
  | .inl addition => { progress with additions := progress.additions ++ [addition] }
  | .inr (mapping, position) => { progress with
      used := progress.used.set position true
      mappings := progress.mappings ++ [mapping] }

theorem place_eq (arrow : Arrow) (sources : List Candidate) (progress : Progress)
    (entry : FieldDescriptor × Nat) :
    place arrow sources policy options progress entry =
      record progress <$> choose arrow sources policy options entry := by
  obtain ⟨target, targetIndex⟩ := entry
  simp only [place, choose]
  generalize sources.zipIdx.filter (fun entry => entry.1.name = target.name) = found
  generalize options.defaults.lookup target.name = default
  rcases found with _ | ⟨⟨candidate, position⟩, _ | ⟨other, rest⟩⟩ <;> cases default <;> try rfl
  case nil.some value =>
    dsimp only
    cases planAddition arrow targetIndex target value <;> rfl
  case cons.nil.none =>
    dsimp only
    cases planMapping candidate.sourceIndex targetIndex candidate.field target policy
      (options.casts.lookup target.name) <;> rfl

def chosenMappings (choices : List Choice) : List FieldMapping :=
  choices.filterMap fun choice => choice.getRight?.map (·.1)

def chosenAdditions (choices : List Choice) : List FieldAddition :=
  choices.filterMap Sum.getLeft?

theorem foldl_record (choices : List Choice) (progress : Progress) :
    (choices.foldl record progress).mappings = progress.mappings ++ chosenMappings choices ∧
      (choices.foldl record progress).additions = progress.additions ++ chosenAdditions choices := by
  induction choices generalizing progress with
  | nil => simp [chosenMappings, chosenAdditions]
  | cons choice rest ih =>
    rw [List.foldl_cons]
    obtain ⟨mappings, additions⟩ := ih (record progress choice)
    rw [mappings, additions]
    rcases choice with addition | ⟨mapping, position⟩
    · exact ⟨rfl, List.append_assoc _ _ _⟩
    · exact ⟨List.append_assoc _ _ _, rfl⟩

def Choice.targetIndex : Choice → Nat
  | .inl addition => addition.targetIndex
  | .inr (mapping, _) => mapping.targetIndex

/-- Sorting the choices into the two lists moves targets but keeps each. -/
theorem chosen_targets (choices : List Choice) :
    ((chosenMappings choices).map (·.targetIndex) ++ (chosenAdditions choices).map (·.targetIndex)).Perm
      (choices.map Choice.targetIndex) := by
  induction choices with
  | nil => simp [chosenMappings, chosenAdditions]
  | cons choice rest ih =>
    rcases choice with addition | ⟨mapping, position⟩
    · exact List.perm_middle.trans (ih.cons _)
    · exact ih.cons _

theorem planAddition_ok {arrow : Arrow} {targetIndex : Nat} {value : ArrayRef}
    {addition : FieldAddition} (h : planAddition arrow targetIndex target value = .ok addition) :
    addition.targetIndex = targetIndex := by
  unfold planAddition at h
  split_ifs at h
  · cases h; rfl
  · split at h
    · cases h; rfl
    · contradiction

theorem candidates_field {candidate : Candidate} (member : candidate ∈ candidates provided options) :
    provided[candidate.sourceIndex]? = some candidate.field := by
  obtain ⟨⟨field, index⟩, kept, rfl⟩ := List.mem_map.mp member
  exact List.mem_zipIdx_iff_getElem?.mp (List.mem_of_mem_filter kept)

def Choice.Sound (arrow : Arrow) (provided requested : List FieldDescriptor) (policy : SchemaPolicy)
    (options : ProjectionOptions) : Choice → Prop
  | .inl addition => Added arrow requested options addition
  | .inr (mapping, _) => Mapped provided requested policy options mapping

theorem choose_ok {arrow : Arrow} {i : Nat} {choice : Choice}
    (h : choose arrow (candidates provided options) policy options (target, i) = .ok choice)
    (at_target : requested[i]? = some target) :
    choice.targetIndex = i ∧ choice.Sound arrow provided requested policy options := by
  unfold choose at h
  dsimp only at h
  split at h
  next value _ default =>
    obtain ⟨addition, planned, rfl⟩ := Fallible.map_eq_ok.mp h
    obtain rfl := planAddition_ok planned
    exact ⟨rfl, ⟨target, value, at_target, default, planned⟩⟩
  next => contradiction
  next candidate position only _ =>
    obtain ⟨mapping, planned, rfl⟩ := Fallible.map_eq_ok.mp h
    obtain ⟨joins, rfl⟩ := planMapping_eq_ok.mp planned
    have member : (candidate, position) ∈ (candidates provided options).zipIdx :=
      List.mem_of_mem_filter (by rw [only]; exact List.mem_singleton_self _)
    have listed := List.mem_of_getElem? (List.mem_zipIdx_iff_getElem?.mp member)
    exact ⟨rfl, ⟨candidate.field, target, candidates_field listed, at_target, joins.fits _ _⟩⟩
  next => contradiction
  next => contradiction

/-- Which candidates the choices of a loop have used. -/
def marks (sources : List Candidate) (choices : List Choice) : List Bool :=
  (choices.foldl record ⟨List.replicate sources.length false, [], []⟩).used

theorem marks_length (sources : List Candidate) (choices : List Choice) :
    (marks sources choices).length = sources.length := by
  have kept (progress : Progress) : (choices.foldl record progress).used.length = progress.used.length := by
    induction choices generalizing progress with
    | nil => rfl
    | cons choice rest ih =>
      rw [List.foldl_cons, ih]
      rcases choice with addition | ⟨mapping, position⟩ <;> simp [record]
  rw [marks, kept, List.length_replicate]

theorem checkProvided_eq_ok {name : String} :
    checkProvided provided name = .ok () ↔ provided.countP (·.name = name) = 1 := by
  unfold checkProvided
  generalize provided.countP (·.name = name) = count
  split <;> simp_all

theorem checkRequested_eq_ok {operation : String} {names : List String} :
    checkRequested requested operation names = .ok () ↔
      ∀ name ∈ names, ∃ target ∈ requested, target.name = name := by
  unfold checkRequested
  split
  next name unknown =>
    simp only [reduceCtorEq, false_iff]
    intro known
    obtain ⟨target, member, same⟩ := known name (List.mem_of_find?_eq_some unknown)
    have absent := List.find?_some unknown
    simp only [Bool.not_eq_true', List.any_eq_false, decide_eq_true_eq] at absent
    exact absent target member same
  next known =>
    simp only [true_iff]
    intro name member
    simpa using List.find?_eq_none.mp known name member

/-- A candidate is marked exactly when a choice uses it. -/
theorem foldl_record_used (choices : List Choice) (progress : Progress) (position : Nat) :
    (choices.foldl record progress).used[position]? = some true ↔
      progress.used[position]? = some true ∨
        (position < progress.used.length ∧ ∃ mapping, .inr (mapping, position) ∈ choices) := by
  induction choices generalizing progress with
  | nil => simp
  | cons choice rest ih =>
    rw [List.foldl_cons, ih]
    rcases choice with addition | ⟨mapping, other⟩
    · simp [record]
    · by_cases same : other = position
      · subst same
        by_cases inside : other < progress.used.length
        · simp [record, inside]
        · simp [record, inside]
      · have another : position ≠ other := fun eq => same eq.symm
        simp [record, same, another]

theorem checkUsed_eq_ok {sources : List Candidate} {choices : List Choice} :
    checkUsed sources policy (marks sources choices) = .ok () ↔
      policy = .projection ∨ ∀ position < sources.length, ∃ mapping, .inr (mapping, position) ∈ choices := by
  have marked (position : Nat) : (marks sources choices)[position]? = some true ↔
      position < sources.length ∧ ∃ mapping, .inr (mapping, position) ∈ choices := by
    rw [marks, foldl_record_used]
    simp [List.getElem?_replicate]
  unfold checkUsed
  split_ifs with projecting
  · simp [projecting]
  · simp only [projecting, false_or]
    split
    next candidate _ unused =>
      simp only [reduceCtorEq, false_iff]
      intro all
      obtain ⟨i, at_i⟩ := List.getElem?_of_mem (List.mem_of_find?_eq_some unused)
      obtain ⟨at_source, at_mark⟩ := List.getElem?_zip_eq_some.mp at_i
      obtain ⟨inside, _⟩ := List.getElem?_eq_some_iff.mp at_source
      have mark := (marked i).mpr ⟨inside, all i inside⟩
      have unmarked := List.find?_some unused
      cases at_mark.symm.trans mark
      simp at unmarked
    next every =>
      simp only [true_iff]
      intro position inside
      have length : (marks sources choices).length = sources.length := marks_length sources choices
      have at_source := List.getElem?_eq_getElem inside
      have at_mark := List.getElem?_eq_getElem (length ▸ inside)
      have member : (sources[position], (marks sources choices)[position]) ∈ sources.zip (marks sources choices) :=
        List.mem_of_getElem? (List.getElem?_zip_eq_some.mpr ⟨at_source, at_mark⟩)
      have mark : (marks sources choices)[position] = true := by
        simpa using List.find?_eq_none.mp every _ member
      exact ((marked position).mp (by rw [at_mark, mark])).2

/-- A successful by-name plan: its names check, one decision per requested field, and no
candidate left over where that is an error. -/
structure Decided (arrow : Arrow) (provided requested : List FieldDescriptor) (policy : SchemaPolicy)
    (options : ProjectionOptions) (choices : List Choice) : Prop where
  inexact : policy ≠ .exact
  names : checkNames provided requested options = .ok ()
  chosen : requested.zipIdx.mapM (choose arrow (candidates provided options) policy options) = .ok choices
  used : checkUsed (candidates provided options) policy (marks (candidates provided options) choices) = .ok ()

theorem planOperations_eq_ok {arrow : Arrow} {mappings : List FieldMapping}
    {additions : List FieldAddition} :
    planOperations arrow provided requested policy options = .ok (mappings, additions) ↔
      ∃ choices, Decided arrow provided requested policy options choices ∧
        mappings = chosenMappings choices ∧ additions = chosenAdditions choices := by
  unfold planOperations
  split_ifs with exact
  · simp only [false_iff]
    rintro ⟨choices, decided, _⟩
    exact decided.inexact exact
  · simp only [Fallible.bind_eq_ok]
    constructor
    · rintro ⟨⟨⟩, names, progress, looped, ⟨⟩, used, h⟩
      rw [Fallible.foldlM_eq_mapM (place_eq arrow _)] at looped
      obtain ⟨choices, chosen, rfl⟩ := Fallible.map_eq_ok.mp looped
      cases h
      obtain ⟨mapped, added⟩ := foldl_record choices
        ⟨List.replicate (candidates provided options).length false, [], []⟩
      exact ⟨choices, ⟨exact, names, chosen, used⟩, by simpa using mapped, by simpa using added⟩
    · rintro ⟨choices, decided, rfl, rfl⟩
      refine ⟨(), decided.names, _, ?_, (), decided.used, ?_⟩
      · rw [Fallible.foldlM_eq_mapM (place_eq arrow _), decided.chosen]
        rfl
      · obtain ⟨mapped, added⟩ := foldl_record choices
          ⟨List.replicate (candidates provided options).length false, [], []⟩
        rw [mapped, added]
        rfl

theorem planOperations_wellFormed {arrow : Arrow} {mappings : List FieldMapping}
    {additions : List FieldAddition}
    (h : planOperations arrow provided requested policy options = .ok (mappings, additions)) :
    WellFormed arrow provided requested policy options mappings additions := by
  obtain ⟨choices, decided, rfl, rfl⟩ := planOperations_eq_ok.mp h
  obtain ⟨length, each⟩ := Slots.mapM_zipIdx decided.chosen
  have facts (i : Nat) (choice : Choice) (at_i : choices[i]? = some choice) :
      choice.targetIndex = i ∧ choice.Sound arrow provided requested policy options := by
    obtain ⟨target, at_target, decided⟩ := each i choice at_i
    exact choose_ok decided at_target
  refine ⟨?_, fun mapping member => ?_, fun addition member => ?_⟩
  · have own := Slots.map_eq_range fun i choice at_i => (facts i choice at_i).1
    exact (chosen_targets choices).trans (by rw [own, length])
  · obtain ⟨choice, member, same⟩ := List.mem_filterMap.mp member
    obtain ⟨i, at_i⟩ := List.getElem?_of_mem member
    rcases choice with addition | ⟨mapping', position⟩
    · simp at same
    · obtain rfl : mapping' = mapping := by simpa using same
      exact (facts i _ at_i).2
  · obtain ⟨choice, member, same⟩ := List.mem_filterMap.mp member
    obtain ⟨i, at_i⟩ := List.getElem?_of_mem member
    rcases choice with addition' | ⟨mapping, position⟩
    · obtain rfl : addition' = addition := by simpa using same
      exact (facts i _ at_i).2
    · simp at same

theorem eq_default_of_isEmpty (empty : options.isEmpty = true) : options = {} := by
  obtain ⟨renames, defaults, drop, casts⟩ := options
  simp only [ProjectionOptions.isEmpty, Bool.and_eq_true, List.isEmpty_iff] at empty
  obtain ⟨⟨⟨renames_empty, defaults_empty⟩, rfl⟩, casts_empty⟩ := empty
  congr
  · exact AList.ext renames_empty
  · exact AList.ext defaults_empty
  · exact AList.ext casts_empty

/-- The schemas and the policy of a plan are those it was made for. -/
structure Planned (arrow : Arrow) (provided requested : Schema) (policy : SchemaPolicy)
    (options : ProjectionOptions) (plan : InterchangePlan) : Prop where
  providedSchema : plan.providedSchema = provided
  requestedSchema : plan.requestedSchema = requested
  wellFormed : WellFormed arrow (schemaDescriptors provided) (schemaDescriptors requested) policy
    options plan.mappings plan.additions

theorem planSchemaWith_planned {arrow : Arrow} {provided requested : Schema} {plan : InterchangePlan}
    (h : planSchemaWith arrow provided requested policy options = .ok plan) :
    Planned arrow provided requested policy options plan := by
  obtain ⟨⟨mappings, additions⟩, planned, rfl⟩ := Fallible.map_eq_ok.mp h
  refine ⟨rfl, rfl, ?_⟩
  split_ifs at planned with empty
  · obtain ⟨direct, matched, same⟩ := Fallible.map_eq_ok.mp planned
    obtain ⟨rfl, rfl⟩ := Prod.mk.inj same
    rw [eq_default_of_isEmpty empty]
    exact planFieldDescriptors_wellFormed arrow matched
  · exact planOperations_wellFormed planned

end FsspecData.Plan
