import FsspecData.Plan.ByName

/-! Why planning fails. Every error states a defect of the schemas and the options, in the
words of the fields it names, and planning fails exactly when there is a defect. -/
namespace FsspecData.Plan

open CastRegistry

/-- Fields are matched by name: under the projection policy, and with any options. -/
def MatchesNames (policy : SchemaPolicy) (options : ProjectionOptions) : Prop :=
  policy ≠ .exact ∧ (options.isEmpty = true → policy = .projection)

/-- Fields are matched by position. -/
def MatchesPositions (policy : SchemaPolicy) (options : ProjectionOptions) : Prop :=
  options.isEmpty = true ∧ policy ≠ .projection

/-- The provided field that planning holds against a requested one. -/
inductive Compared (provided requested : List FieldDescriptor) (policy : SchemaPolicy)
    (options : ProjectionOptions) (source target : FieldDescriptor) : Prop where
  | position {i : Nat} (positional : MatchesPositions policy options)
      (width : provided.length = requested.length) (at_source : provided[i]? = some source)
      (at_target : requested[i]? = some target) (named : source.name = target.name)
  | name {index : Nat} (byName : MatchesNames policy options) (member : target ∈ requested)
      (only : OnlyMatch provided options target.name index source)
      (undefaulted : options.defaults.lookup target.name = none)

/-- A requested field that takes its default. -/
structure Defaulted (provided requested : List FieldDescriptor) (policy : SchemaPolicy)
    (options : ProjectionOptions) (target : FieldDescriptor) (value : ArrayRef) : Prop where
  byName : MatchesNames policy options
  member : target ∈ requested
  unmatched : ∀ index source, ¬ Matches provided options target.name index source
  given : options.defaults.lookup target.name = some value

section

variable (arrow : Arrow) (provided requested : List FieldDescriptor) (policy : SchemaPolicy)
  (options : ProjectionOptions)

/-- What an error of planning says to be wrong. -/
inductive Defect : InterchangeError → Prop where
  | fieldCount (positional : MatchesPositions policy options) (uneven : provided.length ≠ requested.length) :
      Defect (.fieldCount provided.length requested.length)
  | fieldName {i : Nat} {source target : FieldDescriptor} (positional : MatchesPositions policy options)
      (at_source : provided[i]? = some source) (at_target : requested[i]? = some target)
      (other : source.name ≠ target.name) : Defect (.fieldName i source.name target.name)
  | exactNullability {source target : FieldDescriptor} (exact : policy = .exact)
      (compared : Compared provided requested policy options source target)
      (other : source.nullable ≠ target.nullable) :
      Defect (.exactNullability target.name source.nullable target.nullable)
  | missingField {target : FieldDescriptor} (byName : MatchesNames policy options) (member : target ∈ requested)
      (unmatched : ∀ index source, ¬ Matches provided options target.name index source)
      (undefaulted : options.defaults.lookup target.name = none) : Defect (.missingField target.name)
  | ambiguousTarget {index index' : Nat} {source source' target : FieldDescriptor}
      (byName : MatchesNames policy options) (member : target ∈ requested)
      (first : Matches provided options target.name index source)
      (second : Matches provided options target.name index' source') (apart : index ≠ index') :
      Defect (.ambiguousField target.name)
  | typeMismatch {source target : FieldDescriptor}
      (compared : Compared provided requested policy options source target)
      (distinct : source.dataType ≠ target.dataType) (unlimited : castLimit policy options target.name = none) :
      Defect (.typeMismatch target.name source.dataType target.dataType)
  | castUnsafe {source target : FieldDescriptor} (compatible : policy = .compatible)
      (compared : Compared provided requested policy options source target)
      (limited : castLimit policy options target.name = some .safe) (distinct : source.dataType ≠ target.dataType)
      (unsafely : classify source.dataType target.dataType ≠ some .safe) :
      Defect (.castUnsafe target.name source.dataType target.dataType)
  | unsupportedCast {source target : FieldDescriptor}
      (compared : Compared provided requested policy options source target)
      (distinct : source.dataType ≠ target.dataType)
      (unknown : classify source.dataType target.dataType = none) :
      Defect (.unsupportedCast target.name source.dataType target.dataType)
  | castNotAllowed {source target : FieldDescriptor} {kind limit : CastKind}
      (compared : Compared provided requested policy options source target)
      (known : classify source.dataType target.dataType = some kind)
      (limited : castLimit policy options target.name = some limit) (exceeds : limit.rank < kind.rank) :
      Defect (.castNotAllowed target.name kind.asStr limit.asStr)
  | nullability {source target : FieldDescriptor} (uncoerced : policy ≠ .coerce)
      (compared : Compared provided requested policy options source target) (nullable : source.nullable = true)
      (required : target.nullable = false) : Defect (.nullability target.name)
  | exactOperations (exact : policy = .exact) (operated : options.isEmpty = false) : Defect .exactOperations
  | missingProvided {name : String} (operated : name ∈ options.renames ∨ name ∈ options.drop)
      (absent : provided.countP (·.name = name) = 0) : Defect (.missingProvidedField name)
  | ambiguousProvided {name : String} (operated : name ∈ options.renames ∨ name ∈ options.drop)
      (several : 1 < provided.countP (·.name = name)) : Defect (.ambiguousField name)
  | renameDropConflict {name : String} (dropped : name ∈ options.drop) (also : name ∈ options.renames) :
      Defect (.renameDropConflict name)
  | unknownRename {name value : String} (given : options.renames.lookup name = some value)
      (absent : ∀ target ∈ requested, target.name ≠ value) : Defect (.unknownRequestedField "rename" value)
  | unknownDefault {name : String} (given : name ∈ options.defaults)
      (absent : ∀ target ∈ requested, target.name ≠ name) : Defect (.unknownRequestedField "default" name)
  | unknownCast {name : String} (given : name ∈ options.casts)
      (absent : ∀ target ∈ requested, target.name ≠ name) : Defect (.unknownRequestedField "cast" name)
  | defaultConflict {index : Nat} {source target : FieldDescriptor} {value : ArrayRef}
      (byName : MatchesNames policy options) (member : target ∈ requested)
      (found : Matches provided options target.name index source)
      (given : options.defaults.lookup target.name = some value) : Defect (.defaultConflict target.name)
  | unmappedField {index : Nat} {source : FieldDescriptor} (byName : MatchesNames policy options)
      (strict : policy ≠ .projection) (at_source : provided[index]? = some source)
      (kept : source.name ∉ options.drop) (unused : ∀ target ∈ requested, target.name ≠ renamed options source) :
      Defect (.unmappedField source.name)
  | defaultLength {target : FieldDescriptor} {value : ArrayRef}
      (defaulted : Defaulted provided requested policy options target value) (length : value.length ≠ 1) :
      Defect (.defaultLength target.name)
  | nullDefault {target : FieldDescriptor} {value : ArrayRef}
      (defaulted : Defaulted provided requested policy options target value) (null : isNullValue value = true)
      (required : target.nullable = false) : Defect (.nullDefault target.name)
  | defaultCast {target : FieldDescriptor} {value : ArrayRef} {source : ArrowError}
      (defaulted : Defaulted provided requested policy options target value) (valued : isNullValue value = false)
      (rejected : arrow.castWithOptions value target.dataType = .error source) :
      Defect (.defaultCast target.name target.dataType source)

end

variable {arrow : Arrow} {provided requested : List FieldDescriptor} {policy : SchemaPolicy}
  {options : ProjectionOptions} {error : InterchangeError} {source target : FieldDescriptor}

/-! Each check fails with a defect. -/

theorem planPositional_eq_error {check : Nat → FieldDescriptor → FieldDescriptor → Except InterchangeError FieldMapping}
    (failed : planPositional provided requested check = .error error) :
    (provided.length ≠ requested.length ∧ error = .fieldCount provided.length requested.length) ∨
    (provided.length = requested.length ∧ ∃ (i : Nat) (source target : FieldDescriptor),
      provided[i]? = some source ∧ requested[i]? = some target ∧
      ((source.name ≠ target.name ∧ error = .fieldName i source.name target.name) ∨
        (source.name = target.name ∧ check i source target = .error error))) := by
  unfold planPositional at failed
  split at failed
  next uneven =>
    cases failed
    exact .inl ⟨uneven, rfl⟩
  next even =>
    obtain ⟨⟨⟨source, target⟩, i⟩, member, fails⟩ := Fallible.mapM_eq_error failed
    obtain ⟨at_source, at_target⟩ := List.getElem?_zip_eq_some.mp (List.mem_zipIdx_iff_getElem?.mp member)
    refine .inr ⟨not_not.mp even, i, source, target, at_source, at_target, ?_⟩
    dsimp only at fails
    split at fails
    next other =>
      cases fails
      exact .inl ⟨other, rfl⟩
    next same => exact .inr ⟨not_not.mp same, fails⟩

/-- A positional matcher fails with a defect when its check of two fields does. -/
theorem planPositional_defect (positional : MatchesPositions policy options)
    {check : Nat → FieldDescriptor → FieldDescriptor → Except InterchangeError FieldMapping}
    (each : ∀ i source target, Compared provided requested policy options source target →
      check i source target = .error error → Defect arrow provided requested policy options error)
    (failed : planPositional provided requested check = .error error) :
    Defect arrow provided requested policy options error := by
  rcases planPositional_eq_error failed with ⟨uneven, rfl⟩ | ⟨width, i, source, target, at_source, at_target, cause⟩
  · exact .fieldCount positional uneven
  · rcases cause with ⟨other, rfl⟩ | ⟨named, fails⟩
    · exact .fieldName positional at_source at_target other
    · exact each i source target (.position positional width at_source at_target named) fails

theorem validateField_defect (compared : Compared provided requested policy options source target)
    (limit : castLimit policy options target.name = none) (uncoerced : policy ≠ .coerce)
    (failed : validateField source target = .error error) :
    Defect arrow provided requested policy options error := by
  unfold validateField at failed
  split at failed
  next distinct =>
    cases failed
    exact .typeMismatch compared distinct limit
  next =>
    split at failed
    next narrows =>
      cases failed
      obtain ⟨nullable, required⟩ := Bool.and_eq_true_iff.mp narrows
      exact .nullability uncoerced compared nullable (by simpa using required)
    next => cases failed

theorem planExact_defect (failed : planExact provided requested = .error error) :
    Defect arrow provided requested .exact {} error := by
  have positional : MatchesPositions .exact {} := ⟨rfl, nofun⟩
  refine planPositional_defect positional ?_ failed
  intro i source target compared fails
  rcases Fallible.bind_eq_error.mp fails with invalid | ⟨_, _, differs⟩
  · exact validateField_defect compared rfl nofun invalid
  · split at differs
    next other =>
      cases differs
      exact .exactNullability rfl compared other
    next => cases differs

theorem planCompatible_defect (failed : planCompatible provided requested = .error error) :
    Defect arrow provided requested .compatible {} error := by
  have positional : MatchesPositions .compatible {} := ⟨rfl, nofun⟩
  refine planPositional_defect positional ?_ failed
  intro i source target compared fails
  rcases Fallible.bind_eq_error.mp fails with narrows | ⟨_, _, refused⟩
  · unfold validateNullability at narrows
    split at narrows
    next both =>
      cases narrows
      simp only [Bool.and_eq_true, Bool.not_eq_true', and_true] at both
      exact .nullability nofun compared both.1 both.2
    next => cases narrows
  · dsimp only at refused
    split at refused
    next other =>
      cases refused
      exact .castUnsafe rfl compared rfl other.1 other.2
    next => cases refused

theorem planCoerce_defect (failed : planCoerce provided requested = .error error) :
    Defect arrow provided requested .coerce {} error := by
  have positional : MatchesPositions .coerce {} := ⟨rfl, nofun⟩
  refine planPositional_defect positional ?_ failed
  intro i source target compared fails
  dsimp only at fails
  split at fails
  next other =>
    cases fails
    exact .unsupportedCast compared other.1 other.2
  next => cases fails

/-- Without options a field matches a name when it has it. -/
theorem matches_plain {name : String} {index : Nat} :
    Matches provided {} name index source ↔ provided[index]? = some source ∧ source.name = name :=
  ⟨fun found => ⟨found.at_index, found.named⟩, fun found => ⟨found.1, List.not_mem_nil, found.2⟩⟩

theorem planProjection_defect (failed : planProjection provided requested = .error error) :
    Defect arrow provided requested .projection {} error := by
  have byName : MatchesNames .projection {} := ⟨nofun, fun _ => rfl⟩
  obtain ⟨⟨target, i⟩, entry, fails⟩ := Fallible.mapM_eq_error failed
  have member : target ∈ requested := List.mem_of_getElem? (List.mem_zipIdx_iff_getElem?.mp entry)
  dsimp only at fails
  split at fails
  next none_found =>
    cases fails
    refine .missingField byName member (fun index source found => ?_) rfl
    obtain ⟨at_index, named⟩ := matches_plain.mp found
    have other := (Slots.filter_zipIdx_eq_nil fun field : FieldDescriptor => field.name = target.name).mp none_found
      index source at_index
    simp [named] at other
  next source index one_found =>
    obtain ⟨at_index, named, only⟩ :=
      (Slots.filter_zipIdx_eq_singleton fun field : FieldDescriptor => field.name = target.name).mp one_found
    have found : OnlyMatch provided {} target.name index source := by
      refine ⟨matches_plain.mpr ⟨at_index, of_decide_eq_true named⟩, fun index' source' found' => ?_⟩
      obtain ⟨at_index', named'⟩ := matches_plain.mp found'
      exact only index' source' at_index' (decide_eq_true named')
    rcases Fallible.bind_eq_error.mp fails with invalid | ⟨_, _, done⟩
    · exact validateField_defect (.name byName member found rfl) rfl nofun invalid
    · cases done
  next none_left one_left =>
    cases fails
    obtain ⟨index, index', source, source', apart, first, second⟩ :=
      Slots.filter_zipIdx_several (fun field : FieldDescriptor => field.name = target.name) none_left one_left
    exact .ambiguousTarget byName member (matches_plain.mpr ⟨first.1, of_decide_eq_true first.2⟩)
      (matches_plain.mpr ⟨second.1, of_decide_eq_true second.2⟩) apart

/-! The by-name planner with options. -/

theorem planMapping_defect (compared : Compared provided requested policy options source target) {sourceIndex i : Nat}
    (failed : planMapping sourceIndex i source target policy (options.casts.lookup target.name) = .error error) :
    Defect arrow provided requested policy options error := by
  rcases Fallible.bind_eq_error.mp failed with refused | ⟨_, _, narrows⟩
  · unfold checkCast at refused
    split at refused
    next => cases refused
    next distinct =>
      split at refused
      next unlimited =>
        cases refused
        exact .typeMismatch compared distinct unlimited
      next unknown limited =>
        cases refused
        exact .unsupportedCast compared distinct unknown
      next kind limit known limited =>
        split at refused
        next exceeds =>
          cases refused
          exact .castNotAllowed compared known limited exceeds
        next => cases refused
  · dsimp only at narrows
    split at narrows
    next both =>
      cases narrows
      obtain ⟨narrowing, uncoerced⟩ := Bool.and_eq_true_iff.mp both
      obtain ⟨nullable, required⟩ := Bool.and_eq_true_iff.mp narrowing
      exact .nullability (of_decide_eq_true uncoerced) compared nullable (by simpa using required)
    next => cases narrows

theorem planAddition_defect {i : Nat} {value : ArrayRef}
    (defaulted : Defaulted provided requested policy options target value)
    (failed : planAddition arrow i target value = .error error) :
    Defect arrow provided requested policy options error := by
  unfold planAddition at failed
  split at failed
  next length =>
    cases failed
    exact .defaultLength defaulted length
  next =>
    split at failed
    next null =>
      split at failed
      next => cases failed
      next required =>
        cases failed
        exact .nullDefault defaulted null (by simpa using required)
    next valued =>
      split at failed
      next => cases failed
      next source rejected =>
        cases failed
        exact .defaultCast defaulted (by simpa using valued) rejected

theorem choose_defect (byName : MatchesNames policy options) {i : Nat} (at_target : requested[i]? = some target)
    (failed : choose arrow (candidates provided options) policy options (target, i) = .error error) :
    Defect arrow provided requested policy options error := by
  have member : target ∈ requested := List.mem_of_getElem? at_target
  unfold choose at failed
  dsimp only at failed
  split at failed
  next value none_found given =>
    have fails := Fallible.map_eq_error.mp failed
    exact planAddition_defect ⟨byName, member, found_nil.mp none_found, given⟩ fails
  next none_found undefaulted =>
    cases failed
    exact .missingField byName member (found_nil.mp none_found) undefaulted
  next candidate position one_found undefaulted =>
    have only := (found_singleton.mp one_found).2
    exact planMapping_defect (.name byName member only undefaulted) (Fallible.map_eq_error.mp failed)
  next candidate value one_found given =>
    cases failed
    exact .defaultConflict byName member (found_singleton.mp one_found).2.match_ given
  next undefaulted unmissed unmapped unconflicted =>
    cases failed
    have none_left : (candidates provided options).zipIdx.filter (fun entry => entry.1.name = target.name) ≠ [] := by
      intro none_found
      cases given : options.defaults.lookup target.name with
      | none => exact unmissed none_found given
      | some value => exact undefaulted value none_found given
    have one_left (candidate : Candidate) (position : Nat) :
        (candidates provided options).zipIdx.filter (fun entry => entry.1.name = target.name) ≠
          [(candidate, position)] := by
      intro one_found
      cases given : options.defaults.lookup target.name with
      | none => exact unmapped candidate position one_found given
      | some value => exact unconflicted (candidate, position) value one_found given
    obtain ⟨position, position', candidate, candidate', apart, first, second⟩ :=
      Slots.filter_zipIdx_several (fun candidate : Candidate => candidate.name = target.name) none_left one_left
    have found := matches_of_candidate (List.mem_of_getElem? first.1)
    have found' := matches_of_candidate (List.mem_of_getElem? second.1)
    rw [of_decide_eq_true first.2] at found
    rw [of_decide_eq_true second.2] at found'
    exact .ambiguousTarget byName member found found' fun same => apart (candidates_position first.1 second.1 same)

theorem checkRequested_eq_error {operation : String} {names : List String}
    (failed : checkRequested requested operation names = .error error) :
    ∃ name ∈ names, (∀ target ∈ requested, target.name ≠ name) ∧ error = .unknownRequestedField operation name := by
  unfold checkRequested at failed
  split at failed
  next name unknown =>
    cases failed
    refine ⟨name, List.mem_of_find?_eq_some unknown, ?_, rfl⟩
    simpa using List.find?_some unknown
  next => cases failed

theorem checkNames_defect (failed : checkNames provided requested options = .error error) :
    Defect arrow provided requested policy options error := by
  unfold checkNames at failed
  rcases Fallible.bind_eq_error.mp failed with unprovided | ⟨_, _, failed⟩
  · obtain ⟨name, member, fails⟩ := Fallible.forM_eq_error unprovided
    have operated : name ∈ options.renames ∨ name ∈ options.drop :=
      (List.mem_append.mp member).imp AList.mem_keys.mpr id
    unfold checkProvided at fails
    split at fails
    next absent =>
      cases fails
      exact .missingProvided operated absent
    next => cases fails
    next count unabsent unsingle =>
      cases fails
      have some_found : provided.countP (·.name = name) ≠ 0 := unabsent
      have not_one : provided.countP (·.name = name) ≠ 1 := unsingle
      exact .ambiguousProvided operated (by omega)
  rcases Fallible.bind_eq_error.mp failed with conflict | ⟨_, _, failed⟩
  · unfold checkConflicts at conflict
    split at conflict
    next name found =>
      cases conflict
      exact .renameDropConflict (List.mem_of_find?_eq_some found) (by simpa using List.find?_some found)
    next => cases conflict
  rcases Fallible.bind_eq_error.mp failed with unknown | ⟨_, _, failed⟩
  · obtain ⟨value, member, absent, rfl⟩ := checkRequested_eq_error unknown
    obtain ⟨⟨name, value⟩, listed, rfl⟩ := List.mem_map.mp member
    exact .unknownRename (AList.mem_lookup_iff.mpr listed) absent
  rcases Fallible.bind_eq_error.mp failed with unknown | ⟨_, _, unknown⟩
  · obtain ⟨name, member, absent, rfl⟩ := checkRequested_eq_error unknown
    exact .unknownDefault (AList.mem_keys.mpr member) absent
  · obtain ⟨name, member, absent, rfl⟩ := checkRequested_eq_error unknown
    exact .unknownCast (AList.mem_keys.mpr member) absent

/-- A candidate left unmarked by the loop has a name that no requested field has. -/
theorem checkUsed_defect (byName : MatchesNames policy options) {choices : List Choice}
    (chosen : requested.zipIdx.mapM (choose arrow (candidates provided options) policy options) = .ok choices)
    (failed : checkUsed (candidates provided options) policy
      (choices.foldl record ⟨List.replicate (candidates provided options).length false, [], []⟩).used = .error error) :
    Defect arrow provided requested policy options error := by
  unfold checkUsed at failed
  split at failed
  next => cases failed
  next strict =>
    split at failed
    next candidate mark unused =>
      cases failed
      obtain ⟨position, at_position⟩ := List.getElem?_of_mem (List.mem_of_find?_eq_some unused)
      obtain ⟨at_candidate, at_mark⟩ := List.getElem?_zip_eq_some.mp at_position
      obtain ⟨at_source, kept, named⟩ := candidates_mem.mp (List.mem_of_getElem? at_candidate)
      refine .unmappedField byName strict at_source kept fun target member same => ?_
      obtain ⟨i, at_target⟩ := List.getElem?_of_mem member
      obtain ⟨length, each⟩ := Slots.mapM_zipIdx_eq_ok.mp chosen
      obtain ⟨inside, _⟩ := List.getElem?_eq_some_iff.mp at_target
      have at_choice := List.getElem?_eq_getElem (length ▸ inside)
      obtain ⟨mapping, uses⟩ :=
        (choose_eq_ok.mp (each i target _ at_target at_choice)).uses at_candidate (named.trans same.symm)
      obtain ⟨within, _⟩ := List.getElem?_eq_some_iff.mp at_candidate
      have marked := (foldl_record_used choices ⟨List.replicate (candidates provided options).length false, [], []⟩
        position).mpr (.inr ⟨by simpa using within, mapping, uses ▸ List.mem_of_getElem? at_choice⟩)
      cases at_mark.symm.trans marked
      simpa using List.find?_some unused
    next => cases failed

theorem planOperations_defect (operated : options.isEmpty = false)
    (failed : planOperations arrow provided requested policy options = .error error) :
    Defect arrow provided requested policy options error := by
  unfold planOperations at failed
  split at failed
  next exact =>
    cases failed
    exact .exactOperations exact operated
  next inexact =>
    have byName : MatchesNames policy options := ⟨inexact, fun empty => nomatch operated.symm.trans empty⟩
    rcases Fallible.bind_eq_error.mp failed with misnamed | ⟨_, _, failed⟩
    · exact checkNames_defect misnamed
    rcases Fallible.bind_eq_error.mp failed with unplaced | ⟨progress, looped, failed⟩
    · rw [Fallible.foldlM_eq_mapM (place_eq arrow _)] at unplaced
      obtain ⟨⟨target, i⟩, entry, fails⟩ := Fallible.mapM_eq_error (Fallible.map_eq_error.mp unplaced)
      exact choose_defect byName (List.mem_zipIdx_iff_getElem?.mp entry) fails
    · rw [Fallible.foldlM_eq_mapM (place_eq arrow _)] at looped
      obtain ⟨choices, chosen, rfl⟩ := Fallible.map_eq_ok.mp looped
      rcases Fallible.bind_eq_error.mp failed with unused | ⟨_, _, done⟩
      · exact checkUsed_defect byName chosen unused
      · cases done

theorem planFieldDescriptors_defect (failed : planFieldDescriptors provided requested policy = .error error) :
    Defect arrow provided requested policy {} error := by
  cases policy with
  | exact => exact planExact_defect failed
  | projection => exact planProjection_defect failed
  | compatible => exact planCompatible_defect failed
  | coerce => exact planCoerce_defect failed

/-! And where planning succeeds there is no defect. -/

/-- Matching by name without options is what the by-name planner admits. -/
theorem ByName.admissible {mappings : List FieldMapping}
    (byName : ByName (Joins .projection none) provided requested mappings) :
    Admissible arrow provided requested .projection {} := by
  have found (target : FieldDescriptor) (member : target ∈ requested) : ∃ index source,
      OnlyMatch provided {} target.name index source ∧ Joins .projection none source target := by
    obtain ⟨i, at_target⟩ := List.getElem?_of_mem member
    obtain ⟨source, index, one_found, joins, _⟩ := byName.each i target at_target
    obtain ⟨at_index, named, only⟩ :=
      (Slots.filter_zipIdx_eq_singleton fun field : FieldDescriptor => field.name = target.name).mp one_found
    refine ⟨index, source, ⟨matches_plain.mpr ⟨at_index, of_decide_eq_true named⟩, ?_⟩, joins⟩
    intro index' source' found
    obtain ⟨at_index', named'⟩ := matches_plain.mp found
    exact only index' source' at_index' (decide_eq_true named')
  refine ⟨⟨fun name operated => ?_, nofun, nofun, nofun, nofun⟩, fun i target at_target => ?_,
    fun target member index source found' => ?_, .inl rfl⟩
  · simp at operated
  · obtain ⟨index, source, only, _⟩ := found target (List.mem_of_getElem? at_target)
    exact .provided only rfl
  · obtain ⟨index', source', only, joins⟩ := found target member
    obtain ⟨-, rfl⟩ := found'.eq_only only
    exact joins

/-- What a plan says of fields matched by name. -/
theorem Plans.admissible {mappings : List FieldMapping} {additions : List FieldAddition}
    (plans : Plans arrow provided requested policy options mappings additions)
    (byName : MatchesNames policy options) : Admissible arrow provided requested policy options := by
  rcases plans with ⟨empty, -, matched⟩ | ⟨-, planned⟩
  · obtain rfl := byName.2 empty
    obtain rfl := eq_default_of_isEmpty empty
    exact (planProjection_eq_ok.mp matched).admissible
  · exact (planOperations_exists byName.1).mp ⟨_, planned⟩

/-- What a plan says of fields matched by position. -/
structure Placed (provided requested : List FieldDescriptor) (policy : SchemaPolicy) : Prop where
  width : provided.length = requested.length
  named : ∀ (i : Nat) source target, provided[i]? = some source → requested[i]? = some target →
    source.name = target.name
  joined : ∀ (i : Nat) source target, provided[i]? = some source → requested[i]? = some target →
    Joins policy (policyCast policy) source target
  alike : policy = .exact → ∀ (i : Nat) source target, provided[i]? = some source → requested[i]? = some target →
    source.nullable = target.nullable

theorem Positional.placed {joins : FieldDescriptor → FieldDescriptor → Prop} {mappings : List FieldMapping}
    (positional : Positional joins provided requested mappings)
    (joined : ∀ source target, joins source target → Joins policy (policyCast policy) source target)
    (alike : policy = .exact → ∀ source target, joins source target → source.nullable = target.nullable) :
    Placed provided requested policy where
  width := positional.width
  named i source target at_source at_target := (positional.each i source target at_source at_target).1
  joined i source target at_source at_target :=
    joined source target (positional.each i source target at_source at_target).2.1
  alike exact i source target at_source at_target :=
    alike exact source target (positional.each i source target at_source at_target).2.1

theorem Plans.placed {mappings : List FieldMapping} {additions : List FieldAddition}
    (plans : Plans arrow provided requested policy options mappings additions)
    (positional : MatchesPositions policy options) : Placed provided requested policy := by
  rcases plans with ⟨-, -, matched⟩ | ⟨filled, -⟩
  · cases policy with
    | exact => exact (planExact_eq_ok.mp matched).placed (fun _ _ joins => joins.1) fun _ _ _ joins => joins.2
    | projection => exact absurd rfl positional.2
    | compatible => exact (planCompatible_eq_ok.mp matched).placed (fun _ _ joins => joins) nofun
    | coerce => exact (planCoerce_eq_ok.mp matched).placed (fun _ _ joins => joins) nofun
  · exact nomatch filled.symm.trans positional.1

/-- The fields that a plan holds against each other join. -/
theorem Plans.compared {mappings : List FieldMapping} {additions : List FieldAddition}
    (plans : Plans arrow provided requested policy options mappings additions)
    (compared : Compared provided requested policy options source target) :
    Joins policy (castLimit policy options target.name) source target := by
  cases compared with
  | position positional width at_source at_target named =>
    obtain rfl := eq_default_of_isEmpty positional.1
    exact (plans.placed positional).joined _ source target at_source at_target
  | name byName member only undefaulted => exact (plans.admissible byName).joined target member _ source only.match_

/-- A requested field that nothing matches was given an accepted default. -/
theorem Plans.defaulted {mappings : List FieldMapping} {additions : List FieldAddition}
    (plans : Plans arrow provided requested policy options mappings additions) (byName : MatchesNames policy options)
    (member : target ∈ requested)
    (unmatched : ∀ index source, ¬ Matches provided options target.name index source) :
    ∃ i value addition, options.defaults.lookup target.name = some value ∧
      planAddition arrow i target value = .ok addition := by
  obtain ⟨i, at_target⟩ := List.getElem?_of_mem member
  cases (plans.admissible byName).sourced i target at_target with
  | provided only undefaulted => exact absurd only.match_ (unmatched _ _)
  | default _ given accepted => exact ⟨i, _, _, given, accepted⟩

/-- A requested field that something matches has one match and no default. -/
theorem Plans.matched {mappings : List FieldMapping} {additions : List FieldAddition}
    (plans : Plans arrow provided requested policy options mappings additions) (byName : MatchesNames policy options)
    (member : target ∈ requested) {index : Nat}
    (found : Matches provided options target.name index source) :
    OnlyMatch provided options target.name index source ∧ options.defaults.lookup target.name = none := by
  obtain ⟨i, at_target⟩ := List.getElem?_of_mem member
  cases (plans.admissible byName).sourced i target at_target with
  | provided only undefaulted =>
    obtain ⟨rfl, rfl⟩ := found.eq_only only
    exact ⟨only, undefaulted⟩
  | default unmatched _ _ => exact absurd found (unmatched _ _)

/-- Operations that were planned spoke of known names. -/
theorem Plans.operated {mappings : List FieldMapping} {additions : List FieldAddition}
    (plans : Plans arrow provided requested policy options mappings additions) :
    NamesKnown provided requested options := by
  cases empty : options.isEmpty with
  | true =>
    obtain rfl := eq_default_of_isEmpty empty
    exact ⟨fun name operated => by simp at operated, nofun, nofun, nofun, nofun⟩
  | false =>
    rcases plans with ⟨filled, _⟩ | ⟨_, planned⟩
    · exact nomatch empty.symm.trans filled
    · obtain ⟨_, decided, _⟩ := planOperations_eq_ok.mp planned
      exact checkNames_eq_ok.mp decided.names

theorem Plans.no_defect {mappings : List FieldMapping} {additions : List FieldAddition}
    (plans : Plans arrow provided requested policy options mappings additions) :
    ¬ Defect arrow provided requested policy options error := by
  intro defect
  cases defect with
  | fieldCount positional uneven => exact uneven (plans.placed positional).width
  | fieldName positional at_source at_target other =>
    exact other ((plans.placed positional).named _ _ _ at_source at_target)
  | exactNullability exact compared other =>
    cases compared with
    | position positional width at_source at_target named =>
      exact other ((plans.placed positional).alike exact _ _ _ at_source at_target)
    | name byName member only undefaulted => exact byName.1 exact
  | missingField byName member unmatched undefaulted =>
    obtain ⟨_, _, _, given, _⟩ := plans.defaulted byName member unmatched
    exact nomatch undefaulted.symm.trans given
  | ambiguousTarget byName member first second apart =>
    exact apart ((plans.matched byName member second).1.only _ _ first)
  | typeMismatch compared distinct unlimited =>
    obtain ⟨_, _, _, limited, _⟩ := (plans.compared compared).allowed distinct
    exact nomatch unlimited.symm.trans limited
  | castUnsafe compatible compared limited distinct unsafely =>
    obtain ⟨kind, limit, known, limited', within⟩ := (plans.compared compared).allowed distinct
    cases limited.symm.trans limited'
    cases kind with
    | safe => exact unsafely known
    | lossy | runtimeChecked => exact absurd within (by decide)
  | unsupportedCast compared distinct unknown =>
    obtain ⟨_, _, known, _⟩ := (plans.compared compared).allowed distinct
    exact nomatch unknown.symm.trans known
  | @castNotAllowed source target kind limit compared known limited exceeds =>
    have distinct : source.dataType ≠ target.dataType := by
      intro same
      rw [same, classify_self] at known
      cases known
    obtain ⟨_, _, known', limited', within⟩ := (plans.compared compared).allowed distinct
    cases known.symm.trans known'
    cases limited.symm.trans limited'
    exact Nat.not_le.mpr exceeds within
  | nullability uncoerced compared nullable required =>
    exact uncoerced ((plans.compared compared).coerced (by simp [nullable, required]))
  | exactOperations exact operated =>
    rcases plans with ⟨filled, _⟩ | ⟨_, planned⟩
    · exact nomatch operated.symm.trans filled
    · obtain ⟨_, decided, _⟩ := planOperations_eq_ok.mp planned
      exact decided.inexact exact
  | missingProvided operated absent => exact nomatch absent.symm.trans (plans.operated.once _ operated)
  | ambiguousProvided operated several =>
    rw [plans.operated.once _ operated] at several
    exact Nat.lt_irrefl 1 several
  | renameDropConflict dropped also => exact plans.operated.separate _ dropped also
  | unknownRename given absent =>
    obtain ⟨target, member, named⟩ := plans.operated.renames _ _ given
    exact absent target member named
  | unknownDefault given absent =>
    obtain ⟨target, member, named⟩ := plans.operated.defaults _ given
    exact absent target member named
  | unknownCast given absent =>
    obtain ⟨target, member, named⟩ := plans.operated.casts _ given
    exact absent target member named
  | defaultConflict byName member found given =>
    exact nomatch (plans.matched byName member found).2.symm.trans given
  | unmappedField byName strict at_source kept unused =>
    rcases (plans.admissible byName).used with projecting | all
    · exact strict projecting
    · obtain ⟨target, member, named⟩ := all _ _ at_source kept
      exact unused target member named
  | defaultLength defaulted length =>
    obtain ⟨_, _, _, given, accepted⟩ := plans.defaulted defaulted.byName defaulted.member defaulted.unmatched
    cases defaulted.given.symm.trans given
    simp [planAddition, length] at accepted
  | nullDefault defaulted null required =>
    obtain ⟨_, _, _, given, accepted⟩ := plans.defaulted defaulted.byName defaulted.member defaulted.unmatched
    cases defaulted.given.symm.trans given
    unfold planAddition at accepted
    simp only [null, required] at accepted
    split at accepted <;> cases accepted
  | defaultCast defaulted valued rejected =>
    obtain ⟨_, _, _, given, accepted⟩ := plans.defaulted defaulted.byName defaulted.member defaulted.unmatched
    cases defaulted.given.symm.trans given
    unfold planAddition at accepted
    simp only [valued, rejected] at accepted
    split at accepted <;> cases accepted

theorem planSchemaWith_defect {provided requested : Schema}
    (failed : planSchemaWith arrow provided requested policy options = .error error) :
    Defect arrow (schemaDescriptors provided) (schemaDescriptors requested) policy options error := by
  have fails := Fallible.map_eq_error.mp failed
  split at fails
  next empty =>
    obtain rfl := eq_default_of_isEmpty empty
    exact planFieldDescriptors_defect (Fallible.map_eq_error.mp fails)
  next operated => exact planOperations_defect (by simpa using operated) fails

/-- Planning fails exactly when the schemas and the options have a defect, with one they have. -/
theorem planSchemaWith_fails_iff (arrow : Arrow) (provided requested : Schema) (policy : SchemaPolicy)
    (options : ProjectionOptions) :
    (∀ error, planSchemaWith arrow provided requested policy options = .error error →
      Defect arrow (schemaDescriptors provided) (schemaDescriptors requested) policy options error) ∧
    ((∃ error, planSchemaWith arrow provided requested policy options = .error error) ↔
      ∃ error, Defect arrow (schemaDescriptors provided) (schemaDescriptors requested) policy options error) := by
  refine ⟨fun error failed => planSchemaWith_defect failed,
    fun ⟨error, failed⟩ => ⟨error, planSchemaWith_defect failed⟩, fun ⟨error, defect⟩ => ?_⟩
  cases planned : planSchemaWith arrow provided requested policy options with
  | error other => exact ⟨other, rfl⟩
  | ok plan => exact absurd defect (planSchemaWith_eq_ok.mp planned).2.no_defect

end FsspecData.Plan
