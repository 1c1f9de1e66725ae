import FsspecData.Plan.Execute

/-! What by-name planning accepts, in terms of the provided and the requested fields
alone. The loop works on positions among the candidates; no position shows here. -/
namespace FsspecData.Plan

open CastRegistry

variable {arrow : Arrow} {provided requested : List FieldDescriptor} {policy : SchemaPolicy}
  {options : ProjectionOptions} {name : String}

/-- The name of a provided field after renaming. -/
def renamed (options : ProjectionOptions) (source : FieldDescriptor) : String :=
  (options.renames.lookup source.name).getD source.name

/-- An undropped provided field that has the name after renaming. -/
structure Matches (provided : List FieldDescriptor) (options : ProjectionOptions) (name : String)
    (index : Nat) (source : FieldDescriptor) : Prop where
  at_index : provided[index]? = some source
  kept : source.name ∉ options.drop
  named : renamed options source = name

/-- The only such field. -/
structure OnlyMatch (provided : List FieldDescriptor) (options : ProjectionOptions) (name : String)
    (index : Nat) (source : FieldDescriptor) : Prop where
  match_ : Matches provided options name index source
  only : ∀ index' source', Matches provided options name index' source' → index' = index

/-- Operations act on fields that are provided once, one operation a field, and speak of
requested fields. -/
structure NamesKnown (provided requested : List FieldDescriptor) (options : ProjectionOptions) : Prop where
  once : ∀ name, name ∈ options.renames ∨ name ∈ options.drop → provided.countP (·.name = name) = 1
  separate : ∀ name ∈ options.drop, name ∉ options.renames
  renames : ∀ name value, options.renames.lookup name = some value → ∃ target ∈ requested, target.name = value
  defaults : ∀ name ∈ options.defaults, ∃ target ∈ requested, target.name = name
  casts : ∀ name ∈ options.casts, ∃ target ∈ requested, target.name = name

/-- A requested field gets its value from one provided field or from its default. -/
inductive Sourced (arrow : Arrow) (provided : List FieldDescriptor) (options : ProjectionOptions)
    (i : Nat) (target : FieldDescriptor) : Prop where
  | provided {index : Nat} {source : FieldDescriptor}
      (only : OnlyMatch provided options target.name index source)
      (undefaulted : options.defaults.lookup target.name = none)
  | default {value : ArrayRef} {addition : FieldAddition}
      (unmatched : ∀ index source, ¬ Matches provided options target.name index source)
      (given : options.defaults.lookup target.name = some value)
      (accepted : planAddition arrow i target value = .ok addition)

/-- What by-name planning accepts. -/
structure Admissible (arrow : Arrow) (provided requested : List FieldDescriptor) (policy : SchemaPolicy)
    (options : ProjectionOptions) : Prop where
  names : NamesKnown provided requested options
  sourced : ∀ (i : Nat) target, requested[i]? = some target → Sourced arrow provided options i target
  joined : ∀ target ∈ requested, ∀ index source, Matches provided options target.name index source →
    Joins policy (castLimit policy options target.name) source target
  used : policy = .projection ∨ ∀ (index : Nat) source, provided[index]? = some source →
    source.name ∉ options.drop → ∃ target ∈ requested, target.name = renamed options source

/-- The mappings of the matches and the additions of the defaults, in requested order. -/
structure Determined (arrow : Arrow) (provided requested : List FieldDescriptor) (options : ProjectionOptions)
    (mappings : List FieldMapping) (additions : List FieldAddition) : Prop where
  mappings_ascend : (mappings.map (·.targetIndex)).Pairwise (· < ·)
  mappings_iff : ∀ mapping, mapping ∈ mappings ↔ ∃ (i : Nat) (target : FieldDescriptor) (index : Nat)
    (source : FieldDescriptor), requested[i]? = some target ∧ Matches provided options target.name index source ∧
      mapping = mappingOf index i source target
  additions_ascend : (additions.map (·.targetIndex)).Pairwise (· < ·)
  additions_iff : ∀ addition, addition ∈ additions ↔ ∃ (i : Nat) (target : FieldDescriptor) (value : ArrayRef),
    requested[i]? = some target ∧ options.defaults.lookup target.name = some value ∧
      planAddition arrow i target value = .ok addition

theorem checkConflicts_eq_ok :
    checkConflicts options = .ok () ↔ ∀ name ∈ options.drop, name ∉ options.renames := by
  unfold checkConflicts
  split
  next name found =>
    simp only [reduceCtorEq, false_iff]
    intro separate
    exact separate name (List.mem_of_find?_eq_some found) (by simpa using List.find?_some found)
  next none_found => simpa using List.find?_eq_none.mp none_found

theorem checkNames_eq_ok :
    checkNames provided requested options = .ok () ↔ NamesKnown provided requested options := by
  unfold checkNames
  simp only [Fallible.bind_eq_ok]
  constructor
  · rintro ⟨⟨⟩, once, ⟨⟩, separate, ⟨⟩, renames, ⟨⟩, defaults, casts⟩
    have once := Fallible.forM_eq_ok.mp once
    have renames := checkRequested_eq_ok.mp renames
    refine ⟨fun name operated => ?_, checkConflicts_eq_ok.mp separate, fun name value given => ?_,
      fun name given => ?_, fun name given => ?_⟩
    · exact checkProvided_eq_ok.mp (once name (List.mem_append.mpr (operated.imp AList.mem_keys.mp id)))
    · exact renames value (List.mem_map.mpr ⟨_, AList.mem_lookup_iff.mp given, rfl⟩)
    · exact checkRequested_eq_ok.mp defaults name (AList.mem_keys.mp given)
    · exact checkRequested_eq_ok.mp casts name (AList.mem_keys.mp given)
  · intro known
    refine ⟨(), Fallible.forM_eq_ok.mpr fun name member => ?_, (), checkConflicts_eq_ok.mpr known.separate,
      (), checkRequested_eq_ok.mpr fun value member => ?_, (), checkRequested_eq_ok.mpr fun name member => ?_,
      checkRequested_eq_ok.mpr fun name member => ?_⟩
    · exact checkProvided_eq_ok.mpr (known.once name ((List.mem_append.mp member).imp AList.mem_keys.mpr id))
    · obtain ⟨⟨name, value⟩, listed, rfl⟩ := List.mem_map.mp member
      exact known.renames name value (AList.mem_lookup_iff.mpr listed)
    · exact known.defaults name (AList.mem_keys.mpr member)
    · exact known.casts name (AList.mem_keys.mpr member)

/-! Candidates are the provided fields in their order, without the dropped ones. -/

theorem candidates_mem {candidate : Candidate} : candidate ∈ candidates provided options ↔
    provided[candidate.sourceIndex]? = some candidate.field ∧ candidate.field.name ∉ options.drop ∧
      candidate.name = renamed options candidate.field := by
  unfold candidates renamed
  rw [List.mem_map]
  constructor
  · rintro ⟨⟨field, index⟩, kept, rfl⟩
    obtain ⟨listed, kept⟩ := List.mem_filter.mp kept
    exact ⟨List.mem_zipIdx_iff_getElem?.mp listed, by simpa using kept, rfl⟩
  · obtain ⟨index, name, field⟩ := candidate
    intro ⟨at_index, kept, named⟩
    obtain rfl : name = (options.renames.lookup field.name).getD field.name := named
    exact ⟨(field, index), List.mem_filter.mpr ⟨List.mem_zipIdx_iff_getElem?.mpr at_index, by simpa using kept⟩, rfl⟩

theorem Matches.candidate {index : Nat} {source : FieldDescriptor}
    (found : Matches provided options name index source) :
    ⟨index, name, source⟩ ∈ candidates provided options :=
  candidates_mem.mpr ⟨found.at_index, found.kept, found.named.symm⟩

theorem matches_of_candidate {candidate : Candidate} (member : candidate ∈ candidates provided options) :
    Matches provided options candidate.name candidate.sourceIndex candidate.field := by
  obtain ⟨at_index, kept, named⟩ := candidates_mem.mp member
  exact ⟨at_index, kept, named.symm⟩

/-- A provided field is a candidate at one position at most. -/
theorem candidates_position {position position' : Nat} {candidate candidate' : Candidate}
    (at_position : (candidates provided options)[position]? = some candidate)
    (at_position' : (candidates provided options)[position']? = some candidate')
    (same : candidate.sourceIndex = candidate'.sourceIndex) : position = position' := by
  have distinct : ((candidates provided options).map (·.sourceIndex)).Nodup := by
    unfold candidates
    rw [List.map_map]
    exact (List.nodup_zipIdx_map_snd provided).sublist (List.filter_sublist.map _)
  obtain ⟨inside, _⟩ := List.getElem?_eq_some_iff.mp at_position
  apply (List.getElem?_inj (by simpa using inside) distinct).mp
  rw [List.getElem?_map, List.getElem?_map, at_position, at_position']
  exact congrArg some same

theorem found_nil : (candidates provided options).zipIdx.filter (fun entry => entry.1.name = name) = [] ↔
    ∀ index source, ¬ Matches provided options name index source := by
  rw [Slots.filter_zipIdx_eq_nil fun candidate : Candidate => candidate.name = name]
  constructor
  · intro none_named index source found
    obtain ⟨position, at_position⟩ := List.getElem?_of_mem found.candidate
    simpa using none_named position _ at_position
  · intro unmatched position candidate at_position
    have found := matches_of_candidate (List.mem_of_getElem? at_position)
    simp only [decide_eq_false_iff_not]
    rintro rfl
    exact unmatched _ _ found

theorem found_singleton {candidate : Candidate} {position : Nat} :
    (candidates provided options).zipIdx.filter (fun entry => entry.1.name = name) = [(candidate, position)] ↔
      (candidates provided options)[position]? = some candidate ∧
        OnlyMatch provided options name candidate.sourceIndex candidate.field := by
  rw [Slots.filter_zipIdx_eq_singleton fun candidate : Candidate => candidate.name = name]
  simp only [decide_eq_true_eq]
  constructor
  · rintro ⟨at_position, rfl, only⟩
    refine ⟨at_position, matches_of_candidate (List.mem_of_getElem? at_position), fun index source found => ?_⟩
    obtain ⟨other, at_other⟩ := List.getElem?_of_mem found.candidate
    obtain rfl := only other _ at_other rfl
    exact congrArg Candidate.sourceIndex (Option.some.inj (at_other.symm.trans at_position))
  · rintro ⟨at_position, ⟨found, only⟩⟩
    obtain ⟨_, _, named⟩ := candidates_mem.mp (List.mem_of_getElem? at_position)
    refine ⟨at_position, named.trans found.named, fun other candidate' at_other named' => ?_⟩
    have found' := matches_of_candidate (List.mem_of_getElem? at_other)
    exact candidates_position at_other at_position (only _ _ (named' ▸ found'))

/-! One round, and the loop. -/

/-- What a round decides for a requested field. -/
inductive Chooses (arrow : Arrow) (provided : List FieldDescriptor) (policy : SchemaPolicy)
    (options : ProjectionOptions) (i : Nat) (target : FieldDescriptor) : Choice → Prop where
  | mapped {candidate : Candidate} {position : Nat}
      (at_position : (candidates provided options)[position]? = some candidate)
      (only : OnlyMatch provided options target.name candidate.sourceIndex candidate.field)
      (undefaulted : options.defaults.lookup target.name = none)
      (joins : Joins policy (castLimit policy options target.name) candidate.field target) :
      Chooses arrow provided policy options i target
        (.inr (mappingOf candidate.sourceIndex i candidate.field target, position))
  | added {value : ArrayRef} {addition : FieldAddition}
      (unmatched : ∀ index source, ¬ Matches provided options target.name index source)
      (given : options.defaults.lookup target.name = some value)
      (accepted : planAddition arrow i target value = .ok addition) :
      Chooses arrow provided policy options i target (.inl addition)

theorem choose_eq_ok {target : FieldDescriptor} {i : Nat} {choice : Choice} :
    choose arrow (candidates provided options) policy options (target, i) = .ok choice ↔
      Chooses arrow provided policy options i target choice := by
  unfold choose
  dsimp only
  constructor
  · intro chosen
    split at chosen
    next value none_found given =>
      obtain ⟨addition, accepted, rfl⟩ := Fallible.map_eq_ok.mp chosen
      exact .added (found_nil.mp none_found) given accepted
    next => contradiction
    next candidate position one_found undefaulted =>
      obtain ⟨mapping, planned, rfl⟩ := Fallible.map_eq_ok.mp chosen
      obtain ⟨joins, rfl⟩ := planMapping_eq_ok.mp planned
      obtain ⟨at_position, only⟩ := found_singleton.mp one_found
      exact .mapped at_position only undefaulted joins
    next => contradiction
    next => contradiction
  · intro chooses
    cases chooses with
    | mapped at_position only undefaulted joins =>
      rw [found_singleton.mpr ⟨at_position, only⟩, undefaulted]
      exact Fallible.map_eq_ok.mpr ⟨_, planMapping_eq_ok.mpr ⟨joins, rfl⟩, rfl⟩
    | added unmatched given accepted =>
      rw [found_nil.mpr unmatched, given]
      exact Fallible.map_eq_ok.mpr ⟨_, accepted, rfl⟩

theorem mem_chosenMappings {choices : List Choice} {mapping : FieldMapping} :
    mapping ∈ chosenMappings choices ↔ ∃ position, .inr (mapping, position) ∈ choices := by
  rw [chosenMappings, List.mem_filterMap]
  constructor
  · rintro ⟨addition | ⟨mapping', position⟩, member, same⟩
    · simp at same
    · obtain rfl : mapping' = mapping := by simpa using same
      exact ⟨position, member⟩
  · rintro ⟨position, member⟩
    exact ⟨_, member, rfl⟩

theorem mem_chosenAdditions {choices : List Choice} {addition : FieldAddition} :
    addition ∈ chosenAdditions choices ↔ .inl addition ∈ choices := by
  rw [chosenAdditions, List.mem_filterMap]
  simp

/-- Both lists of a loop keep its order. -/
theorem chosen_sublist (choices : List Choice) :
    ((chosenMappings choices).map (·.targetIndex)).Sublist (choices.map Choice.targetIndex) ∧
      ((chosenAdditions choices).map (·.targetIndex)).Sublist (choices.map Choice.targetIndex) := by
  induction choices with
  | nil => exact ⟨.slnil, .slnil⟩
  | cons choice rest ih =>
    rcases choice with addition | ⟨mapping, position⟩
    · exact ⟨ih.1.cons _, ih.2.cons_cons _⟩
    · exact ⟨ih.1.cons_cons _, ih.2.cons _⟩

/-- The rounds of a successful loop, each with its field. -/
structure Rounds (arrow : Arrow) (provided requested : List FieldDescriptor) (policy : SchemaPolicy)
    (options : ProjectionOptions) (choices : List Choice) : Prop where
  own : choices.map Choice.targetIndex = List.range requested.length
  at_field : ∀ (i : Nat) target, requested[i]? = some target →
    ∃ choice ∈ choices, Chooses arrow provided policy options i target choice
  of_choice : ∀ choice ∈ choices, ∃ (i : Nat) (target : FieldDescriptor), requested[i]? = some target ∧
    Chooses arrow provided policy options i target choice

theorem Decided.rounds {choices : List Choice}
    (decided : Decided arrow provided requested policy options choices) :
    Rounds arrow provided requested policy options choices := by
  obtain ⟨length, each⟩ := Slots.mapM_zipIdx_eq_ok.mp decided.chosen
  obtain ⟨_, backward⟩ := Slots.mapM_zipIdx decided.chosen
  refine ⟨?_, fun i target at_target => ?_, fun choice member => ?_⟩
  · rw [← length]
    apply Slots.map_eq_range
    intro i choice at_i
    obtain ⟨target, at_target, chosen⟩ := backward i choice at_i
    exact (choose_ok chosen at_target).1
  · obtain ⟨inside, _⟩ := List.getElem?_eq_some_iff.mp at_target
    have at_choice := List.getElem?_eq_getElem (length ▸ inside)
    exact ⟨_, List.mem_of_getElem? at_choice, choose_eq_ok.mp (each i target _ at_target at_choice)⟩
  · obtain ⟨i, at_i⟩ := List.getElem?_of_mem member
    obtain ⟨target, at_target, chosen⟩ := backward i choice at_i
    exact ⟨i, target, at_target, choose_eq_ok.mp chosen⟩

theorem Matches.eq_only {index index' : Nat} {source source' : FieldDescriptor}
    (found : Matches provided options name index' source')
    (only : OnlyMatch provided options name index source) : index' = index ∧ source' = source := by
  obtain rfl := only.only index' source' found
  exact ⟨rfl, Option.some.inj (found.at_index.symm.trans only.match_.at_index)⟩

/-- A field that some candidate has the name of is mapped from that candidate. -/
theorem Chooses.uses {i position : Nat} {target : FieldDescriptor} {choice : Choice} {candidate : Candidate}
    (chooses : Chooses arrow provided policy options i target choice)
    (at_position : (candidates provided options)[position]? = some candidate)
    (named : candidate.name = target.name) : ∃ mapping, choice = .inr (mapping, position) := by
  have found := matches_of_candidate (List.mem_of_getElem? at_position)
  rw [named] at found
  cases chooses with
  | mapped at_position' only _ _ =>
    obtain rfl := candidates_position at_position at_position' (found.eq_only only).1
    exact ⟨_, rfl⟩
  | added unmatched _ _ => exact absurd found (unmatched _ _)

theorem Decided.admissible {choices : List Choice}
    (decided : Decided arrow provided requested policy options choices) :
    Admissible arrow provided requested policy options := by
  have rounds := decided.rounds
  refine ⟨checkNames_eq_ok.mp decided.names, fun i target at_target => ?_,
    fun target member index source found => ?_, (checkUsed_eq_ok.mp decided.used).imp_right ?_⟩
  · obtain ⟨choice, _, chooses⟩ := rounds.at_field i target at_target
    cases chooses with
    | mapped _ only undefaulted _ => exact .provided only undefaulted
    | added unmatched given accepted => exact .default unmatched given accepted
  · obtain ⟨i, at_target⟩ := List.getElem?_of_mem member
    obtain ⟨choice, _, chooses⟩ := rounds.at_field i target at_target
    cases chooses with
    | mapped _ only _ joins =>
      obtain ⟨-, rfl⟩ := found.eq_only only
      exact joins
    | added unmatched _ _ => exact absurd found (unmatched index source)
  · intro all index source at_source kept
    have found : Matches provided options (renamed options source) index source := ⟨at_source, kept, rfl⟩
    obtain ⟨position, at_position⟩ := List.getElem?_of_mem found.candidate
    obtain ⟨inside, _⟩ := List.getElem?_eq_some_iff.mp at_position
    obtain ⟨mapping, member⟩ := all position inside
    obtain ⟨i, target, at_target, chooses⟩ := rounds.of_choice _ member
    cases chooses with
    | mapped at_position' only _ _ =>
      cases at_position.symm.trans at_position'
      exact ⟨target, List.mem_of_getElem? at_target, only.match_.named.symm⟩

theorem Admissible.decided (inexact : policy ≠ .exact)
    (admissible : Admissible arrow provided requested policy options) :
    ∃ choices, Decided arrow provided requested policy options choices := by
  have each : ∀ entry ∈ requested.zipIdx, ∃ choice,
      choose arrow (candidates provided options) policy options entry = .ok choice := by
    rintro ⟨target, i⟩ member
    have at_target := List.mem_zipIdx_iff_getElem?.mp member
    cases admissible.sourced i target at_target with
    | provided only undefaulted =>
      obtain ⟨position, at_position⟩ := List.getElem?_of_mem only.match_.candidate
      have joins := admissible.joined target (List.mem_of_getElem? at_target) _ _ only.match_
      exact ⟨_, choose_eq_ok.mpr (.mapped at_position only undefaulted joins)⟩
    | default unmatched given accepted =>
      exact ⟨_, choose_eq_ok.mpr (.added unmatched given accepted)⟩
  obtain ⟨choices, chosen⟩ := Fallible.mapM_exists.mpr each
  refine ⟨choices, inexact, checkNames_eq_ok.mpr admissible.names, chosen, ?_⟩
  refine checkUsed_eq_ok.mpr (admissible.used.imp_right fun matched position inside => ?_)
  have at_position := List.getElem?_eq_getElem inside
  obtain ⟨at_source, kept, named⟩ := candidates_mem.mp (List.mem_of_getElem? at_position)
  obtain ⟨target, member, requested_name⟩ := matched _ _ at_source kept
  obtain ⟨i, at_target⟩ := List.getElem?_of_mem member
  obtain ⟨inside_target, _⟩ := List.getElem?_eq_some_iff.mp at_target
  obtain ⟨length, rounds⟩ := Slots.mapM_zipIdx_eq_ok.mp chosen
  have at_choice := List.getElem?_eq_getElem (length ▸ inside_target)
  have round := choose_eq_ok.mp (rounds i target _ at_target at_choice)
  obtain ⟨mapping, uses⟩ := round.uses at_position (named.trans requested_name.symm)
  exact ⟨mapping, uses ▸ List.mem_of_getElem? at_choice⟩

/-- A loop's mappings and additions are those of the matches and the defaults. -/
theorem Rounds.determined {choices : List Choice}
    (rounds : Rounds arrow provided requested policy options choices) :
    Determined arrow provided requested options (chosenMappings choices) (chosenAdditions choices) := by
  obtain ⟨mapped, added⟩ := chosen_sublist choices
  rw [rounds.own] at mapped added
  refine ⟨List.pairwise_lt_range.sublist mapped, fun mapping => ?_,
    List.pairwise_lt_range.sublist added, fun addition => ?_⟩
  · rw [mem_chosenMappings]
    constructor
    · rintro ⟨position, member⟩
      obtain ⟨i, target, at_target, chooses⟩ := rounds.of_choice _ member
      cases chooses with
      | mapped _ only _ _ => exact ⟨i, target, _, _, at_target, only.match_, rfl⟩
    · rintro ⟨i, target, index, source, at_target, found, rfl⟩
      obtain ⟨choice, member, chooses⟩ := rounds.at_field i target at_target
      cases chooses with
      | mapped _ only _ _ =>
        obtain ⟨rfl, rfl⟩ := found.eq_only only
        exact ⟨_, member⟩
      | added unmatched _ _ => exact absurd found (unmatched index source)
  · rw [mem_chosenAdditions]
    constructor
    · intro member
      obtain ⟨i, target, at_target, chooses⟩ := rounds.of_choice _ member
      cases chooses with
      | added _ given accepted => exact ⟨i, target, _, at_target, given, accepted⟩
    · rintro ⟨i, target, value, at_target, given, accepted⟩
      obtain ⟨choice, member, chooses⟩ := rounds.at_field i target at_target
      cases chooses with
      | mapped _ _ undefaulted _ => cases given.symm.trans undefaulted
      | added _ given' accepted' =>
        cases given.symm.trans given'
        cases accepted.symm.trans accepted'
        exact member

/-- Where requested names are distinct, no provided field feeds two of them. -/
theorem Determined.sources_distinct {mappings : List FieldMapping} {additions : List FieldAddition}
    (determined : Determined arrow provided requested options mappings additions)
    (distinct : (requested.map (·.name)).Nodup) : (mappings.map (·.sourceIndex)).Nodup := by
  have targets : mappings.Pairwise fun mapping mapping' => mapping.targetIndex ≠ mapping'.targetIndex :=
    (List.pairwise_map.mp determined.mappings_ascend).imp Nat.ne_of_lt
  refine List.pairwise_map.mpr (targets.imp_of_mem fun {mapping mapping'} member member' other same => other ?_)
  obtain ⟨i, target, index, source, at_target, found, rfl⟩ := (determined.mappings_iff _).mp member
  obtain ⟨i', target', index', source', at_target', found', rfl⟩ := (determined.mappings_iff _).mp member'
  obtain rfl : index = index' := same
  cases found.at_index.symm.trans found'.at_index
  obtain ⟨inside, _⟩ := List.getElem?_eq_some_iff.mp at_target
  change i = i'
  apply (List.getElem?_inj (by simpa using inside) distinct).mp
  rw [List.getElem?_map, List.getElem?_map, at_target, at_target']
  exact congrArg some (found.named.symm.trans found'.named)

theorem planOperations_exists (inexact : policy ≠ .exact) :
    (∃ operations, planOperations arrow provided requested policy options = .ok operations) ↔
      Admissible arrow provided requested policy options := by
  constructor
  · rintro ⟨⟨mappings, additions⟩, planned⟩
    obtain ⟨choices, decided, _⟩ := planOperations_eq_ok.mp planned
    exact decided.admissible
  · intro admissible
    obtain ⟨choices, decided⟩ := admissible.decided inexact
    exact ⟨_, planOperations_eq_ok.mpr ⟨choices, decided, rfl, rfl⟩⟩

theorem planOperations_determined {mappings : List FieldMapping} {additions : List FieldAddition}
    (planned : planOperations arrow provided requested policy options = .ok (mappings, additions)) :
    Determined arrow provided requested options mappings additions := by
  obtain ⟨choices, decided, rfl, rfl⟩ := planOperations_eq_ok.mp planned
  exact decided.rounds.determined

/-- By-name planning accepts what its specification admits, and plans what it determines. -/
theorem planOperations_accepts (arrow : Arrow) (provided requested : List FieldDescriptor)
    (policy : SchemaPolicy) (options : ProjectionOptions) (inexact : policy ≠ .exact) :
    ((∃ operations, planOperations arrow provided requested policy options = .ok operations) ↔
      Admissible arrow provided requested policy options) ∧
    ∀ mappings additions,
      planOperations arrow provided requested policy options = .ok (mappings, additions) →
      Determined arrow provided requested options mappings additions ∧
        ((requested.map (·.name)).Nodup → (mappings.map (·.sourceIndex)).Nodup) := by
  refine ⟨planOperations_exists inexact, fun mappings additions planned => ?_⟩
  have determined := planOperations_determined planned
  exact ⟨determined, determined.sources_distinct⟩

/-- `a` takes the name of the dropped `b`. -/
def replaceOptions : ProjectionOptions where
  renames := ⟨[⟨"a", "b"⟩], by simp [List.NodupKeys, List.keys]⟩
  drop := ["b"]

theorem planOperations_accepts_replaced :
    SchemaPolicy.coerce ≠ .exact ∧
      Admissible Arrow.small [⟨"a", .int64, true⟩, ⟨"b", .utf8, false⟩] [⟨"b", .int64, false⟩] .coerce replaceOptions ∧
      Determined Arrow.small [⟨"a", .int64, true⟩, ⟨"b", .utf8, false⟩] [⟨"b", .int64, false⟩] replaceOptions
        [⟨0, 0, none, true⟩] [] := by
  obtain ⟨accepts, plans⟩ := planOperations_accepts Arrow.small [⟨"a", .int64, true⟩, ⟨"b", .utf8, false⟩]
    [⟨"b", .int64, false⟩] .coerce replaceOptions nofun
  exact ⟨nofun, accepts.mp ⟨_, rfl⟩, (plans _ _ rfl).1⟩

end FsspecData.Plan
