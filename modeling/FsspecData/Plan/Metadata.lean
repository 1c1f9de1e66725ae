import FsspecData.Plan.Compose
import FsspecData.Arrow.SmallKernel

/-! What metadata can change. Descriptors drop the metadata of a schema and of its
top-level fields, but types are compared whole, with the metadata of their nested fields. -/
namespace FsspecData

mutual

/-- The type without the metadata of its nested fields. -/
def DataType.bare : DataType → DataType
  | .list item => .list item.bare
  | .listView item => .listView item.bare
  | .fixedSizeList item size => .fixedSizeList item.bare size
  | .largeList item => .largeList item.bare
  | .largeListView item => .largeListView item.bare
  | .struct fields => .struct fields.bare
  | .union fields mode => .union fields.bare mode
  | .dictionary key value => .dictionary key.bare value.bare
  | .map entries sorted => .map entries.bare sorted
  | .runEndEncoded runEnds values => .runEndEncoded runEnds.bare values.bare
  | type => type

def Field.bare : Field → Field
  | .mk name dataType nullable _ => .mk name dataType.bare nullable []

def Fields.bare : Fields → Fields
  | .nil => .nil
  | .cons head tail => .cons head.bare tail.bare

def UnionFields.bare : UnionFields → UnionFields
  | .nil => .nil
  | .cons typeId head tail => .cons typeId head.bare tail.bare

end

/-- The schema without metadata, at any depth. -/
def Schema.bare (schema : Schema) : Schema := ⟨schema.fields.map Field.bare, []⟩

def FieldDescriptor.bare (field : FieldDescriptor) : FieldDescriptor := { field with dataType := field.dataType.bare }

/-- The types that hold other types; only they can hold metadata. -/
def DataType.nested : DataType → Bool
  | .list _ | .listView _ | .fixedSizeList _ _ | .largeList _ | .largeListView _ | .struct _ | .union _ _
  | .dictionary _ _ | .map _ _ | .runEndEncoded _ _ => true
  | _ => false

theorem DataType.bare_of_flat {type : DataType} (flat : type.nested = false) : type.bare = type := by
  cases type <;> simp [nested] at flat <;> simp [bare]

@[simp] theorem DataType.nested_bare (type : DataType) : type.bare.nested = type.nested := by
  cases type <;> simp [bare, nested]

namespace CastRegistry

variable {source target : DataType}

theorem ranked_none (rank : Option Nat) : ranked rank none = none := by cases rank <;> rfl

/-- No rule casts a type that holds others. -/
theorem classify_nested (nested : source.nested = true) (target : DataType) : classify source target = none := by
  cases source <;> simp [DataType.nested] at nested <;>
    simp [classify, ranked, signedRank, unsignedRank, classifyOther, safePairs, lossyPairs, isNumeric, isText]

/-- Only nulls are cast into such a type. -/
theorem classify_into_nested (nested : target.nested = true) (valued : source ≠ .null) :
    classify source target = none := by
  cases target <;> simp [DataType.nested] at nested <;>
    simp [classify, valued, ranked_none, signedRank, unsignedRank, classifyOther, safePairs, lossyPairs, isNumeric,
      isText]

/-- Types that differ without their metadata are classified without it. -/
theorem classify_bare (distinct : source.bare ≠ target.bare) :
    classify source.bare target.bare = classify source target := by
  cases from_nested : source.nested with
  | true => rw [classify_nested from_nested, classify_nested (by simpa using from_nested)]
  | false =>
    rw [DataType.bare_of_flat from_nested] at distinct ⊢
    cases into_nested : target.nested with
    | false => rw [DataType.bare_of_flat into_nested]
    | true =>
      by_cases null : source = .null
      · have other : target ≠ .null := by
          rintro rfl
          contradiction
        rw [null] at distinct ⊢
        simp [classify, distinct, other.symm]
      · rw [classify_into_nested into_nested null,
          classify_into_nested (by simpa using into_nested) null]

/-- Types that differ in metadata alone are not cast. -/
theorem classify_alike (alike : source.bare = target.bare) : classify source target = none := by
  cases from_nested : source.nested with
  | true => exact classify_nested from_nested target
  | false =>
    have into_flat : target.nested = false := by rw [← DataType.nested_bare, ← alike, DataType.nested_bare, from_nested]
    rw [DataType.bare_of_flat from_nested, DataType.bare_of_flat into_flat] at alike
    rw [alike, classify_self]

end CastRegistry

namespace Plan

open CastRegistry

variable {arrow : Arrow} {provided provided' requested requested' schema schema' : Schema}
  {policy : SchemaPolicy} {limit : Option CastKind} {source target : FieldDescriptor} {mappings : List FieldMapping}
  {joins : FieldDescriptor → FieldDescriptor → Prop} {sources targets : List FieldDescriptor}

/-! A match of fields is a match of bare fields, and the same types wherever nothing is cast. -/

/-- The two fields have one type, unless the bare ones are cast. -/
def Agree (source target : FieldDescriptor) : Prop :=
  classify source.bare.dataType target.bare.dataType = none → source.dataType = target.dataType

/-- What joins two fields reads their types bare and agreed. -/
structure Erases (joins : FieldDescriptor → FieldDescriptor → Prop) : Prop where
  joins_iff (source target : FieldDescriptor) :
    joins source target ↔ joins source.bare target.bare ∧ Agree source target
  mapping_bare {source target : FieldDescriptor} (sourceIndex targetIndex : Nat) : joins source target →
    mappingOf sourceIndex targetIndex source.bare target.bare = mappingOf sourceIndex targetIndex source target

theorem joins_bare_iff : Joins policy limit source target ↔
    Joins policy limit source.bare target.bare ∧ Agree source target := by
  constructor
  · intro joins
    constructor
    · refine ⟨fun distinct => ?_, joins.coerced⟩
      have distinct' : source.dataType ≠ target.dataType := fun same => distinct (congrArg DataType.bare same)
      obtain ⟨kind, max, known, limited, within⟩ := joins.allowed distinct'
      exact ⟨kind, max, (classify_bare distinct).trans known, limited, within⟩
    · intro uncast
      by_contra distinct
      obtain ⟨kind, _, known, _⟩ := joins.allowed distinct
      by_cases alike : source.dataType.bare = target.dataType.bare
      · cases (classify_alike alike).symm.trans known
      · cases uncast.symm.trans ((classify_bare alike).trans known)
  · intro ⟨joins, agree⟩
    refine ⟨fun distinct => ?_, joins.coerced⟩
    have distinct' : source.bare.dataType ≠ target.bare.dataType := by
      intro same
      apply distinct
      apply agree
      rw [same, classify_self]
    obtain ⟨kind, max, known, limited, within⟩ := joins.allowed distinct'
    exact ⟨kind, max, (classify_bare distinct').symm.trans known, limited, within⟩

theorem Joins.mappingOf_bare (joins : Joins policy limit source target) (sourceIndex targetIndex : Nat) :
    mappingOf sourceIndex targetIndex source.bare target.bare = mappingOf sourceIndex targetIndex source target := by
  have cast : classify source.bare.dataType target.bare.dataType = classify source.dataType target.dataType := by
    by_cases alike : source.dataType.bare = target.dataType.bare
    · have uncast : classify source.bare.dataType target.bare.dataType = none := by
        rw [FieldDescriptor.bare, FieldDescriptor.bare, alike, classify_self]
      rw [uncast, (joins_bare_iff.mp joins).2 uncast, classify_self]
    · exact classify_bare alike
  rw [mappingOf, cast]
  rfl

theorem Joins.erases (policy : SchemaPolicy) (limit : Option CastKind) : Erases (Joins policy limit) :=
  ⟨fun _ _ => joins_bare_iff, fun sourceIndex targetIndex joins => joins.mappingOf_bare sourceIndex targetIndex⟩

theorem JoinsExactly.erases : Erases JoinsExactly := by
  refine ⟨fun source target => ?_, fun sourceIndex targetIndex joins => joins.1.mappingOf_bare sourceIndex targetIndex⟩
  unfold JoinsExactly
  rw [joins_bare_iff, and_right_comm]
  rfl

/-- Every mapping without a cast joins fields of one type. -/
def Agrees (types types' : List DataType) (mappings : List FieldMapping) : Prop :=
  ∀ mapping ∈ mappings, mapping.cast = none → types[mapping.sourceIndex]? = types'[mapping.targetIndex]?

/-- Joined fields that are not cast have one type. -/
theorem Erases.agrees_at (erases : Erases joins) {sourceIndex targetIndex : Nat}
    (at_source : sources[sourceIndex]? = some source) (at_target : targets[targetIndex]? = some target)
    (joined : joins source target) (uncast : (mappingOf sourceIndex targetIndex source target).cast = none) :
    (sources.map (·.dataType))[sourceIndex]? = (targets.map (·.dataType))[targetIndex]? := by
  rw [← erases.mapping_bare sourceIndex targetIndex joined] at uncast
  have same := ((erases.joins_iff source target).mp joined).2 uncast
  rw [List.getElem?_map, List.getElem?_map, at_source, at_target]
  exact congrArg some same

/-- Fields whose bare ones are joined are joined where `Agrees` holds of the mapping. -/
theorem Erases.joins_of_agrees (erases : Erases joins) {sourceIndex targetIndex : Nat}
    (at_source : sources[sourceIndex]? = some source) (at_target : targets[targetIndex]? = some target)
    (joined : joins source.bare target.bare)
    (agrees : (mappingOf sourceIndex targetIndex source.bare target.bare).cast = none →
      (sources.map (·.dataType))[sourceIndex]? = (targets.map (·.dataType))[targetIndex]?) : joins source target := by
  refine (erases.joins_iff source target).mpr ⟨joined, fun uncast => ?_⟩
  have same := agrees uncast
  rw [List.getElem?_map, List.getElem?_map, at_source, at_target] at same
  exact Option.some.inj same

theorem positional_bare_iff (erases : Erases joins) : Positional joins sources targets mappings ↔
    Positional joins (sources.map FieldDescriptor.bare) (targets.map FieldDescriptor.bare) mappings ∧
      Agrees (sources.map (·.dataType)) (targets.map (·.dataType)) mappings := by
  constructor
  · intro positional
    constructor
    · refine ⟨by simpa using positional.width, by simpa using positional.length, ?_⟩
      intro i bare bare' at_bare at_bare'
      rw [List.getElem?_map, Option.map_eq_some_iff] at at_bare at_bare'
      obtain ⟨source, at_source, rfl⟩ := at_bare
      obtain ⟨target, at_target, rfl⟩ := at_bare'
      obtain ⟨named, joined, at_i⟩ := positional.each i source target at_source at_target
      exact ⟨named, ((erases.joins_iff source target).mp joined).1, by rw [at_i, erases.mapping_bare i i joined]⟩
    · intro mapping member uncast
      obtain ⟨i, at_i⟩ := List.getElem?_of_mem member
      obtain ⟨source, target, at_source, at_target, _, joined, rfl⟩ := positional.at_index at_i
      exact erases.agrees_at at_source at_target joined uncast
  · intro ⟨bare, agrees⟩
    refine ⟨by simpa using bare.width, by simpa using bare.length, fun i source target at_source at_target => ?_⟩
    obtain ⟨named, joined, at_i⟩ := bare.each i source.bare target.bare (by rw [List.getElem?_map, at_source]; rfl)
      (by rw [List.getElem?_map, at_target]; rfl)
    have joined' := erases.joins_of_agrees at_source at_target joined (agrees _ (List.mem_of_getElem? at_i))
    exact ⟨named, joined', by rw [at_i, erases.mapping_bare i i joined']⟩

/-- A name is found at the same indices among the bare fields. -/
theorem filter_bare (sources : List FieldDescriptor) (name : String) :
    (sources.map FieldDescriptor.bare).zipIdx.filter (fun entry => entry.1.name = name) =
      (sources.zipIdx.filter (fun entry => entry.1.name = name)).map (Prod.map FieldDescriptor.bare id) := by
  rw [List.zipIdx_map, List.filter_map]
  rfl

theorem byName_bare_iff (erases : Erases joins) : ByName joins sources targets mappings ↔
    ByName joins (sources.map FieldDescriptor.bare) (targets.map FieldDescriptor.bare) mappings ∧
      Agrees (sources.map (·.dataType)) (targets.map (·.dataType)) mappings := by
  constructor
  · intro byName
    constructor
    · refine ⟨by simpa using byName.length, fun i bare at_bare => ?_⟩
      rw [List.getElem?_map, Option.map_eq_some_iff] at at_bare
      obtain ⟨target, at_target, rfl⟩ := at_bare
      obtain ⟨source, sourceIndex, only, joined, at_i⟩ := byName.each i target at_target
      refine ⟨source.bare, sourceIndex, ?_, ((erases.joins_iff source target).mp joined).1, ?_⟩
      · rw [filter_bare, show target.bare.name = target.name from rfl, only]
        rfl
      · rw [at_i, erases.mapping_bare sourceIndex i joined]
    · intro mapping member uncast
      obtain ⟨i, at_i⟩ := List.getElem?_of_mem member
      obtain ⟨inside, _⟩ := List.getElem?_eq_some_iff.mp at_i
      have at_target := List.getElem?_eq_getElem (byName.length ▸ inside)
      obtain ⟨source, sourceIndex, only, joined, at_i'⟩ := byName.each i _ at_target
      cases at_i.symm.trans at_i'
      exact erases.agrees_at (at_of_found only).1 at_target joined uncast
  · intro ⟨bare, agrees⟩
    refine ⟨by simpa using bare.length, fun i target at_target => ?_⟩
    obtain ⟨_, _, found, joined, at_i⟩ := bare.each i target.bare (by rw [List.getElem?_map, at_target]; rfl)
    rw [filter_bare, List.map_eq_singleton_iff] at found
    obtain ⟨⟨source, sourceIndex⟩, only, same⟩ := found
    cases same
    have joined' := erases.joins_of_agrees (at_of_found only).1 at_target joined (agrees _ (List.mem_of_getElem? at_i))
    refine ⟨source, sourceIndex, only, joined', at_i.trans ?_⟩
    exact congrArg some (erases.mapping_bare sourceIndex i joined')

theorem matched_bare_iff : Matched policy sources targets mappings ↔
    Matched policy (sources.map FieldDescriptor.bare) (targets.map FieldDescriptor.bare) mappings ∧
      Agrees (sources.map (·.dataType)) (targets.map (·.dataType)) mappings := by
  cases policy with
  | exact => exact positional_bare_iff JoinsExactly.erases
  | projection => exact byName_bare_iff (Joins.erases .projection none)
  | compatible => exact positional_bare_iff (Joins.erases .compatible (some .safe))
  | coerce => exact positional_bare_iff (Joins.erases .coerce (some .lossy))

/-! Schemas that differ in metadata. -/

/-- Schemas that differ in metadata only, at any depth. -/
def Alike (schema schema' : Schema) : Prop := schema.bare = schema'.bare

/-- The types of the top-level fields, as type equality compares them. -/
def fieldTypes (schema : Schema) : List DataType := schema.fields.map Field.dataType

/-- The verdict of planning, with the mappings where it is positive. -/
def verdict (arrow : Arrow) (provided requested : Schema) (policy : SchemaPolicy) : Option (List FieldMapping) :=
  (planSchema arrow provided requested policy).toOption.map (·.mappings)

/-- Two provided and two requested schemas are planned alike, and the plans of the two
provided ones accept the same batches. -/
structure Untouched (arrow : Arrow) (provided provided' requested requested' : Schema) : Prop where
  planned : ∀ policy, verdict arrow provided requested policy = verdict arrow provided' requested' policy
  checked : ∀ batch : RecordBatch, schemaFieldsEqual batch.schema provided = schemaFieldsEqual batch.schema provided'

theorem verdict_eq : verdict arrow provided requested policy =
    (planFieldDescriptors (schemaDescriptors provided) (schemaDescriptors requested) policy).toOption := by
  unfold verdict
  cases planned : planSchema arrow provided requested policy with
  | ok plan =>
    obtain ⟨mappings, matched, rfl⟩ := planSchema_eq_ok.mp planned
    rw [matched]
    rfl
  | error error =>
    cases matched : planFieldDescriptors (schemaDescriptors provided) (schemaDescriptors requested) policy with
    | ok mappings => cases planned.symm.trans (planSchema_eq_ok.mpr ⟨mappings, matched, rfl⟩)
    | error _ => rfl

theorem verdict_eq_some : verdict arrow provided requested policy = some mappings ↔
    Matched policy (schemaDescriptors provided) (schemaDescriptors requested) mappings := by
  rw [verdict_eq, ← planFieldDescriptors_eq_ok]
  cases planFieldDescriptors (schemaDescriptors provided) (schemaDescriptors requested) policy <;>
    simp [Except.toOption]

theorem schemaDescriptors_bare (schema : Schema) :
    schemaDescriptors schema.bare = (schemaDescriptors schema).map FieldDescriptor.bare := by
  rw [schemaDescriptors, schemaDescriptors, Schema.bare, List.map_map, List.map_map]
  apply List.map_congr_left
  rintro ⟨name, dataType, nullable, metadata⟩ _
  rw [Function.comp_apply, Field.bare]
  rfl

theorem fieldTypes_eq (schema : Schema) : fieldTypes schema = (schemaDescriptors schema).map (·.dataType) := by
  rw [fieldTypes, schemaDescriptors, List.map_map]
  rfl

/-- A schema is planned as its bare one, if the types agree wherever nothing is cast. -/
theorem verdict_bare_iff : verdict arrow provided requested policy = some mappings ↔
    Matched policy (schemaDescriptors provided.bare) (schemaDescriptors requested.bare) mappings ∧
      Agrees (fieldTypes provided) (fieldTypes requested) mappings := by
  rw [verdict_eq_some, matched_bare_iff, schemaDescriptors_bare, schemaDescriptors_bare, fieldTypes_eq, fieldTypes_eq]

/-- Alike schemas with the same types have the same descriptors. -/
theorem Alike.descriptors_iff (alike : Alike schema schema') :
    schemaDescriptors schema = schemaDescriptors schema' ↔ fieldTypes schema = fieldTypes schema' := by
  rw [fieldTypes_eq, fieldTypes_eq]
  constructor
  · intro same
    rw [same]
  · intro same
    have bare := congrArg schemaDescriptors alike
    rw [schemaDescriptors_bare, schemaDescriptors_bare] at bare
    refine List.ext_getElem? fun i => ?_
    have at_bare := congrArg (·[i]?) bare
    have at_type := congrArg (·[i]?) same
    simp only [List.getElem?_map] at at_bare at_type
    cases at_i : (schemaDescriptors schema)[i]? with
    | none => cases at_i' : (schemaDescriptors schema')[i]? <;> simp_all
    | some field =>
      cases at_i' : (schemaDescriptors schema')[i]? with
      | none => simp_all
      | some field' =>
        rw [at_i, at_i'] at at_bare at_type
        obtain ⟨name, dataType, nullable⟩ := field
        obtain ⟨name', dataType', nullable'⟩ := field'
        cases Option.some.inj at_type
        obtain ⟨rfl, _, rfl⟩ := FieldDescriptor.mk.inj (Option.some.inj at_bare)
        rfl

/-- Every schema has a batch without rows. -/
theorem accepts_noRows (schema : Schema) :
    RecordBatch.Accepts schema (schema.fields.map fun field => Arrow.small.newNullArray field.dataType 0) 0 := by
  have own (entry : Field × ArrayRef)
      (member : entry ∈ schema.fields.zip (schema.fields.map fun field => Arrow.small.newNullArray field.dataType 0)) :
      entry.2 = Arrow.small.newNullArray entry.1.dataType 0 := by
    obtain ⟨i, at_field, at_column⟩ := at_of_mem_zip member
    rw [List.getElem?_map, at_field] at at_column
    exact (Option.some.inj at_column).symm
  refine ⟨List.length_map _, fun entry member => ?_, fun column member => ?_, fun entry member _ => ?_, Nat.zero_le _⟩
  · rw [own entry member, Arrow.small_documented.newNull_typed]
  · obtain ⟨field, _, rfl⟩ := List.mem_map.mp member
    rw [ArrayRef.length, Arrow.small_documented.newNull_rows, List.length_replicate]
  · rw [own entry member, Arrow.small_documented.newNull_nullCount, ite_self]

/-- Planning and the check of its input are blind to metadata exactly where the provided types agree, the metadata of
nested fields included, and each match of bare fields meets the same types in both, or in neither. -/
theorem untouched_iff_agrees (arrow : Arrow) (provided provided' requested requested' : Schema)
    (alike : Alike provided provided') (alike' : Alike requested requested') :
    Untouched arrow provided provided' requested requested' ↔
      fieldTypes provided = fieldTypes provided' ∧ ∀ policy mappings,
        Matched policy (schemaDescriptors provided.bare) (schemaDescriptors requested.bare) mappings →
          (Agrees (fieldTypes provided) (fieldTypes requested) mappings ↔
            Agrees (fieldTypes provided') (fieldTypes requested') mappings) := by
  constructor
  · intro untouched
    constructor
    · have checked := untouched.checked ⟨provided, _, 0, accepts_noRows provided⟩
      rw [← alike.descriptors_iff]
      simpa [schemaFieldsEqual] using checked
    · intro policy mappings matched
      have same : verdict arrow provided requested policy = some mappings ↔
          verdict arrow provided' requested' policy = some mappings := by
        rw [untouched.planned policy]
      have matched' := matched
      rw [alike, alike'] at matched'
      rw [verdict_bare_iff, verdict_bare_iff, and_iff_right matched, and_iff_right matched'] at same
      exact same
  · intro ⟨types, agree⟩
    have descriptors := alike.descriptors_iff.mpr types
    refine ⟨fun policy => Option.ext fun mappings => ?_, fun batch => ?_⟩
    · rw [verdict_bare_iff, verdict_bare_iff, ← alike, ← alike']
      exact and_congr_right (agree policy mappings)
    · rw [schemaFieldsEqual, schemaFieldsEqual, descriptors]

/-- A list whose items carry metadata, and a list of its own. -/
def itemSchema (field item : Metadata) : Schema :=
  ⟨[.mk "v" (.list (.mk "element" .int64 true item)) true field], []⟩

theorem itemSchema_alike (field field' item item' : Metadata) :
    Alike (itemSchema field item) (itemSchema field' item') := by
  simp [Alike, Schema.bare, itemSchema, Field.bare, DataType.bare]

/-- Two integers of one name. -/
def twiceSchema : Schema := ⟨[.mk "a" .int64 true [], .mk "a" .int64 true []], []⟩

theorem twiceSchema_unmatched (policy : SchemaPolicy) (item : Metadata) (mappings : List FieldMapping) :
    ¬ Matched policy (schemaDescriptors twiceSchema.bare) (schemaDescriptors (itemSchema [] item).bare) mappings := by
  cases policy with
  | projection =>
    intro matched
    obtain ⟨_, _, found, _⟩ := matched.each 0 _ rfl
    contradiction
  | exact | compatible | coerce =>
    intro matched
    have width := matched.width
    simp [schemaDescriptors, Schema.bare, twiceSchema, itemSchema] at width

/-- Metadata of the field is never seen, and that of the items is not where the names fail first. -/
theorem untouched_iff_agrees_items :
    Untouched Arrow.small (itemSchema [("k", "1")] []) (itemSchema [] []) (itemSchema [("k", "2")] [("id", "1")])
        (itemSchema [] [("id", "1")]) ∧
      Untouched Arrow.small twiceSchema twiceSchema (itemSchema [] [("id", "1")]) (itemSchema [] []) := by
  constructor
  · exact (untouched_iff_agrees Arrow.small _ _ _ _ (itemSchema_alike _ _ _ _) (itemSchema_alike _ _ _ _)).mpr
      ⟨rfl, fun _ _ _ => .rfl⟩
  · exact (untouched_iff_agrees Arrow.small _ _ _ _ rfl (itemSchema_alike _ _ _ _)).mpr
      ⟨rfl, fun policy mappings matched => absurd matched (twiceSchema_unmatched policy _ mappings)⟩

/-- Metadata of the items alone makes the exact policy refuse, and the input check too. -/
theorem items_not_untouched :
    verdict Arrow.small (itemSchema [] [("PARQUET:field_id", "1")]) (itemSchema [] []) .exact = none ∧
      verdict Arrow.small (itemSchema [] []) (itemSchema [] []) .exact = some [⟨0, 0, none, false⟩] ∧
      schemaFieldsEqual (itemSchema [] [("PARQUET:field_id", "1")]) (itemSchema [] []) = false ∧
      ¬ ∀ provided provided' requested requested', Alike provided provided' → Alike requested requested' →
        Untouched Arrow.small provided provided' requested requested' := by
  have refused : verdict Arrow.small (itemSchema [] [("PARQUET:field_id", "1")]) (itemSchema [] []) .exact = none := rfl
  have planned : verdict Arrow.small (itemSchema [] []) (itemSchema [] []) .exact = some [⟨0, 0, none, false⟩] := rfl
  refine ⟨refused, planned, rfl, fun untouched => ?_⟩
  have same := (untouched (itemSchema [] [("PARQUET:field_id", "1")]) (itemSchema [] []) (itemSchema [] [])
    (itemSchema [] []) (itemSchema_alike _ _ _ _) rfl).planned .exact
  rw [refused, planned] at same
  contradiction

end Plan

end FsspecData
