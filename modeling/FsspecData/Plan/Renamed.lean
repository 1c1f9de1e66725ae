import FsspecData.Plan.ByName
import FsspecData.Plan.Compose

/-! Renames are simultaneous. A plan that only renames joins every field with itself
whatever the names do, swaps and cycles included, so the inverse renames undo it. -/
namespace FsspecData.Plan

open CastRegistry InterchangePlan

variable {arrow : Arrow} {provided requested : List FieldDescriptor} {policy : SchemaPolicy}
  {renames undo : StringMap String}

def rename (renames : StringMap String) (name : String) : String := (renames.lookup name).getD name

def relabel (renames : StringMap String) (field : FieldDescriptor) : FieldDescriptor :=
  { field with name := rename renames field.name }

def renameField (renames : StringMap String) : Field → Field
  | .mk name dataType nullable metadata => .mk (rename renames name) dataType nullable metadata

def renameSchema (renames : StringMap String) (schema : Schema) : Schema :=
  { schema with fields := schema.fields.map (renameField renames) }

/-- The second map sends back what the first one sends. -/
def Inverse (renames undo : StringMap String) : Prop :=
  ∀ name value, undo.lookup value = some name ↔ renames.lookup name = some value

/-- The requested fields are the provided ones, relabeled; names are distinct on both
sides, and only provided fields are renamed. -/
structure Relabels (renames : StringMap String) (provided requested : List FieldDescriptor) : Prop where
  distinct : (provided.map (·.name)).Nodup
  distinct' : (requested.map (·.name)).Nodup
  known : ∀ name ∈ renames, name ∈ provided.map (·.name)
  relabeled : requested = provided.map (relabel renames)

/-- The plan of renames moves every column to its own place. -/
def moves (width : Nat) : List FieldMapping := (List.range width).map fun i => ⟨i, i, none, false⟩

namespace Relabels

theorem names (relabels : Relabels renames provided requested) :
    requested.map (·.name) = (provided.map (·.name)).map (rename renames) := by
  rw [relabels.relabeled, List.map_map, List.map_map]
  rfl

theorem known_given (relabels : Relabels renames provided requested) {name value : String}
    (given : renames.lookup name = some value) : name ∈ provided.map (·.name) :=
  relabels.known name (AList.lookup_isSome.mp (by rw [given]; rfl))

theorem at_index (relabels : Relabels renames provided requested) (i : Nat) :
    requested[i]? = provided[i]?.map (relabel renames) := by
  rw [relabels.relabeled, List.getElem?_map]

theorem injective (relabels : Relabels renames provided requested) {name name' : String}
    (member : name ∈ provided.map (·.name)) (member' : name' ∈ provided.map (·.name))
    (same : rename renames name = rename renames name') : name = name' := by
  have distinct := relabels.distinct'
  rw [relabels.names] at distinct
  exact List.inj_on_of_nodup_map distinct member member' same

/-- A relabeled field matches the field it comes from, and no other. -/
theorem only (relabels : Relabels renames provided requested) {i : Nat} {source : FieldDescriptor}
    (at_i : provided[i]? = some source) :
    OnlyMatch provided { renames } (rename renames source.name) i source := by
  refine ⟨⟨at_i, List.not_mem_nil, rfl⟩, fun index' source' found => ?_⟩
  have at_name := List.mem_map_of_mem (f := FieldDescriptor.name) (List.mem_of_getElem? at_i)
  have at_name' := List.mem_map_of_mem (f := FieldDescriptor.name) (List.mem_of_getElem? found.at_index)
  have same : source'.name = source.name := relabels.injective at_name' at_name found.named
  obtain ⟨inside, _⟩ := List.getElem?_eq_some_iff.mp found.at_index
  apply (List.getElem?_inj (by simpa using inside) relabels.distinct).mp
  rw [List.getElem?_map, List.getElem?_map, at_i, found.at_index]
  exact congrArg some same

theorem at_target (relabels : Relabels renames provided requested) {i : Nat} {target : FieldDescriptor}
    (at_i : requested[i]? = some target) :
    ∃ source, provided[i]? = some source ∧ target = relabel renames source := by
  rw [relabels.at_index] at at_i
  obtain ⟨source, at_source, same⟩ := Option.map_eq_some_iff.mp at_i
  exact ⟨source, at_source, same.symm⟩

theorem admissible (relabels : Relabels renames provided requested) (arrow : Arrow) (policy : SchemaPolicy) :
    Admissible arrow provided requested policy { renames } := by
  have requested_name {source : FieldDescriptor} (member : source ∈ provided) :
      ∃ target ∈ requested, target.name = rename renames source.name := by
    refine ⟨relabel renames source, ?_, rfl⟩
    rw [relabels.relabeled]
    exact List.mem_map_of_mem member
  refine ⟨⟨fun name operated => ?_, nofun, fun name value given => ?_, nofun, nofun⟩,
    fun i target at_i => ?_, fun target member index source found => ?_, .inr fun index source at_index _ => ?_⟩
  · have member := relabels.known name (operated.resolve_right List.not_mem_nil)
    have once := List.count_eq_one_of_mem relabels.distinct member
    rw [List.count_eq_countP, List.countP_map] at once
    exact once
  · have member := relabels.known_given given
    obtain ⟨source, listed, rfl⟩ := List.mem_map.mp member
    obtain ⟨target, requested, named⟩ := requested_name listed
    exact ⟨target, requested, by rw [named, rename, given]; rfl⟩
  · obtain ⟨source, at_source, rfl⟩ := relabels.at_target at_i
    exact .provided (relabels.only at_source) (AList.lookup_empty _)
  · obtain ⟨i, at_i⟩ := List.getElem?_of_mem member
    obtain ⟨source', at_source, rfl⟩ := relabels.at_target at_i
    obtain ⟨-, rfl⟩ := found.eq_only (relabels.only at_source)
    have joins := Joins.refl policy (castLimit policy { renames } (relabel renames source).name) source
    exact ⟨joins.allowed, joins.coerced⟩
  · exact requested_name (List.mem_of_getElem? at_index)

theorem planOperations_eq (relabels : Relabels renames provided requested) (inexact : policy ≠ .exact) :
    planOperations arrow provided requested policy { renames } = .ok (moves provided.length, []) := by
  obtain ⟨⟨mappings, additions⟩, planned⟩ :=
    (planOperations_exists inexact).mpr (relabels.admissible arrow policy)
  have determined := planOperations_determined planned
  have moved (i : Nat) (source : FieldDescriptor) :
      mappingOf i i source (relabel renames source) = ⟨i, i, none, false⟩ := by
    rw [mappingOf, relabel, classify_self]
    cases source.nullable <;> rfl
  have mapped : mappings = moves provided.length := by
    refine Slots.eq_of_ascending determined.mappings_ascend ?_ fun mapping => ?_
    · rw [moves, List.map_map]
      exact (List.map_id _).symm ▸ List.pairwise_lt_range
    · rw [determined.mappings_iff, moves, List.mem_map]
      constructor
      · rintro ⟨i, target, index, source, at_i, found, rfl⟩
        obtain ⟨source', at_source, rfl⟩ := relabels.at_target at_i
        obtain ⟨rfl, rfl⟩ := found.eq_only (relabels.only at_source)
        obtain ⟨inside, _⟩ := List.getElem?_eq_some_iff.mp at_source
        exact ⟨_, List.mem_range.mpr inside, (moved _ _).symm⟩
      · rintro ⟨i, inside, rfl⟩
        have at_source := List.getElem?_eq_getElem (List.mem_range.mp inside)
        refine ⟨i, _, i, _, ?_, (relabels.only at_source).match_, (moved i _).symm⟩
        rw [relabels.at_index, at_source]
        rfl
  have added : additions = [] := by
    apply List.eq_nil_iff_forall_not_mem.mpr
    intro addition member
    obtain ⟨i, target, value, _, given, _⟩ := (determined.additions_iff addition).mp member
    cases (AList.lookup_empty _).symm.trans given
  rw [planned, mapped, added]

/-- The inverse renames relabel back. -/
theorem inverse (relabels : Relabels renames provided requested) (inverse : Inverse renames undo) :
    Relabels undo requested provided := by
  have undone {source : FieldDescriptor} (member : source ∈ provided) :
      rename undo (rename renames source.name) = source.name := by
    have named := List.mem_map_of_mem (f := FieldDescriptor.name) member
    cases given : renames.lookup source.name with
    | some value =>
      have sent : rename renames source.name = value := by rw [rename, given]; rfl
      rw [sent, rename, (inverse source.name value).mpr given]
      rfl
    | none =>
      have kept : rename renames source.name = source.name := by rw [rename, given]; rfl
      rw [kept]
      cases back : undo.lookup source.name with
      | none => rw [rename, back]; rfl
      | some name =>
        have sent := (inverse name source.name).mp back
        have member' := relabels.known_given sent
        have same : rename renames name = rename renames source.name := by
          rw [kept, rename, sent]
          rfl
        rw [relabels.injective member' named same] at sent
        cases given.symm.trans sent
  refine ⟨relabels.distinct', relabels.distinct, fun value member => ?_, ?_⟩
  · obtain ⟨name, back⟩ := Option.isSome_iff_exists.mp (AList.lookup_isSome.mpr member)
    have sent := (inverse name value).mp back
    have known := relabels.known_given sent
    rw [relabels.names]
    exact List.mem_map.mpr ⟨name, known, by rw [rename, sent]; rfl⟩
  · rw [relabels.relabeled, List.map_map]
    refine ((List.map_congr_left fun source member => ?_).trans (List.map_id provided)).symm
    change { source with name := rename undo (rename renames source.name) } = source
    rw [undone member]

/-- Renames that keep names distinct have an inverse. -/
theorem exists_inverse (relabels : Relabels renames provided requested) : ∃ undo, Inverse renames undo := by
  have keys : (renames.entries.map fun entry => (⟨entry.2, entry.1⟩ : Sigma fun _ : String => String)).NodupKeys := by
    rw [List.NodupKeys, List.keys, List.map_map]
    refine List.Nodup.map_on ?_ (List.Nodup.of_map _ renames.nodupKeys)
    rintro ⟨name, value⟩ member ⟨name', value'⟩ member' same
    obtain rfl : value = value' := same
    have given := AList.mem_lookup_iff.mpr member
    have given' := AList.mem_lookup_iff.mpr member'
    have known := relabels.known_given given
    have known' := relabels.known_given given'
    have same : rename renames name = rename renames name' := by rw [rename, rename, given, given']; rfl
    rw [relabels.injective known known' same]
  refine ⟨⟨_, keys⟩, fun name value => ?_⟩
  rw [← Option.mem_def, ← Option.mem_def, AList.mem_lookup_iff, AList.mem_lookup_iff, List.mem_map]
  constructor
  · rintro ⟨⟨name', value'⟩, member, same⟩
    cases same
    exact member
  · intro member
    exact ⟨_, member, rfl⟩

end Relabels

/-! Runs of such plans. -/

theorem describe_renameField (renames : StringMap String) (field : Field) :
    describe (renameField renames field) = relabel renames (describe field) := by
  obtain ⟨name, dataType, nullable, metadata⟩ := field
  rfl

variable {A B : Schema} {plan : InterchangePlan}

theorem planSchemaWith_relabels (relabels : Relabels renames (schemaDescriptors A) (schemaDescriptors B))
    (filled : renames.entries ≠ []) (inexact : policy ≠ .exact) :
    planSchemaWith arrow A B policy { renames } =
      .ok ⟨.arrow, .arrow, A, B, policy, moves (schemaDescriptors A).length, []⟩ := by
  apply planSchemaWith_eq_ok.mpr
  refine ⟨rfl, .inr ⟨?_, relabels.planOperations_eq inexact⟩⟩
  simpa [ProjectionOptions.isEmpty] using filled

/-- The run hands every column on, under the requested schema. -/
theorem applyBatch_relabels (relabels : Relabels renames (schemaDescriptors A) (schemaDescriptors B))
    (planned : planSchemaWith arrow A B policy { renames } = .ok plan)
    (mapped : plan.mappings = moves (schemaDescriptors A).length) (added : plan.additions = [])
    (batch : RecordBatch) (same : schemaFieldsEqual batch.schema A = true) :
    ∃ valid, plan.applyBatch arrow batch = .ok ⟨B, batch.columns, batch.numRows, valid⟩ := by
  have fields : schemaDescriptors batch.schema = schemaDescriptors A := of_decide_eq_true same
  have valid : RecordBatch.Accepts B batch.columns batch.numRows := by
    refine batch.valid.congr ?_
    have kept := congrArg (List.map fun field => (field.dataType, field.nullable)) relabels.relabeled
    rw [← fields] at kept
    simpa [schemaDescriptors, describe, relabel, Function.comp_def] using kept.symm
  refine ⟨valid, ((planSchemaWith_planned planned).applyBatch_ok same).mpr ⟨_, ⟨?_, ?_, ?_⟩, valid, rfl⟩⟩
  · rw [(planSchemaWith_planned planned).requestedSchema]
    exact valid.width
  · rw [mapped]
    intro mapping member
    obtain ⟨i, inside, rfl⟩ := List.mem_map.mp member
    rw [List.mem_range, ← fields, schemaDescriptors, List.length_map, ← batch.valid.width] at inside
    refine ⟨_, List.getElem?_eq_getElem inside, ?_⟩
    unfold applyMapping
    rw [List.getElem?_eq_getElem inside]
    rfl
  · rw [added]
    intro addition member
    cases member

/-- A plan that renames, and the plan of the inverse renames: both exist under every policy
that takes options, the first changes names alone, and the second gives the batch back. -/
theorem planSchemaWith_renames_undone (arrow : Arrow) (A : Schema) (renames : StringMap String)
    (policy : SchemaPolicy) (inexact : policy ≠ .exact) (filled : renames.entries ≠ [])
    (distinct : (A.fields.map Field.name).Nodup) (known : ∀ name ∈ renames, name ∈ A.fields.map Field.name)
    (distinct' : ((renameSchema renames A).fields.map Field.name).Nodup) :
    (∃ undo, Inverse renames undo) ∧ ∀ undo, Inverse renames undo →
      ∃ plan back, planSchemaWith arrow A (renameSchema renames A) policy { renames } = .ok plan ∧
        planSchemaWith arrow (renameSchema renames A) A policy { renames := undo } = .ok back ∧
        ∀ batch, schemaFieldsEqual batch.schema A = true →
          ∃ middle output, plan.applyBatch arrow batch = .ok middle ∧
            middle.schema = renameSchema renames A ∧ middle.columns = batch.columns ∧
            back.applyBatch arrow middle = .ok output ∧ output.schema = A ∧
            output.columns = batch.columns ∧ output.numRows = batch.numRows := by
  have relabels : Relabels renames (schemaDescriptors A) (schemaDescriptors (renameSchema renames A)) := by
    refine ⟨?_, ?_, ?_, ?_⟩
    · simpa [schemaDescriptors, describe, Function.comp_def] using distinct
    · simpa [schemaDescriptors, describe, Function.comp_def] using distinct'
    · simpa [schemaDescriptors, describe, Function.comp_def] using known
    · simp [schemaDescriptors, renameSchema, describe_renameField, Function.comp_def]
  refine ⟨relabels.exists_inverse, fun undo inverse => ?_⟩
  have relabels' := relabels.inverse inverse
  have filled' : undo.entries ≠ [] := by
    intro empty
    obtain ⟨⟨name, value⟩, member⟩ := List.exists_mem_of_ne_nil _ filled
    have back := (inverse name value).mpr (AList.mem_lookup_iff.mpr member)
    have listed := AList.mem_lookup_iff.mp back
    rw [empty] at listed
    contradiction
  refine ⟨_, _, planSchemaWith_relabels relabels filled inexact, planSchemaWith_relabels relabels' filled' inexact,
    fun batch same => ?_⟩
  obtain ⟨valid, run⟩ := applyBatch_relabels relabels (planSchemaWith_relabels relabels filled inexact) rfl rfl
    batch same
  obtain ⟨valid', run'⟩ := applyBatch_relabels relabels' (planSchemaWith_relabels relabels' filled' inexact) rfl rfl
    ⟨_, batch.columns, batch.numRows, valid⟩ (decide_eq_true rfl)
  exact ⟨_, _, run, rfl, rfl, run', rfl, rfl, rfl⟩

/-- `a` and `b` trade names. -/
def tradeNames : StringMap String := ⟨[⟨"a", "b"⟩, ⟨"b", "a"⟩], by simp [List.NodupKeys, List.keys]⟩

/-- Two columns of one type. -/
def twinBatch : RecordBatch :=
  ⟨⟨[.mk "a" .int64 false [], .mk "b" .int64 false []], []⟩,
    [⟨.int64, .plain [some (.integer 3)], rfl⟩, ⟨.int64, .plain [some (.integer 4)], rfl⟩], 1, by decide⟩

theorem planSchemaWith_renames_undone_traded :
    ∃ undo plan back middle output, Inverse tradeNames undo ∧
      planSchemaWith Arrow.small twinBatch.schema (renameSchema tradeNames twinBatch.schema) .compatible
        { renames := tradeNames } = .ok plan ∧
      planSchemaWith Arrow.small (renameSchema tradeNames twinBatch.schema) twinBatch.schema .compatible
        { renames := undo } = .ok back ∧
      plan.applyBatch Arrow.small twinBatch = .ok middle ∧ back.applyBatch Arrow.small middle = .ok output ∧
      output.columns = twinBatch.columns := by
  obtain ⟨⟨undo, inverse⟩, plans⟩ := planSchemaWith_renames_undone Arrow.small twinBatch.schema tradeNames
    .compatible nofun nofun (by decide) (by simp [tradeNames, AList.mem_keys, AList.keys, twinBatch, Field.name])
    (by decide)
  obtain ⟨plan, back, planned, planned', runs⟩ := plans undo inverse
  obtain ⟨middle, output, run, _, _, run', _, columns, _⟩ := runs twinBatch (decide_eq_true rfl)
  exact ⟨undo, plan, back, middle, output, inverse, planned, planned', run, run', columns⟩

end FsspecData.Plan
