import FsspecData.Plan.Lossless

/-! Identity and composition of plans without options. Under the three policies that
check nothing at run time, two plans in a row are one plan, to the error. -/
namespace FsspecData

open CastRegistry

/-- Casting through the middle type of two safe casts gives what the direct cast gives. -/
def Arrow.SafeCastsCompose (arrow : Arrow) : Prop :=
  ∀ array middle target out, classify array.dataType middle = some .safe →
    classify middle target = some .safe → arrow.castWithOptions array middle = .ok out →
    arrow.castWithOptions out target = arrow.castWithOptions array target

/-- The documented kernels compose: a plain array is its type and its rows, and each safe
cast says what rows it returns. Days enter no chain of two casts. -/
theorem Arrow.Documented.safeCastsCompose {arrow : Arrow} (documented : arrow.Documented) :
    arrow.SafeCastsCompose := by
  intro array middle target out known known' cast
  have first := classify_safe known
  have second := classify_safe known'
  obtain ⟨typed, _⟩ := documented.cast_typed cast
  obtain ⟨made, cast', rows⟩ := safe_cast documented first
  cases cast.symm.trans cast'
  obtain ⟨far, cast_far, rows_far⟩ := safe_cast documented (typed.symm ▸ second)
  obtain ⟨direct, cast_direct, rows_direct⟩ := safe_cast documented (first.trans second)
  rw [cast_far, cast_direct]
  congr 1
  apply ArrayRef.ext_of_plain
  · rw [(documented.cast_typed cast_far).1]
    exact second.target_plain first.target_valued
  · rw [(documented.cast_typed cast_far).1, (documented.cast_typed cast_direct).1]
  · rw [rows_far, rows_direct, rows, List.map_map, typed]
    apply List.map_congr_left
    intro slot member
    by_cases valued : array.dataType = .null
    · rw [ArrayRef.rows_null valued] at member
      rw [List.eq_of_mem_replicate member]
      rfl
    · have undated : array.dataType ≠ .date32 := fun dated => second.source_undated (dated ▸ first).target_date
      have undated' : middle ≠ .date32 := fun dated => valued (dated ▸ first).source_null
      rw [carry_undated fun dated => undated dated.1, carry_undated fun dated => undated dated.1,
        carry_undated fun dated => undated' dated.1]
      simp

namespace Plan

open InterchangePlan

variable {arrow : Arrow} {policy : SchemaPolicy} {A B C : List FieldDescriptor} {a b c : FieldDescriptor}

/-- Policies without run-time checks. They permit no cast or safe ones. -/
def Static (policy : SchemaPolicy) : Prop := policy ≠ .coerce

theorem Joins.refl (policy : SchemaPolicy) (limit : Option CastKind) (a : FieldDescriptor) :
    Joins policy limit a a := by
  refine ⟨fun distinct => absurd rfl distinct, fun narrows => ?_⟩
  cases nullable : a.nullable <;> simp [nullable] at narrows

theorem Joins.unchecked (joins : Joins policy limit a b) (static : Static policy) :
    (a.nullable && !b.nullable) = false := by
  cases narrows : (a.nullable && !b.nullable) with
  | false => rfl
  | true => exact absurd (joins.coerced narrows) static

/-- Under a static policy a cast is a safe one. -/
theorem Joins.safe (joins : Joins policy (policyCast policy) a b) (static : Static policy)
    (distinct : a.dataType ≠ b.dataType) :
    classify a.dataType b.dataType = some .safe ∧ policyCast policy = some .safe := by
  obtain ⟨kind, max, known, limited, within⟩ := joins.allowed distinct
  cases policy with
  | exact | projection => contradiction
  | compatible =>
    cases limited
    cases kind with
    | safe => exact ⟨known, rfl⟩
    | lossy | runtimeChecked => exact absurd within (by decide)
  | coerce => exact absurd rfl static

theorem Joins.trans (first : Joins policy (policyCast policy) a b)
    (second : Joins policy (policyCast policy) b c) (static : Static policy) :
    Joins policy (policyCast policy) a c := by
  refine ⟨fun distinct => ?_, fun narrows => ?_⟩
  · by_cases same : a.dataType = b.dataType
    · rw [same] at distinct ⊢
      exact second.allowed distinct
    · obtain ⟨safe, limited⟩ := first.safe static same
      have direct : classify a.dataType c.dataType = some .safe := by
        by_cases same' : b.dataType = c.dataType
        · rwa [← same']
        · exact ((classify_safe safe).trans (classify_safe (second.safe static same').1)).classify_eq
      exact ⟨.safe, .safe, direct, limited, Nat.le_refl _⟩
  · have first := first.unchecked static
    have second := second.unchecked static
    cases a.nullable <;> cases b.nullable <;> cases c.nullable <;> simp_all

/-- How the field `c` at index `i` is reached: from `b` at `j`, and that from `a` at `k`. -/
structure Chained (policy : SchemaPolicy) (A B : List FieldDescriptor) (first second direct : List FieldMapping)
    (i : Nat) (c : FieldDescriptor) (j : Nat) (b : FieldDescriptor) (k : Nat) (a : FieldDescriptor) : Prop where
  at_middle : B[j]? = some b
  at_source : A[k]? = some a
  joins_middle : Joins policy (policyCast policy) a b
  joins_target : Joins policy (policyCast policy) b c
  first_at : first[j]? = some (mappingOf k j a b)
  second_at : second[i]? = some (mappingOf j i b c)
  direct_at : direct[i]? = some (mappingOf k i a c)

theorem Positional.trans {joins : FieldDescriptor → FieldDescriptor → Prop} {first second : List FieldMapping}
    (positional : Positional joins A B first) (positional' : Positional joins B C second)
    (transitive : ∀ a b c, joins a b → joins b c → joins a c)
    (weaker : ∀ a b, joins a b → Joins policy (policyCast policy) a b) :
    ∃ direct, Positional joins A C direct ∧ ∀ i c, C[i]? = some c →
      ∃ j b k a, Chained policy A B first second direct i c j b k a := by
  have each (i : Nat) (c : FieldDescriptor) (at_c : C[i]? = some c) :
      ∃ mapping, ∃ b a, B[i]? = some b ∧ A[i]? = some a ∧ mapping = mappingOf i i a c := by
    obtain ⟨inside, _⟩ := List.getElem?_eq_some_iff.mp at_c
    have inside_b : i < B.length := by rwa [positional'.width]
    have inside_a : i < A.length := by rwa [positional.width]
    exact ⟨_, _, _, List.getElem?_eq_getElem inside_b, List.getElem?_eq_getElem inside_a, rfl⟩
  obtain ⟨direct, length, rows⟩ := Slots.row_exists each
  refine ⟨direct, ⟨positional.width.trans positional'.width, length, fun i a c at_a at_c => ?_⟩,
    fun i c at_c => ?_⟩
  · obtain ⟨mapping, at_i, b, a', at_b, at_a', rfl⟩ := rows i c at_c
    cases at_a.symm.trans at_a'
    obtain ⟨named, joined, _⟩ := positional.each i a b at_a at_b
    obtain ⟨named', joined', _⟩ := positional'.each i b c at_b at_c
    exact ⟨named.trans named', transitive a b c joined joined', at_i⟩
  · obtain ⟨mapping, at_i, b, a, at_b, at_a, rfl⟩ := rows i c at_c
    obtain ⟨_, joined, first_at⟩ := positional.each i a b at_a at_b
    obtain ⟨_, joined', second_at⟩ := positional'.each i b c at_b at_c
    exact ⟨i, b, i, a, at_b, at_a, weaker a b joined, weaker b c joined', first_at, second_at, at_i⟩

theorem ByName.trans {first second : List FieldMapping}
    (byName : ByName (Joins .projection none) A B first) (byName' : ByName (Joins .projection none) B C second) :
    ∃ direct, ByName (Joins .projection none) A C direct ∧ ∀ i c, C[i]? = some c →
      ∃ j b k a, Chained .projection A B first second direct i c j b k a := by
  have each (i : Nat) (c : FieldDescriptor) (at_c : C[i]? = some c) : ∃ mapping, ∃ j b k a,
      A.zipIdx.filter (fun entry => entry.1.name = c.name) = [(a, k)] ∧ B[j]? = some b ∧
        Joins .projection none a b ∧ Joins .projection none b c ∧ first[j]? = some (mappingOf k j a b) ∧
        second[i]? = some (mappingOf j i b c) ∧ mapping = mappingOf k i a c := by
    obtain ⟨b, j, only, joined', second_at⟩ := byName'.each i c at_c
    obtain ⟨at_b, named⟩ := at_of_found only
    obtain ⟨a, k, only', joined, first_at⟩ := byName.each j b at_b
    exact ⟨_, j, b, k, a, named ▸ only', at_b, joined, joined', first_at, second_at, rfl⟩
  obtain ⟨direct, length, rows⟩ := Slots.row_exists each
  refine ⟨direct, ⟨length, fun i c at_c => ?_⟩, fun i c at_c => ?_⟩
  · obtain ⟨_, at_i, j, b, k, a, only, _, joined, joined', _, _, rfl⟩ := rows i c at_c
    exact ⟨a, k, only, joined.trans joined' nofun, at_i⟩
  · obtain ⟨_, at_i, j, b, k, a, only, at_b, joined, joined', first_at, second_at, rfl⟩ := rows i c at_c
    exact ⟨j, b, k, a, at_b, (at_of_found only).1, joined, joined', first_at, second_at, at_i⟩

/-- Two plans in a row have a direct plan, and it goes through the same fields. -/
theorem planFieldDescriptors_trans (static : Static policy) {first second : List FieldMapping}
    (planned : planFieldDescriptors A B policy = .ok first)
    (planned' : planFieldDescriptors B C policy = .ok second) :
    ∃ direct, planFieldDescriptors A C policy = .ok direct ∧ ∀ i c, C[i]? = some c →
      ∃ j b k a, Chained policy A B first second direct i c j b k a := by
  cases policy with
  | exact =>
    obtain ⟨direct, positional, chained⟩ := (planExact_eq_ok.mp planned).trans
      (planExact_eq_ok.mp planned') (fun a b c joined joined' =>
        ⟨joined.1.trans joined'.1 nofun, joined.2.trans joined'.2⟩) fun _ _ joined => joined.1
    exact ⟨direct, planExact_eq_ok.mpr positional, chained⟩
  | projection =>
    obtain ⟨direct, byName, chained⟩ := (planProjection_eq_ok.mp planned).trans (planProjection_eq_ok.mp planned')
    exact ⟨direct, planProjection_eq_ok.mpr byName, chained⟩
  | compatible =>
    obtain ⟨direct, positional, chained⟩ := (planCompatible_eq_ok.mp planned).trans
      (planCompatible_eq_ok.mp planned') (fun a b c joined joined' =>
        joined.trans joined' nofun) fun _ _ joined => joined
    exact ⟨direct, planCompatible_eq_ok.mpr positional, chained⟩
  | coerce => exact absurd rfl static

/-- Every field reaches itself, where names are distinct as far as they are searched. -/
theorem planFieldDescriptors_refl (static : Static policy) (A : List FieldDescriptor)
    (distinct : policy = .projection → (A.map (·.name)).Nodup) :
    ∃ mappings, planFieldDescriptors A A policy = .ok mappings ∧
      ∀ i a, A[i]? = some a → mappings[i]? = some (mappingOf i i a a) := by
  have each (i : Nat) (a : FieldDescriptor) (_ : A[i]? = some a) : ∃ mapping, mapping = mappingOf i i a a :=
    ⟨_, rfl⟩
  obtain ⟨mappings, length, rows⟩ := Slots.row_exists each
  have at_index (i : Nat) (a : FieldDescriptor) (at_a : A[i]? = some a) :
      mappings[i]? = some (mappingOf i i a a) := by
    obtain ⟨_, at_i, rfl⟩ := rows i a at_a
    exact at_i
  have positional (joins : FieldDescriptor → FieldDescriptor → Prop) (reflexive : ∀ a, joins a a) :
      Positional joins A A mappings := by
    refine ⟨rfl, length, fun i a b at_a at_b => ?_⟩
    cases at_a.symm.trans at_b
    exact ⟨rfl, reflexive a, at_index i a at_a⟩
  refine ⟨mappings, ?_, at_index⟩
  cases policy with
  | exact => exact planExact_eq_ok.mpr (positional _ fun a => ⟨.refl _ _ a, rfl⟩)
  | projection =>
    apply planProjection_eq_ok.mpr
    exact (positional _ fun a => .refl _ _ a).byName (distinct rfl)
  | compatible => exact planCompatible_eq_ok.mpr (positional _ fun a => .refl _ _ a)
  | coerce => exact absurd rfl static

theorem planSchema_eq_ok {provided requested : Schema} {plan : InterchangePlan} :
    planSchema arrow provided requested policy = .ok plan ↔
      ∃ mappings, planFieldDescriptors (schemaDescriptors provided) (schemaDescriptors requested) policy =
        .ok mappings ∧ plan = ⟨.arrow, .arrow, provided, requested, policy, mappings, []⟩ := by
  rw [planSchema, planSchemaWith_eq_ok, Plans]
  constructor
  · rintro ⟨shape, ⟨_, none_added, matched⟩ | ⟨filled, _⟩⟩
    · exact ⟨_, matched, by rw [shape, none_added]⟩
    · contradiction
  · rintro ⟨mappings, matched, rfl⟩
    exact ⟨rfl, .inl ⟨rfl, rfl, matched⟩⟩

/-- What a mapping of a static plan does: it moves the column, or casts it. -/
theorem applyMapping_static (static : Static policy) {source target : Field}
    (joins : Joins policy (policyCast policy) (describe source) (describe target)) {requested : Schema}
    {batch : RecordBatch} {column : ArrayRef} {k i : Nat} (at_column : batch.columns[k]? = some column)
    (at_target : requested.fields[i]? = some target) :
    applyMapping arrow requested batch (mappingOf k i (describe source) (describe target)) =
      if source.dataType = target.dataType then .ok column
      else orArrow (arrow.castWithOptions column target.dataType) := by
  have unchecked : (mappingOf k i (describe source) (describe target)).checkNulls = false :=
    joins.unchecked static
  have run : applyMapping arrow requested batch (mappingOf k i (describe source) (describe target)) = _ :=
    applyMapping_eq at_column at_target
  rw [run, unchecked]
  simp only [Bool.false_eq_true, false_and, if_false]
  split_ifs with same
  · have uncast : (mappingOf k i (describe source) (describe target)).cast = none := by
      change classify source.dataType target.dataType = none
      rw [same, classify_self]
    rw [uncast]
  · have cast : (mappingOf k i (describe source) (describe target)).cast = some .safe :=
      (joins.safe static same).1
    rw [cast]

/-- Two mappings in a row do what the direct one does, to the error. -/
theorem applyMapping_trans (composes : arrow.SafeCastsCompose) (static : Static policy) {a b c : Field}
    (joins : Joins policy (policyCast policy) (describe a) (describe b))
    (joins' : Joins policy (policyCast policy) (describe b) (describe c)) {B C : Schema}
    {batch output : RecordBatch} {column out : ArrayRef} {k j i : Nat}
    (at_column : batch.columns[k]? = some column) (typed : column.dataType = a.dataType)
    (at_b : B.fields[j]? = some b) (at_c : C.fields[i]? = some c) (at_out : output.columns[j]? = some out)
    (first : applyMapping arrow B batch (mappingOf k j (describe a) (describe b)) = .ok out) :
    applyMapping arrow C output (mappingOf j i (describe b) (describe c)) =
      applyMapping arrow C batch (mappingOf k i (describe a) (describe c)) := by
  rw [applyMapping_static static joins at_column at_b] at first
  rw [applyMapping_static static joins' at_out at_c,
    applyMapping_static static (joins.trans joins' static) at_column at_c]
  by_cases same : a.dataType = b.dataType
  · rw [if_pos same] at first
    cases first
    rw [same]
  · rw [if_neg same] at first
    have cast := orArrow_eq_ok.mp first
    obtain ⟨safe, _⟩ := joins.safe static same
    by_cases same' : b.dataType = c.dataType
    · rw [if_pos same', if_neg (same' ▸ same), ← same', cast]
      rfl
    · obtain ⟨safe', _⟩ := joins'.safe static same'
      have distinct : a.dataType ≠ c.dataType := by
        intro cycle
        have direct := ((classify_safe safe).trans (classify_safe safe')).classify_eq
        rw [show (describe a).dataType = (describe c).dataType from cycle, classify_self] at direct
        contradiction
      rw [if_neg same', if_neg distinct]
      exact congrArg orArrow (composes column _ _ out (typed ▸ safe) safe' cast)

theorem planFieldDescriptors_length {mappings : List FieldMapping}
    (planned : planFieldDescriptors A B policy = .ok mappings) : mappings.length = B.length := by
  cases policy with
  | exact => exact (planExact_eq_ok.mp planned).length
  | projection => exact (planProjection_eq_ok.mp planned).length
  | compatible => exact (planCompatible_eq_ok.mp planned).length
  | coerce => exact (planCoerce_eq_ok.mp planned).length

theorem descriptor_at {schema : Schema} {i : Nat} (at_i : (schemaDescriptors schema)[i]? = some a) :
    ∃ field, schema.fields[i]? = some field ∧ describe field = a := by
  rw [schemaDescriptors, List.getElem?_map] at at_i
  exact Option.map_eq_some_iff.mp at_i

/-- The column of a field, in a batch of equal fields. -/
theorem column_at {batch : RecordBatch} {schema : Schema}
    (same : schemaFieldsEqual batch.schema schema = true) {field : Field} {k : Nat}
    (at_field : schema.fields[k]? = some field) :
    ∃ column, batch.columns[k]? = some column ∧ column.dataType = field.dataType := by
  have at_descriptor : (schemaDescriptors batch.schema)[k]? = some (describe field) := by
    rw [of_decide_eq_true same, schemaDescriptors, List.getElem?_map, at_field]
    rfl
  obtain ⟨own, at_own, described⟩ := descriptor_at at_descriptor
  obtain ⟨column, at_column⟩ := batch.column_of_field at_own
  exact ⟨column, at_column, (batch.column_type at_own at_column).trans (congrArg (·.dataType) described)⟩

variable {provided middle requested : Schema} {first second direct : InterchangePlan}

/-- The second run computes, column by column, what the direct one does. -/
theorem applyBatch_trans (composes : arrow.SafeCastsCompose) (static : Static policy)
    (planned : planSchema arrow provided middle policy = .ok first)
    (planned' : planSchema arrow middle requested policy = .ok second) :
    ∃ direct, planSchema arrow provided requested policy = .ok direct ∧
      ∀ batch output, schemaFieldsEqual batch.schema provided = true →
        first.applyBatch arrow batch = .ok output →
        second.applyBatch arrow output = direct.applyBatch arrow batch := by
  obtain ⟨mappings, matched, made⟩ := planSchema_eq_ok.mp planned
  obtain ⟨mappings', matched', made'⟩ := planSchema_eq_ok.mp planned'
  obtain ⟨mappings'', matched'', chained⟩ := planFieldDescriptors_trans static matched matched'
  have planned'' : planSchema arrow provided requested policy =
      .ok ⟨.arrow, .arrow, provided, requested, policy, mappings'', []⟩ :=
    planSchema_eq_ok.mpr ⟨mappings'', matched'', rfl⟩
  refine ⟨_, planned'', fun batch output same run => ?_⟩
  obtain ⟨columns, produces, valid, returned⟩ := ((planSchemaWith_planned planned).applyBatch_ok same).mp run
  have covers' := (planSchemaWith_planned planned').covers
  have covers'' := (planSchemaWith_planned planned'').covers
  have same' : schemaFieldsEqual output.schema middle = true := by
    rw [returned]
    exact decide_eq_true rfl
  subst made made'
  rw [applyBatch_assemble same', applyBatch_assemble same, show output.numRows = batch.numRows by rw [returned]]
  refine congrArg (· >>= _) (Slots.assemble_congr Failure.panic Failure.panic covers' covers'' ?_ rfl)
  have length := planFieldDescriptors_length matched'
  have length'' := planFieldDescriptors_length matched''
  refine List.ext_getElem? fun i => ?_
  rw [List.getElem?_map, List.getElem?_map]
  cases at_i : (schemaDescriptors requested)[i]? with
  | none =>
    have outside := List.getElem?_eq_none_iff.mp at_i
    rw [List.getElem?_eq_none (by rw [length]; exact outside),
      List.getElem?_eq_none (by rw [length'']; exact outside)]
    rfl
  | some c =>
    obtain ⟨j, b, k, a, chain⟩ := chained i c at_i
    obtain ⟨target, at_target, rfl⟩ := descriptor_at at_i
    obtain ⟨field, at_field, rfl⟩ := descriptor_at chain.at_middle
    obtain ⟨source, at_source, rfl⟩ := descriptor_at chain.at_source
    obtain ⟨column, at_column, typed⟩ := column_at same at_source
    obtain ⟨out, at_out, computed⟩ := produces.first _ (List.mem_of_getElem? chain.first_at)
    rw [chain.second_at, chain.direct_at]
    have held : output.columns[j]? = some out := by rw [returned]; exact at_out
    have equal := applyMapping_trans composes static chain.joins_middle chain.joins_target
      at_column typed at_field at_target held computed
    exact congrArg (fun result => some (i, result)) equal

/-- A batch accepted under a schema is accepted under one with equal fields. -/
theorem accepts_of_equal {batch : RecordBatch} {schema : Schema}
    (same : schemaFieldsEqual batch.schema schema = true) :
    RecordBatch.Accepts schema batch.columns batch.numRows := by
  refine batch.valid.congr ?_
  have fields := congrArg (List.map fun field => (field.dataType, field.nullable)) (of_decide_eq_true same)
  simpa [schemaDescriptors, describe, Function.comp_def] using fields

/-- The plan of a schema to itself moves every column to its own place. -/
theorem applyBatch_refl (static : Static policy) (schema : Schema)
    (distinct : policy = .projection → (schema.fields.map Field.name).Nodup) :
    ∃ plan, planSchema arrow schema schema policy = .ok plan ∧
      ∀ batch, schemaFieldsEqual batch.schema schema = true →
        ∃ valid, plan.applyBatch arrow batch = .ok ⟨schema, batch.columns, batch.numRows, valid⟩ := by
  obtain ⟨mappings, matched, rows⟩ := planFieldDescriptors_refl static (schemaDescriptors schema)
    (by simpa [schemaDescriptors, describe, Function.comp_def] using distinct)
  have planned : planSchema arrow schema schema policy =
      .ok ⟨.arrow, .arrow, schema, schema, policy, mappings, []⟩ :=
    planSchema_eq_ok.mpr ⟨mappings, matched, rfl⟩
  refine ⟨_, planned, fun batch same => ⟨accepts_of_equal same, ?_⟩⟩
  apply ((planSchemaWith_planned planned).applyBatch_ok same).mpr
  refine ⟨batch.columns, ⟨(accepts_of_equal same).width, fun mapping member => ?_, by simp⟩, _, rfl⟩
  obtain ⟨i, at_i⟩ := List.getElem?_of_mem member
  obtain ⟨inside, _⟩ := List.getElem?_eq_some_iff.mp at_i
  have at_descriptor := List.getElem?_eq_getElem (planFieldDescriptors_length matched ▸ inside)
  cases at_i.symm.trans (rows i _ at_descriptor)
  obtain ⟨field, at_field, described⟩ := descriptor_at at_descriptor
  obtain ⟨column, at_column, _⟩ := column_at same at_field
  refine ⟨column, at_column, ?_⟩
  rw [← described]
  exact (applyMapping_static static (.refl _ _ _) at_column at_field).trans (if_pos rfl)

/-- Static policies have identity plans, and two plans in a row equal the direct one:
it exists, and on what the first run returns the second gives the direct run's outcome. -/
theorem planSchema_category (arrow : Arrow) (composes : arrow.SafeCastsCompose) (policy : SchemaPolicy)
    (static : policy = .exact ∨ policy = .projection ∨ policy = .compatible) :
    (∀ schema : Schema, (policy = .projection → (schema.fields.map Field.name).Nodup) →
      ∃ plan, planSchema arrow schema schema policy = .ok plan ∧
        ∀ batch, schemaFieldsEqual batch.schema schema = true →
          ∃ output, plan.applyBatch arrow batch = .ok output ∧ output.columns = batch.columns) ∧
    ∀ A B C first second, planSchema arrow A B policy = .ok first →
      planSchema arrow B C policy = .ok second →
      ∃ direct, planSchema arrow A C policy = .ok direct ∧
        ∀ batch output, schemaFieldsEqual batch.schema A = true →
          first.applyBatch arrow batch = .ok output →
          second.applyBatch arrow output = direct.applyBatch arrow batch := by
  have static : Static policy := by
    rcases static with rfl | rfl | rfl <;> nofun
  constructor
  · intro schema distinct
    obtain ⟨plan, planned, runs⟩ : ∃ plan, planSchema arrow schema schema policy = .ok plan ∧ _ :=
      applyBatch_refl static schema distinct
    refine ⟨plan, planned, fun batch same => ?_⟩
    obtain ⟨valid, run⟩ := runs batch same
    exact ⟨_, run, rfl⟩
  · intro A B C first second planned planned'
    exact applyBatch_trans composes static planned planned'

/-- Two widenings in a row, and the batch they start from. -/
def widthSchema (type : DataType) : Schema := ⟨[.mk "n" type false []], []⟩

def byteBatch : RecordBatch :=
  ⟨widthSchema .int8, [⟨.int8, .plain [some (.integer 7)], rfl⟩], 1, by decide⟩

theorem planSchema_category_widen :
    (∃ plan output, planSchema Arrow.small (widthSchema .int8) (widthSchema .int8) .compatible = .ok plan ∧
      plan.applyBatch Arrow.small byteBatch = .ok output ∧ output.columns = byteBatch.columns) ∧
    ∃ first second direct output,
      planSchema Arrow.small (widthSchema .int8) (widthSchema .int16) .compatible = .ok first ∧
      planSchema Arrow.small (widthSchema .int16) (widthSchema .int64) .compatible = .ok second ∧
      planSchema Arrow.small (widthSchema .int8) (widthSchema .int64) .compatible = .ok direct ∧
      first.applyBatch Arrow.small byteBatch = .ok output ∧
      second.applyBatch Arrow.small output = direct.applyBatch Arrow.small byteBatch := by
  have composes := Arrow.small_documented.safeCastsCompose
  obtain ⟨identity, composition⟩ := planSchema_category Arrow.small composes .compatible (.inr (.inr rfl))
  constructor
  · obtain ⟨plan, planned, runs⟩ := identity (widthSchema .int8) nofun
    obtain ⟨output, run, same⟩ := runs byteBatch (decide_eq_true rfl)
    exact ⟨plan, output, planned, run, same⟩
  · obtain ⟨first, second, output, planned, planned', run⟩ : ∃ first second output,
        planSchema Arrow.small (widthSchema .int8) (widthSchema .int16) .compatible = .ok first ∧
        planSchema Arrow.small (widthSchema .int16) (widthSchema .int64) .compatible = .ok second ∧
        first.applyBatch Arrow.small byteBatch = .ok output := ⟨_, _, _, rfl, rfl, rfl⟩
    obtain ⟨direct, planned'', runs⟩ := composition _ _ _ first second planned planned'
    exact ⟨first, second, direct, output, planned, planned', planned'', run,
      runs byteBatch output (decide_eq_true rfl) run⟩

end Plan

end FsspecData
