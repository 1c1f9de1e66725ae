import FsspecData.Json.Shape

/-! Valid instances of a schema document conform to the translated schema, and its
nullability is tight. -/
namespace FsspecData.JsonSchema

/-- The type names an instance has. -/
def typesOf : Json → List String
  | .null => ["null"]
  | .bool _ => ["boolean"]
  | .number value => if value.den = 1 then ["integer", "number"] else ["number"]
  | .string _ => ["string"]
  | .array _ => ["array"]
  | .object _ => ["object"]

/-- The structural rules of JSON Schema: `type`, `properties`, `required` and `items`. -/
inductive Valid : Mapping → Json → Prop
  | intro (schema : Mapping) (data : Json) (names : List String) (types : Types schema names)
    (typed : ∃ name ∈ names, name ∈ typesOf data)
    (properties : ∀ (members declared : Mapping) name property value, data = .object members →
      Properties schema declared → (name, .object property) ∈ declared → members.lookup name = some value →
      Valid property value)
    (required : ∀ (members : Mapping) required, data = .object members → Requires schema required →
      ∀ name ∈ required, members.has name = true)
    (items : ∀ elements item, data = .array elements → schema.lookup "items" = some (.object item) →
      ∀ element ∈ elements, Valid item element) : Valid schema data

/-- A member's value, null where it is absent. -/
def read (members : Mapping) (name : String) : Json := (members.lookup name).getD .null

/-- Data of a type, with nulls only where they are admitted. -/
inductive Conforms : DataType → Json → Prop
  | boolean (value : Bool) : Conforms .boolean (.bool value)
  | int64 (value : ℤ) : Conforms .int64 (.number value)
  | float64 (value : ℚ) : Conforms .float64 (.number value)
  | utf8 (value : String) : Conforms .utf8 (.string value)
  | list (item : Field) (elements : List Json) (vacant : .null ∈ elements → item.isNullable = true)
    (held : ∀ element ∈ elements, element ≠ .null → Conforms item.dataType element) :
    Conforms (.list item) (.array elements)
  | struct (fields : Fields) (members : Mapping)
    (vacant : ∀ field ∈ fields.toList, read members field.name = .null → field.isNullable = true)
    (held : ∀ field ∈ fields.toList, read members field.name ≠ .null →
      Conforms field.dataType (read members field.name)) : Conforms (.struct fields) (.object members)

/-- Some value at a place is null or missing. -/
inductive Vacant : Json → List Step → Prop
  | null : Vacant .null []
  | missing (members : Mapping) (name : String) (absent : members.lookup name = none) :
    Vacant (.object members) [.property name]
  | property (members : Mapping) (name : String) (value : Json) (place : List Step)
    (found : members.lookup name = some value) (further : Vacant value place) :
    Vacant (.object members) (.property name :: place)
  | items (elements : List Json) (element : Json) (place : List Step) (member : element ∈ elements)
    (further : Vacant element place) : Vacant (.array elements) (.items :: place)

theorem Valid.typed {schema : Mapping} {data : Json} (valid : Valid schema data) :
    ∃ name, IsKind schema name ∧ name ∈ typesOf data := by
  cases valid with
  | intro _ _ names types typed =>
    obtain ⟨name, named, typed⟩ := typed
    exact ⟨name, ⟨names, types, named⟩, typed⟩

/-- Only a schema that admits null has a null instance. -/
theorem Translates.null {value : Mapping} {type : DataType} {nullable : Bool}
    (translates : Translates value type nullable) (valid : Valid value .null) : nullable = true := by
  obtain ⟨name, isKind, typed⟩ := valid.typed
  obtain rfl : name = "null" := by simpa [typesOf] using typed
  cases translates with
  | primitive _ names kind type plain kinded found => simp [kinded.isKind_iff.mp isKind]
  | array _ names items itemType itemNullable plain kinded found item => simp [kinded.isKind_iff.mp isKind]
  | object _ names fields plain kinded members => simp [kinded.isKind_iff.mp isKind]

theorem number_typesOf {value : ℚ} {name : String} :
    name ∈ typesOf (.number value) ↔ name = "number" ∨ name = "integer" ∧ value.den = 1 := by
  by_cases whole : value.den = 1 <;> simp [typesOf, whole, or_comm]

theorem null_typesOf {data : Json} (typed : "null" ∈ typesOf data) : data = .null := by
  cases data with
  | number value => simp [number_typesOf] at typed
  | _ => simp_all [typesOf]

/-- A valid instance that is not null has the schema's kind. -/
theorem Kinded.typed {value : Mapping} {names : List String} {kind : String} (kinded : Kinded value names kind)
    {data : Json} (valid : Valid value data) (real : data ≠ .null) : kind ∈ typesOf data := by
  obtain ⟨name, isKind, typed⟩ := valid.typed
  have other : name ≠ "null" := by
    rintro rfl
    exact real (null_typesOf typed)
  rwa [← kinded.only isKind other]

/-- Data of a primitive kind conforms to its type. -/
theorem primitive_conforms {kind : String} {type : DataType} (found : primitiveTypes.lookup kind = some type)
    {data : Json} (typed : kind ∈ typesOf data) (real : data ≠ .null) : Conforms type data := by
  obtain ⟨rfl, rfl⟩ | ⟨rfl, rfl⟩ | ⟨rfl, rfl⟩ | ⟨rfl, rfl⟩ | ⟨rfl, rfl⟩ := primitive_cases found
  · cases data with
    | bool value => exact .boolean value
    | number value => simp [number_typesOf] at typed
    | _ => simp [typesOf] at typed
  · cases data with
    | number value =>
      obtain ⟨-, whole⟩ : "integer" = "integer" ∧ value.den = 1 := by simpa [number_typesOf] using typed
      rw [← (Rat.den_eq_one_iff value).mp whole]
      exact .int64 value.num
    | _ => simp [typesOf] at typed
  · exact absurd (null_typesOf typed) real
  · cases data with
    | number value => exact .float64 value
    | _ => simp [typesOf] at typed
  · cases data with
    | string value => exact .utf8 value
    | number value => simp [number_typesOf] at typed
    | _ => simp [typesOf] at typed

theorem array_typesOf {data : Json} (typed : "array" ∈ typesOf data) : ∃ elements, data = .array elements := by
  cases data with
  | array elements => exact ⟨elements, rfl⟩
  | number value => simp [number_typesOf] at typed
  | _ => simp [typesOf] at typed

theorem object_typesOf {data : Json} (typed : "object" ∈ typesOf data) :
    ∃ members : Mapping, data = .object members := by
  cases data with
  | object members => exact ⟨members, rfl⟩
  | number value => simp [number_typesOf] at typed
  | _ => simp [typesOf] at typed

/-- Data held at one step inside an instance. -/
def Held : Json → Step → Json → Prop
  | .object members, .property name, value => members.lookup name = some value
  | .array elements, .items, value => value ∈ elements
  | _, _, _ => False

/-- The rules for properties and items speak of every child that has data. -/
theorem rules_child {schema : Mapping} {data : Json} {P : Mapping → Json → Prop}
    (properties : ∀ (members declared : Mapping) name property value, data = .object members →
      Properties schema declared → (name, .object property) ∈ declared → members.lookup name = some value →
      P property value)
    (items : ∀ elements item, data = .array elements → schema.lookup "items" = some (.object item) →
      ∀ element ∈ elements, P item element)
    {step : Step} {child : Mapping} {value : Json} (down : Child schema step child) (held : Held data step value) :
    P child value := by
  cases down with
  | property name declared _ object listed member =>
    cases data with
    | object members => exact properties members declared name child value rfl listed member held
    | _ => exact held.elim
  | items _ array found =>
    cases data with
    | array elements => exact items elements child rfl found value held
    | _ => exact held.elim

/-- Induction over a valid instance, from its children up. -/
theorem Valid.induct {P : Mapping → Json → Prop}
    (each : ∀ schema data, Valid schema data →
      (∀ step child value, Child schema step child → Held data step value → Valid child value ∧ P child value) →
      P schema data)
    {schema : Mapping} {data : Json} (valid : Valid schema data) : P schema data := by
  induction valid with
  | intro schema data names types typed properties required items properties_ih items_ih =>
    apply each schema data (.intro schema data names types typed properties required items)
    intro step child value down held
    exact ⟨rules_child properties items down held, rules_child properties_ih items_ih down held⟩

/-- Only a property that may be left out is missing in a valid instance. -/
theorem Valid.missing {value members : Mapping} {fields : List Field} {name : String}
    (valid : Valid value (.object members)) (listed : Members value fields) (absent : members.lookup name = none) :
    Optional value (.property name) := by
  obtain ⟨declared, required, level, -⟩ := listed.each
  refine ⟨required, level.requires, fun needed => ?_⟩
  cases valid with
  | intro _ _ names types typed properties requires items =>
    have present := requires members required rfl level.requires name needed
    simp [Mapping.has, absent] at present

/-- Valid instances conform. -/
theorem Valid.conforms {value : Mapping} {data : Json} (valid : Valid value data) :
    ∀ type, Shape value type → data ≠ .null → Conforms type data := by
  apply valid.induct
  intro value data valid inside type shape real
  -- a null inside the data stands where the field is nullable, and other data conforms
  have vacant (step : Step) (field : Field) (down : Down type step field)
      (held : Held data step .null) : field.isNullable = true := by
    obtain ⟨child, allowsNull, child_of, translates, nullable⟩ := shape.down down
    exact nullable.mpr (.inr (translates.null (inside step child .null child_of held).1))
  have conforms (step : Step) (field : Field) (inner : Json) (down : Down type step field)
      (held : Held data step inner) (real : inner ≠ .null) : Conforms field.dataType inner := by
    obtain ⟨child, allowsNull, child_of, translates, -⟩ := shape.down down
    exact (inside step child inner child_of held).2 _ (.nested _ _ translates) real
  obtain ⟨names, kind, kinded, found⟩ | ⟨names, items, itemType, itemNullable, kinded, found, inner, rfl⟩ |
    ⟨names, fields, kinded, listed, rfl⟩ := shape.cases
  · exact primitive_conforms found (kinded.typed valid real) real
  · obtain ⟨elements, rfl⟩ := array_typesOf (kinded.typed valid real)
    apply Conforms.list
    · exact vacant .items _ (.items _)
    · exact fun element => conforms .items _ element (.items _)
  · obtain ⟨members, rfl⟩ := object_typesOf (kinded.typed valid real)
    apply Conforms.struct
    · intro field member null
      cases found : members.lookup field.name with
      | none =>
        obtain ⟨child, allowsNull, -, -, nullable⟩ := shape.down (.property _ field member)
        exact nullable.mpr (.inl (valid.missing listed found))
      | some inner =>
        obtain rfl : inner = .null := by simpa [read, found] using null
        exact vacant (.property field.name) field (.property _ field member) found
    · intro field member other
      cases found : members.lookup field.name with
      | none => exact absurd (by simp [read, found]) other
      | some inner =>
        have same : read members field.name = inner := by simp [read, found]
        rw [same] at other ⊢
        exact conforms (.property field.name) field inner (.property _ field member) found other

theorem Vacant.step {data : Json} {step : Step} {place : List Step} (vacant : Vacant data (step :: place)) :
    (∃ inner, Held data step inner ∧ Vacant inner place) ∨
      place = [] ∧ ∃ members name, data = .object members ∧ step = .property name ∧ members.lookup name = none := by
  cases vacant with
  | missing members name absent => exact .inr ⟨rfl, members, name, rfl, rfl, absent⟩
  | property members name value _ found further => exact .inl ⟨value, found, further⟩
  | items elements element _ member further => exact .inl ⟨element, member, further⟩

/-- What conforming data holds at a step conforms, or is a null that the field admits. -/
theorem Conforms.held {type : DataType} {data inner : Json} {step : Step} {field : Field}
    (conforms : Conforms type data) (down : Down type step field) (held : Held data step inner) :
    (inner = .null → field.isNullable = true) ∧ (inner ≠ .null → Conforms field.dataType inner) := by
  cases down with
  | property fields _ member =>
    cases conforms with
    | struct _ members vacant conforms =>
      have same : read members field.name = inner := by
        rw [read, show members.lookup field.name = some inner from held, Option.getD_some]
      exact ⟨fun null => vacant field member (same.trans null), fun real =>
        same ▸ conforms field member (same ▸ real)⟩
  | items =>
    cases conforms with
    | list _ elements vacant conforms =>
      exact ⟨fun null => vacant (null ▸ held), fun real => conforms inner held real⟩

theorem Conforms.missing {type : DataType} {members : Mapping} {name : String} {field : Field}
    (conforms : Conforms type (.object members)) (down : Down type (.property name) field)
    (absent : members.lookup name = none) : field.isNullable = true := by
  cases down with
  | property fields _ member =>
    cases conforms with
    | struct _ _ vacant => exact vacant field member (by simp [read, absent])

/-- In conforming data only nullable fields are null or missing. -/
theorem Conforms.vacant {type : DataType} {place : List Step} {field : Field} (inside : FieldAt type place field)
    {data : Json} (conforms : Conforms type data) (vacant : Vacant data place) : field.isNullable = true := by
  induction inside generalizing data with
  | last type step field down =>
    obtain ⟨inner, held, vacant⟩ | ⟨-, members, name, rfl, rfl, absent⟩ := vacant.step
    · cases vacant
      exact (conforms.held down held).1 rfl
    · exact conforms.missing down absent
  | step type step field place inner down further ih =>
    obtain ⟨value, held, vacant⟩ | ⟨rfl, -⟩ := vacant.step
    · refine ih ((conforms.held down held).2 ?_) vacant
      rintro rfl
      cases vacant
      cases further
    · cases further

/-- Every reached type array names some type. -/
def Named (value : Mapping) : Prop := ∀ place node, NodeAt value place node → ¬Types node []

theorem Named.child {value child : Mapping} {step : Step} (named : Named value) (down : Child value step child) :
    Named child :=
  fun place node reached => named (step :: place) node (.step value step child place node down reached)

theorem named_of_children {value : Mapping} {names : List String} (types : Types value names)
    (some_name : names ≠ [])
    (children : ∀ step child, Child value step child → Named child) : Named value := by
  intro place node reached empty
  cases reached with
  | here => exact some_name (types.unique empty)
  | step _ step child place _ down further => exact children step child down place node further empty

theorem distinct_child {value child : Mapping} {step : Step} (distinct : (Json.object value).Distinct)
    (down : Child value step child) : (Json.object child).Distinct := by
  have inside : ∀ entry ∈ value, entry.2.Distinct := Json.distinctMembers_iff.mp distinct.2
  cases down with
  | property name declared _ _ listed member =>
    cases listed with
    | absent => cases member
    | listed _ found =>
      have declared_distinct := inside _ (Mapping.mem_of_lookup found)
      exact Json.distinctMembers_iff.mp declared_distinct.2 _ member
  | items _ _ found => exact inside _ (Mapping.mem_of_lookup found)

theorem Properties.nodup {value declared : Mapping} (properties : Properties value declared)
    (distinct : (Json.object value).Distinct) : (declared.map Prod.fst).Nodup := by
  cases properties with
  | absent => exact List.nodup_nil
  | listed _ found =>
    have declared_distinct := Json.distinctMembers_iff.mp distinct.2 _ (Mapping.mem_of_lookup found)
    exact declared_distinct.1

/-- A kind is one of the listed names when there are any. -/
theorem Kinded.member {value : Mapping} {names : List String} {kind : String} (kinded : Kinded value names kind)
    (named : Named value) : kind ∈ names := by
  cases kinded.sole with
  | other _ member => exact member
  | null alone =>
    cases names with
    | nil => exact absurd kinded.types (named [] value (.here value))
    | cons name rest =>
      obtain rfl := alone name List.mem_cons_self
      exact List.mem_cons_self

/-- Data that holds nothing has only its type to follow. -/
theorem scalar_valid {value : Mapping} {names : List String} {name : String} {data : Json}
    (types : Types value names) (member : name ∈ names) (typed : name ∈ typesOf data)
    (noArray : ∀ elements, data ≠ .array elements)
    (noObject : ∀ members, data ≠ .object members) : Valid value data := by
  refine .intro value data names types ⟨name, member, typed⟩ ?_ ?_ ?_
  · intro members _ _ _ _ same
    exact absurd same (noObject members)
  · intro members _ same
    exact absurd same (noObject members)
  · intro elements _ same
    exact absurd same (noArray elements)

theorem Translates.admits {value : Mapping} {type : DataType} {nullable : Bool}
    (translates : Translates value type nullable) (named : Named value) (admits : nullable = true) :
    Valid value .null := by
  have valid (names : List String) (types : Types value names) (member : "null" ∈ names) : Valid value .null :=
    scalar_valid types member (by simp [typesOf]) (by simp) (by simp)
  cases translates with
  | primitive _ names kind type plain kinded found =>
    simp only [Bool.or_eq_true, decide_eq_true_eq] at admits
    obtain member | rfl := admits
    · exact valid names kinded.types member
    · exact valid names kinded.types (kinded.member named)
  | array _ names items itemType itemNullable plain kinded found item =>
    exact valid names kinded.types (by simpa using admits)
  | object _ names fields plain kinded members => exact valid names kinded.types (by simpa using admits)

theorem array_valid {value items : Mapping} {names : List String} (kinded : Kinded value names "array")
    (found : value.lookup "items" = some (.object items)) {elements : List Json}
    (each : ∀ element ∈ elements, Valid items element) : Valid value (.array elements) := by
  refine .intro value _ names kinded.types
    ⟨"array", kinded.isKind_iff.mp kinded.isArray, by simp [typesOf]⟩ ?_ ?_ ?_
  · intro members _ _ _ _ same
    cases same
  · intro members _ same
    cases same
  · intro _ item same again
    cases same
    cases found.symm.trans again
    exact each

/-- Data for some of the declared properties. -/
def filled (kept : Mapping) (fill : String × Json → Json) : Mapping := kept.map fun entry => (entry.1, fill entry)

theorem filled_keys (kept : Mapping) (fill : String × Json → Json) :
    (filled kept fill).map Prod.fst = kept.map Prod.fst := by
  simp [filled]

theorem filled_distinct {kept : Mapping} {fill : String × Json → Json} (nodup : (kept.map Prod.fst).Nodup)
    (each : ∀ entry ∈ kept, (fill entry).Distinct) : (Json.object (filled kept fill)).Distinct := by
  refine ⟨by rwa [filled_keys], Json.distinctMembers_iff.mpr fun entry member => ?_⟩
  obtain ⟨origin, inside, rfl⟩ := List.mem_map.mp member
  exact each origin inside

/-- An instance with valid data for its properties, all required ones among them. -/
theorem filled_valid {value declared kept : Mapping} {names required : List String}
    (kinded : Kinded value names "object") (level : Level value declared required)
    (nodup : (declared.map Prod.fst).Nodup) (sub : kept.Sublist declared)
    (enough : ∀ name ∈ required, name ∈ kept.map Prod.fst) {fill : String × Json → Json}
    (each : ∀ entry ∈ kept, ∀ schema, entry.2 = .object schema → Valid schema (fill entry)) :
    Valid value (.object (filled kept fill)) := by
  refine .intro value _ names kinded.types
    ⟨"object", kinded.isKind_iff.mp kinded.isObject, by simp [typesOf]⟩ ?_ ?_ ?_
  · intro members others name property inner same listed member found
    cases same
    obtain rfl := level.properties.unique listed
    obtain ⟨entry, inside, same⟩ := List.mem_map.mp (Mapping.mem_of_lookup found)
    cases same
    have sameKey := Mapping.lookup_of_mem nodup member
    have declares := Mapping.lookup_of_mem nodup (sub.subset inside)
    exact each entry inside property (Option.some.inj (declares.symm.trans sameKey))
  · intro members others same requires name needed
    cases same
    obtain rfl := level.requires.unique requires
    exact Mapping.has_iff.mpr (filled_keys kept fill ▸ enough name needed)
  · intro elements _ same
    cases same

theorem filled_lookup {kept : Mapping} {fill : String × Json → Json} (nodup : (kept.map Prod.fst).Nodup)
    {entry : String × Json} (member : entry ∈ kept) :
    (filled kept fill).lookup entry.1 = some (fill entry) := by
  apply Mapping.lookup_of_mem (filled_keys kept fill ▸ nodup)
  exact List.mem_map_of_mem member

/-- Distinct valid data for each declared property. -/
def Fills (declared : Mapping) (fill : String × Json → Json) : Prop :=
  ∀ entry ∈ declared, (fill entry).Distinct ∧ ∀ schema, entry.2 = .object schema → Valid schema (fill entry)

theorem primitive_sample {kind : String} {type : DataType} (found : primitiveTypes.lookup kind = some type) :
    ∃ data : Json, data.Distinct ∧ kind ∈ typesOf data ∧ (∀ elements, data ≠ .array elements) ∧
      ∀ members, data ≠ .object members := by
  obtain ⟨rfl, -⟩ | ⟨rfl, -⟩ | ⟨rfl, -⟩ | ⟨rfl, -⟩ | ⟨rfl, -⟩ := primitive_cases found
  · exact ⟨.bool false, trivial, by simp [typesOf]⟩
  · exact ⟨.number 0, trivial, by simp [typesOf]⟩
  · exact ⟨.null, trivial, by simp [typesOf]⟩
  · exact ⟨.number 0, trivial, by simp [typesOf]⟩
  · exact ⟨.string "", trivial, by simp [typesOf]⟩

theorem exists_fills {value declared : Mapping} (properties : Properties value declared)
    (object : IsKind value "object")
    (each : ∀ step child, Child value step child → ∃ data : Json, data.Distinct ∧ Valid child data) :
    ∃ fill, Fills declared fill := by
  have one (entry : String × Json) (member : entry ∈ declared) :
      ∃ data : Json, data.Distinct ∧ ∀ schema, entry.2 = .object schema → Valid schema data := by
    obtain ⟨name, value⟩ := entry
    cases value with
    | object schema =>
      have down : Child value (.property name) schema := .property name declared schema object properties member
      obtain ⟨data, distinct, valid⟩ := each (.property name) schema down
      refine ⟨data, distinct, fun other same => ?_⟩
      cases same
      exact valid
    | _ => exact ⟨.null, trivial, by simp⟩
  choose! fill filled using one
  exact ⟨fill, filled⟩

theorem Level.keys {value declared : Mapping} {required : List String} (level : Level value declared required) :
    ∀ name ∈ required, name ∈ declared.map Prod.fst :=
  fun name needed => Mapping.has_iff.mp (level.covered name needed)

/-- Every schema whose types are named has a valid instance. -/
theorem Shape.inhabited {value : Mapping} {type : DataType} (shape : Shape value type)
    (distinct : (Json.object value).Distinct) (named : Named value) :
    ∃ data : Json, data.Distinct ∧ Valid value data := by
  have inside (step : Step) (child : Mapping) (down : Child value step child) :
      ∃ data : Json, data.Distinct ∧ Valid child data := by
    obtain ⟨field, allowsNull, -, translates⟩ := shape.child down
    have smaller := down.smaller
    exact (Shape.nested _ _ translates).inhabited (distinct_child distinct down) (named.child down)
  obtain ⟨names, kind, kinded, found⟩ | ⟨names, items, _, _, kinded, found, -⟩ |
    ⟨names, fields, kinded, members, -⟩ := shape.cases
  · obtain ⟨data, distinct, typed, noArray, noObject⟩ := primitive_sample found
    exact ⟨data, distinct, scalar_valid kinded.types (kinded.member named) typed noArray noObject⟩
  · exact ⟨.array [], trivial, array_valid kinded found (by simp)⟩
  · obtain ⟨declared, required, level, -⟩ := members.each
    obtain ⟨fill, fills⟩ := exists_fills level.properties kinded.isObject inside
    have nodup := level.properties.nodup distinct
    exact ⟨_, filled_distinct nodup fun entry member => (fills entry member).1,
      filled_valid kinded level nodup (.refl _) level.keys fun entry member => (fills entry member).2⟩
termination_by sizeOf value

theorem Shape.inside {value : Mapping} {type : DataType} (shape : Shape value type)
    (distinct : (Json.object value).Distinct) (named : Named value) :
    ∀ step child, Child value step child → ∃ data : Json, data.Distinct ∧ Valid child data := by
  intro step child down
  obtain ⟨field, allowsNull, -, translates⟩ := shape.child down
  exact (Shape.nested _ _ translates).inhabited (distinct_child distinct down) (named.child down)

/-- Around valid data for a child there is a valid instance that holds it. -/
theorem Shape.plant {value child : Mapping} {type : DataType} {step : Step} (shape : Shape value type)
    (distinct : (Json.object value).Distinct) (named : Named value) (down : Child value step child) {inner : Json}
    (inner_distinct : inner.Distinct) (valid : Valid child inner) :
    ∃ data, data.Distinct ∧ Valid value data ∧ Held data step inner := by
  cases down with
  | property name declared _ object properties member =>
    obtain ⟨names, fields, kinded, members, -⟩ := shape.object object
    obtain ⟨others, required, level, -⟩ := members.each
    obtain rfl := level.properties.unique properties
    obtain ⟨fill, fills⟩ := exists_fills properties object (shape.inside distinct named)
    have nodup := properties.nodup distinct
    let planted (entry : String × Json) : Json := if entry.1 = name then inner else fill entry
    have plants : Fills others planted := by
      intro entry listed
      by_cases here : entry.1 = name
      · simp only [planted, here, if_true]
        refine ⟨inner_distinct, fun schema same => ?_⟩
        have first := Mapping.lookup_of_mem nodup listed
        have second := Mapping.lookup_of_mem nodup member
        rw [here] at first
        cases same.symm.trans (Option.some.inj (first.symm.trans second))
        exact valid
      · simpa only [planted, here, if_false] using fills entry listed
    refine ⟨.object (filled others planted), filled_distinct nodup fun entry listed => (plants entry listed).1,
      filled_valid kinded level nodup (.refl _) level.keys fun entry listed => (plants entry listed).2, ?_⟩
    have found : (filled others planted).lookup name = some (planted (name, .object child)) :=
      filled_lookup nodup member
    simpa [planted, Held] using found
  | items _ array found =>
    obtain ⟨names, items, _, _, kinded, found', -⟩ := shape.array array
    cases found.symm.trans found'
    have alone : ∀ element ∈ [inner], Valid child element := by simpa using valid
    exact ⟨.array [inner], ⟨inner_distinct, trivial⟩, array_valid kinded found alone, List.mem_singleton.mpr rfl⟩

/-- A property that may be left out is missing in some valid instance. -/
theorem Shape.omit {value : Mapping} {type : DataType} {name : String} (shape : Shape value type)
    (distinct : (Json.object value).Distinct) (named : Named value) (object : IsKind value "object")
    (optional : Optional value (.property name)) :
    ∃ data, data.Distinct ∧ Valid value data ∧ Vacant data [.property name] := by
  obtain ⟨names, fields, kinded, members, -⟩ := shape.object object
  obtain ⟨declared, required, level, -⟩ := members.each
  obtain ⟨others, requires, free⟩ := optional
  obtain rfl := level.requires.unique requires
  obtain ⟨fill, fills⟩ := exists_fills level.properties object (shape.inside distinct named)
  let kept := declared.filter fun entry => entry.1 ≠ name
  have sub : kept.Sublist declared := List.filter_sublist
  have nodup := level.properties.nodup distinct
  have enough : ∀ needed ∈ required, needed ∈ kept.map Prod.fst := by
    intro needed listed
    obtain ⟨entry, inside, rfl⟩ := List.mem_map.mp (level.keys needed listed)
    refine List.mem_map_of_mem (List.mem_filter.mpr ⟨inside, decide_eq_true ?_⟩)
    intro same
    exact free (same ▸ listed)
  refine ⟨.object (filled kept fill), filled_distinct (nodup.sublist (sub.map Prod.fst)) fun entry inside =>
    (fills entry (sub.subset inside)).1, filled_valid kinded level nodup sub enough fun entry inside =>
    (fills entry (sub.subset inside)).2, .missing _ name ?_⟩
  apply lookup_absent
  apply Bool.eq_false_iff.mpr
  rw [Ne, Mapping.has_iff, filled_keys]
  simp [kept]

theorem Vacant.held {data inner : Json} {step : Step} {place : List Step} (vacant : Vacant inner place)
    (held : Held data step inner) : Vacant data (step :: place) := by
  cases data with
  | object members =>
    cases step with
    | property name => exact .property members name inner place held vacant
    | items => exact held.elim
  | array elements =>
    cases step with
    | property name => exact held.elim
    | items => exact .items elements inner place held vacant
  | _ => exact held.elim

/-- Every nullable field is null or missing in some valid instance. -/
theorem FieldAt.tight {type : DataType} {place : List Step} {field : Field} (inside : FieldAt type place field)
    (nullable : field.isNullable = true) {value : Mapping} (shape : Shape value type)
    (distinct : (Json.object value).Distinct) (named : Named value) :
    ∃ data, data.Distinct ∧ Valid value data ∧ Vacant data place := by
  induction inside generalizing value with
  | last type step field down =>
    obtain ⟨child, allowsNull, child_of, translates, nullable_iff⟩ := shape.down down
    obtain optional | admits := nullable_iff.mp nullable
    · cases child_of with
      | property name _ _ object => exact shape.omit distinct named object optional
      | items => exact optional.elim
    · have valid := translates.admits (named.child child_of) admits
      have null_distinct : Json.null.Distinct := trivial
      obtain ⟨data, data_distinct, valid, held⟩ := shape.plant distinct named child_of null_distinct valid
      exact ⟨data, data_distinct, valid, Vacant.null.held held⟩
  | step type step field place inner down further ih =>
    obtain ⟨child, allowsNull, child_of, translates, -⟩ := shape.down down
    obtain ⟨inner, inner_distinct, inner_valid, vacant⟩ :=
      ih nullable (.nested _ _ translates) (distinct_child distinct child_of) (named.child child_of)
    obtain ⟨data, data_distinct, valid, held⟩ := shape.plant distinct named child_of inner_distinct inner_valid
    exact ⟨data, data_distinct, valid, vacant.held held⟩

/-- The object levels of a type are the object schemas of a document: the same places,
and at each the declared properties once each, in document order. -/
structure SameLevels (root : Mapping) (type : DataType) : Prop where
  declared : ∀ place fields, TypeAt type place (.struct fields) →
    ∃ node declared, NodeAt root place node ∧ IsKind node "object" ∧ Properties node declared ∧
      fields.toList.map Field.name = declared.map Prod.fst ∧ (fields.toList.map Field.name).Nodup
  translated : ∀ place node declared, NodeAt root place node → IsKind node "object" → Properties node declared →
    ∃ fields, TypeAt type place (.struct fields) ∧ fields.toList.map Field.name = declared.map Prod.fst

theorem distinct_node {value node : Mapping} {place : List Step} (reached : NodeAt value place node)
    (distinct : (Json.object value).Distinct) : (Json.object node).Distinct := by
  induction reached with
  | here => exact distinct
  | step value step child place node down further ih => exact ih (distinct_child distinct down)

theorem Shape.sameLevels {root : Mapping} {type : DataType} (shape : Shape root type)
    (distinct : (Json.object root).Distinct) : SameLevels root type where
  declared place fields inside := by
    obtain ⟨node, declared, reached, object, properties, names⟩ := shape.level inside
    have nodup := properties.nodup (distinct_node reached distinct)
    exact ⟨node, declared, reached, object, properties, names, names ▸ nodup⟩
  translated place node declared reached object properties := shape.node reached object properties

/-- A translated schema has the document's object levels, its valid instances conform with
nulls in nullable fields only, and each nullable field has an instance that needs it. -/
theorem jsonSchemaToArrow_meaning (document : Json) (distinct : document.Distinct) (schema : Schema)
    (accepted : jsonSchemaToArrow document = .ok schema) :
    ∃ root, document = .object root ∧ SameLevels root (rootType schema) ∧
      (∀ data, Valid root data → Conforms (rootType schema) data ∧
        ∀ place field, FieldAt (rootType schema) place field → Vacant data place → field.isNullable = true) ∧
      (Named root → ∀ place field, FieldAt (rootType schema) place field → field.isNullable = true →
        ∃ data, data.Distinct ∧ Valid root data ∧ Vacant data place) := by
  obtain ⟨root, names, fields, rfl, kinded, solid, members, rfl⟩ := jsonSchemaToArrow_ok.mp accepted
  have shape : Shape root (rootType ⟨fields, []⟩) := .root names fields kinded members
  refine ⟨root, rfl, shape.sameLevels distinct, fun data valid => ?_, fun named place field inside nullable =>
    inside.tight nullable shape distinct named⟩
  have real : data ≠ .null := by
    rintro rfl
    obtain ⟨name, isKind, typed⟩ := valid.typed
    obtain rfl : name = "null" := by simpa [typesOf] using typed
    exact solid (kinded.isKind_iff.mp isKind)
  have conforms := valid.conforms _ shape real
  exact ⟨conforms, fun place field inside vacant => conforms.vacant inside vacant⟩

def tag : Mapping := [("type", .array [.string "string", .string "null"])]

def tags : Mapping := [("type", .string "array"), ("items", .object tag)]

def tagged : Mapping :=
  [("type", .string "object"), ("properties", .object [("tags", .object tags)]),
    ("required", .array [.string "tags"])]

def taggedSchema : Schema := ⟨[.mk "tags" (.list (.mk "item" .utf8 true [])) false []], []⟩

theorem tagged_accepted : jsonSchemaToArrow (.object tagged) = .ok taggedSchema := by
  have plain (value : Mapping) (listed : value = tag ∨ value = tags ∨ value = tagged) : Supported value := by
    unfold Supported
    rcases listed with rfl | rfl | rfl <;> decide
  have tag_kinded : Kinded tag ["string", "null"] "string" :=
    { supported := plain tag (by simp)
      types := .listed ["string", "null"] rfl
      known := by decide
      sole := .other "string" (by simp) (by decide) (by simp) }
  have tags_kinded : Kinded tags ["array"] "array" :=
    { supported := plain tags (by simp)
      types := .one "array" rfl
      known := by decide
      sole := .other "array" (by simp) (by decide) (by simp) }
  have tagged_kinded : Kinded tagged ["object"] "object" :=
    { supported := plain tagged (by simp)
      types := .one "object" rfl
      known := by decide
      sole := .other "object" (by simp) (by decide) (by simp) }
  have item : Translates tag .utf8 true := .primitive tag _ "string" .utf8 rfl tag_kinded rfl
  have list : Translates tags (.list (.mk "item" .utf8 true [])) false :=
    .array tags _ tag .utf8 true rfl tags_kinded rfl item
  have level : Level tagged [("tags", .object tags)] ["tags"] :=
    { supported := tagged_kinded.supported
      additional := by
        intro found present
        cases present
      properties := .listed _ rfl
      requires := .listed _ rfl
      covered := by decide }
  have members : Members tagged taggedSchema.fields :=
    .intro tagged _ _ _ level (.cons _ "tags" tags _ false [] [] list (.nil _))
  exact jsonSchemaToArrow_ok.mpr ⟨tagged, _, _, rfl, tagged_kinded, by decide, members, rfl⟩

/-- Some valid instance has a null tag. -/
theorem tagged_meaning : ∃ data, Valid tagged data ∧ Vacant data [.property "tags", .items] := by
  have distinct : (Json.object tagged).Distinct := by
    simp [tagged, tags, tag, Json.Distinct, Json.DistinctMembers, Json.DistinctItems]
  obtain ⟨root, same, -, -, tight⟩ :=
    jsonSchemaToArrow_meaning (.object tagged) distinct taggedSchema tagged_accepted
  cases same
  have tag_named : Named tag := by
    apply named_of_children (.listed ["string", "null"] rfl) (by simp)
    intro step child down
    cases down with
    | property name declared _ object properties member =>
      cases properties with
      | absent => cases member
      | listed _ found => cases found
    | items _ array found => cases found
  have tags_named : Named tags := by
    apply named_of_children (.one "array" rfl) (by simp)
    intro step child down
    cases down with
    | property name declared _ object properties member =>
      cases properties with
      | absent => cases member
      | listed _ found => cases found
    | items _ array found =>
      cases found
      exact tag_named
  have named : Named tagged := by
    apply named_of_children (.one "object" rfl) (by simp)
    intro step child down
    cases down with
    | property name declared _ object properties member =>
      obtain rfl := properties.unique (.listed [("tags", .object tags)] rfl)
      simp only [List.mem_singleton, Prod.mk.injEq, Json.object.injEq] at member
      obtain ⟨-, rfl⟩ := member
      exact tags_named
    | items _ array found => cases found
  have outer : Down (rootType taggedSchema) (.property "tags")
      (.mk "tags" (.list (.mk "item" .utf8 true [])) false []) :=
    .property _ (.mk "tags" (.list (.mk "item" .utf8 true [])) false []) (.head _)
  have inside : FieldAt (rootType taggedSchema) [.property "tags", .items] (.mk "item" .utf8 true []) :=
    .step _ _ _ _ _ outer (.last _ _ _ (.items _))
  obtain ⟨data, -, valid, vacant⟩ := tight named _ _ inside rfl
  exact ⟨data, valid, vacant⟩

end FsspecData.JsonSchema
