import FsspecData.Json.Grammar

/-! A schema document and its Arrow type, descended in step. -/
namespace FsspecData.JsonSchema

/-- The field or list item one step inside a type. -/
inductive Down : DataType → Step → Field → Prop
  | property (fields : Fields) (field : Field) (member : field ∈ fields.toList) :
    Down (.struct fields) (.property field.name) field
  | items (item : Field) : Down (.list item) .items item

inductive TypeAt : DataType → List Step → DataType → Prop
  | here (type : DataType) : TypeAt type [] type
  | step (type : DataType) (step : Step) (field : Field) (place : List Step) (inner : DataType)
    (down : Down type step field) (further : TypeAt field.dataType place inner) : TypeAt type (step :: place) inner

inductive FieldAt : DataType → List Step → Field → Prop
  | last (type : DataType) (step : Step) (field : Field) (down : Down type step field) : FieldAt type [step] field
  | step (type : DataType) (step : Step) (field : Field) (place : List Step) (inner : Field)
    (down : Down type step field) (further : FieldAt field.dataType place inner) :
    FieldAt type (step :: place) inner

/-- The schema as one struct type. -/
def rootType (schema : Schema) : DataType := .struct (Fields.ofList schema.fields)

/-- A schema's type, at the root or below it. -/
inductive Shape (value : Mapping) : DataType → Prop
  | nested (type : DataType) (nullable : Bool) (translates : Translates value type nullable) : Shape value type
  | root (names : List String) (fields : List Field) (kinded : Kinded value names "object")
    (members : Members value fields) : Shape value (.struct (Fields.ofList fields))

/-- A property that may be left out. -/
def Optional (value : Mapping) : Step → Prop
  | .property name => ∃ required, Requires value required ∧ name ∉ required
  | .items => False

theorem primitive_cases {kind : String} {type : DataType} (found : primitiveTypes.lookup kind = some type) :
    kind = "boolean" ∧ type = .boolean ∨ kind = "integer" ∧ type = .int64 ∨ kind = "null" ∧ type = .null ∨
      kind = "number" ∧ type = .float64 ∨ kind = "string" ∧ type = .utf8 := by
  simpa [primitiveTypes] using Mapping.mem_of_lookup found

/-- A schema has the type of its kind. -/
theorem Shape.cases {value : Mapping} {type : DataType} (shape : Shape value type) :
    (∃ names kind, Kinded value names kind ∧ primitiveTypes.lookup kind = some type) ∨
      (∃ names items itemType itemNullable, Kinded value names "array" ∧
        value.lookup "items" = some (.object items) ∧ Translates items itemType itemNullable ∧
        type = .list (.mk "item" itemType itemNullable [])) ∨
      ∃ names fields, Kinded value names "object" ∧ Members value fields ∧
        type = .struct (Fields.ofList fields) := by
  cases shape with
  | nested _ nullable translates =>
    cases translates with
    | primitive _ names kind type plain kinded found => exact .inl ⟨names, kind, kinded, found⟩
    | array _ names items itemType itemNullable plain kinded found item =>
      exact .inr (.inl ⟨names, items, itemType, itemNullable, kinded, found, item, rfl⟩)
    | object _ names fields plain kinded members => exact .inr (.inr ⟨names, fields, kinded, members, rfl⟩)
  | root names fields kinded members => exact .inr (.inr ⟨names, fields, kinded, members, rfl⟩)

theorem Shape.object {value : Mapping} {type : DataType} (shape : Shape value type)
    (object : IsKind value "object") :
    ∃ names fields, Kinded value names "object" ∧ Members value fields ∧ type = .struct (Fields.ofList fields) := by
  obtain ⟨names, kind, kinded, found⟩ | ⟨names, items, itemType, itemNullable, kinded, _⟩ | struct := shape.cases
  · exact absurd (kinded.object_kind object) (primitive_real found).2
  · exact absurd object kinded.not_object
  · exact struct

theorem Shape.array {value : Mapping} {type : DataType} (shape : Shape value type) (array : IsKind value "array") :
    ∃ names items itemType itemNullable, Kinded value names "array" ∧
      value.lookup "items" = some (.object items) ∧ Translates items itemType itemNullable ∧
      type = .list (.mk "item" itemType itemNullable []) := by
  obtain ⟨names, kind, kinded, found⟩ | list | ⟨names, fields, kinded, _⟩ := shape.cases
  · exact absurd (kinded.array_kind array) (primitive_real found).1
  · exact list
  · exact absurd array kinded.not_array

theorem Shape.struct {value : Mapping} {fields : Fields} (shape : Shape value (.struct fields)) :
    ∃ names, Kinded value names "object" ∧ Members value fields.toList := by
  obtain ⟨names, kind, kinded, found⟩ | ⟨_, _, _, _, _, _, _, list⟩ | ⟨names, listed, kinded, members, same⟩ :=
    shape.cases
  · have primitive := primitive_cases found
    simp at primitive
  · contradiction
  · cases same
    exact ⟨names, kinded, by simpa using members⟩

theorem Shape.list {value : Mapping} {item : Field} (shape : Shape value (.list item)) :
    ∃ names items itemType itemNullable, Kinded value names "array" ∧
      value.lookup "items" = some (.object items) ∧ Translates items itemType itemNullable ∧
      item = .mk "item" itemType itemNullable [] := by
  obtain ⟨names, kind, kinded, found⟩ | ⟨names, items, itemType, itemNullable, kinded, found, inner, same⟩ |
    ⟨_, _, _, _, struct⟩ := shape.cases
  · have primitive := primitive_cases found
    simp at primitive
  · cases same
    exact ⟨names, items, itemType, itemNullable, kinded, found, inner, rfl⟩
  · contradiction

namespace Each

variable {required : List String} {declared : Mapping} {fields : List Field}

theorem names (each : Each required declared fields) : fields.map Field.name = declared.map Prod.fst := by
  induction declared generalizing fields with
  | nil => cases each; rfl
  | cons entry rest ih =>
    cases each with
    | cons _ name schema type allowsNull _ fields head tail => exact congrArg (name :: ·) (ih tail)

/-- Each field is what a declared property translates to. -/
theorem origin (each : Each required declared fields) {field : Field} (member : field ∈ fields) :
    ∃ schema allowsNull, (field.name, .object schema) ∈ declared ∧ Translates schema field.dataType allowsNull ∧
      field.isNullable = (decide (field.name ∉ required) || allowsNull) := by
  induction declared generalizing fields with
  | nil => cases each; cases member
  | cons entry rest ih =>
    cases each with
    | cons _ name schema type allowsNull _ fields head tail =>
      rcases List.mem_cons.mp member with rfl | member
      · exact ⟨schema, allowsNull, List.mem_cons_self, head, rfl⟩
      · obtain ⟨schema, allowsNull, declares, translates, nullable⟩ := ih tail member
        exact ⟨schema, allowsNull, List.mem_cons_of_mem _ declares, translates, nullable⟩

/-- Each declared property has its field. -/
theorem image (each : Each required declared fields) {name : String} {schema : Mapping}
    (member : (name, .object schema) ∈ declared) :
    ∃ field ∈ fields, field.name = name ∧ ∃ allowsNull, Translates schema field.dataType allowsNull := by
  induction declared generalizing fields with
  | nil => cases member
  | cons entry rest ih =>
    cases each with
    | cons _ other schema' type allowsNull _ fields head tail =>
      rcases List.mem_cons.mp member with same | member
      · cases same
        exact ⟨_, List.mem_cons_self, rfl, allowsNull, head⟩
      · obtain ⟨field, inside, found⟩ := ih tail member
        exact ⟨field, List.mem_cons_of_mem _ inside, found⟩

end Each

theorem Members.each {value : Mapping} {fields : List Field} (members : Members value fields) :
    ∃ declared required, Level value declared required ∧ Each required declared fields := by
  cases members with
  | intro _ declared required fields level each => exact ⟨declared, required, level, each⟩

theorem Requires.unique {value : Mapping} {required others : List String} (first : Requires value required)
    (second : Requires value others) : required = others := by
  cases first with
  | absent missing =>
    cases second with
    | absent => rfl
    | listed _ found => cases missing.symm.trans found
  | listed _ found =>
    cases second with
    | absent missing => cases found.symm.trans missing
    | listed _ again => exact strings_unique found again

/-- A field inside a schema's type translates a child of the schema; it is nullable when
the child may be left out or admits null. -/
theorem Shape.down {value : Mapping} {type : DataType} {step : Step} {field : Field} (shape : Shape value type)
    (down : Down type step field) : ∃ child allowsNull, Child value step child ∧
      Translates child field.dataType allowsNull ∧
      (field.isNullable = true ↔ Optional value step ∨ allowsNull = true) := by
  cases down with
  | property fields _ member =>
    obtain ⟨names, kinded, members⟩ := shape.struct
    obtain ⟨declared, required, level, each⟩ := members.each
    obtain ⟨schema, allowsNull, declares, translates, nullable⟩ := each.origin member
    refine ⟨schema, allowsNull, .property field.name declared schema kinded.isObject level.properties declares,
      translates, ?_⟩
    rw [nullable, Bool.or_eq_true, decide_eq_true_iff]
    refine or_congr_left ⟨fun other => ⟨required, level.requires, other⟩, ?_⟩
    rintro ⟨others, requires, other⟩
    rwa [level.requires.unique requires]
  | items =>
    obtain ⟨names, items, itemType, itemNullable, kinded, found, inner, rfl⟩ := shape.list
    have nullable_iff : itemNullable = true ↔ Optional value .items ∨ itemNullable = true := by simp [Optional]
    exact ⟨items, itemNullable, .items items kinded.isArray found, inner, nullable_iff⟩

/-- Each child of a schema has its field inside the type. -/
theorem Shape.child {value child : Mapping} {type : DataType} {step : Step} (shape : Shape value type)
    (child_of : Child value step child) :
    ∃ field allowsNull, Down type step field ∧ Translates child field.dataType allowsNull := by
  cases child_of with
  | property name declared _ object properties member =>
    obtain ⟨names, fields, kinded, members, rfl⟩ := shape.object object
    obtain ⟨others, required, level, each⟩ := members.each
    obtain rfl := level.properties.unique properties
    obtain ⟨field, inside, rfl, allowsNull, translates⟩ := each.image member
    exact ⟨field, allowsNull, .property _ field (by simpa using inside), translates⟩
  | items _ array found =>
    obtain ⟨names, items, itemType, itemNullable, kinded, found', inner, rfl⟩ := shape.array array
    cases found.symm.trans found'
    exact ⟨_, itemNullable, .items _, inner⟩

/-- An object level of the type is an object schema's, with its declared properties for fields. -/
theorem Shape.level {value : Mapping} {type : DataType} {place : List Step} {fields : Fields}
    (shape : Shape value type) (inside : TypeAt type place (.struct fields)) :
    ∃ node declared, NodeAt value place node ∧ IsKind node "object" ∧ Properties node declared ∧
      fields.toList.map Field.name = declared.map Prod.fst := by
  induction place generalizing value type with
  | nil =>
    cases inside
    obtain ⟨names, kinded, members⟩ := shape.struct
    obtain ⟨declared, required, level, each⟩ := members.each
    exact ⟨value, declared, .here value, kinded.isObject, level.properties, each.names⟩
  | cons step place ih =>
    cases inside with
    | step _ _ field _ _ down further =>
      obtain ⟨child, allowsNull, child_of, translates, -⟩ := shape.down down
      obtain ⟨node, declared, reached, level⟩ := ih (.nested _ _ translates) further
      exact ⟨node, declared, .step value step child place node child_of reached, level⟩

/-- Each object schema has its level in the type. -/
theorem Shape.node {value node declared : Mapping} {type : DataType} {place : List Step} (shape : Shape value type)
    (reached : NodeAt value place node) (object : IsKind node "object") (properties : Properties node declared) :
    ∃ fields, TypeAt type place (.struct fields) ∧ fields.toList.map Field.name = declared.map Prod.fst := by
  induction reached generalizing type with
  | here value =>
    obtain ⟨names, fields, kinded, members, rfl⟩ := shape.object object
    obtain ⟨others, required, level, each⟩ := members.each
    obtain rfl := level.properties.unique properties
    exact ⟨_, .here _, by simpa using each.names⟩
  | step value step child place node child_of further ih =>
    obtain ⟨field, allowsNull, down, translates⟩ := shape.child child_of
    obtain ⟨fields, inside, names⟩ := ih (.nested _ _ translates) object properties
    exact ⟨fields, .step type step field place _ down inside, names⟩

end FsspecData.JsonSchema
