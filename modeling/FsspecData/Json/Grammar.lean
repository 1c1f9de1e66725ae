import FsspecData.Json.Rules

/-! The documented grammar of JSON Schema documents, node by node, and the documents on
which the translation departs from it. -/
namespace FsspecData.JsonSchema

inductive Step where
  | property (name : String)
  | items

def IsKind (value : Mapping) (kind : String) : Prop := ∃ names, Types value names ∧ kind ∈ names

/-- The schemas right under a schema: the properties of an object, the items of an array. -/
inductive Child (value : Mapping) : Step → Mapping → Prop
  | property (name : String) (declared schema : Mapping) (kinded : IsKind value "object")
    (properties : Properties value declared) (member : (name, .object schema) ∈ declared) :
    Child value (.property name) schema
  | items (items : Mapping) (kinded : IsKind value "array") (found : value.lookup "items" = some (.object items)) :
    Child value .items items

/-- The schemas reached from a root. -/
inductive NodeAt : Mapping → List Step → Mapping → Prop
  | here (root : Mapping) : NodeAt root [] root
  | step (root : Mapping) (step : Step) (child : Mapping) (place : List Step) (node : Mapping)
    (down : Child root step child) (further : NodeAt child place node) : NodeAt root (step :: place) node

/-- The rules of a schema that are checked wherever it stands. The name of a property is
free, also where it spells a keyword. -/
structure BaseRules (value : Mapping) : Prop where
  types : ∃ names, Types value names ∧ (∀ name ∈ names, name ∈ knownTypes) ∧
    ∀ name ∈ names, ∀ other ∈ names, name ≠ "null" → other ≠ "null" → name = other
  supported : Supported value
  items : IsKind value "array" → ∃ items, value.lookup "items" = some (.object items)
  additional : IsKind value "object" → Additional value
  properties : IsKind value "object" → ∃ declared, Properties value declared ∧
    (∀ entry ∈ declared, ∃ schema, entry.2 = .object schema) ∧
    ∃ required, Requires value required ∧ ∀ name ∈ required, declared.has name = true

/-- All rules of a schema: it names a type, has no `format`, and no null for a flag. -/
structure NodeRules (value : Mapping) : Prop extends BaseRules value where
  named : ¬Types value []
  plain : value.has "format" = false
  flagged : IsKind value "object" → value.lookup "additionalProperties" ≠ some .null

def Documented (document : Json) : Prop :=
  ∃ root, document = .object root ∧ IsKind root "object" ∧ ¬IsKind root "null" ∧
    ∀ place node, NodeAt root place node → NodeRules node

/-- The rules that are checked: a nested schema's `format` is, the root's is not. -/
def Checked (root : Mapping) : Prop :=
  IsKind root "object" ∧ ¬IsKind root "null" ∧
    ∀ place node, NodeAt root place node → BaseRules node ∧ (place ≠ [] → node.has "format" = false)

/-- What the grammar excludes and no check sees. -/
def Slip (root : Mapping) : Prop :=
  root.has "format" = true ∨ ∃ place node, NodeAt root place node ∧
    (Types node [] ∨ IsKind node "object" ∧ node.lookup "additionalProperties" = some .null)

theorem Types.unique {value : Mapping} {names others : List String} (first : Types value names)
    (second : Types value others) : names = others := by
  cases first with
  | one name found =>
    cases second with
    | one _ again => cases found.symm.trans again; rfl
    | listed _ again => cases found.symm.trans again
  | listed _ found =>
    cases second with
    | one _ again => cases found.symm.trans again
    | listed _ again => exact strings_unique found again

theorem Properties.unique {value declared others : Mapping} (first : Properties value declared)
    (second : Properties value others) : declared = others := by
  cases first <;> cases second <;> simp_all

namespace Kinded

variable {value : Mapping} {names : List String} {kind : String}

theorem isKind_iff (kinded : Kinded value names kind) {other : String} : IsKind value other ↔ other ∈ names := by
  constructor
  · rintro ⟨others, types, member⟩
    rwa [kinded.types.unique types]
  · exact fun member => ⟨names, kinded.types, member⟩

/-- A real kind of a schema is the one it translates by. -/
theorem only (kinded : Kinded value names kind) {other : String} (isKind : IsKind value other)
    (real : other ≠ "null") : other = kind := by
  have member := kinded.isKind_iff.mp isKind
  cases kinded.sole with
  | other _ _ _ alone => exact alone other member real
  | null alone => exact absurd (alone other member) real

theorem isKind (kinded : Kinded value names kind) (real : kind ≠ "null") : IsKind value kind := by
  apply kinded.isKind_iff.mpr
  cases kinded.sole with
  | other _ named => exact named
  | null => exact absurd rfl real

theorem object_kind (kinded : Kinded value names kind) (object : IsKind value "object") : kind = "object" :=
  (kinded.only object (by decide)).symm

theorem array_kind (kinded : Kinded value names kind) (array : IsKind value "array") : kind = "array" :=
  (kinded.only array (by decide)).symm

theorem isObject (kinded : Kinded value names "object") : IsKind value "object" := kinded.isKind (by decide)

theorem isArray (kinded : Kinded value names "array") : IsKind value "array" := kinded.isKind (by decide)

theorem not_object (kinded : Kinded value names "array") : ¬IsKind value "object" :=
  fun object => absurd (kinded.object_kind object) (by decide)

theorem not_array (kinded : Kinded value names "object") : ¬IsKind value "array" :=
  fun array => absurd (kinded.array_kind array) (by decide)

theorem single (kinded : Kinded value names kind) :
    ∀ name ∈ names, ∀ other ∈ names, name ≠ "null" → other ≠ "null" → name = other := by
  intro name member other member' real real'
  exact (kinded.only (kinded.isKind_iff.mpr member) real).trans
    (kinded.only (kinded.isKind_iff.mpr member') real').symm

end Kinded

theorem primitive_real {kind : String} {type : DataType} (found : primitiveTypes.lookup kind = some type) :
    kind ≠ "array" ∧ kind ≠ "object" := by
  constructor
  · rintro rfl
    contradiction
  · rintro rfl
    contradiction

/-- The rules at a node hold once its kind and that kind's members follow them. -/
theorem Kinded.base {value : Mapping} {names : List String} {kind : String} (kinded : Kinded value names kind)
    (items : kind = "array" → ∃ items, value.lookup "items" = some (.object items))
    (additional : kind = "object" → Additional value)
    (properties : kind = "object" → ∃ declared, Properties value declared ∧
      (∀ entry ∈ declared, ∃ schema, entry.2 = .object schema) ∧
      ∃ required, Requires value required ∧ ∀ name ∈ required, declared.has name = true) : BaseRules value where
  types := ⟨names, kinded.types, kinded.known, kinded.single⟩
  supported := kinded.supported
  items array := items (kinded.array_kind array)
  additional object := additional (kinded.object_kind object)
  properties object := properties (kinded.object_kind object)

theorem Each.schemas {required : List String} {declared : Mapping} {fields : List Field}
    (each : Each required declared fields) : ∀ entry ∈ declared, ∃ schema, entry.2 = .object schema := by
  induction declared generalizing fields with
  | nil => simp
  | cons entry rest ih =>
    cases each with
    | cons _ name schema type allowsNull _ fields head tail =>
      exact List.forall_mem_cons.mpr ⟨⟨schema, rfl⟩, ih tail⟩

theorem Members.base {value : Mapping} {names : List String} {fields : List Field} (members : Members value fields)
    (kinded : Kinded value names "object") : BaseRules value := by
  cases members with
  | intro _ declared required fields level each =>
    exact kinded.base (by simp) (fun _ => level.additional) fun _ =>
      ⟨declared, level.properties, each.schemas, required, level.requires, level.covered⟩

def NestedRules (value : Mapping) : Prop :=
  ∀ place node, NodeAt value place node → BaseRules node ∧ node.has "format" = false

/-- The rules hold at every node when they hold at the first and below each child. -/
theorem nestedRules_iff {value : Mapping} :
    NestedRules value ↔ (BaseRules value ∧ value.has "format" = false) ∧
      ∀ step child, Child value step child → NestedRules child := by
  constructor
  · intro nested
    exact ⟨nested [] value (.here value), fun step child down place node further =>
      nested (step :: place) node (.step value step child place node down further)⟩
  · rintro ⟨top, below⟩ place node reached
    cases reached with
    | here => exact top
    | step _ step child place _ down further => exact below step child down place node further

mutual

theorem Translates.nestedRules : ∀ {value : Mapping} {type : DataType} {nullable : Bool},
    Translates value type nullable → NestedRules value
  | _, _, _, .primitive value names kind type plain kinded found => by
    obtain ⟨noArray, noObject⟩ := primitive_real found
    refine nestedRules_iff.mpr ⟨⟨kinded.base (absurd · noArray) (absurd · noObject) (absurd · noObject), plain⟩, ?_⟩
    intro step child down
    cases down with
    | property _ _ _ object => exact absurd (kinded.object_kind object) noObject
    | items _ array => exact absurd (kinded.array_kind array) noArray
  | _, _, _, .array value names items itemType itemNullable plain kinded found item => by
    refine nestedRules_iff.mpr ⟨⟨kinded.base (fun _ => ⟨items, found⟩) (by simp) (by simp), plain⟩, ?_⟩
    intro step child down
    cases down with
    | property _ _ _ object => exact absurd object kinded.not_object
    | items _ _ again =>
      cases found.symm.trans again
      exact item.nestedRules
  | _, _, _, .object value names fields plain kinded members =>
    nestedRules_iff.mpr ⟨⟨members.base kinded, plain⟩, members.nested kinded⟩

theorem Members.nested : ∀ {value : Mapping} {names : List String} {fields : List Field}, Members value fields →
    Kinded value names "object" → ∀ step child, Child value step child → NestedRules child
  | _, names, _, .intro value declared required fields level each, kinded => by
    have inside := each.nested
    intro step child down
    cases down with
    | property name again schema _ properties member =>
      cases level.properties.unique properties
      exact inside _ member child rfl
    | items _ array => exact absurd array kinded.not_array

theorem Each.nested : ∀ {required : List String} {declared : Mapping} {fields : List Field},
    Each required declared fields → ∀ entry ∈ declared, ∀ schema, entry.2 = .object schema → NestedRules schema
  | _, _, _, .nil _ => by simp
  | _, _, _, .cons _ name schema type allowsNull rest fields head tail => by
    have first := head.nestedRules
    have others := tail.nested
    intro entry member schema' same
    rcases List.mem_cons.mp member with rfl | member
    · cases same
      exact first
    · exact others entry member schema' same

end

theorem BaseRules.kinded {value : Mapping} (rules : BaseRules value) :
    ∃ names kind, Kinded value names kind ∧ kind ∈ knownTypes := by
  obtain ⟨names, types, known, single⟩ := rules.types
  by_cases real : ∃ name ∈ names, name ≠ "null"
  · obtain ⟨kind, named, real⟩ := real
    exact ⟨names, kind, ⟨rules.supported, types, known, .other kind named real fun name member other =>
      single name member kind named other real⟩, known kind named⟩
  · have alone : ∀ name ∈ names, name = "null" := by
      intro name member
      by_contra other
      exact real ⟨name, member, other⟩
    exact ⟨names, "null", ⟨rules.supported, types, known, .null alone⟩, by simp [knownTypes, primitiveTypes]⟩

theorem known_cases {kind : String} (known : kind ∈ knownTypes) :
    (∃ type, primitiveTypes.lookup kind = some type) ∨ kind = "array" ∨ kind = "object" := by
  simp only [knownTypes, primitiveTypes, List.map_cons, List.map_nil, List.cons_append, List.nil_append,
    List.mem_cons, List.not_mem_nil, or_false] at known
  rcases known with rfl | rfl | rfl | rfl | rfl | rfl | rfl
  iterate 5 exact .inl ⟨_, rfl⟩
  · exact .inr (.inl rfl)
  · exact .inr (.inr rfl)

/-- An object's properties translate once each schema among them does. -/
theorem BaseRules.members {value : Mapping} (rules : BaseRules value) (object : IsKind value "object")
    (translated : ∀ name schema, Child value (.property name) schema →
      ∃ type nullable, Translates schema type nullable) : ∃ fields, Members value fields := by
  obtain ⟨declared, properties, schemas, required, requires, covered⟩ := rules.properties object
  have level : Level value declared required :=
    ⟨rules.supported, rules.additional object, properties, requires, covered⟩
  have each (entries : Mapping) (inside : ∀ entry ∈ entries, entry ∈ declared) :
      ∃ fields, Each required entries fields := by
    induction entries with
    | nil => exact ⟨[], .nil required⟩
    | cons entry rest ih =>
      obtain ⟨fields, tail⟩ := ih fun other member => inside other (List.mem_cons_of_mem _ member)
      have member := inside entry List.mem_cons_self
      obtain ⟨schema, same⟩ := schemas entry member
      obtain ⟨name, _⟩ := entry
      subst same
      have down : Child value (.property name) schema := .property name declared schema object properties member
      obtain ⟨type, allowsNull, head⟩ := translated name schema down
      exact ⟨_, .cons required name schema type allowsNull rest fields head tail⟩
  obtain ⟨fields, each⟩ := each declared fun _ member => member
  exact ⟨fields, .intro value declared required fields level each⟩

theorem Child.smaller {value child : Mapping} {step : Step} (down : Child value step child) :
    sizeOf child < sizeOf value := by
  cases down with
  | property name declared _ _ properties member =>
    exact (Mapping.sizeOf_object child).trans (properties.smaller _ member)
  | items _ _ found => exact (Mapping.sizeOf_object child).trans (Mapping.sizeOf_lookup found)

theorem NestedRules.translates {value : Mapping} (nested : NestedRules value) :
    ∃ type nullable, Translates value type nullable := by
  obtain ⟨⟨rules, plain⟩, below⟩ := nestedRules_iff.mp nested
  have translated (step : Step) (child : Mapping) (down : Child value step child) :
      ∃ type nullable, Translates child type nullable :=
    have := down.smaller
    (below step child down).translates
  obtain ⟨names, kind, kinded, known⟩ := rules.kinded
  obtain ⟨type, found⟩ | rfl | rfl := known_cases known
  · exact ⟨_, _, .primitive value names kind type plain kinded found⟩
  · have array := kinded.isArray
    obtain ⟨items, found⟩ := rules.items array
    obtain ⟨itemType, itemNullable, item⟩ := translated .items items (.items items array found)
    exact ⟨_, _, .array value names items itemType itemNullable plain kinded found item⟩
  · obtain ⟨fields, members⟩ := rules.members kinded.isObject fun name => translated (.property name)
    exact ⟨_, _, .object value names fields plain kinded members⟩
termination_by sizeOf value

theorem checked_iff {root : Mapping} : Checked root ↔ IsKind root "object" ∧ ¬IsKind root "null" ∧
    BaseRules root ∧ ∀ step child, Child root step child → NestedRules child := by
  constructor
  · rintro ⟨object, solid, rules⟩
    refine ⟨object, solid, (rules [] root (.here root)).1, fun step child down place node further => ?_⟩
    obtain ⟨base, plain⟩ := rules _ _ (.step root step child place node down further)
    exact ⟨base, plain (List.cons_ne_nil step place)⟩
  · rintro ⟨object, solid, base, below⟩
    refine ⟨object, solid, fun place node reached => ?_⟩
    cases reached with
    | here => exact ⟨base, fun nested => absurd rfl nested⟩
    | step _ step child place _ down further =>
      obtain ⟨base, plain⟩ := below step child down place node further
      exact ⟨base, fun _ => plain⟩

/-- The documents the code accepts. -/
theorem accepts_iff {document : Json} : (∃ schema, jsonSchemaToArrow document = .ok schema) ↔
    ∃ root, document = .object root ∧ Checked root := by
  constructor
  · rintro ⟨schema, read⟩
    obtain ⟨root, names, fields, rfl, kinded, solid, members, -⟩ := jsonSchemaToArrow_ok.mp read
    exact ⟨root, rfl, checked_iff.mpr ⟨kinded.isObject, mt kinded.isKind_iff.mp solid,
      members.base kinded, members.nested kinded⟩⟩
  · rintro ⟨root, rfl, checked⟩
    obtain ⟨object, solid, rules, below⟩ := checked_iff.mp checked
    obtain ⟨names, kind, kinded, -⟩ := rules.kinded
    obtain rfl := kinded.object_kind object
    obtain ⟨fields, members⟩ := rules.members object fun name schema down =>
      (below (.property name) schema down).translates
    exact ⟨_, jsonSchemaToArrow_ok.mpr
      ⟨root, names, fields, rfl, kinded, mt kinded.isKind_iff.mpr solid, members, rfl⟩⟩

theorem documented_iff {root : Mapping} : Documented (.object root) ↔ Checked root ∧ ¬Slip root := by
  constructor
  · rintro ⟨_, same, object, solid, rules⟩
    cases same
    refine ⟨⟨object, solid, fun place node reached =>
      ⟨(rules place node reached).toBaseRules, fun _ => (rules place node reached).plain⟩⟩, ?_⟩
    rintro (format | ⟨place, node, reached, empty | ⟨object, null⟩⟩)
    · exact absurd format (by simp [(rules [] root (.here root)).plain])
    · exact (rules place node reached).named empty
    · exact (rules place node reached).flagged object null
  · rintro ⟨⟨object, solid, checked⟩, clean⟩
    refine ⟨root, rfl, object, solid, fun place node reached => ?_⟩
    obtain ⟨base, plain⟩ := checked place node reached
    refine ⟨base, fun empty => clean (.inr ⟨place, node, reached, .inl empty⟩), ?_,
      fun object null => clean (.inr ⟨place, node, reached, .inr ⟨object, null⟩⟩)⟩
    cases reached with
    | here => exact Bool.eq_false_iff.mpr fun format => clean (.inl format)
    | step => exact plain (List.cons_ne_nil _ _)

/-- Acceptance is the documented grammar, and a refusal a type or value error, save where
a document that passes every check has a slip. -/
theorem accepts_documented_iff (document : Json) :
    ((∃ schema, jsonSchemaToArrow document = .ok schema) ↔ Documented document) ∧
      (∀ raised, jsonSchemaToArrow document = .error raised →
        raised.exceptionType = .typeError ∨ raised.exceptionType = .valueError) ↔
    ¬∃ root, document = .object root ∧ Checked root ∧ Slip root := by
  have refused (raised : Raised) : raised.exceptionType = .typeError ∨ raised.exceptionType = .valueError := by
    cases raised.exceptionType <;> simp
  constructor
  · rintro ⟨agree, -⟩ ⟨root, rfl, checked, slip⟩
    have documented := agree.mp (accepts_iff.mpr ⟨root, rfl, checked⟩)
    exact (documented_iff.mp documented).2 slip
  · intro clean
    refine ⟨⟨fun accepted => ?_, ?_⟩, fun raised _ => refused raised⟩
    · obtain ⟨root, rfl, checked⟩ := accepts_iff.mp accepted
      exact documented_iff.mpr ⟨checked, fun slip => clean ⟨root, rfl, checked, slip⟩⟩
    · rintro ⟨root, rfl, documented⟩
      exact accepts_iff.mpr ⟨root, rfl, (documented_iff.mp ⟨root, rfl, documented⟩).1⟩

def formattedRoot : Mapping :=
  [("type", .string "object"), ("format", .string "date"), ("properties", .object []), ("required", .array [])]

theorem formattedRoot_schema : jsonSchemaToArrow (.object formattedRoot) = .ok ⟨[], []⟩ := by
  have kinded : Kinded formattedRoot ["object"] "object" :=
    { supported := by
        unfold Supported
        decide
      types := .one "object" rfl
      known := by decide
      sole := .other "object" (by simp) (by decide) (by simp) }
  have level : Level formattedRoot [] [] :=
    { supported := kinded.supported
      additional := by
        intro found present
        cases present
      properties := .listed [] rfl
      requires := .listed [] rfl
      covered := by simp }
  exact jsonSchemaToArrow_ok.mpr
    ⟨formattedRoot, _, _, rfl, kinded, by decide, .intro _ [] [] [] level (.nil []), rfl⟩

/-- An annotated root is accepted. -/
theorem formattedRoot_accepted :
    ¬((∃ schema, jsonSchemaToArrow (.object formattedRoot) = .ok schema) ↔ Documented (.object formattedRoot)) := by
  intro agree
  obtain ⟨root, same, -, -, rules⟩ := agree.mp ⟨_, formattedRoot_schema⟩
  cases same
  have plain := (rules [] formattedRoot (.here formattedRoot)).plain
  contradiction

end FsspecData.JsonSchema
