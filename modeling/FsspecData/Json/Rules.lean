import FsspecData.Json.Schema

/-! The rules of each kind of schema as a translation relation that names no paths, and
the code's agreement with it. -/
namespace FsspecData.JsonSchema

open Fallible

def Supported (value : Mapping) : Prop := ∀ keyword ∈ unsupportedKeywords, value.has keyword = false

/-- The names a schema's `type` lists. -/
inductive Types (value : Mapping) : List String → Prop
  | one (name : String) (found : value.lookup "type" = some (.string name)) : Types value [name]
  | listed (names : List String) (found : value.lookup "type" = some (.array (names.map .string))) :
    Types value names

/-- The kind that type names stand for: the one that is not `null`, if there is one. -/
inductive Sole (names : List String) : String → Prop
  | other (kind : String) (named : kind ∈ names) (real : kind ≠ "null")
    (alone : ∀ name ∈ names, name ≠ "null" → name = kind) : Sole names kind
  | null (alone : ∀ name ∈ names, name = "null") : Sole names "null"

structure Kinded (value : Mapping) (names : List String) (kind : String) : Prop where
  supported : Supported value
  types : Types value names
  known : ∀ name ∈ names, name ∈ knownTypes
  sole : Sole names kind

/-- `additionalProperties` is absent, null or a flag. -/
def Additional (value : Mapping) : Prop :=
  ∀ found, value.lookup "additionalProperties" = some found → found = .null ∨ ∃ flag, found = .bool flag

inductive Properties (value : Mapping) : Mapping → Prop
  | absent (missing : value.lookup "properties" = none) : Properties value []
  | listed (declared : Mapping) (found : value.lookup "properties" = some (.object declared)) :
    Properties value declared

inductive Requires (value : Mapping) : List String → Prop
  | absent (missing : value.lookup "required" = none) : Requires value []
  | listed (names : List String) (found : value.lookup "required" = some (.array (names.map .string))) :
    Requires value names

/-- What an object schema says about its own members. -/
structure Level (value declared : Mapping) (required : List String) : Prop where
  supported : Supported value
  additional : Additional value
  properties : Properties value declared
  requires : Requires value required
  covered : ∀ name ∈ required, declared.has name = true

mutual

/-- A schema translates to a type and to whether it admits null. -/
inductive Translates : Mapping → DataType → Bool → Prop
  | primitive (value : Mapping) (names : List String) (kind : String) (type : DataType)
    (plain : value.has "format" = false) (kinded : Kinded value names kind)
    (found : primitiveTypes.lookup kind = some type) :
    Translates value type (decide ("null" ∈ names) || decide (kind = "null"))
  | array (value : Mapping) (names : List String) (items : Mapping) (itemType : DataType) (itemNullable : Bool)
    (plain : value.has "format" = false) (kinded : Kinded value names "array")
    (found : value.lookup "items" = some (.object items)) (item : Translates items itemType itemNullable) :
    Translates value (.list (.mk "item" itemType itemNullable [])) (decide ("null" ∈ names))
  | object (value : Mapping) (names : List String) (fields : List Field)
    (plain : value.has "format" = false) (kinded : Kinded value names "object") (members : Members value fields) :
    Translates value (.struct (Fields.ofList fields)) (decide ("null" ∈ names))

/-- An object schema translates to the fields of its properties. -/
inductive Members : Mapping → List Field → Prop
  | intro (value declared : Mapping) (required : List String) (fields : List Field)
    (level : Level value declared required) (each : Each required declared fields) : Members value fields

inductive Each : List String → Mapping → List Field → Prop
  | nil (required : List String) : Each required [] []
  | cons (required : List String) (name : String) (schema : Mapping) (type : DataType) (allowsNull : Bool)
    (rest : Mapping) (fields : List Field) (head : Translates schema type allowsNull)
    (tail : Each required rest fields) :
    Each required ((name, .object schema) :: rest)
      (.mk name type (decide (name ∉ required) || allowsNull) [] :: fields)

end

theorem rejectUnsupported_ok {value : Mapping} {path : String} :
    rejectUnsupported value path = .ok () ↔ Supported value := by
  refine forM_eq_ok.trans (forall₂_congr fun keyword _ => ?_)
  cases value.has keyword <;> simp

theorem string?_eq_some {value : Json} {name : String} : value.string? = some name ↔ value = .string name := by
  cases value <;> simp [Json.string?]

theorem stringEntries_eq_some {entries : Json} {names : List String} :
    stringEntries entries = some names ↔ entries = .array (names.map .string) := by
  have listed (items : List Json) : items.mapM Json.string? = some names ↔ items = names.map .string := by
    induction items generalizing names with
    | nil => cases names <;> simp
    | cons item rest ih =>
      simp only [List.mapM_cons, Option.bind_eq_bind, Option.bind_eq_some_iff, string?_eq_some, ih,
        Option.pure_def, Option.some.injEq]
      cases names with
      | nil => simp
      | cons name names => grind
  cases entries with
  | array items => simpa [stringEntries] using listed items
  | _ => simp [stringEntries]

@[simp] theorem stringEntries_strings (names : List String) :
    stringEntries (.array (names.map .string)) = some names := stringEntries_eq_some.mpr rfl

/-- An array of strings has one reading. -/
theorem strings_unique {found : Option Json} {names others : List String}
    (first : found = some (.array (names.map .string))) (second : found = some (.array (others.map .string))) :
    names = others := by
  have same := first.symm.trans second
  simp only [Option.some.injEq, Json.array.injEq] at same
  exact List.map_injective_iff.mpr (fun _ _ => Json.string.inj) same

theorem typeNames_ok {value : Mapping} {path : String} {names : List String} :
    typeNames value path = .ok names ↔ Types value names := by
  constructor
  · intro read
    unfold typeNames at read
    split at read
    · next name found =>
      cases read
      exact .one name found
    · next entries _ found =>
      obtain rfl := stringEntries_eq_some.mp (orFail_eq_ok.mp read)
      exact .listed names found
    · contradiction
  · intro types
    cases types with
    | one name found => simp [typeNames, found]
    | listed names found => simp [typeNames, found]

theorem nodup_eraseDups (names : List String) : names.eraseDups.Nodup := by
  match names with
  | [] => exact List.nodup_nil
  | name :: rest =>
    rw [List.eraseDups_cons, List.nodup_cons]
    refine ⟨fun again => ?_, nodup_eraseDups _⟩
    have kept := (List.mem_filter.mp (List.mem_eraseDups.mp again)).2
    simp at kept
termination_by names.length
decreasing_by
  simp only [List.length_cons]
  exact Nat.lt_succ_of_le (List.length_filter_le _ _)

/-- Nothing is found among the distinct names when none of the names qualifies. -/
theorem sorted_eq_nil {names : List String} {strange : String → Bool} :
    (names.eraseDups.filter strange).mergeSort = [] ↔ ∀ name ∈ names, strange name = false := by
  rw [← List.length_eq_zero_iff, List.length_mergeSort, List.length_eq_zero_iff, List.filter_eq_nil_iff]
  simp [List.mem_eraseDups]

/-- The kind of some names, from a list of those that are not `null`, each once. -/
theorem sole_iff {names rest : List String} {kind : String}
    (real : ∀ name, name ∈ rest ↔ name ∈ names ∧ name ≠ "null") (once : rest.Nodup) :
    Sole names kind ↔ (rest = [] ∧ kind = "null") ∨ rest = [kind] := by
  constructor
  · intro sole
    cases sole with
    | other _ named other alone =>
      have member := (real kind).mpr ⟨named, other⟩
      have same : ∀ name ∈ rest, name = kind := fun name listed =>
        alone name ((real name).mp listed).1 ((real name).mp listed).2
      cases rest with
      | nil => cases member
      | cons first rest =>
        rw [List.forall_mem_cons] at same
        cases rest with
        | nil => exact .inr (congrArg ([·]) same.1)
        | cons second rest =>
          have again := same.2 second List.mem_cons_self
          simp [same.1, again] at once
    | null alone =>
      refine .inl ⟨List.eq_nil_iff_forall_not_mem.mpr fun name listed => ?_, rfl⟩
      exact ((real name).mp listed).2 (alone name ((real name).mp listed).1)
  · intro kinds
    rcases kinds with ⟨rfl, rfl⟩ | rfl
    · refine .null fun name member => ?_
      by_contra other
      cases (real name).mpr ⟨member, other⟩
    · obtain ⟨named, other⟩ := (real kind).mp List.mem_cons_self
      refine .other kind named other fun name member real_name => ?_
      exact List.mem_singleton.mp ((real name).mpr ⟨member, real_name⟩)

theorem soleKind_ok {names : List String} {path kind : String} {allowsNull : Bool} :
    soleKind names path = .ok (kind, allowsNull) ↔
      (∀ name ∈ names, name ∈ knownTypes) ∧ Sole names kind ∧ allowsNull = decide ("null" ∈ names) := by
  have known : (names.eraseDups.filter (· ∉ knownTypes)).mergeSort = [] ↔
      ∀ name ∈ names, name ∈ knownTypes := by
    simp [sorted_eq_nil]
  have real : ∀ name, name ∈ names.eraseDups.filter (· ≠ "null") ↔ name ∈ names ∧ name ≠ "null" := by
    simp [List.mem_eraseDups]
  rw [sole_iff real ((nodup_eraseDups names).filter (· ≠ "null"))]
  simp only [soleKind, List.mem_eraseDups]
  rw [← known]
  split
  · next unknown others strange =>
    rw [strange]
    simp
  · next none =>
    simp only [none, true_and]
    generalize names.eraseDups.filter (· ≠ "null") = rest
    match rest with
    | [] => simp [eq_comm]
    | [sole] => simp [eq_comm]
    | _ :: _ :: _ => simp

theorem schemaKind_ok {value : Mapping} {path kind : String} {allowsNull : Bool} :
    schemaKind value path = .ok (kind, allowsNull) ↔
      ∃ names, Kinded value names kind ∧ allowsNull = decide ("null" ∈ names) := by
  simp only [schemaKind, bind_eq_ok, typeNames_ok, soleKind_ok]
  constructor
  · rintro ⟨⟨⟩, supported, names, types, known, sole, same⟩
    exact ⟨names, ⟨rejectUnsupported_ok.mp supported, types, known, sole⟩, same⟩
  · rintro ⟨names, kinded, same⟩
    exact ⟨(), rejectUnsupported_ok.mpr kinded.supported, names, kinded.types, kinded.known, kinded.sole, same⟩

theorem Kinded.ok {value : Mapping} {names : List String} {kind : String} (kinded : Kinded value names kind)
    (path : String) : schemaKind value path = .ok (kind, decide ("null" ∈ names)) :=
  schemaKind_ok.mpr ⟨names, kinded, rfl⟩

theorem checkAdditional_ok {value : Mapping} {path : String} :
    checkAdditional value path = .ok () ↔ Additional value := by
  unfold checkAdditional Additional
  cases value.lookup "additionalProperties" with
  | none => simp
  | some found => cases found <;> simp

theorem properties_ok {value : Mapping} {path : String} {declared : Mapping} :
    (∃ listed, properties value path = .ok listed ∧ listed.entries = declared) ↔ Properties value declared := by
  constructor
  · rintro ⟨listed, read, rfl⟩
    unfold properties at read
    split at read
    · next missing =>
      cases read
      exact .absent missing
    · next entries found =>
      cases read
      exact .listed entries found
    · contradiction
  · intro declares
    unfold properties
    cases declares with
    | absent missing =>
      split <;> simp_all
    | listed declared found =>
      split <;> simp_all

theorem requiredEntries_ok {value : Mapping} {path : String} {required : List String} :
    requiredEntries value path = .ok required ↔ Requires value required := by
  constructor
  · intro read
    unfold requiredEntries at read
    split at read
    · next missing =>
      cases read
      exact .absent missing
    · next entries found =>
      obtain rfl := stringEntries_eq_some.mp (orFail_eq_ok.mp read)
      exact .listed required found
  · intro requires
    cases requires with
    | absent missing => simp [requiredEntries, missing]
    | listed names found => simp [requiredEntries, found]

theorem requiredNames_ok {value declared : Mapping} {path : String} {required : List String} :
    requiredNames value declared path = .ok required ↔
      Requires value required ∧ ∀ name ∈ required, declared.has name = true := by
  have covered (names : List String) : (names.eraseDups.filter (!declared.has ·)).mergeSort = [] ↔
      ∀ name ∈ names, declared.has name = true := by
    simp [sorted_eq_nil]
  simp only [requiredNames, bind_eq_ok, requiredEntries_ok]
  constructor
  · rintro ⟨names, requires, checked⟩
    split at checked
    · next none =>
      cases checked
      exact ⟨requires, (covered _).mp none⟩
    · contradiction
  · rintro ⟨requires, declares⟩
    exact ⟨required, requires, by rw [(covered _).mpr declares]⟩

/-- An object schema's own members are read before its properties. -/
theorem objectFields_ok {value : Mapping} {path : String} {fields : List Field} :
    objectFields value path = .ok fields ↔ ∃ declared required, Level value declared required ∧
      List.Forall₂ (fun entry field => ∃ schema type allowsNull, entry.2 = .object schema ∧
        dataType schema (path ++ ".properties." ++ entry.1) = .ok (type, allowsNull) ∧
        field = .mk entry.1 type (decide (entry.1 ∉ required) || allowsNull) []) declared fields := by
  rw [objectFields]
  simp only [bind_eq_ok, requiredNames_ok, mapM_eq_ok]
  constructor
  · rintro ⟨⟨⟩, supported, ⟨⟩, additional, listed, read, required, ⟨requires, covered⟩, each⟩
    refine ⟨listed.entries, required, ⟨rejectUnsupported_ok.mp supported, checkAdditional_ok.mp additional,
      properties_ok.mp ⟨listed, read, rfl⟩, requires, covered⟩, ?_⟩
    rw [← List.attach_map_subtype_val listed.entries, List.forall₂_map_left_iff]
    refine each.imp ?_
    rintro ⟨⟨name, schema⟩, member⟩ field made
    cases schema with
    | object schema =>
      obtain ⟨⟨type, allowsNull⟩, translated, made⟩ := bind_eq_ok.mp made
      cases made
      exact ⟨schema, type, allowsNull, rfl, translated, by simp⟩
    | _ => contradiction
  · rintro ⟨declared, required, level, each⟩
    obtain ⟨listed, read, rfl⟩ := properties_ok.mpr level.properties
    refine ⟨(), rejectUnsupported_ok.mpr level.supported, (), checkAdditional_ok.mpr level.additional,
      listed, read, required, ⟨level.requires, level.covered⟩, ?_⟩
    rw [← List.attach_map_subtype_val listed.entries, List.forall₂_map_left_iff] at each
    refine each.imp ?_
    rintro ⟨⟨name, _⟩, member⟩ field ⟨schema, type, allowsNull, rfl, translated, rfl⟩
    simp [translated]

@[simp] theorem primitive_array : primitiveTypes.lookup "array" = none := rfl

@[simp] theorem primitive_object : primitiveTypes.lookup "object" = none := rfl

theorem Properties.smaller {value declared : Mapping} (properties : Properties value declared) :
    ∀ entry ∈ declared, sizeOf entry.2 < sizeOf value := by
  intro entry member
  cases properties with
  | absent => cases member
  | listed _ found =>
    exact (Mapping.sizeOf_member member).trans
      ((Mapping.sizeOf_object declared).trans (Mapping.sizeOf_lookup found))

theorem lookup_absent {value : Mapping} {key : String} (absent : value.has key = false) :
    value.lookup key = none := by
  simpa [Mapping.has] using absent

mutual

theorem dataType_translates {value : Mapping} {path : String} {type : DataType} {nullable : Bool}
    (read : dataType value path = .ok (type, nullable)) : Translates value type nullable := by
  rw [dataType] at read
  obtain ⟨⟨⟩, -, read⟩ := bind_eq_ok.mp read
  split at read
  · contradiction
  · next missing =>
    have plain : value.has "format" = false := by simp [Mapping.has, missing]
    obtain ⟨⟨kind, allowsNull⟩, checked, read⟩ := bind_eq_ok.mp read
    obtain ⟨names, kinded, rfl⟩ := schemaKind_ok.mp checked
    dsimp only at read
    split at read
    · next primitive found =>
      cases read
      exact .primitive value names kind type plain kinded found
    · split at read
      · next array =>
        subst array
        split at read
        · next items found =>
          obtain ⟨⟨itemType, itemNullable⟩, item, read⟩ := bind_eq_ok.mp read
          cases read
          have inside := (Mapping.sizeOf_object items).trans (Mapping.sizeOf_lookup found)
          exact .array value names items itemType itemNullable plain kinded found (dataType_translates item)
        · contradiction
      · split at read
        · next object =>
          subst object
          obtain ⟨fields, members, read⟩ := bind_eq_ok.mp read
          cases read
          exact .object value names fields plain kinded (objectFields_members members)
        · contradiction
termination_by (sizeOf value, 1)
decreasing_by
  · exact .right _ (by omega)
  · exact .left _ _ inside

theorem objectFields_members {value : Mapping} {path : String} {fields : List Field}
    (read : objectFields value path = .ok fields) : Members value fields := by
  obtain ⟨declared, required, level, each⟩ := objectFields_ok.mp read
  refine .intro value declared required fields level ?_
  have smaller := level.properties.smaller
  clear level read
  induction each with
  | nil => exact .nil required
  | @cons entry field rest others head tail ih =>
    obtain ⟨name, _⟩ := entry
    obtain ⟨schema, type, allowsNull, rfl, translated, rfl⟩ := head
    have inside := (Mapping.sizeOf_object schema).trans (smaller _ List.mem_cons_self)
    exact .cons required name schema type allowsNull rest others (dataType_translates translated)
      (ih fun entry member => smaller entry (List.mem_cons_of_mem _ member))
termination_by (sizeOf value, 0)
decreasing_by
  exact .left _ _ inside

end

mutual

theorem Translates.ok : ∀ {value : Mapping} {type : DataType} {nullable : Bool},
    Translates value type nullable → ∀ path, dataType value path = .ok (type, nullable)
  | _, _, _, .primitive value names kind type plain kinded found, path => by
    rw [dataType, rejectUnsupported_ok.mpr kinded.supported, ok_bind, lookup_absent plain]
    simp only [kinded.ok path, ok_bind, found]
  | _, _, _, .array value names items itemType itemNullable plain kinded found item, path => by
    have inner := item.ok (path ++ ".items")
    rw [dataType, rejectUnsupported_ok.mpr kinded.supported, ok_bind, lookup_absent plain]
    simp only [kinded.ok path, ok_bind, primitive_array, if_true]
    split
    · next items' found' =>
      cases found.symm.trans found'
      rw [inner, ok_bind]
    · next other => exact absurd found (other items)
  | _, _, _, .object value names fields plain kinded members, path => by
    rw [dataType, rejectUnsupported_ok.mpr kinded.supported, ok_bind, lookup_absent plain]
    simp [kinded.ok path, members.ok path]

theorem Members.ok : ∀ {value : Mapping} {fields : List Field},
    Members value fields → ∀ path, objectFields value path = .ok fields
  | _, _, .intro value declared required fields level each, path =>
    objectFields_ok.mpr ⟨declared, required, level, each.ok path⟩

theorem Each.ok : ∀ {required : List String} {declared : Mapping} {fields : List Field},
    Each required declared fields → ∀ path,
    List.Forall₂ (fun entry field => ∃ schema type allowsNull, entry.2 = .object schema ∧
      dataType schema (path ++ ".properties." ++ entry.1) = .ok (type, allowsNull) ∧
      field = .mk entry.1 type (decide (entry.1 ∉ required) || allowsNull) []) declared fields
  | _, _, _, .nil _, _ => .nil
  | _, _, _, .cons _ name schema type allowsNull rest fields head tail, path =>
    .cons ⟨schema, type, allowsNull, rfl, head.ok _, rfl⟩ (tail.ok path)

end

/-- The code returns what the rules derive: the fields of an object schema that is not also null. -/
theorem jsonSchemaToArrow_ok {document : Json} {schema : Schema} :
    jsonSchemaToArrow document = .ok schema ↔ ∃ root names fields, document = .object root ∧
      Kinded root names "object" ∧ "null" ∉ names ∧ Members root fields ∧ schema = ⟨fields, []⟩ := by
  constructor
  · intro read
    cases document with
    | object root =>
      obtain ⟨⟨kind, allowsNull⟩, checked, read⟩ := bind_eq_ok.mp read
      obtain ⟨names, kinded, rfl⟩ := schemaKind_ok.mp checked
      dsimp only at read
      split at read
      · contradiction
      · next object =>
        obtain rfl := not_not.mp object
        split at read
        · contradiction
        · next solid =>
          obtain ⟨fields, members, read⟩ := bind_eq_ok.mp read
          cases read
          exact ⟨root, names, fields, rfl, kinded, by simpa using solid, objectFields_members members, rfl⟩
    | _ => contradiction
  · rintro ⟨root, names, fields, rfl, kinded, solid, members, rfl⟩
    simp [jsonSchemaToArrow, kinded.ok "$", members.ok "$", solid]

end FsspecData.JsonSchema
