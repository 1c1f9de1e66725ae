import FsspecData.Json.Rules
import Mathlib.Data.Set.List

/-! The translation reads a document's structure only. Documents that differ in other
keywords, or in how they list the names of `type` and `required`, translate alike. -/
namespace FsspecData.JsonSchema

/-- The same value, or arrays with the same entries in any order and number. -/
inductive SameEntries : Option Json → Option Json → Prop
  | same (value : Option Json) : SameEntries value value
  | arrays (first second : List Json) (entries : ∀ item, item ∈ first ↔ item ∈ second) :
    SameEntries (some (.array first)) (some (.array second))

mutual

/-- Documents of the same structure. What an array holds is of no matter: no array is a schema. -/
inductive Alike : Json → Json → Prop
  | same (value : Json) : Alike value value
  | arrays (first second : List Json) : Alike (.array first) (.array second)
  | schemas (first second : Mapping) (nodes : AlikeNodes first second) : Alike (.object first) (.object second)

/-- Two schema objects with the same structural keywords; all others are free. -/
inductive AlikeNodes : Mapping → Mapping → Prop
  | intro (first second : Mapping)
    (presence : ∀ keyword ∈ "format" :: unsupportedKeywords, first.has keyword = second.has keyword)
    (types : SameEntries (first.lookup "type") (second.lookup "type"))
    (required : SameEntries (first.lookup "required") (second.lookup "required"))
    (additional : AlikeAt (first.lookup "additionalProperties") (second.lookup "additionalProperties"))
    (items : AlikeAt (first.lookup "items") (second.lookup "items"))
    (properties : AlikeProperties (first.lookup "properties") (second.lookup "properties")) :
    AlikeNodes first second

inductive AlikeAt : Option Json → Option Json → Prop
  | missing : AlikeAt none none
  | found (first second : Json) (alike : Alike first second) : AlikeAt (some first) (some second)

inductive AlikeProperties : Option Json → Option Json → Prop
  | same (value : Option Json) : AlikeProperties value value
  | listed (first second : Mapping) (entries : AlikeEntries first second) :
    AlikeProperties (some (.object first)) (some (.object second))

/-- The same names in the same order. -/
inductive AlikeEntries : Mapping → Mapping → Prop
  | nil : AlikeEntries [] []
  | cons (name : String) (first second : Json) (rest others : Mapping) (alike : Alike first second)
    (tail : AlikeEntries rest others) : AlikeEntries ((name, first) :: rest) ((name, second) :: others)

end

theorem SameEntries.symm {first second : Option Json} (same : SameEntries first second) :
    SameEntries second first := by
  cases same with
  | same => exact .same _
  | arrays first second entries => exact .arrays second first fun item => (entries item).symm

mutual

theorem Alike.symm : ∀ {first second : Json}, Alike first second → Alike second first
  | _, _, .same value => .same value
  | _, _, .arrays first second => .arrays second first
  | _, _, .schemas first second nodes => .schemas second first nodes.symm

theorem AlikeNodes.symm : ∀ {first second : Mapping}, AlikeNodes first second → AlikeNodes second first
  | _, _, .intro first second presence types required additional items properties =>
    .intro second first (fun keyword member => (presence keyword member).symm) types.symm required.symm
      additional.symm items.symm properties.symm

theorem AlikeAt.symm : ∀ {first second : Option Json}, AlikeAt first second → AlikeAt second first
  | _, _, .missing => .missing
  | _, _, .found first second alike => .found second first alike.symm

theorem AlikeProperties.symm :
    ∀ {first second : Option Json}, AlikeProperties first second → AlikeProperties second first
  | _, _, .same value => .same value
  | _, _, .listed first second entries => .listed second first entries.symm

theorem AlikeEntries.symm : ∀ {first second : Mapping}, AlikeEntries first second → AlikeEntries second first
  | _, _, .nil => .nil
  | _, _, .cons name first second rest others alike tail =>
    .cons name second first others rest alike.symm tail.symm

end

theorem AlikeEntries.refl : ∀ value : Mapping, AlikeEntries value value
  | [] => .nil
  | (name, schema) :: rest => .cons name schema schema rest rest (.same schema) (refl rest)

theorem AlikeAt.refl : ∀ value : Option Json, AlikeAt value value
  | none => .missing
  | some value => .found value value (.same value)

theorem Alike.nodes {first second : Mapping} (alike : Alike (.object first) (.object second)) :
    AlikeNodes first second := by
  cases alike with
  | same => exact .intro first first (fun _ _ => rfl) (.same _) (.same _) (.refl _) (.refl _) (.same _)
  | schemas _ _ nodes => exact nodes

/-- Only an object is like an object. -/
theorem Alike.object {first : Mapping} {other : Json} (alike : Alike (.object first) other) :
    ∃ second, other = .object second ∧ AlikeNodes first second := by
  cases alike with
  | same => exact ⟨first, rfl, Alike.nodes (.same _)⟩
  | schemas _ second nodes => exact ⟨second, rfl, nodes⟩

theorem SameEntries.strings {first second : Option Json} (same : SameEntries first second) {names : List String}
    (found : first = some (.array (names.map .string))) :
    ∃ others : List String, second = some (.array (others.map .string)) ∧ ∀ name, name ∈ names ↔ name ∈ others := by
  cases same with
  | same => exact ⟨names, found, fun _ => Iff.rfl⟩
  | arrays listed items entries =>
    cases found
    have texts : items ∈ Set.range (List.map Json.string) := by
      rw [Set.range_list_map]
      intro item member
      obtain ⟨name, _, made⟩ := List.mem_map.mp ((entries item).mpr member)
      exact ⟨name, made⟩
    obtain ⟨others, rfl⟩ := texts
    refine ⟨others, rfl, fun name => ?_⟩
    have member (list : List String) : Json.string name ∈ list.map Json.string ↔ name ∈ list :=
      List.mem_map_of_injective fun _ _ => Json.string.inj
    rw [← member names, ← member others, entries]

theorem AlikeNodes.has {first second : Mapping} (nodes : AlikeNodes first second) {keyword : String}
    (member : keyword ∈ "format" :: unsupportedKeywords) : second.has keyword = first.has keyword := by
  obtain ⟨_, _, presence⟩ := nodes
  exact (presence keyword member).symm

theorem AlikeNodes.supported {first second : Mapping} (nodes : AlikeNodes first second)
    (supported : Supported first) : Supported second := fun keyword member =>
  (nodes.has (List.mem_cons_of_mem _ member)).trans (supported keyword member)

theorem AlikeNodes.plain {first second : Mapping} (nodes : AlikeNodes first second)
    (plain : first.has "format" = false) : second.has "format" = false :=
  (nodes.has List.mem_cons_self).trans plain

theorem AlikeNodes.kinded {first second : Mapping} {names : List String} {kind : String}
    (nodes : AlikeNodes first second) (kinded : Kinded first names kind) :
    ∃ others, Kinded second others kind ∧ ∀ name, name ∈ names ↔ name ∈ others := by
  obtain ⟨supported, read, known, sole⟩ := kinded
  have still := nodes.supported supported
  obtain ⟨_, _, _, types⟩ := nodes
  obtain ⟨others, read', members⟩ : ∃ others, Types second others ∧ ∀ name, name ∈ names ↔ name ∈ others := by
    cases read with
    | one name found =>
      rw [found] at types
      generalize at_second : second.lookup "type" = found' at types
      cases types
      exact ⟨[name], .one name at_second, fun _ => Iff.rfl⟩
    | listed names found =>
      obtain ⟨others, found', members⟩ := types.strings found
      exact ⟨others, .listed others found', members⟩
  refine ⟨others, ⟨still, read', fun name member => known name ((members name).mpr member), ?_⟩, members⟩
  cases sole with
  | other kind named real alone =>
    exact .other kind ((members kind).mp named) real fun name member => alone name ((members name).mpr member)
  | null alone => exact .null fun name member => alone name ((members name).mpr member)

theorem AlikeNodes.additional {first second : Mapping} (nodes : AlikeNodes first second)
    (allowed : Additional first) : Additional second := by
  obtain ⟨_, _, _, _, _, additional⟩ := nodes
  intro found at_second
  rw [at_second] at additional
  generalize at_first : first.lookup "additionalProperties" = value at additional
  cases additional with
  | found value _ alike =>
    cases alike with
    | same => exact allowed found at_first
    | arrays => exact absurd (allowed _ at_first) (by simp)
    | schemas => exact absurd (allowed _ at_first) (by simp)

theorem AlikeNodes.items {first second items : Mapping} (nodes : AlikeNodes first second)
    (found : first.lookup "items" = some (.object items)) :
    ∃ others, second.lookup "items" = some (.object others) ∧ AlikeNodes items others := by
  obtain ⟨_, _, _, _, _, _, alike⟩ := nodes
  rw [found] at alike
  generalize second.lookup "items" = found' at alike
  cases alike with
  | found _ other alike =>
    obtain ⟨others, rfl, inside⟩ := alike.object
    exact ⟨others, rfl, inside⟩

theorem AlikeNodes.properties {first second declared : Mapping} (nodes : AlikeNodes first second)
    (properties : Properties first declared) : ∃ others, Properties second others ∧ AlikeEntries declared others := by
  obtain ⟨_, _, _, _, _, _, _, alike⟩ := nodes
  generalize at_second : second.lookup "properties" = found' at alike
  cases properties with
  | absent missing =>
    rw [missing] at alike
    cases alike
    exact ⟨[], .absent at_second, .nil⟩
  | listed declared found =>
    rw [found] at alike
    cases alike with
    | same => exact ⟨declared, .listed declared at_second, .refl declared⟩
    | listed _ others entries => exact ⟨others, .listed others at_second, entries⟩

theorem AlikeNodes.requires {first second : Mapping} {required : List String} (nodes : AlikeNodes first second)
    (requires : Requires first required) :
    ∃ others, Requires second others ∧ ∀ name, name ∈ required ↔ name ∈ others := by
  obtain ⟨_, _, _, _, same⟩ := nodes
  cases requires with
  | absent missing =>
    rw [missing] at same
    generalize at_second : second.lookup "required" = found' at same
    cases same
    exact ⟨[], .absent at_second, fun _ => Iff.rfl⟩
  | listed names found =>
    obtain ⟨others, found', members⟩ := same.strings found
    exact ⟨others, .listed others found', members⟩

theorem AlikeEntries.keys : ∀ {declared others : Mapping}, AlikeEntries declared others →
    others.map Prod.fst = declared.map Prod.fst
  | _, _, .nil => rfl
  | _, _, .cons name _ _ _ _ _ tail => congrArg (name :: ·) tail.keys

theorem AlikeEntries.has {declared others : Mapping} (entries : AlikeEntries declared others) (name : String) :
    others.has name = declared.has name := by
  rw [Bool.eq_iff_iff, Mapping.has_iff, Mapping.has_iff, entries.keys]

theorem AlikeNodes.level {first second declared : Mapping} {required : List String}
    (nodes : AlikeNodes first second) (level : Level first declared required) :
    ∃ declared' required', Level second declared' required' ∧ AlikeEntries declared declared' ∧
      ∀ name, name ∈ required ↔ name ∈ required' := by
  obtain ⟨declared', properties, entries⟩ := nodes.properties level.properties
  obtain ⟨required', requires, members⟩ := nodes.requires level.requires
  refine ⟨declared', required', ⟨nodes.supported level.supported, nodes.additional level.additional,
    properties, requires, fun name member => ?_⟩, entries, members⟩
  rw [entries.has, level.covered name ((members name).mpr member)]

mutual

theorem Translates.alike : ∀ {first second : Mapping} {type : DataType} {nullable : Bool},
    Translates first type nullable → AlikeNodes first second → Translates second type nullable
  | _, second, _, _, .primitive _ names kind type plain kinded found, nodes => by
    obtain ⟨others, kinded', members⟩ := nodes.kinded kinded
    rw [decide_eq_decide.mpr (members "null")]
    exact .primitive second others kind type (nodes.plain plain) kinded' found
  | _, second, _, _, .array _ names items itemType itemNullable plain kinded found item, nodes => by
    obtain ⟨others, kinded', members⟩ := nodes.kinded kinded
    obtain ⟨items', found', inside⟩ := nodes.items found
    rw [decide_eq_decide.mpr (members "null")]
    exact .array second others items' itemType itemNullable (nodes.plain plain) kinded' found' (item.alike inside)
  | _, second, _, _, .object _ names fields plain kinded fieldsOf, nodes => by
    obtain ⟨others, kinded', members⟩ := nodes.kinded kinded
    rw [decide_eq_decide.mpr (members "null")]
    exact .object second others fields (nodes.plain plain) kinded' (fieldsOf.alike nodes)

theorem Members.alike : ∀ {first second : Mapping} {fields : List Field},
    Members first fields → AlikeNodes first second → Members second fields
  | _, second, _, .intro _ declared required fields level each, nodes => by
    obtain ⟨declared', required', level', entries, members⟩ := nodes.level level
    exact .intro second declared' required' fields level' (each.alike entries members)

theorem Each.alike : ∀ {required required' : List String} {declared declared' : Mapping} {fields : List Field},
    Each required declared fields → AlikeEntries declared declared' →
    (∀ name, name ∈ required ↔ name ∈ required') → Each required' declared' fields
  | _, required', _, _, _, .nil _, entries, _ => by
    cases entries
    exact .nil required'
  | _, required', _, _, _, .cons _ name schema type allowsNull rest fields head tail, entries, members => by
    cases entries with
    | cons _ _ other _ others alike entries =>
      obtain ⟨second, rfl, nodes⟩ := alike.object
      rw [decide_eq_decide.mpr (not_congr (members name))]
      exact .cons required' name second type allowsNull others fields (head.alike nodes) (tail.alike entries members)

end

theorem ok_alike {first second : Json} (alike : Alike first second) {schema : Schema}
    (read : jsonSchemaToArrow first = .ok schema) : jsonSchemaToArrow second = .ok schema := by
  obtain ⟨root, names, fields, rfl, kinded, solid, members, rfl⟩ := jsonSchemaToArrow_ok.mp read
  obtain ⟨other, rfl, nodes⟩ := alike.object
  obtain ⟨others, kinded', same⟩ := nodes.kinded kinded
  exact jsonSchemaToArrow_ok.mpr ⟨other, others, fields, rfl, kinded', fun null => solid ((same _).mpr null),
    members.alike nodes, rfl⟩

/-- Documents of the same structure both fail or translate to the same schema. -/
theorem jsonSchemaToArrow_alike {first second : Json} (alike : Alike first second) :
    (∃ error error', jsonSchemaToArrow first = .error error ∧ jsonSchemaToArrow second = .error error') ∨
      ∃ schema, jsonSchemaToArrow first = .ok schema ∧ jsonSchemaToArrow second = .ok schema := by
  cases read : jsonSchemaToArrow first with
  | ok schema => exact .inr ⟨schema, rfl, ok_alike alike read⟩
  | error error =>
    cases read' : jsonSchemaToArrow second with
    | ok schema => cases read.symm.trans (ok_alike alike.symm read')
    | error error' => exact .inl ⟨error, error', rfl, rfl⟩

def described : Mapping := [("type", .array [.string "null", .string "integer"]), ("title", .string "count")]

def undescribed : Mapping := [("minimum", .number 0),
  ("type", .array [.string "integer", .string "null", .string "null"])]

def recordOf (schema : Mapping) : Json :=
  .object [("type", .string "object"), ("properties", .object [("a", .object schema)])]

theorem jsonSchemaToArrow_alike_undescribed :
    (∃ error error', jsonSchemaToArrow (recordOf described) = .error error ∧
        jsonSchemaToArrow (recordOf undescribed) = .error error') ∨
      ∃ schema, jsonSchemaToArrow (recordOf described) = .ok schema ∧
        jsonSchemaToArrow (recordOf undescribed) = .ok schema := by
  have entries : ∀ item, item ∈ [Json.string "null", .string "integer"] ↔
      item ∈ [Json.string "integer", .string "null", .string "null"] := by
    intro item
    simp [or_comm]
  have nodes : AlikeNodes described undescribed :=
    .intro _ _ (by decide) (.arrays _ _ entries) (.same none) .missing .missing (.same none)
  have columns : AlikeEntries [("a", .object described)] [("a", .object undescribed)] :=
    .cons "a" _ _ [] [] (.schemas _ _ nodes) .nil
  exact jsonSchemaToArrow_alike (.schemas _ _ (.intro _ _ (by decide) (.same _) (.same none) .missing .missing
    (.listed _ _ columns)))

end FsspecData.JsonSchema
