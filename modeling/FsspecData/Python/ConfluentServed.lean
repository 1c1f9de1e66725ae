import FsspecData.Python.ConfluentRegistry

/-! A registry that serves the entries that it keeps. It is documented, and fetches from it
return what it keeps. -/
namespace FsspecData.Confluent

open Client Fallible Percent Python

/-- The description of an entry that a registry serves. -/
def Entry.members (subject : String) (entry : Entry) : List (String × Payload) :=
  [("subject", .string subject), ("version", .int entry.version), ("id", .int entry.id),
    ("schema", .string entry.schema), ("references", .array (entry.references.map .object))] ++
      (entry.schemaType.map fun schemaType => ("schemaType", .string schemaType)).toList

theorem members_describes (subject : String) (entry : Entry) : entry.Describes subject (entry.members subject) where
  schema := rfl
  schemaType := by
    obtain ⟨version, id, schemaType, schema, references⟩ := entry
    cases schemaType <;> rfl
  subject := rfl
  version := rfl
  id := rfl
  references := rfl

/-- What is served under the segments of a path. -/
def reply (entries : String → List Entry) : List String → Option Payload
  | ["subjects", subject, "versions"] => some (.array ((entries subject).map fun entry => .int entry.version))
  | ["subjects", subject, "versions", version] =>
    (if version ∈ ["latest", "-1"] then (entries subject).getLast?
      else (entries subject).find? fun entry => toString entry.version = version).map fun entry =>
        .object (entry.members subject)
  | _ => none

theorem found_named {entries : List Entry} {version : String} {entry : Entry}
    (found : (entries.find? fun entry => toString entry.version = version) = some entry) :
    entry ∈ entries ∧ toString entry.version = version := by
  have chosen := List.find?_some found
  rw [decide_eq_true_eq] at chosen
  exact ⟨List.mem_of_find?_eq_some found, chosen⟩

variable {S : Type} (moves : S → S → Prop) (root : String) (entries : S → String → List Entry)

def served : Registry S where
  answers s asked response := match response with
    | .error _ => True
    | .ok payload => ∃ path, asked.url = root ++ "/" ++ path ∧
      reply (entries s) ((segments path).map unquote) = some payload
  moves := moves
  entries := entries

variable {moves} {root} {entries}

theorem served_ok {s : S} {path : String} {payload : Payload} {headers : List (String × String)}
    {timeout : Option PyValue} :
    (served moves root entries).answers s ⟨root ++ "/" ++ path, headers, timeout⟩ (.ok payload) ↔
      reply (entries s) ((segments path).map unquote) = some payload := by
  constructor
  · rintro ⟨other, same, replied⟩
    have paths : path = other := by
      rw [String.append_right_inj] at same
      exact same
    rwa [paths]
  · intro replied
    exact ⟨path, rfl, replied⟩

theorem numbered_other (number : ℕ) : toString number ∉ ["latest", "-1"] := by
  intro named
  have digits : ∀ c ∈ (toString number).toList, c.isDigit = true := by
    intro c member
    exact Numeral.isDigit_toDigits c (Nat.toList_repr ▸ member)
  rcases List.mem_cons.mp named with latest | rest
  · rw [latest] at digits
    exact absurd (digits 'l' (by decide)) (by decide)
  · rw [List.mem_singleton.mp rest] at digits
    exact absurd (digits '-' (by decide)) (by decide)

/-- A version stands for one schema at all times. -/
def Lasting (moves : S → S → Prop) (entries : S → String → List Entry) : Prop :=
  ∀ s t subject, Relation.ReflTransGen moves s t → ∀ entry ∈ entries s subject, ∀ other ∈ entries t subject,
    entry.version = other.version → entry = other

theorem served_documented (lasting : Lasting moves entries) : (served moves root entries).Documented root where
  listed {s asked path subject payload} located path answer := by
    obtain ⟨url, headers, timeout⟩ := asked
    cases located
    have replied := served_ok.mp answer
    rw [path] at replied
    exact (Option.some.inj replied).symm
  numbered {s asked path subject number payload} located path answer := by
    obtain ⟨url, headers, timeout⟩ := asked
    cases located
    have replied := served_ok.mp answer
    rw [path, reply, if_neg (numbered_other number)] at replied
    obtain ⟨entry, found, rfl⟩ := Option.map_eq_some_iff.mp replied
    obtain ⟨there, named⟩ := found_named found
    exact ⟨_, entry, rfl, there, Numeral.toString_inj named, members_describes subject entry⟩
  newest {s asked path subject version payload} located path newest answer := by
    obtain ⟨url, headers, timeout⟩ := asked
    cases located
    have replied := served_ok.mp answer
    rw [path, reply, if_pos newest] at replied
    obtain ⟨entry, found, rfl⟩ := Option.map_eq_some_iff.mp replied
    exact ⟨_, entry, rfl, found, members_describes subject entry⟩
  lasting moved there present := lasting _ _ _ moved _ there _ present

/-! Fetches that nothing disturbs. -/

section

variable {python : Interpreter} {options : PyMapping} {s : S} {headers : List (String × String)}
  {timeout : Option PyValue}
  (made : ∀ path, request python path options = .ok ⟨root ++ "/" ++ path, headers, timeout⟩)

include made in
theorem served_get {path : String} {payload : Payload}
    (replied : reply (entries s) ((segments path).map unquote) = some payload) :
    Runs (served moves root entries).answers moves (get python path options).run s
      [(⟨root ++ "/" ++ path, headers, timeout⟩, .ok payload)] (.ok payload) s := by
  rw [get, made]
  exact .ask .refl (served_ok.mpr replied) .pure

include made in
theorem served_fetchVersion (distinct : Lasting moves entries) {subject : String} {entry : Entry}
    (there : entry ∈ entries s subject) :
    ∃ trace, Runs (served moves root entries).answers moves
      (fetchVersion python subject options (toString entry.version)).run s trace
      (.ok (entry.document python subject)) s := by
  have named : (decide (toString entry.version = toString entry.version)) = true := decide_eq_true rfl
  obtain ⟨other, found⟩ := Option.isSome_iff_exists.mp
    (List.find?_isSome.mpr ⟨entry, there, named⟩ :
      ((entries s subject).find? fun other => toString other.version = toString entry.version).isSome)
  obtain ⟨present, text⟩ := found_named found
  have same : entry = other := distinct s s subject .refl entry there other present (Numeral.toString_inj text).symm
  have replied : reply (entries s) ((segments ("subjects/" ++ quote subject ++ "/versions/" ++
      toString entry.version)).map unquote) = some (.object (entry.members subject)) := by
    rw [segments_numbered, reply, if_neg (numbered_other _), found, ← same]
    rfl
  refine ⟨_, runs_except.mpr (.inr ⟨_, s, _, [], rfl, served_get made replied, ?_⟩)⟩
  rw [document_describes (members_describes subject entry)]
  exact .pure

variable {checks : Url.NetlocChecks} {reader : Numeral.Reader} {url subject version : String}

include made in
/-- All that a registry keeps of a subject is fetched. -/
theorem served_versions (distinct : Lasting moves entries)
    (parsed : parseReference checks reader url = .ok (subject, version)) :
    ∃ trace, Runs (served moves root entries).answers moves
      (fetchConfluentVersions checks reader python url options).run s trace
      (.ok ((entries s subject).map (Entry.document python subject))) s := by
  have replied : reply (entries s) ((segments ("subjects/" ++ quote subject ++ "/versions")).map unquote) =
      some (.array ((entries s subject).map fun entry => .int entry.version)) := by
    rw [segments_versions, reply]
  obtain ⟨trace, fetches⟩ := runs_mapM_ok
    (f := fetchVersion python subject options ∘ fun entry : Entry => toString entry.version)
    fun entry there => served_fetchVersion made distinct there
  rw [fetchConfluentVersions_parsed python options parsed]
  refine ⟨_, runs_except.mpr (.inr ⟨_, s, _, trace, rfl, served_get made replied, ?_⟩)⟩
  rw [versionTexts_listed]
  change Runs _ _ (List.mapM (fetchVersion python subject options) _).run _ _ _ _
  rw [List.mapM_map]
  exact fetches

include made in
theorem served_schema (distinct : Lasting moves entries) {entry : Entry} (there : entry ∈ entries s subject)
    (parsed : parseReference checks reader url = .ok (subject, toString entry.version)) :
    ∃ trace, Runs (served moves root entries).answers moves
      (fetchConfluentSchema checks reader python url options).run s trace (.ok (entry.document python subject)) s := by
  have fetched := served_fetchVersion made distinct there
  rw [fetchConfluentSchema_parsed python options parsed, quote_unreserved (unreserved_toString _)]
  exact fetched

end

/-! A registry in which versions are registered one after another. -/

def growing (versions : ℕ) (_subject : String) : List Entry :=
  (List.range versions).map fun index => ⟨index + 1, index + 1, none, "\"string\"", []⟩

def registered (versions versions' : ℕ) : Prop := versions' = versions + 1

theorem growing_lasting : Lasting registered growing := by
  intro s t subject moved entry there other present same
  obtain ⟨i, _, rfl⟩ := List.mem_map.mp there
  obtain ⟨j, _, rfl⟩ := List.mem_map.mp present
  cases same
  rfl

/-- What Python does to the words that occur here. -/
def plainPython : Interpreter := ⟨fun _ => false, id, id⟩

def registryOptions : PyMapping := [("registry_url", .string "https://registry/")]

theorem registryOptions_located : registryUrl registryOptions = .ok "https://registry/" := by decide +kernel

theorem registryOptions_root : baseUrl "https://registry/" = "https://registry" := by decide

theorem registryOptions_made (path : String) : request plainPython path registryOptions =
    .ok ⟨"https://registry" ++ "/" ++ path, requestHeaders plainPython [] none, none⟩ := by
  have known : unknownOptions registryOptions = .ok () := by simp [unknownOptions, registryOptions, storageOptions]
  rw [request, registryOptions_located, known, ← registryOptions_root]
  rfl

def orders (version : String) : String := "confluent://" ++ quote "orders" ++ "/versions/" ++ quote version

theorem orders_parsed {version : String} (form : VersionForm version) :
    parseReference anyNetloc asciiReader (orders version) = .ok ("orders", version) :=
  parseReference_quote (by decide) form.filled form.checked

def ordersRegistry : Registry ℕ := served registered "https://registry" growing

def fetchOrders : Fetching (List ConfluentSchemaDocument) :=
  fetchConfluentVersions anyNetloc asciiReader plainPython (orders "latest") registryOptions

theorem orders_documented : ordersRegistry.Documented (baseUrl "https://registry/") :=
  registryOptions_root ▸ served_documented growing_lasting

theorem fetched_snapshot_orders :
    (∃ trace, Runs ordersRegistry.answers registered fetchOrders.run 2 trace
      (.ok ((growing 2 "orders").map (Entry.document plainPython "orders"))) 2) ∧
    ∀ s trace result last, Runs ordersRegistry.answers registered fetchOrders.run s trace result last →
      (∃ t, Relation.ReflTransGen registered s t ∧ Relation.ReflTransGen registered t last ∧
        result = .ok ((growing t "orders").map (Entry.document plainPython "orders"))) ∨
      ∃ error, result = .error error ∧ Refused trace error :=
  ⟨served_versions registryOptions_made growing_lasting (orders_parsed (.inl rfl)),
    (fetched_snapshot orders_documented registryOptions_located (orders_parsed (.inl rfl))).1⟩

/-- The first version is the same before and after the third one is registered. -/
theorem fetched_lasting_orders :
    ⟨"\"string\"", "AVRO", "orders", "1", some "1", []⟩ ∈ (growing 2 "orders").map
        (Entry.document plainPython "orders") ∧
      ∀ other ∈ (growing 2 "orders").map (Entry.document plainPython "orders"), other.version = "1" →
        other = ⟨"\"string\"", "AVRO", "orders", "1", some "1", []⟩ := by
  have form : VersionForm "1" := .inr (.inr ⟨1, by decide, by decide, rfl⟩)
  have there : (⟨1, 1, none, "\"string\"", []⟩ : Entry) ∈ growing 3 "orders" := List.mem_cons_self
  obtain ⟨trace, listing⟩ := served_versions (s := 2) registryOptions_made growing_lasting (orders_parsed (.inl rfl))
  obtain ⟨trace', fetching⟩ := served_schema (s := 3) registryOptions_made growing_lasting there (orders_parsed form)
  exact ⟨List.mem_cons_self, fetched_lasting orders_documented registryOptions_located registryOptions_located
    (orders_parsed (.inl rfl)) (orders_parsed form) form listing fetching (.inl (.single rfl))⟩

end FsspecData.Confluent
