import FsspecData.Python.ConfluentDocument

/-! The Confluent client against a registry that others use too. Versions may be registered and
deleted between any two of its requests; what it returns is still the registry of one moment. -/
namespace FsspecData.Confluent

open Client Fallible Percent Python

/-- A registered version of a subject. -/
structure Entry where
  version : ℕ
  id : ℕ
  schemaType : Option String
  schema : String
  references : List (List (String × Payload))

/-- An object that a registry describes an entry by, whatever else is in it. -/
structure Entry.Describes (entry : Entry) (subject : String) (members : List (String × Payload)) : Prop where
  schema : members.lookup "schema" = some (.string entry.schema)
  schemaType : members.lookup "schemaType" = entry.schemaType.map .string
  subject : members.lookup "subject" = some (.string subject)
  version : members.lookup "version" = some (.int entry.version)
  id : members.lookup "id" = some (.int entry.id)
  references : (members.lookup "references").getD (.array []) = .array (entry.references.map .object)

def Entry.document (python : Interpreter) (subject : String) (entry : Entry) : ConfluentSchemaDocument :=
  ⟨entry.schema, python.upper (entry.schemaType.getD "AVRO"), subject, toString entry.version,
    some (toString entry.id), entry.references⟩

/-- What a registry answers in its states, how others move it on, and the versions that a
subject has, oldest first. -/
structure Registry (S : Type) where
  answers : S → Request → Response → Prop
  moves : S → S → Prop
  entries : S → String → List Entry

/-- A registry's interface under a URL. It may fail to answer at any time. -/
structure Registry.Documented {S : Type} (registry : Registry S) (root : String) : Prop where
  listed {s : S} {asked : Request} {path subject : String} {payload : Payload} : asked.url = root ++ "/" ++ path →
    (segments path).map unquote = ["subjects", subject, "versions"] → registry.answers s asked (.ok payload) →
    payload = .array ((registry.entries s subject).map fun entry => .int entry.version)
  numbered {s : S} {asked : Request} {path subject : String} {number : ℕ} {payload : Payload} :
    asked.url = root ++ "/" ++ path →
    (segments path).map unquote = ["subjects", subject, "versions", toString number] →
    registry.answers s asked (.ok payload) → ∃ members entry, payload = .object members ∧
      entry ∈ registry.entries s subject ∧ entry.version = number ∧ entry.Describes subject members
  newest {s : S} {asked : Request} {path subject version : String} {payload : Payload} :
    asked.url = root ++ "/" ++ path → (segments path).map unquote = ["subjects", subject, "versions", version] →
    version ∈ ["latest", "-1"] → registry.answers s asked (.ok payload) → ∃ members entry,
      payload = .object members ∧ (registry.entries s subject).getLast? = some entry ∧ entry.Describes subject members
  /-- A version stands for one schema for good. -/
  lasting {s t : S} {subject : String} {entry other : Entry} : Relation.ReflTransGen registry.moves s t →
    entry ∈ registry.entries s subject → other ∈ registry.entries t subject → entry.version = other.version →
    entry = other

variable {python : Interpreter}

/-- Every description is accepted as what it describes. -/
theorem document_describes {entry : Entry} {subject : String} {members : List (String × Payload)}
    (describes : entry.Describes subject members) (other requested : String) :
    document python (.object members) other requested = .ok (entry.document python subject) := by
  have start : orFail DocumentError.notAnObject (Payload.object members).members? = .ok members := rfl
  have types : ((members.lookup "schemaType").getD (.string "AVRO")).string? =
      some (entry.schemaType.getD "AVRO") := by
    rw [describes.schemaType]
    cases entry.schemaType <;> rfl
  have references : ((members.lookup "references").getD (.array [])).items?.bind
      (fun items => items.mapM Payload.members?) = some entry.references := by
    have each : List.Forall₂ (fun members result => (Payload.object members).members? = some result) entry.references
        entry.references := List.forall₂_same.mpr fun members _ => rfl
    rw [describes.references]
    exact mapM_eq_some.mpr (List.forall₂_map_left_iff.mpr each)
  simp only [document, start, ok_bind, describes.schema, types, describes.subject, describes.version, describes.id,
    references]
  rfl

theorem versionTexts_listed (entries : List Entry) :
    versionTexts (.array (entries.map fun entry => .int entry.version)) =
      some (entries.map fun entry => toString entry.version) := by
  have each : List.Forall₂ (fun entry other : Entry =>
      (Payload.int entry.version).intText = some (toString other.version)) entries entries := List.forall₂_same.mpr fun entry _ => rfl
  exact mapM_eq_some.mpr (List.forall₂_map_left_iff.mpr (List.forall₂_map_right_iff.mpr each))

theorem unreserved_toString (number : ℕ) : ∀ c ∈ (toString number).toList, unreserved c = true := by
  intro c member
  have digit : c ∈ Nat.toDigits 10 number := Nat.toList_repr ▸ member
  have range := Char.isDigit_iff_toNat.mp (Numeral.isDigit_toDigits c digit)
  simp only [Char.reduceToNat] at range
  exact unreserved_iff.mpr (.inl range)

theorem segments_numbered (subject : String) (number : ℕ) :
    (segments ("subjects/" ++ quote subject ++ "/versions/" ++ toString number)).map unquote =
      ["subjects", subject, "versions", toString number] := by
  have segmented := segments_requestPath subject (toString number)
  rwa [quote_unreserved (unreserved_toString number)] at segmented

theorem segments_versions (subject : String) :
    (segments ("subjects/" ++ quote subject ++ "/versions")).map unquote = ["subjects", subject, "versions"] := by
  have joined : ("subjects/" ++ quote subject ++ "/versions").toList =
      "subjects".toList ++ '/' :: ((quote subject).toList ++ '/' :: "versions".toList) := by
    simp
  have subjects : unquote "subjects" = "subjects" := unquote_unreserved (List.all_eq_true.mp rfl)
  have versions : unquote "versions" = "versions" := unquote_unreserved (List.all_eq_true.mp rfl)
  rw [segments, joined, List.splitOn_append_cons_self_of_not_mem (by decide),
    List.splitOn_append_cons_self_of_not_mem quote_segment, List.splitOn_eq_singleton (by decide)]
  simp only [List.map_cons, List.map_nil, String.ofList_toList, subjects, versions, unquote_quote]

/-! Runs. -/

/-- An exchange failed; it was the last one, and its failure is raised. -/
def Broken (trace : List (Request × Response)) (error : ConfluentError) : Prop :=
  ∃ before asked failure, trace = before ++ [(asked, .error failure)] ∧ error = .exchange failure

/-- A fetch fails on its options, before its first request, or on its last exchange. -/
def Refused (trace : List (Request × Response)) (error : ConfluentError) : Prop :=
  trace = [] ∧ (∃ source, error = .options source) ∨ Broken trace error

theorem Broken.append {trace : List (Request × Response)} {error : ConfluentError} (broken : Broken trace error)
    (first : List (Request × Response)) : Broken (first ++ trace) error := by
  obtain ⟨before, asked, failure, rfl, same⟩ := broken
  exact ⟨first ++ before, asked, failure, (List.append_assoc ..).symm, same⟩

section

variable {S : Type} {registry : Registry S} {options : PyMapping} {s last : S} {trace : List (Request × Response)}

theorem runs_fail {E A : Type} {wrap : E → ConfluentError} {value : Except E A} {result : Except ConfluentError A} :
    Runs registry.answers registry.moves (fail wrap value).run s trace result last ↔
      result = value.mapError wrap ∧ trace = [] ∧ last = s := by
  cases value with
  | ok a => exact runs_ok
  | error error => exact runs_throw

theorem runs_get {path : String} {asked : Request} {result : Except ConfluentError Payload}
    (made : request python path options = .ok asked)
    (run : Runs registry.answers registry.moves (get python path options).run s trace result last) :
    ∃ response, registry.answers last asked response ∧ trace = [(asked, response)] ∧
      result = response.mapError .exchange := by
  rw [get, made] at run
  change Runs _ _ (ExceptT.lift (Program.request asked) >>= fail .exchange : Fetching Payload).run _ _ _ _ at run
  rcases runs_except.mp run with ⟨error, rfl, failed⟩ | ⟨response, t, first, rest, rfl, first, after⟩
  · obtain ⟨_, impossible, _⟩ := runs_lift.mp failed
    contradiction
  · obtain ⟨_, same, once⟩ := runs_lift.mp first
    cases same
    obtain ⟨_, answered, rfl⟩ := runs_request.mp once
    obtain ⟨rfl, rfl, rfl⟩ := runs_fail.mp after
    exact ⟨response, answered, List.append_nil _, rfl⟩

/-- What is fetched is what the registry describes when it answers. -/
theorem runs_described {path subject requested : String} {asked : Request} {found : S → Entry → Prop}
    {result : Except ConfluentError ConfluentSchemaDocument} (made : request python path options = .ok asked)
    (answered : ∀ t payload, registry.answers t asked (.ok payload) → ∃ members entry, payload = .object members ∧
      found t entry ∧ entry.Describes subject members)
    (run : Runs registry.answers registry.moves (get python path options >>= fun payload =>
      fail .document (document python payload subject requested)).run s trace result last) :
    (∃ entry, result = .ok (entry.document python subject) ∧ found last entry) ∨
      ∃ error, result = .error error ∧ Broken trace error := by
  rcases runs_except.mp run with ⟨error, rfl, failed⟩ | ⟨payload, t, first, rest, rfl, one, after⟩
  · obtain ⟨response, _, rfl, same⟩ := runs_get made failed
    cases response with
    | error failure =>
      cases same
      exact .inr ⟨_, rfl, [], asked, failure, rfl, rfl⟩
    | ok payload => contradiction
  · obtain ⟨rfl, rfl, rfl⟩ := runs_fail.mp after
    obtain ⟨response, answer, rfl, same⟩ := runs_get made one
    cases response with
    | error failure => contradiction
    | ok payload =>
      cases same
      obtain ⟨members, entry, rfl, there, describes⟩ := answered _ _ answer
      exact .inl ⟨entry, by rw [document_describes describes]; rfl, there⟩

variable {root subject : String} (documented : registry.Documented (baseUrl root))

include documented in
/-- A version that was there is fetched as it was. -/
theorem fetchVersion_runs {headers : List (String × String)} {timeout : Option PyValue}
    (made : ∀ path, request python path options = .ok ⟨baseUrl root ++ "/" ++ path, headers, timeout⟩)
    {begin : S} {entry : Entry} (there : entry ∈ registry.entries begin subject)
    (moved : Relation.ReflTransGen registry.moves begin s) {result : Except ConfluentError ConfluentSchemaDocument}
    (run : Runs registry.answers registry.moves (fetchVersion python subject options (toString entry.version)).run s
      trace result last) :
    (∃ document, result = .ok document ∧ entry.document python subject = document) ∨
      ∃ error, result = .error error ∧ Broken trace error := by
  have answered : ∀ t payload, registry.answers t
      ⟨baseUrl root ++ "/" ++ ("subjects/" ++ quote subject ++ "/versions/" ++ toString entry.version), headers,
        timeout⟩ (.ok payload) →
      ∃ members other, payload = .object members ∧
        (other ∈ registry.entries t subject ∧ other.version = entry.version) ∧ other.Describes subject members := by
    intro t payload answer
    obtain ⟨members, other, rfl, there, named, describes⟩ :=
      documented.numbered rfl (segments_numbered subject entry.version) answer
    exact ⟨members, other, rfl, ⟨there, named⟩, describes⟩
  obtain ⟨other, rfl, present, named⟩ | failed := runs_described (made _) answered run
  · have same : entry = other := documented.lasting (moved.trans run.moved) there present named.symm
    exact .inl ⟨_, rfl, by rw [same]⟩
  · exact .inr failed

variable {checks : Url.NetlocChecks} {reader : Numeral.Reader} {url version : String}

include documented in
/-- The versions of a subject are fetched as they were when they were listed. -/
theorem fetchConfluentVersions_runs
    (located : registryUrl options = .ok root) (parsed : parseReference checks reader url = .ok (subject, version))
    {result : Except ConfluentError (List ConfluentSchemaDocument)}
    (run : Runs registry.answers registry.moves (fetchConfluentVersions checks reader python url options).run s trace
      result last) :
    (∃ t, Relation.ReflTransGen registry.moves s t ∧ Relation.ReflTransGen registry.moves t last ∧
      result = .ok ((registry.entries t subject).map (Entry.document python subject))) ∨
    ∃ error, result = .error error ∧ Refused trace error := by
  rw [fetchConfluentVersions_parsed python options parsed] at run
  rcases request_cases python options with ⟨error, refused⟩ | ⟨other, headers, timeout, same, made⟩
  · -- Bad options are refused before the first request.
    rw [get, refused] at run
    obtain ⟨rfl, rfl, rfl⟩ := runs_throw.mp run
    exact .inr ⟨_, rfl, .inl ⟨rfl, error, rfl⟩⟩
  rw [located] at same
  cases same
  rcases runs_except.mp run with ⟨error, rfl, failed⟩ | ⟨payload, t, first, rest, rfl, listing, fetches⟩
  · obtain ⟨response, _, rfl, same⟩ := runs_get (made _) failed
    cases response with
    | error failure =>
      cases same
      exact .inr ⟨_, rfl, .inr ⟨[], _, failure, rfl, rfl⟩⟩
    | ok payload => contradiction
  obtain ⟨response, answer, rfl, same⟩ := runs_get (made _) listing
  cases response with
  | error failure => contradiction
  | ok payload =>
    cases same
    -- The moment of the listing is the one that all of them are of.
    have listed := documented.listed rfl (segments_versions subject) answer
    rw [listed, versionTexts_listed] at fetches
    change Runs _ _ (List.mapM (fetchVersion python subject options) _).run _ _ _ _ at fetches
    rw [List.mapM_map] at fetches
    have each : ∀ entry ∈ registry.entries t subject, ∀ u trace result v, Relation.ReflTransGen registry.moves t u →
        Runs registry.answers registry.moves
          ((fetchVersion python subject options ∘ fun entry => toString entry.version) entry).run u trace result v →
        (∃ document, result = .ok document ∧ entry.document python subject = document) ∨
          ∃ error, result = .error error ∧ Broken trace error :=
      fun entry there u trace result v moved run => fetchVersion_runs documented made there moved run
    rcases runs_mapM (fun before trace error broken => Broken.append broken before) each .refl fetches with
      ⟨documents, rfl, each⟩ | ⟨error, rfl, broken⟩
    · have equal : (registry.entries t subject).map (Entry.document python subject) = documents := by
        rw [← List.forall₂_eq_eq_eq, List.forall₂_map_left_iff]
        exact each
      exact .inl ⟨t, listing.moved, fetches.moved, by rw [equal]⟩
    · exact .inr ⟨error, rfl, .inr (broken.append _)⟩

/-- The entry that a version asks for. -/
def Requested (entries : List Entry) (version : String) (entry : Entry) : Prop :=
  entry ∈ entries ∧
    if version ∈ ["latest", "-1"] then entries.getLast? = some entry else version = toString entry.version

include documented in
theorem requested_described {headers : List (String × String)} {timeout : Option PyValue} (form : VersionForm version)
    {t : S} {payload : Payload} (answer : registry.answers t
      ⟨baseUrl root ++ "/" ++ ("subjects/" ++ quote subject ++ "/versions/" ++ quote version), headers, timeout⟩
      (.ok payload)) : ∃ members entry, payload = .object members ∧
        Requested (registry.entries t subject) version entry ∧ entry.Describes subject members := by
  have path := segments_requestPath subject version
  unfold Requested
  split
  next newest =>
    obtain ⟨members, entry, same, last, describes⟩ := documented.newest rfl path newest answer
    exact ⟨members, entry, same, ⟨List.mem_of_getLast? last, last⟩, describes⟩
  next numbered =>
    rcases form with rfl | rfl | ⟨number, _, _, rfl⟩
    · exact absurd List.mem_cons_self numbered
    · exact absurd (List.mem_cons_of_mem _ List.mem_cons_self) numbered
    · obtain ⟨members, entry, same, there, rfl, describes⟩ := documented.numbered rfl path answer
      exact ⟨members, entry, same, ⟨there, rfl⟩, describes⟩

include documented in
/-- A version is fetched as it is when the registry answers. -/
theorem fetchConfluentSchema_runs (located : registryUrl options = .ok root)
    (parsed : parseReference checks reader url = .ok (subject, version)) (form : VersionForm version)
    {result : Except ConfluentError ConfluentSchemaDocument}
    (run : Runs registry.answers registry.moves (fetchConfluentSchema checks reader python url options).run s trace
      result last) :
    (∃ entry, result = .ok (entry.document python subject) ∧ Requested (registry.entries last subject) version entry) ∨
    ∃ error, result = .error error ∧ Refused trace error := by
  rw [fetchConfluentSchema_parsed python options parsed] at run
  rcases request_cases python options with ⟨error, refused⟩ | ⟨other, headers, timeout, same, made⟩
  · rw [get, refused] at run
    obtain ⟨rfl, rfl, rfl⟩ := runs_throw.mp run
    exact .inr ⟨_, rfl, .inl ⟨rfl, error, rfl⟩⟩
  rw [located] at same
  cases same
  obtain found | ⟨error, failed, broken⟩ :=
    runs_described (made _) (fun t payload => requested_described documented form) run
  · exact .inl found
  · exact .inr ⟨error, failed, .inr broken⟩

include documented in
/-- What the client returns of a documented registry is its content at one moment of the fetch,
whatever others do to it meanwhile, and the client refuses none of its answers. -/
theorem fetched_snapshot (located : registryUrl options = .ok root)
    (parsed : parseReference checks reader url = .ok (subject, version)) :
    (∀ s trace result last, Runs registry.answers registry.moves
        (fetchConfluentVersions checks reader python url options).run s trace result last →
      (∃ t, Relation.ReflTransGen registry.moves s t ∧ Relation.ReflTransGen registry.moves t last ∧
        result = .ok ((registry.entries t subject).map (Entry.document python subject))) ∨
      ∃ error, result = .error error ∧ Refused trace error) ∧
    (VersionForm version → ∀ s trace result last, Runs registry.answers registry.moves
        (fetchConfluentSchema checks reader python url options).run s trace result last →
      (∃ entry, result = .ok (entry.document python subject) ∧
        Requested (registry.entries last subject) version entry) ∨
      ∃ error, result = .error error ∧ Refused trace error) :=
  ⟨fun _ _ _ _ run => fetchConfluentVersions_runs documented located parsed run,
    fun form _ _ _ _ run => fetchConfluentSchema_runs documented located parsed form run⟩

include documented in
/-- Whatever others do between a listing and a fetch, in either order, a version that both
return is the same in both. -/
theorem fetched_lasting {options' : PyMapping} {url' version' : String} {s' last' : S}
    {trace' : List (Request × Response)} {documents : List ConfluentSchemaDocument} {document : ConfluentSchemaDocument}
    (located : registryUrl options = .ok root) (located' : registryUrl options' = .ok root)
    (parsed : parseReference checks reader url = .ok (subject, version))
    (parsed' : parseReference checks reader url' = .ok (subject, version')) (form : VersionForm version')
    (listing : Runs registry.answers registry.moves (fetchConfluentVersions checks reader python url options).run s
      trace (.ok documents) last)
    (fetching : Runs registry.answers registry.moves (fetchConfluentSchema checks reader python url' options').run s'
      trace' (.ok document) last')
    (order : Relation.ReflTransGen registry.moves last s' ∨ Relation.ReflTransGen registry.moves last' s) :
    ∀ other ∈ documents, other.version = document.version → other = document := by
  intro other member named
  obtain ⟨t, before, after, same⟩ | ⟨_, impossible, _⟩ := fetchConfluentVersions_runs documented located parsed listing
  swap
  · contradiction
  obtain ⟨entry, same', there, _⟩ | ⟨_, impossible, _⟩ :=
      fetchConfluentSchema_runs documented located' parsed' form fetching
  swap
  · contradiction
  cases same
  cases same'
  obtain ⟨listed, here, rfl⟩ := List.mem_map.mp member
  have versions : listed.version = entry.version := Numeral.toString_inj named
  rcases order with first | last
  · rw [documented.lasting ((after.trans first).trans fetching.moved) here there versions]
  · rw [documented.lasting (last.trans before) there here versions.symm]

end

end FsspecData.Confluent
