import FsspecData.Python.ConfluentServed

/-! The Confluent client on the wire: what its requests may be, and what its credentials may
change. Neither depends on how the registry answers. -/
namespace FsspecData.Confluent

open Client Fallible Percent Python

variable {checks : Url.NetlocChecks} {reader : Numeral.Reader} {python : Interpreter} {options others : PyMapping}
  {url root subject version : String}

/-- A request that was made leads to one exchange. -/
theorem get_made {path : String} {asked : Request} (made : request python path options = .ok asked) :
    get python path options = ExceptT.lift (Program.request asked) >>= fail .exchange := by
  rw [get, made]
  rfl

/-! Credentials. -/

theorem fail_alike {E A : Type} (wrap : E → ConfluentError) (value : Except E A) :
    Alike SameButAuthorization (fail wrap value).run (fail wrap value).run := by
  cases value with
  | error error => exact .pure _
  | ok a => exact .pure _

section

variable (same : SameButSecrets options others) (capital : python.capitalize "Authorization" = "Authorization")

include same capital

theorem get_alike (path : String) :
    Alike SameButAuthorization (get python path options).run (get python path others).run := by
  rcases request_same same capital path with ⟨error, left, right⟩ | ⟨asked, asked', left, right, alike⟩
  · rw [get, get, left, right]
    exact .pure _
  · rw [get_made left, get_made right]
    exact .except (.ask alike fun response => .pure (Except.ok response)) fun response => fail_alike _ _

theorem fetchVersion_alike (subject version : String) :
    Alike SameButAuthorization (fetchVersion python subject options version).run
      (fetchVersion python subject others version).run := by
  unfold fetchVersion
  exact (get_alike same capital _).except fun payload => fail_alike _ _

theorem fetchConfluentSchema_alike (url : String) :
    Alike SameButAuthorization (fetchConfluentSchema checks reader python url options).run
      (fetchConfluentSchema checks reader python url others).run := by
  unfold fetchConfluentSchema
  apply (fail_alike _ _).except
  intro reference
  exact (get_alike same capital _).except fun payload => fail_alike _ _

theorem fetchConfluentVersions_alike (url : String) :
    Alike SameButAuthorization (fetchConfluentVersions checks reader python url options).run
      (fetchConfluentVersions checks reader python url others).run := by
  unfold fetchConfluentVersions
  apply (fail_alike _ _).except
  intro reference
  apply (get_alike same capital _).except
  intro payload
  apply (fail_alike _ _).except
  intro versions
  exact .mapM (fun version => fetchVersion_alike same capital _ version) versions

/-- Credentials reach one header and nothing else. Services that answer requests alike which
differ in that header alone give the same results and the same errors for other credentials,
over the same exchanges. -/
theorem secrets_unseen {S : Type} {answers answers' : S → Request → Response → Prop} {moves : S → S → Prop}
    (blind : ∀ s asked asked' response, SameButAuthorization asked asked' → answers s asked response →
      answers' s asked' response) (url : String) :
    (∀ s trace result last,
      Runs answers moves (fetchConfluentSchema checks reader python url options).run s trace result last →
        ∃ trace', Runs answers' moves (fetchConfluentSchema checks reader python url others).run s trace' result last ∧
          List.Forall₂ (fun entry entry' => SameButAuthorization entry.1 entry'.1 ∧ entry.2 = entry'.2) trace trace') ∧
    ∀ s trace result last,
      Runs answers moves (fetchConfluentVersions checks reader python url options).run s trace result last →
        ∃ trace', Runs answers' moves (fetchConfluentVersions checks reader python url others).run
          s trace' result last ∧
          List.Forall₂ (fun entry entry' => SameButAuthorization entry.1 entry'.1 ∧ entry.2 = entry'.2) trace trace' :=
  ⟨fun _ _ _ _ run => (fetchConfluentSchema_alike same capital url).runs (blind _ _ _ _) run,
    fun _ _ _ _ run => (fetchConfluentVersions_alike same capital url).runs (blind _ _ _ _) run⟩

end

def secretOptions (username password : String) : PyMapping :=
  [("registry_url", .string "https://registry/"), ("username", .string username), ("password", .string password)]

theorem secretOptions_located (username password : String) :
    registryUrl (secretOptions username password) = .ok "https://registry/" := registryOptions_located

theorem secretOptions_made (username password path : String) :
    request plainPython path (secretOptions username password) =
      .ok ⟨"https://registry" ++ "/" ++ path, requestHeaders plainPython [] (some (username, password)), none⟩ := by
  have known : unknownOptions (secretOptions username password) = .ok () := by
    simp [unknownOptions, secretOptions, storageOptions]
  rw [request, secretOptions_located, known, ← registryOptions_root]
  rfl

theorem secretOptions_same (username password username' password' : String) :
    SameButSecrets (secretOptions username password) (secretOptions username' password') :=
  .cons ⟨rfl, .inl rfl⟩ (.cons ⟨rfl, .inr ⟨List.mem_cons_self, _, _, rfl, rfl⟩⟩
    (.cons ⟨rfl, .inr ⟨List.mem_cons_of_mem _ List.mem_cons_self, _, _, rfl, rfl⟩⟩ .nil))

theorem served_blind {S : Type} {moves : S → S → Prop} {entries : S → String → List Entry} {s : S}
    {asked asked' : Request} {response : Response} (same : SameButAuthorization asked asked')
    (answered : (served moves root entries).answers s asked response) :
    (served moves root entries).answers s asked' response := by
  cases response with
  | error failure => trivial
  | ok payload =>
    obtain ⟨path, url, replied⟩ := answered
    exact ⟨path, same.url ▸ url, replied⟩

theorem secrets_unseen_orders : ∃ trace, Runs ordersRegistry.answers registered
    (fetchConfluentVersions anyNetloc asciiReader plainPython (orders "latest") (secretOptions "bob" "two")).run 2 trace
      (.ok ((growing 2 "orders").map (Entry.document plainPython "orders"))) 2 := by
  obtain ⟨trace, run⟩ := served_versions (s := 2) (secretOptions_made "ann" "one") growing_lasting
    (orders_parsed (.inl rfl))
  have blind : ∀ s asked asked' response, SameButAuthorization asked asked' →
      ordersRegistry.answers s asked response → ordersRegistry.answers s asked' response :=
    fun _ _ _ _ same answered => served_blind same answered
  obtain ⟨trace', run', _⟩ :=
    (secrets_unseen (secretOptions_same "ann" "one" "bob" "two") rfl blind (orders "latest")).2 _ _ _ _ run
  exact ⟨trace', run'⟩

/-! Requests. -/

/-- A request for something of a subject, with some headers. -/
def Under (root subject : String) (headers : List (String × String)) (asked : Request) : Prop :=
  asked.headers = headers ∧ ∃ path, asked.url = baseUrl root ++ "/" ++ path ∧
    ((segments path).map unquote = ["subjects", subject, "versions"] ∨
      ∃ version, (segments path).map unquote = ["subjects", subject, "versions", version])

theorem intText_unreserved {payload : Payload} {text : String} (written : payload.intText = some text) :
    ∀ c ∈ text.toList, unreserved c = true := by
  cases payload with
  | bool value =>
    cases written
    cases value <;> exact List.all_eq_true.mp rfl
  | int value =>
    cases written
    cases value with
    | ofNat number => exact unreserved_toString number
    | negSucc number =>
      intro c member
      have negative : Int.negSucc number = -((number + 1 : ℕ) : ℤ) := rfl
      rw [negative, Numeral.toList_neg (Nat.succ_pos number)] at member
      rcases List.mem_cons.mp member with rfl | digit
      · rfl
      · exact unreserved_toString (number + 1) c (Nat.toList_repr.symm ▸ digit)
  | null => contradiction
  | float identity => contradiction
  | string value => contradiction
  | array items => contradiction
  | object members => contradiction

theorem versionTexts_unreserved {payload : Payload} {texts : List String}
    (written : versionTexts payload = some texts) :
    ∀ text ∈ texts, ∀ c ∈ text.toList, unreserved c = true := by
  obtain ⟨items, -, traversed⟩ := Option.bind_eq_some_iff.mp written
  have each := mapM_eq_some.mp traversed
  clear traversed written
  induction each with
  | nil => exact List.forall_mem_nil _
  | cons first _ ih => exact List.forall_mem_cons.mpr ⟨intText_unreserved first, ih⟩

theorem fail_asks {E A : Type} {allowed : Request → Prop} (wrap : E → ConfluentError) (value : Except E A) :
    Asks allowed (fail wrap value).run := by
  cases value with
  | error error => exact .pure _
  | ok a => exact .pure _

/-- What the options decide of all requests. -/
structure Configured (options : PyMapping) (root : String) (headers : List (String × String))
    (user : Option (String × String)) : Prop where
  root : registryUrl options = .ok root
  headers : givenHeaders options = .ok headers
  user : credentials options = .ok user

section

variable {headers : List (String × String)} {user : Option (String × String)}
  (configured : Configured options root headers user)

include configured

theorem request_configured (path : String) {asked : Request} (made : request python path options = .ok asked) :
    asked.url = baseUrl root ++ "/" ++ path ∧ asked.headers = requestHeaders python headers user := by
  simp only [request, configured.root, configured.headers, configured.user, ok_bind] at made
  obtain ⟨timeout, _, rest⟩ := bind_eq_ok.mp made
  obtain ⟨_, _, same⟩ := bind_eq_ok.mp rest
  cases same
  exact ⟨rfl, rfl⟩

theorem get_asks {path : String} (named : (segments path).map unquote = ["subjects", subject, "versions"] ∨
    ∃ version, (segments path).map unquote = ["subjects", subject, "versions", version]) :
    Asks (Under root subject (requestHeaders python headers user)) (get python path options).run := by
  cases made : request python path options with
  | error error =>
    rw [get, made]
    exact .pure _
  | ok asked =>
    rw [get_made made]
    obtain ⟨url, same⟩ := request_configured configured path made
    exact .except (.ask ⟨same, path, url, named⟩ fun response => .pure (Except.ok response))
      fun response => fail_asks _ _

theorem fetchVersion_asks {version : String} (plain : ∀ c ∈ version.toList, unreserved c = true) :
    Asks (Under root subject (requestHeaders python headers user))
      (fetchVersion python subject options version).run := by
  have named := segments_requestPath subject version
  rw [quote_unreserved plain] at named
  unfold fetchVersion
  exact (get_asks configured (.inr ⟨version, named⟩)).except fun payload => fail_asks _ _

theorem fetchConfluentSchema_asks (parsed : parseReference checks reader url = .ok (subject, version)) :
    Asks (Under root subject (requestHeaders python headers user))
      (fetchConfluentSchema checks reader python url options).run := by
  rw [fetchConfluentSchema_parsed python options parsed]
  exact (get_asks configured (.inr ⟨version, segments_requestPath subject version⟩)).except fun payload => fail_asks _ _

theorem fetchConfluentVersions_asks (parsed : parseReference checks reader url = .ok (subject, version)) :
    Asks (Under root subject (requestHeaders python headers user))
      (fetchConfluentVersions checks reader python url options).run := by
  rw [fetchConfluentVersions_parsed python options parsed]
  apply (get_asks configured (.inl (segments_versions subject))).except
  intro payload
  cases written : versionTexts payload with
  | none => exact .pure _
  | some texts => exact .mapM fun text member =>
      fetchVersion_asks configured (versionTexts_unreserved written text member)

end

/-- The last header of a name is sent, and the client's own comes last. -/
theorem requestHeaders_authorization (capital : python.capitalize "Authorization" = "Authorization")
    {headers : List (String × String)} (free : headers.lookup "Authorization" = none) (username password : String) :
    (requestHeaders python headers (some (username, password))).lookup "Authorization" =
      some ("Basic " ++ token username password) := by
  have absent : headers.reverse.lookup "Authorization" = none := by
    rw [List.lookup_eq_none_iff] at free ⊢
    exact fun header member => free header (List.mem_reverse.mp member)
  have new : (Dict.update [("Accept", "application/vnd.schemaregistry.v1+json, application/json")] headers).lookup
      "Authorization" = none := by
    rw [Dict.lookup_update, absent]
    rfl
  unfold requestHeaders
  rw [Dict.lookup_update]
  simp only [Dict.set_new new]
  rw [List.map_append, List.reverse_append]
  simp only [List.map_cons, List.map_nil, List.reverse_singleton, List.singleton_append, capital]
  rw [Dict.lookup_cons, if_pos rfl]
  rfl

/-- A token gives the credentials back. -/
theorem token_read (username password : String) :
    (Base64.decode (token username password).toList).map decode = some (username ++ ":" ++ password).toList := by
  rw [token, String.toList_ofList, Base64.decode_encode, Option.map_some, decode_encode]

/-- However a service answers, a fetch asks it for its subject only, whatever characters the
subject has. Each request carries the credentials in full, unless the options set that header. -/
theorem requests_sent {S : Type} {answers : S → Request → Response → Prop} {moves : S → S → Prop}
    {headers : List (String × String)} {user : Option (String × String)}
    (configured : Configured options root headers user)
    (parsed : parseReference checks reader url = .ok (subject, version))
    (capital : python.capitalize "Authorization" = "Authorization") {s last : S} {trace : List (Request × Response)}
    (run : (∃ result,
        Runs answers moves (fetchConfluentSchema checks reader python url options).run s trace result last) ∨
      ∃ result, Runs answers moves (fetchConfluentVersions checks reader python url options).run s trace result last) :
    ∀ entry ∈ trace,
      (∃ path, entry.1.url = baseUrl root ++ "/" ++ path ∧
        ((segments path).map unquote = ["subjects", subject, "versions"] ∨
          ∃ version, (segments path).map unquote = ["subjects", subject, "versions", version])) ∧
      (headers.lookup "Authorization" = none → ∀ username password, user = some (username, password) → ∃ token,
        entry.1.headers.lookup "Authorization" = some ("Basic " ++ token) ∧
          (Base64.decode token.toList).map decode = some (username ++ ":" ++ password).toList) := by
  have under : ∀ entry ∈ trace, Under root subject (requestHeaders python headers user) entry.1 := by
    rcases run with ⟨result, run⟩ | ⟨result, run⟩
    · exact (fetchConfluentSchema_asks configured parsed).runs run
    · exact (fetchConfluentVersions_asks configured parsed).runs run
  intro entry member
  obtain ⟨sent, located⟩ := under entry member
  refine ⟨located, ?_⟩
  rintro free username password rfl
  rw [sent]
  exact ⟨_, requestHeaders_authorization capital free username password, token_read username password⟩

theorem secretOptions_configured (username password : String) :
    Configured (secretOptions username password) "https://registry/" [] (some (username, password)) :=
  ⟨secretOptions_located username password, rfl, rfl⟩

theorem requests_sent_orders : ∃ trace,
    (Runs ordersRegistry.answers registered
      (fetchConfluentVersions anyNetloc asciiReader plainPython (orders "latest")
        (secretOptions "ann" "one")).run 2 trace
      (.ok ((growing 2 "orders").map (Entry.document plainPython "orders"))) 2) ∧
    ∀ entry ∈ trace, ∃ token, entry.1.headers.lookup "Authorization" = some ("Basic " ++ token) ∧
      (Base64.decode token.toList).map decode = some "ann:one".toList := by
  obtain ⟨trace, run⟩ := served_versions (s := 2) (secretOptions_made "ann" "one") growing_lasting
    (orders_parsed (.inl rfl))
  refine ⟨trace, run, fun entry member => ?_⟩
  exact (requests_sent (secretOptions_configured "ann" "one") (orders_parsed (.inl rfl)) rfl (.inr ⟨_, run⟩) entry
    member).2 rfl "ann" "one" rfl

end FsspecData.Confluent
