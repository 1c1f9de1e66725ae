import FsspecData.Library.Base64
import FsspecData.Library.Dict
import FsspecData.Python.Confluent
import FsspecData.Python.SchemaRef
import Mathlib.Data.List.DropRight

/-! The request that the Confluent client makes of storage options. The password goes into
one header, and neither it nor the user name decides anything else. -/
namespace FsspecData.Confluent

open Fallible Python

/-- What the client asks of the interpreter: `isinstance(value, (int, float))` of objects that
the model does not look into, `str.capitalize` and `str.upper`. -/
structure Interpreter where
  isNumber : Nat → Bool
  capitalize : String → String
  upper : String → String

/-- What `_get` raises before it asks for anything. -/
inductive OptionError where
  | registryMissing
  | registryUrl
  | credentials
  | headers
  | timeout
  | unknown (names : List String)
  deriving DecidableEq

def OptionError.message : OptionError → String
  | .registryMissing => "Confluent schema references require storage_options['registry_url']"
  | .registryUrl => "Confluent registry_url must be an HTTP or HTTPS URL"
  | .credentials => "Confluent username and password must be strings provided together"
  | .headers => "Confluent headers must map strings to strings"
  | .timeout => "Confluent timeout must be a number"
  | .unknown names => "unknown Confluent storage options: " ++ ", ".intercalate names

/-- `urllib.request.Request`, and the timeout it is opened with. -/
structure Request where
  url : String
  headers : List (String × String)
  timeout : Option PyValue

def storageOptions : List String := ["registry_url", "username", "password", "headers", "timeout"]

def registryUrl (options : PyMapping) : Except OptionError String :=
  match options.lookup "registry_url" with
  | none => .error .registryMissing
  | some (.string url) =>
    if url.startsWith "http://" || url.startsWith "https://" then .ok url else .error .registryUrl
  | some _ => .error .registryUrl

def credentials (options : PyMapping) : Except OptionError (Option (String × String)) :=
  match (options.lookup "username").getD .none, (options.lookup "password").getD .none with
  | .none, .none => .ok none
  | .string username, .string password => .ok (some (username, password))
  | _, _ => .error .credentials

def givenHeaders (options : PyMapping) : Except OptionError (List (String × String)) :=
  match (options.lookup "headers").getD (.mapping []) with
  | .mapping members => members.mapM fun
    | (key, .string value) => .ok (key, value)
    | _ => .error .headers
  | _ => .error .headers

/-- A boolean is a number too. -/
def givenTimeout (python : Interpreter) (options : PyMapping) : Except OptionError (Option PyValue) :=
  match (options.lookup "timeout").getD .none with
  | .none => .ok none
  | .bool value => .ok (some (.bool value))
  | .other identity => if python.isNumber identity then .ok (some (.other identity)) else .error .timeout
  | _ => .error .timeout

def unknownOptions (options : PyMapping) : Except OptionError Unit :=
  match ((options.map Prod.fst).filter (· ∉ storageOptions)).mergeSort with
  | [] => .ok ()
  | unknown => .error (.unknown unknown)

/-- `b64encode` of the credentials. -/
def token (username password : String) : String :=
  String.ofList (Base64.encode ((username ++ ":" ++ password).toList.flatMap String.utf8EncodeChar))

/-- The headers of a request, which keeps them under capitalized names. -/
def requestHeaders (python : Interpreter) (headers : List (String × String)) (user : Option (String × String)) :
    List (String × String) :=
  let merged := Dict.update [("Accept", "application/vnd.schemaregistry.v1+json, application/json")] headers
  let merged := match user with
    | some (username, password) => Dict.set "Authorization" ("Basic " ++ token username password) merged
    | none => merged
  Dict.update [] (merged.map fun header => (python.capitalize header.1, header.2))

/-- `rstrip("/")`. -/
def baseUrl (url : String) : String := String.ofList (url.toList.rdropWhile (· = '/'))

/-- `_get` up to the request, its checks in their order. -/
def request (python : Interpreter) (path : String) (options : PyMapping) : Except OptionError Request := do
  let url ← registryUrl options
  let user ← credentials options
  let headers ← givenHeaders options
  let timeout ← givenTimeout python options
  unknownOptions options
  .ok ⟨baseUrl url ++ "/" ++ path, requestHeaders python headers user, timeout⟩

/-- The options decide whether there is a request, and all of it but its path. -/
theorem request_cases (python : Interpreter) (options : PyMapping) :
    (∃ error, ∀ path, request python path options = .error error) ∨
      ∃ root headers timeout, registryUrl options = .ok root ∧
        ∀ path, request python path options = .ok ⟨baseUrl root ++ "/" ++ path, headers, timeout⟩ := by
  unfold request
  cases registryUrl options with
  | error error => exact .inl ⟨error, fun _ => rfl⟩
  | ok root =>
    cases credentials options with
    | error error => exact .inl ⟨error, fun _ => rfl⟩
    | ok user =>
      cases givenHeaders options with
      | error error => exact .inl ⟨error, fun _ => rfl⟩
      | ok headers =>
        cases givenTimeout python options with
        | error error => exact .inl ⟨error, fun _ => rfl⟩
        | ok timeout =>
          cases unknownOptions options with
          | error error => exact .inl ⟨error, fun _ => rfl⟩
          | ok _ => exact .inr ⟨root, _, timeout, rfl, fun _ => rfl⟩

/-! Secrets. -/

/-- Options that differ in the texts of their credentials alone. -/
def SameButSecrets (options others : PyMapping) : Prop :=
  List.Forall₂ (fun entry other => entry.1 = other.1 ∧
    (entry.2 = other.2 ∨ entry.1 ∈ ["username", "password"] ∧
      ∃ secret secret', entry.2 = .string secret ∧ other.2 = .string secret')) options others

/-- One header alone may differ. -/
def AlikeHeader (header header' : String × String) : Prop :=
  header.1 = header'.1 ∧ (header.1 ≠ "Authorization" → header.2 = header'.2)

/-- Requests that differ in one header alone. -/
structure SameButAuthorization (request other : Request) : Prop where
  url : request.url = other.url
  timeout : request.timeout = other.timeout
  headers : List.Forall₂ AlikeHeader request.headers other.headers

section Secrets

variable {python : Interpreter} {options others : PyMapping} (same : SameButSecrets options others)

include same in
theorem keys_same : options.map Prod.fst = others.map Prod.fst := by
  induction same with
  | nil => rfl
  | cons first _ ih => rw [List.map_cons, List.map_cons, ih, first.1]

include same in
theorem lookup_public {key : String} (exposed : key ∉ ["username", "password"]) :
    options.lookup key = others.lookup key := by
  induction same with
  | nil => rfl
  | @cons entry other rest rest' first _ ih =>
    obtain ⟨name, value⟩ := entry
    obtain ⟨name', value'⟩ := other
    obtain ⟨rfl, either⟩ := first
    rw [Dict.lookup_cons, Dict.lookup_cons, ih]
    rcases either with rfl | ⟨hidden, -⟩
    · rfl
    · have : key ≠ name := fun named => exposed (named ▸ hidden)
      rw [if_neg this, if_neg this]

include same in
theorem lookup_secret (key : String) : options.lookup key = others.lookup key ∨
    ∃ secret secret', options.lookup key = some (.string secret) ∧ others.lookup key = some (.string secret') := by
  induction same with
  | nil => exact .inl rfl
  | @cons entry other rest rest' first _ ih =>
    obtain ⟨name, value⟩ := entry
    obtain ⟨name', value'⟩ := other
    obtain ⟨rfl, either⟩ := first
    simp only [Dict.lookup_cons]
    split
    next =>
      rcases either with rfl | ⟨-, secret, secret', rfl, rfl⟩
      · exact .inl rfl
      · exact .inr ⟨secret, secret', rfl, rfl⟩
    next => exact ih

include same in
theorem credentials_same : (∃ error, credentials options = .error error ∧ credentials others = .error error) ∨
    (credentials options = .ok none ∧ credentials others = .ok none) ∨
    ∃ user user', credentials options = .ok (some user) ∧ credentials others = .ok (some user') := by
  unfold credentials
  rcases lookup_secret same "username" with one | ⟨username, username', one, one'⟩
  all_goals rcases lookup_secret same "password" with two | ⟨password, password', two, two'⟩
  · rw [one, two]
    cases (others.lookup "username").getD .none <;> cases (others.lookup "password").getD .none <;> simp
  · rw [one, two, two']
    cases (others.lookup "username").getD .none <;> simp
  · rw [one, one', two]
    cases (others.lookup "password").getD .none <;> simp
  · rw [one, one', two, two']
    exact .inr (.inr ⟨_, _, rfl, rfl⟩)

theorem alike_refl (headers : List (String × String)) : List.Forall₂ AlikeHeader headers headers :=
  List.forall₂_same.mpr fun _ _ => ⟨rfl, fun _ => rfl⟩

theorem capitalized_alike (capital : python.capitalize "Authorization" = "Authorization")
    {headers headers' : List (String × String)} (each : List.Forall₂ AlikeHeader headers headers') :
    List.Forall₂ AlikeHeader (headers.map fun header => (python.capitalize header.1, header.2))
      (headers'.map fun header => (python.capitalize header.1, header.2)) := by
  rw [List.forall₂_map_left_iff, List.forall₂_map_right_iff]
  refine each.imp fun header header' alike => ⟨congrArg python.capitalize alike.1, fun other => alike.2 ?_⟩
  intro authorization
  exact other (by simp only [authorization, capital])

theorem requestHeaders_alike (capital : python.capitalize "Authorization" = "Authorization")
    (headers : List (String × String)) (user user' : String × String) :
    List.Forall₂ AlikeHeader (requestHeaders python headers (some user))
      (requestHeaders python headers (some user')) := by
  refine Dict.update_related And.left .nil (capitalized_alike capital ?_)
  exact Dict.set_related And.left (alike_refl _) ⟨rfl, fun other => absurd rfl other⟩

include same in
/-- Credentials decide neither whether a request is made nor, but for one header, which one. -/
theorem request_same (capital : python.capitalize "Authorization" = "Authorization") (path : String) :
    (∃ error, request python path options = .error error ∧ request python path others = .error error) ∨
      ∃ asked asked', request python path options = .ok asked ∧ request python path others = .ok asked' ∧
        SameButAuthorization asked asked' := by
  have urls : registryUrl options = registryUrl others := by
    rw [registryUrl, registryUrl, lookup_public same (by decide)]
  have headers : givenHeaders options = givenHeaders others := by
    rw [givenHeaders, givenHeaders, lookup_public same (by decide)]
  have timeouts : givenTimeout python options = givenTimeout python others := by
    rw [givenTimeout, givenTimeout, lookup_public same (by decide)]
  have unknown : unknownOptions options = unknownOptions others := by
    rw [unknownOptions, unknownOptions, keys_same same]
  unfold request
  rw [urls, headers, timeouts, unknown]
  cases registryUrl others with
  | error error => exact .inl ⟨error, rfl, rfl⟩
  | ok url =>
    rcases credentials_same same with ⟨error, left, right⟩ | ⟨left, right⟩ | ⟨user, user', left, right⟩
    · exact .inl ⟨error, by rw [left]; rfl, by rw [right]; rfl⟩
    all_goals
      rw [left, right]
      cases givenHeaders others with
      | error error => exact .inl ⟨error, rfl, rfl⟩
      | ok given =>
        cases givenTimeout python others with
        | error error => exact .inl ⟨error, rfl, rfl⟩
        | ok timeout =>
          cases unknownOptions others with
          | error error => exact .inl ⟨error, rfl, rfl⟩
          | ok _ =>
            refine .inr ⟨_, _, rfl, rfl, rfl, rfl, ?_⟩
            first
            | exact alike_refl _
            | exact requestHeaders_alike capital given user user'

end Secrets

end FsspecData.Confluent
