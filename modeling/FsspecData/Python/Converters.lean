import FsspecData.Library.Machine
import FsspecData.Library.Text
import FsspecData.Python.SchemaRef
import Mathlib.Data.List.AList

/-! The converter registry. Its table changes by registration and by one batch of entry
points, which is loaded on demand and taken over whole or not at all. -/
namespace FsspecData.Python

open Machine

/-- What the converter functions raise; `outside` is an error of an entry point's module. -/
inductive ConverterError where
  | types
  | handler
  | converter
  | registered (source target : String)
  | entryPoint (name : String)
  | duplicate (name source target : String)
  | missing (source target : String)
  | outside (message : String)

/-- The message. `repr` is Python's. -/
def ConverterError.message (repr : String → String) : ConverterError → String
  | .types => "converter types must be non-empty strings"
  | .handler => "converter handler must be callable"
  | .converter => "converter must be a Converter"
  | .registered source target =>
    "converter from " ++ repr source ++ " to " ++ repr target ++ " is already registered"
  | .entryPoint name => "converter entry point " ++ repr name ++ " must load a Converter"
  | .duplicate name source target => "converter entry point " ++ repr name ++ " duplicates the route from " ++
    repr source ++ " to " ++ repr target
  | .missing source target => "no converter registered from " ++ repr source ++ " to " ++ repr target
  | .outside message => message

/-- `lower` is `str.lower`, of which nothing is used. -/
def normalizeType (lower : String → String) : PyValue → Except ConverterError String
  | .string value => if Text.strip value = "" then .error .types else .ok (lower (Text.strip value))
  | _ => .error .types

theorem normalizeType_string {lower : String → String} {value : String} (filled : Text.strip value ≠ "") :
    normalizeType lower (.string value) = .ok (lower (Text.strip value)) := if_neg filled

/-- The source and the target of a conversion. -/
abbrev Route := String × String

/-- A converter. Its types are normalized when it is made. -/
structure Converter (lower : String → String) (Handler : Type) where
  sourceType : String
  targetType : String
  handler : Handler
  normalized : ∃ source target,
    normalizeType lower source = .ok sourceType ∧ normalizeType lower target = .ok targetType

variable {lower : String → String} {Handler : Type}

namespace Converter

/-- The constructor with its `__post_init__`; a handler that is not callable is `none`. -/
def new (sourceType targetType : PyValue) (handler : Option Handler) :
    Except ConverterError (Converter lower Handler) :=
  match source : normalizeType lower sourceType with
  | .error error => .error error
  | .ok normalSource =>
    match target : normalizeType lower targetType with
    | .error error => .error error
    | .ok normalTarget =>
      match handler with
      | some handler => .ok ⟨normalSource, normalTarget, handler, sourceType, targetType, source, target⟩
      | none => .error .handler

def route (converter : Converter lower Handler) : Route := (converter.sourceType, converter.targetType)

end Converter

/-- A Python object where a converter is expected. -/
inductive ConverterObject (lower : String → String) (Handler : Type) where
  | converter (converter : Converter lower Handler)
  | other

/-- An installed entry point, and what its `load` gives or raises. -/
structure EntryPoint (lower : String → String) (Handler : Type) where
  name : String
  value : String
  load : Except ConverterError (ConverterObject lower Handler)

/-- What a call asks of the environment: the entry points of a group, and loading one. -/
inductive Effect where
  | entryPoints (group : String)
  | load (name : String)
  deriving DecidableEq

structure ConverterRegistry (lower : String → String) (Handler : Type) where
  entryPointGroup : String
  discoverEntryPoints : Bool
  converters : AList fun _ : Route => Converter lower Handler
  entryPointsLoaded : Bool

namespace ConverterRegistry

/-- The constructor. -/
def new (entryPointGroup : String) (discoverEntryPoints : Bool) : ConverterRegistry lower Handler :=
  ⟨entryPointGroup, discoverEntryPoints, ∅, false⟩

def register (registry : ConverterRegistry lower Handler) (converter : ConverterObject lower Handler)
    (replace : Bool) : Except ConverterError Unit × ConverterRegistry lower Handler :=
  match converter with
  | .other => (.error .converter, registry)
  | .converter converter =>
    if converter.route ∈ registry.converters ∧ ¬ replace then
      (.error (.registered converter.sourceType converter.targetType), registry)
    else (.ok (), { registry with converters := registry.converters.insert converter.route converter })

/-- The order of the keys `(item.name, item.value)`. -/
def precedes (left right : EntryPoint lower Handler) : Bool :=
  left.name < right.name || (left.name = right.name && left.value ≤ right.value)

/-- Loads entry points in order up to the first that is no converter. -/
def discover : List (EntryPoint lower Handler) →
    List Effect × Except ConverterError (List (String × Converter lower Handler))
  | [] => ([], .ok [])
  | entryPoint :: rest =>
    match entryPoint.load with
    | .error error => ([.load entryPoint.name], .error error)
    | .ok .other => ([.load entryPoint.name], .error (.entryPoint entryPoint.name))
    | .ok (.converter converter) =>
      let (effects, discovered) := discover rest
      (.load entryPoint.name :: effects, ((entryPoint.name, converter) :: ·) <$> discovered)

def checkRoutes (keys : List Route) : List (String × Converter lower Handler) → Except ConverterError Unit
  | [] => .ok ()
  | (name, converter) :: rest =>
    if converter.route ∈ keys then .error (.duplicate name converter.sourceType converter.targetType)
    else checkRoutes (converter.route :: keys) rest

/-- `update` of the table. -/
def insertAll (converters : AList fun _ : Route => Converter lower Handler)
    (discovered : List (String × Converter lower Handler)) : AList fun _ : Route => Converter lower Handler :=
  discovered.foldl (fun converters entry => converters.insert entry.2.route entry.2) converters

/-- `found` is what the environment lists for the group. -/
def loadEntryPoints (registry : ConverterRegistry lower Handler) (found : List (EntryPoint lower Handler)) :
    List Effect × Except ConverterError Unit × ConverterRegistry lower Handler :=
  if registry.entryPointsLoaded || !registry.discoverEntryPoints then ([], .ok (), registry)
  else
    let (effects, discovered) := discover (found.mergeSort precedes)
    let merged : Except ConverterError (AList fun _ : Route => Converter lower Handler) := do
      let discovered ← discovered
      checkRoutes registry.converters.keys discovered
      .ok (insertAll registry.converters discovered)
    match merged with
    | .error error => (.entryPoints registry.entryPointGroup :: effects, .error error, registry)
    | .ok converters => (.entryPoints registry.entryPointGroup :: effects, .ok (),
      { registry with converters := converters, entryPointsLoaded := true })

def lookupRoute (registry : ConverterRegistry lower Handler) (sourceType targetType : PyValue) :
    Except ConverterError (Converter lower Handler) := do
  let source ← normalizeType lower sourceType
  let target ← normalizeType lower targetType
  Fallible.orFail (.missing source target) (registry.converters.lookup (source, target))

def get (registry : ConverterRegistry lower Handler) (found : List (EntryPoint lower Handler))
    (sourceType targetType : PyValue) :
    List Effect × Except ConverterError (Converter lower Handler) × ConverterRegistry lower Handler :=
  match registry.loadEntryPoints found with
  | (effects, .error error, registry) => (effects, .error error, registry)
  | (effects, .ok (), registry) => (effects, registry.lookupRoute sourceType targetType, registry)

/-- A call, with what the environment then lists where the call may ask for it. -/
inductive Call (lower : String → String) (Handler : Type) where
  | register (converter : ConverterObject lower Handler) (replace : Bool)
  | loadEntryPoints (found : List (EntryPoint lower Handler))
  | get (found : List (EntryPoint lower Handler)) (sourceType targetType : PyValue)

structure Reply (lower : String → String) (Handler : Type) where
  effects : List Effect
  result : Except ConverterError (Option (Converter lower Handler))

def step (registry : ConverterRegistry lower Handler) :
    Call lower Handler → Reply lower Handler × ConverterRegistry lower Handler
  | .register converter replace =>
    let (result, registry) := registry.register converter replace
    (⟨[], (fun _ => none) <$> result⟩, registry)
  | .loadEntryPoints found =>
    let (effects, result, registry) := registry.loadEntryPoints found
    (⟨effects, (fun _ => none) <$> result⟩, registry)
  | .get found sourceType targetType =>
    let (effects, result, registry) := registry.get found sourceType targetType
    (⟨effects, some <$> result⟩, registry)

/-- The calls as a machine. -/
def Steps (registry : ConverterRegistry lower Handler) (call : Call lower Handler) (reply : Reply lower Handler)
    (after : ConverterRegistry lower Handler) : Prop := registry.step call = (reply, after)

/-! Loading. The loop over the entry points is a traversal; what can stop it, or the
check behind it, does not depend on their order. -/

/-- What one entry point contributes. -/
def contribution (entryPoint : EntryPoint lower Handler) : Except ConverterError (String × Converter lower Handler) :=
  match entryPoint.load with
  | .error error => .error error
  | .ok .other => .error (.entryPoint entryPoint.name)
  | .ok (.converter converter) => .ok (entryPoint.name, converter)

theorem discover_snd (found : List (EntryPoint lower Handler)) : (discover found).2 = found.mapM contribution := by
  induction found with
  | nil => rfl
  | cons entryPoint rest ih =>
    rw [List.mapM_cons, ← ih, discover, contribution]
    split
    next => rfl
    next => rfl
    next =>
      generalize discover rest = outcome
      obtain ⟨effects, discovered⟩ := outcome
      cases discovered <;> rfl

theorem contribution_eq_ok {entryPoint : EntryPoint lower Handler} {entry : String × Converter lower Handler} :
    contribution entryPoint = .ok entry ↔
      entryPoint.load = .ok (.converter entry.2) ∧ entryPoint.name = entry.1 := by
  obtain ⟨name, converter⟩ := entry
  unfold contribution
  split
  next failed => simp [failed]
  next foreign => simp [foreign]
  next loaded => simp [loaded, and_comm]

theorem checkRoutes_eq_ok {keys : List Route} {discovered : List (String × Converter lower Handler)} :
    checkRoutes keys discovered = .ok () ↔
      (∀ entry ∈ discovered, entry.2.route ∉ keys) ∧ (discovered.map (·.2.route)).Nodup := by
  induction discovered generalizing keys with
  | nil => simp [checkRoutes]
  | cons entry rest ih =>
    obtain ⟨name, converter⟩ := entry
    rw [checkRoutes]
    split
    next taken => simp [taken]
    next free =>
      rw [ih, List.forall_mem_cons, List.map_cons, List.nodup_cons]
      simp only [List.mem_cons, not_or, List.mem_map, not_exists, not_and]
      constructor
      · intro ⟨others, distinct⟩
        exact ⟨⟨free, fun other member => (others other member).2⟩,
          fun other member => (others other member).1, distinct⟩
      · intro ⟨⟨_, others⟩, separate, distinct⟩
        exact ⟨fun other member => ⟨separate other member, others other member⟩, distinct⟩

/-- Merging new routes keeps the old ones and adds each converter under its own. -/
theorem lookup_insertAll {converters : AList fun _ : Route => Converter lower Handler}
    {discovered : List (String × Converter lower Handler)}
    (fresh : ∀ entry ∈ discovered, entry.2.route ∉ converters)
    (distinct : (discovered.map (·.2.route)).Nodup) {key : Route} {converter : Converter lower Handler} :
    (insertAll converters discovered).lookup key = some converter ↔
      converters.lookup key = some converter ∨ ∃ entry ∈ discovered, entry.2 = converter ∧ converter.route = key := by
  induction discovered generalizing converters with
  | nil => simp [insertAll]
  | cons entry rest ih =>
    rw [List.forall_mem_cons] at fresh
    rw [List.map_cons, List.nodup_cons] at distinct
    have fresh' : ∀ other ∈ rest, other.2.route ∉ converters.insert entry.2.route entry.2 := by
      intro other member present
      rcases (AList.mem_insert _).mp present with same | present
      · exact distinct.1 (same ▸ List.mem_map_of_mem (f := fun entry => entry.2.route) member)
      · exact fresh.2 other member present
    have rest_merged := ih fresh' distinct.2
    rw [insertAll, List.foldl_cons, List.exists_mem_cons_iff]
    refine rest_merged.trans ?_
    by_cases same : key = entry.2.route
    · have absent : converters.lookup entry.2.route = none := AList.lookup_eq_none.mpr fresh.1
      rw [same, AList.lookup_insert, absent]
      constructor
      · rintro (own | later)
        · obtain rfl := Option.some.inj own
          exact .inr (.inl ⟨rfl, rfl⟩)
        · exact .inr (.inr later)
      · rintro (none_there | ⟨own, _⟩ | later)
        · contradiction
        · exact .inl (congrArg some own)
        · exact .inr later
    · rw [AList.lookup_insert_ne same]
      refine or_congr_right ⟨.inr, fun added => added.resolve_left ?_⟩
      rintro ⟨rfl, own⟩
      exact same own.symm

/-- The routes that some entry points offer. -/
def offered (found : List (EntryPoint lower Handler)) : List Route :=
  found.filterMap fun entryPoint =>
    match entryPoint.load with
    | .ok (.converter converter) => some converter.route
    | _ => none

/-- What keeps some entry points from being loaded. -/
inductive Fault (registry : ConverterRegistry lower Handler) (found : List (EntryPoint lower Handler)) : Prop where
  | fails {entryPoint : EntryPoint lower Handler} {error : ConverterError} (member : entryPoint ∈ found)
      (load : entryPoint.load = .error error)
  | foreign {entryPoint : EntryPoint lower Handler} (member : entryPoint ∈ found)
      (load : entryPoint.load = .ok .other)
  | taken {route : Route} (member : route ∈ offered found) (present : route ∈ registry.converters)
  | repeated (twice : ¬ (offered found).Nodup)

theorem mapM_contribution_exists {found : List (EntryPoint lower Handler)} :
    (∃ discovered, found.mapM contribution = .ok discovered) ↔
      ∀ entryPoint ∈ found, ∃ converter, entryPoint.load = .ok (.converter converter) := by
  rw [Fallible.mapM_exists]
  refine forall₂_congr fun entryPoint _ => ⟨fun ⟨entry, admitted⟩ => ?_, fun ⟨converter, loaded⟩ => ?_⟩
  · exact ⟨_, (contribution_eq_ok.mp admitted).1⟩
  · exact ⟨(entryPoint.name, converter), contribution_eq_ok.mpr ⟨loaded, rfl⟩⟩

theorem mapM_contribution_routes {found : List (EntryPoint lower Handler)}
    {discovered : List (String × Converter lower Handler)} (admitted : found.mapM contribution = .ok discovered) :
    discovered.map (·.2.route) = offered found := by
  have each := Fallible.mapM_eq_ok.mp admitted
  clear admitted
  induction each with
  | nil => rfl
  | cons first _ ih =>
    obtain ⟨loaded, _⟩ := contribution_eq_ok.mp first
    simp [offered, loaded] at ih ⊢
    exact ih

theorem not_fault_iff {registry : ConverterRegistry lower Handler} {found : List (EntryPoint lower Handler)} :
    ¬ Fault registry found ↔ (∀ entryPoint ∈ found, ∃ converter, entryPoint.load = .ok (.converter converter)) ∧
      (∀ route ∈ offered found, route ∉ registry.converters) ∧ (offered found).Nodup := by
  constructor
  · intro sound
    refine ⟨fun entryPoint member => ?_, fun route member present => sound (.taken member present), ?_⟩
    · cases load : entryPoint.load with
      | error error => exact absurd (.fails member load) sound
      | ok loaded =>
        cases loaded with
        | converter converter => exact ⟨converter, rfl⟩
        | other => exact absurd (.foreign member load) sound
    · by_contra twice
      exact sound (.repeated twice)
  · intro ⟨all, fresh, distinct⟩ fault
    cases fault with
    | fails member load =>
      obtain ⟨_, loaded⟩ := all _ member
      cases load.symm.trans loaded
    | foreign member load =>
      obtain ⟨_, loaded⟩ := all _ member
      cases load.symm.trans loaded
    | taken member present => exact fresh _ member present
    | repeated twice => exact twice distinct

/-- The batch that is taken over: the discovered converters, when nothing keeps them from it. -/
def merge (registry : ConverterRegistry lower Handler) (found : List (EntryPoint lower Handler)) :
    Except ConverterError (AList fun _ : Route => Converter lower Handler) := do
  let discovered ← (found.mergeSort precedes).mapM contribution
  checkRoutes registry.converters.keys discovered
  .ok (insertAll registry.converters discovered)

theorem merge_eq_ok {registry : ConverterRegistry lower Handler} {found : List (EntryPoint lower Handler)}
    {converters : AList fun _ : Route => Converter lower Handler} (merged : registry.merge found = .ok converters) :
    ¬ Fault registry found ∧ ∀ key converter, converters.lookup key = some converter ↔
      registry.converters.lookup key = some converter ∨
        ∃ entryPoint ∈ found, entryPoint.load = .ok (.converter converter) ∧ converter.route = key := by
  simp only [merge, Fallible.bind_eq_ok] at merged
  obtain ⟨discovered, admitted, ⟨⟩, checked, same⟩ := merged
  cases same
  have sorted : (found.mergeSort precedes).Perm found := List.mergeSort_perm found precedes
  obtain ⟨fresh, distinct⟩ := checkRoutes_eq_ok.mp checked
  have routes := mapM_contribution_routes admitted
  have offers : (offered (found.mergeSort precedes)).Perm (offered found) := sorted.filterMap _
  rw [← routes] at offers
  constructor
  · refine not_fault_iff.mpr ⟨fun entryPoint member => ?_, fun route member => ?_, offers.nodup_iff.mp distinct⟩
    · exact mapM_contribution_exists.mp ⟨_, admitted⟩ entryPoint (sorted.mem_iff.mpr member)
    · obtain ⟨entry, listed, rfl⟩ := List.mem_map.mp (offers.mem_iff.mpr member)
      exact fresh entry listed
  · intro key converter
    rw [lookup_insertAll fresh distinct]
    refine or_congr_right ⟨fun ⟨entry, member, own, route⟩ => ?_, fun ⟨entryPoint, member, loaded, route⟩ => ?_⟩
    · obtain ⟨entryPoint, listed, gives⟩ := (Fallible.mem_mapM admitted).mp member
      exact ⟨entryPoint, sorted.mem_iff.mp listed, own ▸ (contribution_eq_ok.mp gives).1, route⟩
    · have gives : contribution entryPoint = .ok (entryPoint.name, converter) := contribution_eq_ok.mpr ⟨loaded, rfl⟩
      exact ⟨_, (Fallible.mem_mapM admitted).mpr ⟨entryPoint, sorted.mem_iff.mpr member, gives⟩, rfl, route⟩

theorem merge_eq_error {registry : ConverterRegistry lower Handler} {found : List (EntryPoint lower Handler)}
    {error : ConverterError} (failed : registry.merge found = .error error) : Fault registry found := by
  by_contra sound
  obtain ⟨all, fresh, distinct⟩ := not_fault_iff.mp sound
  have sorted : (found.mergeSort precedes).Perm found := List.mergeSort_perm found precedes
  obtain ⟨discovered, admitted⟩ :=
    mapM_contribution_exists.mpr fun entryPoint member => all entryPoint (sorted.mem_iff.mp member)
  have routes := mapM_contribution_routes admitted
  have offers : (offered (found.mergeSort precedes)).Perm (offered found) := sorted.filterMap _
  rw [← routes] at offers
  have checked : checkRoutes registry.converters.keys discovered = .ok () := by
    refine checkRoutes_eq_ok.mpr ⟨fun entry member => ?_, offers.nodup_iff.mpr distinct⟩
    exact fresh _ (offers.mem_iff.mp (List.mem_map_of_mem member))
  have merged : registry.merge found = .ok (insertAll registry.converters discovered) := by
    simp only [merge, Fallible.bind_eq_ok]
    exact ⟨discovered, admitted, (), checked, rfl⟩
  cases failed.symm.trans merged

/-- Every way a call for entry points returns: without loading, with a fault and nothing
changed, or with the whole batch taken over. -/
inductive Loads (registry : ConverterRegistry lower Handler) (found : List (EntryPoint lower Handler)) :
    List Effect × Except ConverterError Unit × ConverterRegistry lower Handler → Prop where
  | idle (off : registry.entryPointsLoaded = true ∨ registry.discoverEntryPoints = false) :
      Loads registry found ([], .ok (), registry)
  | refused {effects : List Effect} {error : ConverterError} (unloaded : registry.entryPointsLoaded = false)
      (discovers : registry.discoverEntryPoints = true) (fault : Fault registry found) :
      Loads registry found (effects, .error error, registry)
  | taken {effects : List Effect} {converters : AList fun _ : Route => Converter lower Handler}
      (unloaded : registry.entryPointsLoaded = false) (discovers : registry.discoverEntryPoints = true)
      (sound : ¬ Fault registry found)
      (table : ∀ key converter, converters.lookup key = some converter ↔
        registry.converters.lookup key = some converter ∨
          ∃ entryPoint ∈ found, entryPoint.load = .ok (.converter converter) ∧ converter.route = key) :
      Loads registry found (effects, .ok (), { registry with converters := converters, entryPointsLoaded := true })

theorem loadEntryPoints_loads (registry : ConverterRegistry lower Handler)
    (found : List (EntryPoint lower Handler)) : Loads registry found ((registry.loadEntryPoints found).1,
      (registry.loadEntryPoints found).2.1, (registry.loadEntryPoints found).2.2) := by
  change Loads registry found (registry.loadEntryPoints found)
  unfold loadEntryPoints
  split
  next off =>
    refine .idle ?_
    simpa using off
  next on =>
    simp only [Bool.or_eq_true, Bool.not_eq_true', not_or, Bool.not_eq_true, Bool.not_eq_false] at on
    have merges := discover_snd (found.mergeSort precedes)
    generalize discover (found.mergeSort precedes) = outcome at merges ⊢
    obtain ⟨effects, discovered⟩ := outcome
    obtain rfl : discovered = _ := merges
    change Loads registry found (match registry.merge found with
      | .error error => _
      | .ok converters => _)
    cases merged : registry.merge found with
    | error error => exact .refused on.1 on.2 (merge_eq_error merged)
    | ok converters =>
      obtain ⟨sound, table⟩ := merge_eq_ok merged
      exact .taken on.1 on.2 sound table

/-! What one call does. -/

variable {registry after : ConverterRegistry lower Handler} {call : Call lower Handler} {reply : Reply lower Handler}

/-- The entry points that the environment lists for the call. -/
def Call.found : Call lower Handler → Option (List (EntryPoint lower Handler))
  | .register _ _ => none
  | .loadEntryPoints found | .get found _ _ => some found

/-- Each route belongs to its converter. -/
def Stored (registry : ConverterRegistry lower Handler) : Prop :=
  ∀ key converter, registry.converters.lookup key = some converter → key = converter.route

/-- Every call: a refused registration, one that is taken over, or a call for entry points. -/
inductive Proceeds (registry : ConverterRegistry lower Handler) :
    Call lower Handler → Reply lower Handler → ConverterRegistry lower Handler → Prop where
  | rejected {converter : ConverterObject lower Handler} {replace : Bool} {error : ConverterError} :
      Proceeds registry (.register converter replace) ⟨[], .error error⟩ registry
  | registered {converter : Converter lower Handler} {replace : Bool}
      (free : converter.route ∈ registry.converters → replace = true) :
      Proceeds registry (.register (.converter converter) replace) ⟨[], .ok none⟩
        { registry with converters := registry.converters.insert converter.route converter }
  | asked {call : Call lower Handler} {effects : List Effect}
      {result : Except ConverterError (Option (Converter lower Handler))}
      {after : ConverterRegistry lower Handler} {found : List (EntryPoint lower Handler)}
      {loaded : Except ConverterError Unit} (lists : call.found = some found)
      (loads : Loads registry found (effects, loaded, after))
      (fails : ∀ error, loaded = .error error → result = .error error) :
      Proceeds registry call ⟨effects, result⟩ after

theorem step_register (registry : ConverterRegistry lower Handler) (object : ConverterObject lower Handler)
    (replace : Bool) : Proceeds registry (.register object replace)
      (registry.step (.register object replace)).1 (registry.step (.register object replace)).2 := by
  cases object with
  | other => exact .rejected
  | converter converter =>
    simp only [step, register]
    split
    next => exact .rejected
    next free =>
      refine .registered fun present => ?_
      simpa [present] using free

theorem step_load (registry : ConverterRegistry lower Handler) (found : List (EntryPoint lower Handler)) :
    registry.step (.loadEntryPoints found) = (⟨(registry.loadEntryPoints found).1,
      (fun _ => none) <$> (registry.loadEntryPoints found).2.1⟩, (registry.loadEntryPoints found).2.2) := rfl

theorem step_get (registry : ConverterRegistry lower Handler) (found : List (EntryPoint lower Handler))
    (sourceType targetType : PyValue) :
    registry.step (.get found sourceType targetType) = (⟨(registry.loadEntryPoints found).1,
      some <$> (registry.loadEntryPoints found).2.1.bind fun _ =>
        (registry.loadEntryPoints found).2.2.lookupRoute sourceType targetType⟩,
        (registry.loadEntryPoints found).2.2) := by
  rw [step, get]
  rcases registry.loadEntryPoints found with ⟨effects, loaded, next⟩
  cases loaded <;> rfl

theorem Steps.proceeds (taken : Steps registry call reply after) : Proceeds registry call reply after := by
  unfold Steps at taken
  cases call with
  | register object replace =>
    have steps := step_register registry object replace
    rw [taken] at steps
    exact steps
  | loadEntryPoints found =>
    cases (step_load registry found).symm.trans taken
    refine .asked rfl (loadEntryPoints_loads registry found) fun error failed => ?_
    rw [failed]
    rfl
  | get found sourceType targetType =>
    cases (step_get registry found sourceType targetType).symm.trans taken
    refine .asked rfl (loadEntryPoints_loads registry found) fun error failed => ?_
    rw [failed]
    rfl

theorem Proceeds.stored (proceeds : Proceeds registry call reply after) (stored : Stored registry) :
    Stored after := by
  cases proceeds with
  | rejected => exact stored
  | @registered converter replace free =>
    intro key other held
    by_cases same : key = converter.route
    · rw [same, AList.lookup_insert] at held
      rw [same, ← Option.some.inj held]
    · rw [AList.lookup_insert_ne same] at held
      exact stored key other held
  | asked lists loads =>
    cases loads with
    | idle | refused => exact stored
    | taken unloaded discovers sound table =>
      intro key converter held
      rcases (table key converter).mp held with before | ⟨_, _, _, own⟩
      · exact stored key converter before
      · exact own.symm

/-- An existing route keeps its converter, unless a registration replaces it. -/
theorem Proceeds.keeps (proceeds : Proceeds registry call reply after) {key : Route}
    {converter : Converter lower Handler} (held : registry.converters.lookup key = some converter) :
    after.converters.lookup key = some converter ∨ ∃ other, call = .register (.converter other) true ∧
      other.route = key ∧ after.converters.lookup key = some other := by
  cases proceeds with
  | rejected => exact .inl held
  | @registered other replace free =>
    by_cases same : key = other.route
    · subst same
      have present : other.route ∈ registry.converters := AList.lookup_isSome.mp (by rw [held]; rfl)
      exact .inr ⟨other, by rw [free present], rfl, AList.lookup_insert _⟩
    · exact .inl ((AList.lookup_insert_ne same).trans held)
  | asked lists loads =>
    cases loads with
    | idle | refused => exact .inl held
    | taken unloaded discovers sound table => exact .inl ((table key converter).mpr (.inl held))

theorem Proceeds.silent (proceeds : Proceeds registry call reply after) (loaded : registry.entryPointsLoaded = true) :
    reply.effects = [] ∧ after.entryPointsLoaded = true := by
  cases proceeds with
  | rejected => exact ⟨rfl, loaded⟩
  | registered => exact ⟨rfl, loaded⟩
  | asked lists loads =>
    cases loads with
    | idle => exact ⟨rfl, loaded⟩
    | refused unloaded => cases loaded.symm.trans unloaded
    | taken unloaded => cases loaded.symm.trans unloaded

/-- A batch is taken over whole or not at all. -/
theorem Proceeds.whole (proceeds : Proceeds registry call reply after) {found : List (EntryPoint lower Handler)}
    (lists : call.found = some found) (unloaded : registry.entryPointsLoaded = false)
    (discovers : registry.discoverEntryPoints = true) :
    (Fault registry found → (∃ error, reply.result = .error error) ∧ after = registry) ∧
      (¬ Fault registry found → after.entryPointsLoaded = true ∧ ∀ key converter,
        after.converters.lookup key = some converter ↔ registry.converters.lookup key = some converter ∨
          ∃ entryPoint ∈ found, entryPoint.load = .ok (.converter converter) ∧ converter.route = key) := by
  cases proceeds with
  | rejected => cases lists
  | registered => cases lists
  | asked lists' loads fails =>
    cases lists.symm.trans lists'
    cases loads with
    | idle off => simp [unloaded, discovers] at off
    | refused _ _ fault => exact ⟨fun _ => ⟨⟨_, fails _ rfl⟩, rfl⟩, fun sound => absurd fault sound⟩
    | taken _ _ sound table => exact ⟨fun fault => absurd fault sound, fun _ => ⟨rfl, table⟩⟩

/-- A registry keeps its table consistent over all runs: routes are their converters' own,
a refused call changes nothing and any other registration stores its converter, only a
replacing one changes a route, and after a successful load the environment is not asked
again. -/
theorem run_consistent (lower : String → String) (Handler : Type) (group : String) (discovers : Bool) :
    ∀ trace, ∀ registry : ConverterRegistry lower Handler, Run Steps (new group discovers) trace registry →
      (∀ key converter, registry.converters.lookup key = some converter → key = converter.route) ∧
      (∀ converter : Converter lower Handler, converter.route ∈ registry.converters →
        registry.step (.register (.converter converter) false) =
          (⟨[], .error (.registered converter.sourceType converter.targetType)⟩, registry)) ∧
      (∀ (converter : Converter lower Handler) (replace : Bool),
        (converter.route ∈ registry.converters → replace = true) →
        registry.step (.register (.converter converter) replace) = (⟨[], .ok none⟩,
          { registry with converters := registry.converters.insert converter.route converter })) ∧
      (∀ call reply after, Steps registry call reply after →
        (∀ key converter, registry.converters.lookup key = some converter →
          after.converters.lookup key = some converter ∨ ∃ other, call = .register (.converter other) true ∧
            other.route = key ∧ after.converters.lookup key = some other) ∧
        ∀ found, call.found = some found → registry.entryPointsLoaded = false →
          registry.discoverEntryPoints = true →
          (Fault registry found → (∃ error, reply.result = .error error) ∧ after = registry) ∧
          (¬ Fault registry found → after.entryPointsLoaded = true ∧ ∀ key converter,
            after.converters.lookup key = some converter ↔ registry.converters.lookup key = some converter ∨
              ∃ entryPoint ∈ found, entryPoint.load = .ok (.converter converter) ∧ converter.route = key)) ∧
      (registry.entryPointsLoaded = true → ∀ later last, Run Steps registry later last →
        ∀ entry ∈ later, entry.2.effects = []) := by
  intro trace registry run
  have stored : Stored registry := by
    refine (run.guarantees Stored (fun _ _ => True) (fun stored taken => ?_) ?_).2
    · exact ⟨trivial, taken.proceeds.stored stored⟩
    · exact fun key converter held => by cases (AList.lookup_empty key).symm.trans held
  refine ⟨stored, fun converter present => ?_, fun converter replace free => ?_,
    fun call reply after taken => ⟨fun key converter held => ?_, fun found lists unloaded discovers => ?_⟩,
    fun loaded later last run' => ?_⟩
  · simp [step, register, present]
  · rw [step, register, if_neg fun refused => refused.2 (free refused.1)]
    rfl
  · exact taken.proceeds.keeps held
  · exact taken.proceeds.whole lists unloaded discovers
  · exact (run'.guarantees (fun registry => registry.entryPointsLoaded = true) (fun _ reply => reply.effects = [])
      (fun loaded taken => taken.proceeds.silent loaded) loaded).1

/-- A converter, and a registry that holds it. -/
def plain : Converter String.toLower Unit where
  sourceType := String.toLower "A"
  targetType := String.toLower "b"
  handler := ()
  normalized := ⟨.string "A ", .string "b", normalizeType_string (by decide), normalizeType_string (by decide)⟩

def single : ConverterRegistry String.toLower Unit where
  entryPointGroup := "group"
  discoverEntryPoints := true
  converters := (∅ : AList fun _ : Route => Converter String.toLower Unit).insert plain.route plain
  entryPointsLoaded := false

/-- An entry point that offers the same route is refused, and the registry is as before. A
replacing registration is not. -/
theorem run_consistent_duplicate :
    (single.step (.get [⟨"again", "module:name", .ok (.converter plain)⟩] (.string "a") (.string "b"))).2 = single ∧
      (single.step (.register (.converter plain) true)).2.converters.lookup plain.route = some plain := by
  have registers : Steps (new "group" true) (.register (.converter plain) false) ⟨[], .ok none⟩ single := by
    simp [Steps, step, register, new, single]
  have run : Run Steps (new "group" true) [(.register (.converter plain) false, ⟨[], .ok none⟩)] single :=
    .cons registers .nil
  obtain ⟨_, _, stores, consistent, _⟩ := run_consistent String.toLower Unit "group" true _ _ run
  have refused := (consistent (.get [⟨"again", "module:name", .ok (.converter plain)⟩] (.string "a") (.string "b"))
    _ _ rfl).2 _ rfl rfl rfl
  have fault : Fault single [⟨"again", "module:name", .ok (.converter plain)⟩] :=
    .taken (List.mem_singleton.mpr rfl) ((AList.mem_insert _).mpr (.inl rfl))
  refine ⟨(refused.1 fault).2, ?_⟩
  rw [stores plain true fun _ => rfl, AList.lookup_insert]

end ConverterRegistry

end FsspecData.Python
