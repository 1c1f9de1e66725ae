import FsspecData.Arrow.Kernels
import FsspecData.Library.Fallible

/-! A small kernel with the documented behaviour. It repeats one row, casts integers,
widens, and refuses every other cast between two types. -/
namespace FsspecData

namespace Layout

/-- All-null rows, in the layout an array of the type has. -/
def nulls (n : Nat) : DataType → Layout
  | .null => .null n
  | .dictionary _ value => .dictionary (List.replicate n none) (nulls 0 value)
  | .runEndEncoded _ (.mk _ value _ _) => .runEnd [n] (nulls 1 value)
  | .union _ _ => .union (List.replicate n (0, 0)) []
  | _ => .plain (List.replicate n none)

theorem nulls_spec (n : Nat) : (type : DataType) → (nulls n type).fits type = true ∧
    (nulls n type).rows = List.replicate n none ∧
    (nulls n type).nullCount = if type.hasValidity then n else 0
  | .dictionary _ value => by simpa [nulls, fits, rows, nullCount, DataType.hasValidity,
      List.countP_replicate] using (nulls_spec 0 value).1
  | .runEndEncoded _ (.mk _ value _ _) => by
    obtain ⟨fit, nulls, _⟩ := nulls_spec 1 value
    simp [Layout.nulls, fits, rows, nullCount, DataType.hasValidity, Field.dataType, fit, nulls,
      expandRuns]
  | .null | .union _ _ => by simp [nulls, fits, rows, rowsEach, nullCount, DataType.hasValidity]
  | .boolean | .int8 | .int16 | .int32 | .int64 | .uint8 | .uint16 | .uint32 | .uint64
  | .float16 | .float32 | .float64 | .timestamp _ _ | .date32 | .date64 | .time32 _ | .time64 _
  | .duration _ | .interval _ | .binary | .fixedSizeBinary _ | .largeBinary | .binaryView
  | .utf8 | .largeUtf8 | .utf8View | .list _ | .listView _ | .fixedSizeList _ _ | .largeList _
  | .largeListView _ | .struct _ | .decimal32 _ _ | .decimal64 _ _ | .decimal128 _ _
  | .decimal256 _ _ | .map _ _ => by
    simp [nulls, fits, rows, nullCount, DataType.hasValidity, List.countP_replicate]

/-- Each row `n` times. -/
def repeated (n : Nat) : Layout → Layout
  | .null length => .null (n * length)
  | .plain slots => .plain (slots.flatMap (List.replicate n))
  | .dictionary keys values => .dictionary (keys.flatMap (List.replicate n)) values
  | .runEnd ends values => .runEnd (ends.map (n * ·)) values
  | .union slots children => .union (slots.flatMap (List.replicate n)) children

theorem expandRuns_scaled (n start : Nat) (ends : List Nat) (values : List (Option Value)) :
    expandRuns (n * start) (ends.map (n * ·)) values =
      (expandRuns start ends values).flatMap (List.replicate n) := by
  induction ends generalizing start values with
  | nil => simp [expandRuns]
  | cons finish ends ih =>
    cases values with
    | nil => simp [expandRuns]
    | cons value values =>
      simp [expandRuns, ih, ← Nat.mul_sub, List.flatMap_replicate, Nat.mul_comm]

theorem repeated_rows (n : Nat) (layout : Layout) :
    (repeated n layout).rows = layout.rows.flatMap (List.replicate n) := by
  cases layout with
  | null length => simp [repeated, rows, List.flatMap_replicate, Nat.mul_comm]
  | plain slots => simp [repeated, rows]
  | dictionary keys values => simp [repeated, rows, List.map_flatMap, List.flatMap_map]
  | runEnd ends values => simpa [repeated, rows] using expandRuns_scaled n 0 ends values.rows
  | union slots children => simp [repeated, rows, List.map_flatMap, List.flatMap_map]

theorem repeated_nullCount (n : Nat) (layout : Layout) :
    (repeated n layout).nullCount = n * layout.nullCount := by
  have count {α : Type} (p : α → Bool) (list : List α) :
      (list.flatMap (List.replicate n)).countP p = n * list.countP p := by
    induction list with
    | nil => simp
    | cons a rest ih => cases pa : p a <;> simp [ih, pa, List.countP_replicate, Nat.mul_add]; omega
  cases layout <;> simp [repeated, nullCount, count]

theorem repeated_fits (n : Nat) {layout : Layout} {type : DataType} (fit : layout.fits type = true) :
    (repeated n layout).fits type = true := by
  cases layout with
  | plain slots =>
    obtain ⟨is_plain, admitted⟩ := fits_plain.mp fit
    refine fits_plain.mpr ⟨is_plain, fun slot member => ?_⟩
    obtain ⟨_, inside, copied⟩ := List.mem_flatMap.mp member
    obtain rfl := List.eq_of_mem_replicate copied
    exact admitted slot inside
  | _ => cases type <;> simp_all [repeated, fits]

end Layout

namespace Arrow.Small

/-- An array, when the layout fits the type. -/
def checked (type : DataType) (layout : Layout) : Except ArrowError ArrayRef :=
  if fit : layout.fits type then .ok ⟨type, layout, fit⟩ else .error ⟨"layout"⟩

/-- A value after the cast, where the target has it. Dates scale to milliseconds. -/
def castValue (source target : DataType) : Value → Option Value
  | .integer n =>
    let n := if source = .date32 ∧ target = .date64 then n * 86400000 else n
    if target.admits (.integer n) then some (.integer n) else none
  | value => if target.admits value then some value else none

def castSlot (source target : DataType) : Option Value → Except ArrowError (Option Value)
  | none => .ok none
  | some value =>
    match castValue source target value with
    | some value => .ok (some value)
    | none => .error ⟨"cannot cast value"⟩

def castWithOptions (array : ArrayRef) (type : DataType) : Except ArrowError ArrayRef :=
  if array.dataType = .null then .ok ⟨type, .nulls array.length type, (Layout.nulls_spec _ _).1⟩
  else if array.dataType = type then .ok array
  else
    match array.layout with
    | .plain slots => do checked type (.plain (← slots.mapM (castSlot array.dataType type)))
    | _ => .error ⟨"cannot cast type"⟩

/-- Only the repetition of a single row, which is all the core takes. -/
def take (array : ArrayRef) (indices : List Nat) : Except ArrowError ArrayRef :=
  if array.length = 1 ∧ indices.all (· = 0) then
    .ok ⟨array.dataType, .repeated indices.length array.layout, Layout.repeated_fits _ array.fits⟩
  else .error ⟨"take"⟩

theorem castValue_admits (h : castValue source target value = some result) :
    target.admits result = true := by
  unfold castValue at h
  cases value <;> simp only [Option.ite_none_right_eq_some, Option.some.injEq] at h
  all_goals obtain ⟨admits, rfl⟩ := h; exact admits

theorem castSlot_ok : castSlot source target slot = .ok result ↔
    (slot = none ∧ result = none) ∨
      ∃ value cast, slot = some value ∧ castValue source target value = some cast ∧ result = some cast := by
  cases slot with
  | none => simp [castSlot, eq_comm]
  | some value => cases cast : castValue source target value <;> simp [castSlot, cast, eq_comm]

/-- A cast of a plain array succeeds when each value has a cast. -/
theorem castWithOptions_each {array : ArrayRef} {type : DataType} (valued : array.dataType ≠ .null)
    (distinct : array.dataType ≠ type) (source : array.dataType.isPlain)
    (target : type.isPlain) (f : Value → Value)
    (each : ∀ value, some value ∈ array.rows →
      castValue array.dataType type value = some (f value)) :
    ∃ out, castWithOptions array type = .ok out ∧ out.rows = array.rows.map (Option.map f) := by
  obtain ⟨slots, plain⟩ := Layout.eq_plain source array.fits
  have rows : array.rows = slots := by rw [ArrayRef.rows, plain, Layout.rows]
  have traversed : slots.mapM (castSlot array.dataType type) = .ok (slots.map (Option.map f)) := by
    rw [Fallible.mapM_eq_ok, List.forall₂_map_right_iff, List.forall₂_same]
    rintro (_ | value) member
    · rfl
    · exact castSlot_ok.mpr (.inr ⟨value, f value, rfl, each value (rows ▸ member), rfl⟩)
  have fit : (Layout.plain (slots.map (Option.map f))).fits type = true := by
    refine Layout.fits_plain.mpr ⟨target, fun slot member value same => ?_⟩
    obtain ⟨slot', inside, rfl⟩ := List.mem_map.mp member
    obtain ⟨value', rfl, rfl⟩ := Option.map_eq_some_iff.mp same
    exact castValue_admits (each value' (rows ▸ inside))
  refine ⟨⟨type, _, fit⟩, ?_, by rw [rows]; simp [ArrayRef.rows, Layout.rows]⟩
  simp only [castWithOptions, valued, distinct, plain, if_false]
  rw [traversed]
  exact dif_pos fit

/-- What a successful cast between two types did, slot by slot. -/
theorem castWithOptions_ok {array out : ArrayRef} {type : DataType} (valued : array.dataType ≠ .null)
    (distinct : array.dataType ≠ type) (h : castWithOptions array type = .ok out) :
    out.dataType = type ∧ List.Forall₂ (fun slot result =>
      castSlot array.dataType type slot = .ok result) array.rows out.rows := by
  simp only [castWithOptions, valued, distinct, if_false] at h
  split at h
  next slots plain =>
    obtain ⟨results, traversed, h⟩ := Fallible.bind_eq_ok.mp h
    unfold checked at h
    split_ifs at h with fit
    cases h
    refine ⟨rfl, ?_⟩
    rw [ArrayRef.rows, plain]
    exact Fallible.mapM_eq_ok.mp traversed
  next => contradiction

theorem castWithOptions_same {array : ArrayRef} {type : DataType} (valued : array.dataType ≠ .null)
    (same : array.dataType = type) : castWithOptions array type = .ok array :=
  (if_neg valued).trans (if_pos same)

theorem cast_typed {array out : ArrayRef} {type : DataType} (h : castWithOptions array type = .ok out) :
    out.dataType = type ∧ out.length = array.length := by
  by_cases valued : array.dataType = .null
  · cases (if_pos valued).symm.trans h
    simp [ArrayRef.length, ArrayRef.rows, (Layout.nulls_spec _ _).2.1]
  · by_cases same : array.dataType = type
    · cases (castWithOptions_same valued same).symm.trans h
      exact ⟨same, rfl⟩
    · obtain ⟨typed, each⟩ := castWithOptions_ok valued same h
      exact ⟨typed, each.length_eq.symm⟩

theorem cast_keeps {array out : ArrayRef} {type : DataType} (h : castWithOptions array type = .ok out)
    (valued : array.dataType ≠ .null) (null : out.HasNull) : array.HasNull := by
  by_cases same : array.dataType = type
  · cases (castWithOptions_same valued same).symm.trans h
    exact null
  · obtain ⟨_, each⟩ := castWithOptions_ok valued same h
    obtain ⟨i, inside, at_i⟩ := List.mem_iff_getElem.mp null
    have slot := (List.forall₂_iff_get.mp each).2 i (each.length_eq ▸ inside) inside
    rcases castSlot_ok.mp slot with ⟨none, _⟩ | ⟨_, value, _, _, some⟩
    · exact List.mem_of_getElem none
    · simp [at_i] at some

/-- Values the target admits are kept. -/
theorem cast_admitted {array : ArrayRef} {type : DataType} (valued : array.dataType ≠ .null)
    (source : array.dataType.isPlain) (target : type.isPlain)
    (undated : ¬ (array.dataType = .date32 ∧ type = .date64))
    (admitted : ∀ value, some value ∈ array.rows → type.admits value = true) :
    ∃ out, castWithOptions array type = .ok out ∧ out.rows = array.rows := by
  by_cases same : array.dataType = type
  · exact ⟨array, castWithOptions_same valued same, rfl⟩
  · obtain ⟨out, cast, rows⟩ := castWithOptions_each valued same source target id fun value member => by
      have admits := admitted value member
      cases value <;> simp [castValue, undated, admits]
    exact ⟨out, cast, by simpa using rows⟩

theorem valued_of_plain {type : DataType} (is_plain : type.isPlain) : type ≠ .null := by
  rintro rfl
  contradiction

theorem cast_integer {array : ArrayRef} {type : DataType} (source : array.dataType.isInteger)
    (target : type.isInteger)
    (represented : ∀ n, some (.integer n) ∈ array.rows → type.Represents n) :
    ∃ out, castWithOptions array type = .ok out ∧ out.rows = array.rows := by
  have source_ranged := DataType.isInteger_ranged source
  have target_ranged := DataType.isInteger_ranged target
  have source_plain := DataType.isPlain_of_ranged source_ranged
  refine cast_admitted (valued_of_plain source_plain) source_plain
    (DataType.isPlain_of_ranged target_ranged) (fun dated => (DataType.undated_of_integer target).2 dated.2)
    fun value member => ?_
  obtain ⟨n, rfl, _⟩ := (DataType.admits_integer source_ranged).mp (ArrayRef.admits_row source_plain member)
  exact (DataType.admits_integer target_ranged).mpr ⟨n, rfl, represented n member⟩

theorem cast_unrepresented {array : ArrayRef} {type : DataType} {n : Int}
    (source : array.dataType.isInteger) (target : type.isInteger)
    (member : some (.integer n) ∈ array.rows) (outside : ¬ type.Represents n) :
    ∃ error, castWithOptions array type = .error error := by
  have source_ranged := DataType.isInteger_ranged source
  have target_ranged := DataType.isInteger_ranged target
  have source_plain := DataType.isPlain_of_ranged source_ranged
  have admits := (DataType.admits_integer source_ranged).mp (ArrayRef.admits_row source_plain member)
  obtain ⟨_, ⟨⟩, inside⟩ := admits
  have distinct : array.dataType ≠ type := fun same => outside (same ▸ inside)
  cases cast : castWithOptions array type with
  | error error => exact ⟨error, rfl⟩
  | ok out =>
    obtain ⟨_, each⟩ := castWithOptions_ok (valued_of_plain source_plain) distinct cast
    obtain ⟨i, bound, at_i⟩ := List.mem_iff_getElem.mp member
    have slot := (List.forall₂_iff_get.mp each).2 i bound (each.length_eq ▸ bound)
    rcases castSlot_ok.mp slot with ⟨none, _⟩ | ⟨value, result, some, cast, _⟩
    · simp [at_i] at none
    · obtain rfl : Value.integer n = value := by simpa [at_i] using some
      have undated : ¬ (array.dataType = .date32 ∧ type = .date64) :=
        fun dated => (DataType.undated_of_integer target).2 dated.2
      have refused : ¬ type.admits (.integer n) = true := fun admits =>
        outside (by simpa using (DataType.admits_integer target_ranged).mp admits)
      simp [castValue, undated, refused] at cast

theorem cast_date {array : ArrayRef} (dated : array.dataType = .date32)
    (represented : ∀ n, some (.integer n) ∈ array.rows → DataType.date64.Represents (n * 86400000)) :
    ∃ out, castWithOptions array .date64 = .ok out ∧ out.rows = array.rows.map fun
      | some (.integer n) => some (.integer (n * 86400000))
      | slot => slot := by
  have source_plain : array.dataType.isPlain := by rw [dated]; rfl
  have admitted {value : Value} (member : some value ∈ array.rows) : ∃ n, value = .integer n := by
    have admits := ArrayRef.admits_row source_plain member
    obtain ⟨n, rfl, _⟩ := (DataType.admits_integer (by rw [dated]; rfl)).mp admits
    exact ⟨n, rfl⟩
  have distinct : array.dataType ≠ .date64 := by rw [dated]; decide
  obtain ⟨out, cast, rows⟩ := castWithOptions_each (valued_of_plain source_plain) distinct
    source_plain rfl (fun | .integer n => .integer (n * 86400000) | value => value) fun value member => by
      obtain ⟨n, rfl⟩ := admitted member
      have admits : DataType.date64.admits (.integer (n * 86400000)) = true :=
        (DataType.admits_integer rfl).mpr ⟨_, rfl, represented n member⟩
      simp [castValue, dated, admits]
  refine ⟨out, cast, rows.trans (List.map_congr_left fun slot member => ?_)⟩
  rcases slot with _ | value
  · rfl
  · obtain ⟨n, rfl⟩ := admitted member
    rfl

theorem cast_text {array : ArrayRef} (text : array.dataType = .utf8) :
    ∃ out, castWithOptions array .largeUtf8 = .ok out ∧ out.rows = array.rows := by
  have source_plain : array.dataType.isPlain := by rw [text]; rfl
  apply cast_admitted (valued_of_plain source_plain) source_plain rfl (by simp [text])
  intro value member
  have admits := ArrayRef.admits_row source_plain member
  rw [text] at admits
  exact admits

theorem cast_float {array : ArrayRef} {type : DataType}
    (widens : (array.dataType, type) ∈
      [(.float16, .float32), (.float16, .float64), (.float32, .float64)]) :
    ∃ out, castWithOptions array type = .ok out ∧ out.rows = array.rows := by
  have source_plain : array.dataType.isPlain := by
    simp only [List.mem_cons, Prod.mk.injEq, List.not_mem_nil, or_false] at widens
    rcases widens with ⟨source, _⟩ | ⟨source, _⟩ | ⟨source, _⟩ <;> rw [source] <;> rfl
  refine cast_admitted (valued_of_plain source_plain) source_plain ?_ ?_ fun value member => ?_
  all_goals simp only [List.mem_cons, Prod.mk.injEq, List.not_mem_nil, or_false] at widens
  · rcases widens with ⟨_, rfl⟩ | ⟨_, rfl⟩ | ⟨_, rfl⟩ <;> rfl
  · rcases widens with ⟨source, _⟩ | ⟨source, _⟩ | ⟨source, _⟩ <;> simp [source]
  · have admits := ArrayRef.admits_row source_plain member
    rcases widens with ⟨source, rfl⟩ | ⟨source, rfl⟩ | ⟨source, rfl⟩ <;> rw [source] at admits <;>
      exact admits

theorem take_repeats {array : ArrayRef} {row : Option Value} {n : Nat} (single : array.rows = [row]) :
    ∃ out, take array (List.replicate n 0) = .ok out ∧ out.dataType = array.dataType ∧
      out.rows = List.replicate n row ∧ out.nullCount = n * array.nullCount := by
  have repeats : array.length = 1 ∧ (List.replicate n 0).all (· = 0) := by
    simp [ArrayRef.length, single]
  refine ⟨_, if_pos repeats, rfl, ?_, ?_⟩
  · rw [ArrayRef.rows, Layout.repeated_rows, List.length_replicate]
    exact (congrArg (List.flatMap (List.replicate n)) single).trans (by simp)
  · rw [ArrayRef.nullCount, Layout.repeated_nullCount, List.length_replicate]
    rfl

end Arrow.Small

/-- The small kernel. -/
def Arrow.small : Arrow where
  castWithOptions := Arrow.Small.castWithOptions
  take := Arrow.Small.take
  newNullArray type n := ⟨type, .nulls n type, (Layout.nulls_spec n type).1⟩
  rejection _ _ _ := ⟨"record batch"⟩

theorem Arrow.small_documented : Arrow.small.Documented where
  cast_typed := Arrow.Small.cast_typed
  cast_null null := if_pos null
  cast_keeps _ := Arrow.Small.cast_keeps
  cast_integer := Arrow.Small.cast_integer
  cast_unrepresented := Arrow.Small.cast_unrepresented
  cast_date := Arrow.Small.cast_date
  cast_text := Arrow.Small.cast_text
  cast_float := Arrow.Small.cast_float
  newNull_typed := rfl
  newNull_rows := (Layout.nulls_spec _ _).2.1
  newNull_nullCount := (Layout.nulls_spec _ _).2.2
  take_repeats := Arrow.Small.take_repeats

end FsspecData
