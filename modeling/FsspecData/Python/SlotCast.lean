import FsspecData.Python.Pyarrow
import FsspecData.Plan.Rowwise

/-! Casts slot by slot, which the small kernel makes too. -/
namespace FsspecData.Python

open CastRegistry

/-- A cast of one slot from one type to another; no value where it fails. -/
abbrev SlotCast := DataType → DataType → Option Value → Option (Option Value)

/-- The casts of the registry, safe but for the lossy ones, act slot by slot, and fail
exactly when a slot has no cast. -/
structure Pyarrow.Slotwise (pyarrow : Pyarrow) (slotCast : SlotCast) : Prop where
  succeeds {array : ArrayRef} {type : DataType} {kind : CastKind} : classify array.dataType type = some kind →
    ((∃ out, pyarrow.cast array type (kind ≠ .lossy) = .ok out) ↔
      ∀ slot ∈ array.rows, (slotCast array.dataType type slot).isSome)
  values {array out : ArrayRef} {type : DataType} {kind : CastKind} : classify array.dataType type = some kind →
    pyarrow.cast array type (kind ≠ .lossy) = .ok out →
    out.rows.map some = array.rows.map (slotCast array.dataType type)

/-! An unsafe cast of the small kernel wraps a slot, or drops what the target still has not. -/

namespace Small

def slotCast : SlotCast
  | _, _, none => some none
  | source, target, some value =>
    match Arrow.Small.castValue source target value with
    | some result => some (some result)
    | none =>
      if classify source target = some .lossy then
        some (if target.admits (wrap target value) then some (wrap target value) else none)
      else none

theorem slotCast_of_castSlot {source target : DataType} {slot result : Option Value}
    (cast : Arrow.Small.castSlot source target slot = .ok result) : slotCast source target slot = some result := by
  rcases Arrow.Small.castSlot_ok.mp cast with ⟨rfl, rfl⟩ | ⟨value, converted, rfl, kept, rfl⟩
  · rfl
  · simp only [slotCast, kept]

theorem wrap_ranged {target : DataType} {low high : Int} (range : target.integerRange = some (low, high)) (n : Int) :
    target.admits (wrap target (.integer n)) = true := by
  have ordered : low ≤ high := by
    cases target <;> simp [DataType.integerRange] at range <;> omega
  refine (DataType.admits_integer (by simp [range])).mpr ⟨low + (n - low) % (high - low + 1), ?_, low, high, range, ?_⟩
  · simp [wrap, range]
  · have := Int.emod_nonneg (n - low) (show high - low + 1 ≠ 0 by omega)
    have := Int.emod_lt_of_pos (n - low) (show 0 < high - low + 1 by omega)
    omega

def floats : List DataType := [.float16, .float32, .float64]

/-- The types of lossy casts hold integers or floats. -/
theorem flat_of_numeric {type : DataType} (numeric : isNumeric type = true) :
    type.integerRange.isSome ∨ type ∈ floats := by
  cases type <;> simp_all [isNumeric, signedRank, unsignedRank, DataType.integerRange, floats]

theorem ranked_some {source target : Option Nat} {kind : CastKind} (known : ranked source target = some kind) :
    source.isSome ∧ target.isSome := by
  cases source <;> cases target <;> simp [ranked] at known ⊢

theorem flat_of_lossy {source target : DataType} (lossy : classify source target = some .lossy) :
    (source.integerRange.isSome ∨ source ∈ floats) ∧ (target.integerRange.isSome ∨ target ∈ floats) := by
  by_cases numeric : isNumeric source = true ∧ isNumeric target = true
  · exact ⟨flat_of_numeric numeric.1, flat_of_numeric numeric.2⟩
  · have unranked {s t : Option Nat} (from_source : s.isSome → isNumeric source = true)
        (from_target : t.isSome → isNumeric target = true) : ranked s t = none := by
      cases known : ranked s t with
      | none => rfl
      | some kind => exact absurd ⟨from_source (ranked_some known).1, from_target (ranked_some known).2⟩ numeric
    have signed (type : DataType) : (signedRank type).isSome → isNumeric type = true := by simp +contextual [isNumeric]
    have unsigned (type : DataType) : (unsignedRank type).isSome → isNumeric type = true := by
      simp +contextual [isNumeric]
    unfold classify at lossy
    rw [unranked (signed _) (signed _), unranked (unsigned _) (unsigned _), unranked (unsigned _) (signed _)] at lossy
    have listed : (source, target) ∈ lossyPairs := by
      split_ifs at lossy
      · cases lossy
      · change classifyOther source target = some .lossy at lossy
        unfold classifyOther at lossy
        split_ifs at lossy with safe pairs numbers
        · cases lossy
        · exact pairs
        · exact absurd (by simpa using numbers) numeric
        all_goals cases lossy
    simp only [lossyPairs, List.mem_cons, Prod.mk.injEq, List.not_mem_nil, or_false] at listed
    rcases listed with ⟨rfl, rfl⟩ | ⟨rfl, rfl⟩ | ⟨rfl, rfl⟩ | ⟨rfl, rfl⟩ <;> simp [floats, DataType.integerRange]

theorem plain_of_flat {type : DataType} (flat : type.integerRange.isSome ∨ type ∈ floats) : type.isPlain := by
  rcases flat with ranged | float
  · exact DataType.isPlain_of_ranged ranged
  · simp only [floats, List.mem_cons, List.not_mem_nil, or_false] at float
    rcases float with rfl | rfl | rfl <;> rfl

/-- Wrapping keeps what a lossy cast keeps. -/
theorem wrap_castValue {source target : DataType} {value result : Value}
    (lossy : classify source target = some .lossy)
    (cast : Arrow.Small.castValue source target value = some result) : wrap target value = result := by
  have undated : ¬(source = .date32 ∧ target = .date64) := by
    rintro ⟨rfl, rfl⟩
    cases lossy
  have admits := Arrow.Small.castValue_admits cast
  cases value with
  | integer n =>
    simp only [Arrow.Small.castValue, undated, if_false, Option.ite_none_right_eq_some, Option.some.injEq] at cast
    obtain ⟨-, rfl⟩ := cast
    obtain ⟨ranged | float, -⟩ := (flat_of_lossy lossy).symm
    · obtain ⟨_, ⟨⟩, low, high, range, above, below⟩ := (DataType.admits_integer ranged).mp admits
      have kept : (n - low) % (high - low + 1) = n - low := Int.emod_eq_of_lt (by omega) (by omega)
      simp only [wrap, range, kept]
      congr 1
      omega
    · simp only [floats, List.mem_cons, List.not_mem_nil, or_false] at float
      rcases float with rfl | rfl | rfl <;> cases admits
  | boolean | float | text | other =>
    simp only [Arrow.Small.castValue, Option.ite_none_right_eq_some, Option.some.injEq] at cast
    exact cast.2


/-- The values of one type are all wrapped to values of another, or none is. -/
theorem admits_wrap {source target : DataType} {value other : Value} (lossy : classify source target = some .lossy)
    (admits : source.admits value = true) (admits' : source.admits other = true) :
    target.admits (wrap target value) = target.admits (wrap target other) := by
  obtain ⟨from_source, from_target⟩ := flat_of_lossy lossy
  rcases from_source with ranged | float
  · obtain ⟨n, rfl, -⟩ := (DataType.admits_integer ranged).mp admits
    obtain ⟨m, rfl, -⟩ := (DataType.admits_integer ranged).mp admits'
    rcases from_target with ranged' | float'
    · obtain ⟨⟨low, high⟩, range⟩ := Option.isSome_iff_exists.mp ranged'
      rw [wrap_ranged range, wrap_ranged range]
    · simp only [floats, List.mem_cons, List.not_mem_nil, or_false] at float'
      rcases float' with rfl | rfl | rfl <;> rfl
  · have is_float {value : Value} (admits : source.admits value = true) : ∃ x, value = .float x := by
      simp only [floats, List.mem_cons, List.not_mem_nil, or_false] at float
      rcases float with rfl | rfl | rfl <;> cases value <;> simp [DataType.admits] at admits ⊢
    obtain ⟨x, rfl⟩ := is_float admits
    obtain ⟨y, rfl⟩ := is_float admits'
    cases target <;> rfl

/-- A lossy cast that is not safe gives each slot its own. -/
theorem wrapped_rows {array : ArrayRef} {type : DataType} (lossy : classify array.dataType type = some .lossy) :
    (wrapped array type).rows.map some = array.rows.map (slotCast array.dataType type) := by
  obtain ⟨from_source, from_target⟩ := flat_of_lossy lossy
  have source_plain := plain_of_flat from_source
  have own {value : Value} (member : some value ∈ array.rows) := ArrayRef.admits_row source_plain member
  have cast_kept {value result : Value} (cast : Arrow.Small.castValue array.dataType type value = some result) :
      type.admits (wrap type value) = true := by
    rw [wrap_castValue lossy cast]
    exact Arrow.Small.castValue_admits cast
  by_cases admitted : ∀ value, some value ∈ array.rows → type.admits (wrap type value) = true
  · have fit : (Layout.plain (array.rows.map (Option.map (wrap type)))).fits type = true := by
      refine Layout.fits_plain.mpr ⟨plain_of_flat from_target, fun slot member value same => ?_⟩
      obtain ⟨slot', inside, rfl⟩ := List.mem_map.mp member
      obtain ⟨value', rfl, rfl⟩ := Option.map_eq_some_iff.mp same
      exact admitted value' inside
    have rows : (wrapped array type).rows = array.rows.map (Option.map (wrap type)) := by
      simp only [wrapped, Arrow.Small.checked, dif_pos fit]
      rfl
    rw [rows, List.map_map]
    apply List.map_congr_left
    rintro (_ | value) member
    · rfl
    · cases cast : Arrow.Small.castValue array.dataType type value with
      | some result => simp [slotCast, cast, wrap_castValue lossy cast]
      | none => simp [slotCast, cast, lossy, admitted value member]
  · have unfit : ¬(Layout.plain (array.rows.map (Option.map (wrap type)))).fits type = true := by
      intro fit
      apply admitted
      intro value member
      exact (Layout.fits_plain.mp fit).2 (some (wrap type value)) (List.mem_map.mpr ⟨some value, member, rfl⟩) _ rfl
    have rows : (wrapped array type).rows = List.replicate array.length none := by
      simp only [wrapped, Arrow.Small.checked, dif_neg unfit]
      exact Arrow.small_documented.newNull_rows
    have none_kept {value : Value} (member : some value ∈ array.rows) : type.admits (wrap type value) = false := by
      simp only [not_forall] at admitted
      obtain ⟨other, inside, refused⟩ := admitted
      rw [admits_wrap lossy (own member) (own inside)]
      simpa using refused
    rw [rows, ArrayRef.length, ← List.map_const', List.map_map]
    apply List.map_congr_left
    rintro (_ | value) member
    · rfl
    · cases cast : Arrow.Small.castValue array.dataType type value with
      | some result => exact absurd (cast_kept cast) (by simp [none_kept member])
      | none => simp [slotCast, cast, lossy, none_kept member]


theorem cast_cases (array : ArrayRef) {type : DataType} {kind : CastKind}
    (known : classify array.dataType type = some kind) :
    (∃ out, Pyarrow.small.cast array type (kind ≠ .lossy) = .ok out ∧
      out.rows.map some = array.rows.map (slotCast array.dataType type)) ∨
    (∃ error, Pyarrow.small.cast array type (kind ≠ .lossy) = .error error) ∧
      ∃ slot ∈ array.rows, slotCast array.dataType type slot = none := by
  cases cast : Arrow.small.castWithOptions array type with
  | ok out =>
    refine .inl ⟨out, by simp only [Pyarrow.small, cast], ?_⟩
    by_cases valued : array.dataType = .null
    · cases (Arrow.small_documented.cast_null valued).symm.trans cast
      rw [Arrow.small_documented.newNull_rows, ArrayRef.rows_null valued, List.map_replicate, List.map_replicate]
      rfl
    · have distinct : array.dataType ≠ type := by
        intro same
        rw [same, classify_self] at known
        contradiction
      obtain ⟨-, each⟩ := Arrow.Small.castWithOptions_ok valued distinct cast
      generalize array.rows = slots at each
      generalize out.rows = results at each
      induction each with
      | nil => rfl
      | cons first _ ih => rw [List.map_cons, List.map_cons, ih, slotCast_of_castSlot first]
  | error source =>
    by_cases lossy : kind = .lossy
    · subst lossy
      exact .inl ⟨wrapped array type, by simp [Pyarrow.small, cast], wrapped_rows known⟩
    · refine .inr ⟨⟨source, by simp [Pyarrow.small, cast, lossy]⟩, ?_⟩
      by_contra all
      have valued : array.dataType ≠ .null := fun null => by
        cases (Arrow.small_documented.cast_null null).symm.trans cast
      have distinct : array.dataType ≠ type := by
        intro same
        rw [same, classify_self] at known
        contradiction
      have castable (value : Value) (member : some value ∈ array.rows) :
          Arrow.Small.castValue array.dataType type value =
            some ((Arrow.Small.castValue array.dataType type value).getD value) := by
        cases converts : Arrow.Small.castValue array.dataType type value with
        | some result => rfl
        | none =>
          refine absurd ⟨some value, member, ?_⟩ all
          simp [slotCast, converts, known, lossy]
      obtain ⟨out, converted, -⟩ := Arrow.Small.castWithOptions_each valued distinct (classify_plain known valued)
        (classify_target_plain known valued) _ castable
      cases cast.symm.trans converted

end Small

theorem Pyarrow.small_slotwise : Pyarrow.small.Slotwise Small.slotCast where
  succeeds {array type kind} known := by
    rcases Small.cast_cases array known with ⟨out, done, rows⟩ | ⟨⟨error, fails⟩, slot, member, uncast⟩
    · refine iff_of_true ⟨out, done⟩ fun slot member => ?_
      have inside := List.mem_map_of_mem (f := Small.slotCast array.dataType type) member
      rw [← rows] at inside
      obtain ⟨result, -, same⟩ := List.mem_map.mp inside
      exact Option.isSome_iff_exists.mpr ⟨result, same.symm⟩
    · refine iff_of_false (fun ⟨out, done⟩ => by cases fails.symm.trans done) fun all => ?_
      simpa [uncast] using all slot member
  values {array out type kind} known done := by
    rcases Small.cast_cases array known with ⟨out', done', rows⟩ | ⟨⟨error, fails⟩, -⟩
    · cases done'.symm.trans done
      exact rows
    · cases fails.symm.trans done

end FsspecData.Python
