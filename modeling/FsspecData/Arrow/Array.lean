import FsspecData.Base
import Mathlib.Data.Rat.Defs

/-! Arrow arrays by their physical layout. A layout has a validity buffer of its own
or it has none; the logical rows can hold nulls that no such buffer shows. -/
namespace FsspecData

/-- What a floating-point value denotes; every format holds a subset. -/
inductive FloatValue where
  | nan
  | infinity (negative : Bool)
  | negativeZero
  | finite (value : ℚ)
  deriving DecidableEq

/-- One non-null value. Dates count days or milliseconds from the epoch. Values of
types without a cast rule are only moved, so `other` does not look into them. -/
inductive Value where
  | boolean (value : Bool)
  | integer (value : Int)
  | float (value : FloatValue)
  | text (value : String)
  | other (content : List UInt8)
  deriving DecidableEq

/-- The physical layouts. `plain` is every layout with its own validity buffer and
values, `runEnd` counts rows by run ends, a union slot is a child and a row in it. -/
inductive Layout where
  | null (length : Nat)
  | plain (slots : List (Option Value))
  | dictionary (keys : List (Option Nat)) (values : Layout)
  | runEnd (ends : List Nat) (values : Layout)
  | union (slots : List (Nat × Nat)) (children : List Layout)

/-- The rows of runs that end at the given row numbers. -/
def expandRuns (start : Nat) : List Nat → List (Option Value) → List (Option Value)
  | finish :: ends, value :: values =>
    List.replicate (finish - start) value ++ expandRuns finish ends values
  | _, _ => []

namespace Layout

mutual

/-- The logical rows, `none` being null however the layout says so. -/
def rows : Layout → List (Option Value)
  | .null length => List.replicate length none
  | .plain slots => slots
  | .dictionary keys values => keys.map fun key => key.bind fun i => (rows values)[i]?.join
  | .runEnd ends values => expandRuns 0 ends (rows values)
  | .union slots children => slots.map fun (child, i) => ((rowsEach children)[child]?.bind (·[i]?)).join

def rowsEach : List Layout → List (List (Option Value))
  | [] => []
  | child :: rest => rows child :: rowsEach rest

end

/-- The nulls of the layout's own validity buffer, which arrow-rs counts. A null array,
a run-end-encoded array and a union have no such buffer. -/
def nullCount : Layout → Nat
  | .plain slots => slots.countP Option.isNone
  | .dictionary keys _ => keys.countP Option.isNone
  | .null _ | .runEnd _ _ | .union _ _ => 0

end Layout

/-- The values of the integer types, and of the two dates, which store integers. -/
def DataType.integerRange : DataType → Option (Int × Int)
  | .int8 => some (-2 ^ 7, 2 ^ 7 - 1)
  | .int16 => some (-2 ^ 15, 2 ^ 15 - 1)
  | .int32 | .date32 => some (-2 ^ 31, 2 ^ 31 - 1)
  | .int64 | .date64 => some (-2 ^ 63, 2 ^ 63 - 1)
  | .uint8 => some (0, 2 ^ 8 - 1)
  | .uint16 => some (0, 2 ^ 16 - 1)
  | .uint32 => some (0, 2 ^ 32 - 1)
  | .uint64 => some (0, 2 ^ 64 - 1)
  | _ => none

/-- The values an array of the type can hold in its own value buffers. -/
def DataType.admits (type : DataType) (value : Value) : Bool :=
  match type with
  | .boolean => (value matches .boolean _)
  | .int8 | .int16 | .int32 | .int64 | .uint8 | .uint16 | .uint32 | .uint64 | .date32 | .date64 =>
    match value, type.integerRange with
    | .integer n, some (low, high) => low ≤ n && n ≤ high
    | _, _ => false
  | .float16 | .float32 | .float64 => (value matches .float _)
  | .utf8 | .largeUtf8 | .utf8View => (value matches .text _)
  | _ => (value matches .other _)

/-- Types whose arrays have a validity buffer of their own. -/
def DataType.hasValidity : DataType → Bool
  | .null | .runEndEncoded _ _ | .union _ _ => false
  | _ => true

/-- The type has the integer among its values. -/
def DataType.Represents (type : DataType) (n : Int) : Prop :=
  ∃ low high, type.integerRange = some (low, high) ∧ low ≤ n ∧ n ≤ high

theorem DataType.admits_integer {type : DataType} (ranged : type.integerRange.isSome) {value : Value} :
    type.admits value = true ↔ ∃ n, value = .integer n ∧ type.Represents n := by
  cases type <;> simp [integerRange] at ranged <;> cases value <;>
    simp [admits, integerRange, Represents]

/-- The layout is one an array of the type has. -/
def Layout.fits : Layout → DataType → Bool
  | .null _, .null => true
  | .dictionary _ values, .dictionary _ value => values.fits value
  | .runEnd _ values, .runEndEncoded _ field => values.fits field.dataType
  | .union _ _, .union _ _ => true
  | .plain _, .null | .plain _, .dictionary _ _ | .plain _, .runEndEncoded _ _
  | .plain _, .union _ _ => false
  | .plain slots, type => slots.all fun slot => slot.all type.admits
  | _, _ => false

/-- Types of plain values: the arrays have one slot a row. -/
def DataType.isPlain (type : DataType) : Bool := (Layout.plain []).fits type

theorem DataType.isPlain_of_ranged {type : DataType} (ranged : type.integerRange.isSome) :
    type.isPlain := by
  cases type <;> simp_all [integerRange, isPlain, Layout.fits]

namespace Layout

/-- A plain layout fits a plain type exactly when the type admits each value. -/
theorem fits_plain {slots : List (Option Value)} {type : DataType} :
    (plain slots).fits type = true ↔ type.isPlain ∧
      ∀ slot ∈ slots, ∀ value, slot = some value → type.admits value = true := by
  cases type <;> simp [fits, DataType.isPlain, Option.all_eq_true]

theorem eq_plain {layout : Layout} {type : DataType} (is_plain : type.isPlain)
    (fit : layout.fits type = true) : ∃ slots, layout = .plain slots := by
  cases layout with
  | plain slots => exact ⟨slots, rfl⟩
  | _ => cases type <;> simp_all [fits, DataType.isPlain]

end Layout

/-- An array of a type, in a layout that fits it. -/
structure ArrayRef where
  dataType : DataType
  layout : Layout
  fits : layout.fits dataType

namespace ArrayRef

def rows (array : ArrayRef) : List (Option Value) := array.layout.rows
def length (array : ArrayRef) : Nat := array.rows.length
def nullCount (array : ArrayRef) : Nat := array.layout.nullCount

/-- The array holds a logical null. -/
def HasNull (array : ArrayRef) : Prop := none ∈ array.rows

theorem rows_single {array : ArrayRef} (single : array.length = 1) : ∃ row, array.rows = [row] :=
  List.length_eq_one_iff.mp single

instance (array : ArrayRef) : Decidable array.HasNull := inferInstanceAs (Decidable (none ∈ array.rows))

end ArrayRef

/-- A null that the validity buffer shows is a null. -/
theorem Layout.hasNull_of_nullCount {layout : Layout} (visible : 0 < layout.nullCount) :
    none ∈ layout.rows := by
  cases layout with
  | plain slots =>
    obtain ⟨slot, member, null⟩ := List.countP_pos_iff.mp visible
    obtain rfl := Option.isNone_iff_eq_none.mp null
    simpa [rows] using member
  | dictionary keys values =>
    obtain ⟨key, member, null⟩ := List.countP_pos_iff.mp visible
    obtain rfl := Option.isNone_iff_eq_none.mp null
    simp only [rows, List.mem_map]
    exact ⟨none, member, rfl⟩
  | null | runEnd | union => simp [nullCount] at visible

/-- Plain arrays show all their nulls. -/
theorem ArrayRef.nullCount_pos_of_plain {array : ArrayRef} (is_plain : array.dataType.isPlain)
    (null : array.HasNull) : 0 < array.nullCount := by
  obtain ⟨slots, plain⟩ := Layout.eq_plain is_plain array.fits
  rw [HasNull, rows, plain] at null
  rw [nullCount, plain]
  exact List.countP_pos_iff.mpr ⟨none, null, rfl⟩

/-- A plain array is its type and its rows. -/
theorem ArrayRef.ext_of_plain {left right : ArrayRef} (is_plain : left.dataType.isPlain)
    (typed : left.dataType = right.dataType) (rows : left.rows = right.rows) : left = right := by
  obtain ⟨slots, plain⟩ := Layout.eq_plain is_plain left.fits
  obtain ⟨slots', plain'⟩ := Layout.eq_plain (typed ▸ is_plain) right.fits
  obtain ⟨type, layout, fit⟩ := left
  obtain ⟨type', layout', fit'⟩ := right
  cases typed
  cases plain
  cases plain'
  obtain rfl : slots = slots' := rows
  rfl

/-- A null array has only nulls. -/
theorem ArrayRef.rows_null {array : ArrayRef} (null : array.dataType = .null) :
    array.rows = List.replicate array.length none := by
  obtain ⟨type, layout, fit⟩ := array
  cases null
  cases layout with
  | null length => simp [rows, ArrayRef.length, Layout.rows]
  | _ => simp [Layout.fits] at fit

theorem ArrayRef.nullCount_null {array : ArrayRef} (null : array.dataType = .null) :
    array.nullCount = 0 := by
  obtain ⟨type, layout, fit⟩ := array
  cases null
  cases layout with
  | null length => rfl
  | _ => simp [Layout.fits] at fit

/-- A plain array holds values of its type. -/
theorem ArrayRef.admits_row {array : ArrayRef} (is_plain : array.dataType.isPlain) {value : Value}
    (member : some value ∈ array.rows) : array.dataType.admits value = true := by
  obtain ⟨slots, plain⟩ := Layout.eq_plain is_plain array.fits
  have fit := array.fits
  rw [plain] at fit
  rw [ArrayRef.rows, plain] at member
  exact (Layout.fits_plain.mp fit).2 _ member value rfl

end FsspecData
