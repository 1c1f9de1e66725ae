import FsspecData.Arrow.RecordBatch
import FsspecData.Plan.Cast

/-! What the core relies on of the Arrow kernels. -/
namespace FsspecData

def DataType.isInteger (type : DataType) : Bool :=
  (CastRegistry.signedRank type).isSome || (CastRegistry.unsignedRank type).isSome

theorem DataType.isInteger_ranged {type : DataType} (integer : type.isInteger) :
    type.integerRange.isSome := by
  cases type <;> simp_all [isInteger, CastRegistry.signedRank, CastRegistry.unsignedRank, integerRange]

theorem DataType.undated_of_integer {type : DataType} (integer : type.isInteger) :
    type ≠ .date32 ∧ type ≠ .date64 := by
  constructor <;> rintro rfl <;> simp [isInteger, CastRegistry.signedRank, CastRegistry.unsignedRank] at integer

theorem DataType.isInteger_of_signed {type : DataType} {rank : Nat}
    (ranked : CastRegistry.signedRank type = some rank) : type.isInteger := by
  simp [isInteger, ranked]

theorem DataType.isInteger_of_unsigned {type : DataType} {rank : Nat}
    (ranked : CastRegistry.unsignedRank type = some rank) : type.isInteger := by
  simp [isInteger, ranked]

/-- The documented behaviour of the arrow-rs kernels. A union cast may turn a value
into a null, and no other cast does. -/
structure Arrow.Documented (arrow : Arrow) : Prop where
  cast_typed : arrow.castWithOptions array type = .ok out →
    out.dataType = type ∧ out.length = array.length
  cast_null : array.dataType = .null →
    arrow.castWithOptions array type = .ok (arrow.newNullArray type array.length)
  cast_keeps : (∀ fields mode, array.dataType ≠ .union fields mode) →
    arrow.castWithOptions array type = .ok out → array.dataType ≠ .null → out.HasNull → array.HasNull
  cast_integer : array.dataType.isInteger → type.isInteger →
    (∀ n, some (.integer n) ∈ array.rows → type.Represents n) →
    ∃ out, arrow.castWithOptions array type = .ok out ∧ out.rows = array.rows
  cast_unrepresented : array.dataType.isInteger → type.isInteger → some (.integer n) ∈ array.rows →
    ¬ type.Represents n → ∃ error, arrow.castWithOptions array type = .error error
  cast_date : array.dataType = .date32 →
    (∀ n, some (.integer n) ∈ array.rows → DataType.date64.Represents (n * 86400000)) →
    ∃ out, arrow.castWithOptions array .date64 = .ok out ∧
      out.rows = array.rows.map fun
        | some (.integer n) => some (.integer (n * 86400000))
        | slot => slot
  cast_text : array.dataType = .utf8 →
    ∃ out, arrow.castWithOptions array .largeUtf8 = .ok out ∧ out.rows = array.rows
  cast_float : (array.dataType, type) ∈ [(.float16, .float32), (.float16, .float64), (.float32, .float64)] →
    ∃ out, arrow.castWithOptions array type = .ok out ∧ out.rows = array.rows
  newNull_typed : (arrow.newNullArray type n).dataType = type
  newNull_rows : (arrow.newNullArray type n).rows = List.replicate n none
  newNull_nullCount : (arrow.newNullArray type n).nullCount = if type.hasValidity then n else 0
  take_repeats : array.rows = [row] → ∃ out, arrow.take array (List.replicate n 0) = .ok out ∧
    out.dataType = array.dataType ∧ out.rows = List.replicate n row ∧
    out.nullCount = n * array.nullCount

end FsspecData
