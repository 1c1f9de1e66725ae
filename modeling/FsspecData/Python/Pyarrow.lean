import FsspecData.Python.Interchange
import FsspecData.Arrow.SmallKernel

/-! What the Python executor relies on of pyarrow, and a small kernel that has it. -/
namespace FsspecData.Python

open CastRegistry Plan

/-- What the executor relies on of pyarrow, beside the arrow-rs kernels: schemas with the same
names, types and nullability are equal, the casts agree where arrow-rs succeeds, a safe cast
fails where it fails, and an unsafe one between numbers or dates wraps or truncates. -/
structure Pyarrow.Documented (pyarrow : Pyarrow) (arrow : Arrow) : Prop where
  schema_equals {left right : Schema} : schemaFieldsEqual left right = true → pyarrow.schemaEquals left right = true
  cast_agrees (safe : Bool) : arrow.castWithOptions array type = .ok out →
    ∃ result, pyarrow.cast array type safe = .ok result ∧ result.dataType = type ∧ result.rows = out.rows
  cast_safe : arrow.castWithOptions array type = .error source →
    ∃ error, pyarrow.cast array type true = .error error
  cast_unsafe : classify array.dataType type = some .lossy →
    ∃ result, pyarrow.cast array type false = .ok result ∧ result.dataType = type ∧
      result.length = array.length
  repeated_rows : array.rows = [row] → ∃ result, pyarrow.repeated array n = .ok result ∧
    result.dataType = array.dataType ∧ result.rows = List.replicate n row

/-! The small kernel casts as the small Rust one, and wraps where that one fails. -/

namespace Small

/-- An unsafe cast of one value: integers wrap around the range of the target. -/
def wrap (type : DataType) : Value → Value
  | .integer n =>
    match type.integerRange with
    | some (low, high) => .integer (low + (n - low) % (high - low + 1))
    | none => .float (.finite n)
  | value => value

/-- The wrapped values, or nulls where the target still has none of them. -/
def wrapped (array : ArrayRef) (type : DataType) : ArrayRef :=
  match Arrow.Small.checked type (.plain (array.rows.map (Option.map (wrap type)))) with
  | .ok result => result
  | .error _ => Arrow.small.newNullArray type array.length

theorem wrapped_typed (array : ArrayRef) (type : DataType) :
    (wrapped array type).dataType = type ∧ (wrapped array type).length = array.length := by
  unfold wrapped Arrow.Small.checked
  split
  next result made =>
    split_ifs at made
    cases made
    exact ⟨rfl, by simp [ArrayRef.length, ArrayRef.rows, Layout.rows]⟩
  next =>
    exact ⟨rfl, by
      rw [ArrayRef.length, Arrow.small_documented.newNull_rows, List.length_replicate]⟩

end Small

def Pyarrow.small : Pyarrow where
  schemaEquals := schemaFieldsEqual
  cast array type safe :=
    match Arrow.small.castWithOptions array type with
    | .ok out => .ok out
    | .error source => if safe then .error source else .ok (Small.wrapped array type)
  repeated array n := Arrow.small.take array (List.replicate n 0)

theorem Pyarrow.small_documented : Pyarrow.small.Documented Arrow.small where
  schema_equals same := same
  cast_agrees safe cast := ⟨_, by simp only [small, cast],
    (Arrow.small_documented.cast_typed cast).1, rfl⟩
  cast_safe cast := ⟨_, by simp only [small, cast]; rfl⟩
  cast_unsafe {type array} lossy := by
    cases cast : Arrow.small.castWithOptions array type with
    | ok out =>
      obtain ⟨typed, length⟩ := Arrow.small_documented.cast_typed cast
      exact ⟨out, by simp only [small, cast], typed, length⟩
    | error source =>
      obtain ⟨typed, length⟩ := Small.wrapped_typed array type
      exact ⟨Small.wrapped array type, by simp only [small, cast]; rfl, typed, length⟩
  repeated_rows single := by
    obtain ⟨out, taken, typed, rows, _⟩ := Arrow.small_documented.take_repeats single
    exact ⟨out, taken, typed, rows⟩

end FsspecData.Python
