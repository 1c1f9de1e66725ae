/-! The Arrow types, fields and schemas the planner compares. Nested types hold
whole fields, so type equality sees nested names, nullability and metadata. -/
namespace FsspecData

inductive TimeUnit where
  | second | millisecond | microsecond | nanosecond
  deriving DecidableEq, Repr

inductive IntervalUnit where
  | yearMonth | dayTime | monthDayNano
  deriving DecidableEq, Repr

inductive UnionMode where
  | sparse | dense
  deriving DecidableEq, Repr

/-- String metadata, listed in key order. -/
abbrev Metadata := List (String × String)

mutual

inductive DataType where
  | null
  | boolean
  | int8 | int16 | int32 | int64
  | uint8 | uint16 | uint32 | uint64
  | float16 | float32 | float64
  | timestamp (unit : TimeUnit) (timezone : Option String)
  | date32 | date64
  | time32 (unit : TimeUnit) | time64 (unit : TimeUnit)
  | duration (unit : TimeUnit) | interval (unit : IntervalUnit)
  | binary | fixedSizeBinary (width : Int) | largeBinary | binaryView
  | utf8 | largeUtf8 | utf8View
  | list (item : Field) | listView (item : Field)
  | fixedSizeList (item : Field) (size : Int)
  | largeList (item : Field) | largeListView (item : Field)
  | struct (fields : Fields)
  | union (fields : UnionFields) (mode : UnionMode)
  | dictionary (key value : DataType)
  | decimal32 (precision : Nat) (scale : Int) | decimal64 (precision : Nat) (scale : Int)
  | decimal128 (precision : Nat) (scale : Int) | decimal256 (precision : Nat) (scale : Int)
  | map (entries : Field) (sorted : Bool)
  | runEndEncoded (runEnds values : Field)
  deriving DecidableEq, Repr

inductive Field where
  | mk (name : String) (dataType : DataType) (nullable : Bool) (metadata : Metadata)
  deriving DecidableEq, Repr

/-- The child fields of a struct. -/
inductive Fields where
  | nil
  | cons (head : Field) (tail : Fields)
  deriving DecidableEq, Repr

/-- The children of a union with their type ids. -/
inductive UnionFields where
  | nil
  | cons (typeId : Int) (head : Field) (tail : UnionFields)
  deriving DecidableEq, Repr

end

def Field.name : Field → String
  | .mk name _ _ _ => name

def Field.dataType : Field → DataType
  | .mk _ dataType _ _ => dataType

def Field.isNullable : Field → Bool
  | .mk _ _ nullable _ => nullable

def Fields.ofList : List Field → Fields
  | [] => .nil
  | head :: tail => .cons head (ofList tail)

def Fields.toList : Fields → List Field
  | .nil => []
  | .cons head tail => head :: tail.toList

@[simp] theorem Fields.toList_ofList (fields : List Field) : (ofList fields).toList = fields := by
  induction fields with
  | nil => rfl
  | cons head tail ih => simp [ofList, toList, ih]

structure Schema where
  fields : List Field
  metadata : Metadata
  deriving DecidableEq, Repr

end FsspecData
