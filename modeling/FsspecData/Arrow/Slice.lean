import FsspecData.Arrow.RecordBatch
import FsspecData.Stream.Decoded
import Mathlib.Algebra.GroupWithZero.Nat

/-! Slices of arrays and record batches, and when batches are what another one was split
into. Slicing is a parameter like the kernels: a slice shares the buffers of its array. -/
namespace FsspecData

/-- What the core relies on of slicing in arrow-rs. -/
class Slicing where
  sliceArray : ArrayRef → Nat → Nat → ArrayRef
  arrayMemory : ArrayRef → Nat
  slice_type (array : ArrayRef) (offset length : Nat) : (sliceArray array offset length).dataType = array.dataType
  slice_rows (array : ArrayRef) (offset length : Nat) : offset + length ≤ array.length →
    (sliceArray array offset length).rows = (array.rows.drop offset).take length
  slice_nullCount (array : ArrayRef) (offset length more : Nat) : offset + (length + more) ≤ array.length →
    (sliceArray array offset (length + more)).nullCount =
      (sliceArray array offset length).nullCount + (sliceArray array (offset + length) more).nullCount
  slice_whole (array : ArrayRef) : (sliceArray array 0 array.length).nullCount = array.nullCount

namespace Slicing

variable [Slicing]

theorem slice_length {array : ArrayRef} {offset length : Nat} (inside : offset + length ≤ array.length) :
    (sliceArray array offset length).length = length := by
  have bound : offset + length ≤ array.rows.length := inside
  rw [ArrayRef.length, slice_rows array offset length inside, List.length_take, List.length_drop]
  omega

/-- The nulls before, in and behind a slice are those of the array. -/
theorem nullCount_split (array : ArrayRef) {offset length : Nat} (inside : offset + length ≤ array.length) :
    array.nullCount = (sliceArray array 0 offset).nullCount + (sliceArray array offset length).nullCount +
      (sliceArray array (offset + length) (array.length - (offset + length))).nullCount := by
  have behind := slice_nullCount array 0 (offset + length) (array.length - (offset + length)) (by omega)
  have before := slice_nullCount array 0 offset length (by omega)
  rw [show offset + length + (array.length - (offset + length)) = array.length by omega, slice_whole,
    Nat.zero_add] at behind
  rw [Nat.zero_add] at before
  rw [behind, before]

end Slicing

namespace RecordBatch

/-- The slots of a column, none where there is no such column. -/
def columnRows (batch : RecordBatch) (i : Nat) : List (Option Value) :=
  (batch.columns[i]?.map ArrayRef.rows).getD []

def columnNulls (batch : RecordBatch) (i : Nat) : Nat :=
  (batch.columns[i]?.map ArrayRef.nullCount).getD 0

theorem columnRows_eq {batch : RecordBatch} {i : Nat} {column : ArrayRef}
    (at_i : batch.columns[i]? = some column) : batch.columnRows i = column.rows := by simp [columnRows, at_i]

theorem columnNulls_eq {batch : RecordBatch} {i : Nat} {column : ArrayRef}
    (at_i : batch.columns[i]? = some column) : batch.columnNulls i = column.nullCount := by
  simp [columnNulls, at_i]

theorem columnRows_length {batch : RecordBatch} {i : Nat} (inside : i < batch.columns.length) :
    (batch.columnRows i).length = batch.numRows := by
  rw [columnRows_eq (List.getElem?_eq_getElem inside)]
  exact batch.column_length (List.getElem?_eq_getElem inside)

theorem columnRows_whole (batch : RecordBatch) (i : Nat) :
    ((batch.columnRows i).drop 0).take batch.numRows = batch.columnRows i := by
  rw [List.drop_zero, List.take_of_length_le]
  by_cases has : i < batch.columns.length
  · rw [columnRows_length has]
  · simp [columnRows, List.getElem?_eq_none (by omega : batch.columns.length ≤ i)]

theorem same_width {batch other : RecordBatch} (same : batch.schema = other.schema) :
    batch.columns.length = other.columns.length := by
  rw [batch.valid.width, other.valid.width, same]

/-- Batches of one schema with the rows of another one, in order: its slots column by
column, and the nulls its validity buffers show. -/
structure Concatenates (parts : List RecordBatch) (whole : RecordBatch) : Prop where
  schema : ∀ part ∈ parts, part.schema = whole.schema
  numRows : whole.numRows = (parts.map (·.numRows)).sum
  columnRows : ∀ i, whole.columnRows i = parts.flatMap (·.columnRows i)
  columnNulls : ∀ i, whole.columnNulls i = (parts.map (·.columnNulls i)).sum

/-! Rows across the columns. -/

/-- The first `count` rows of some columns. -/
def transposed (columns : Nat → List (Option Value)) (width count : Nat) : List (List (Option Value)) :=
  (List.range count).map fun k => (List.range width).map fun i => (columns i)[k]?.join

def rowList (batch : RecordBatch) : List (List (Option Value)) :=
  transposed batch.columnRows batch.columns.length batch.numRows

theorem transposed_congr {columns others : Nat → List (Option Value)} {width count : Nat}
    (same : ∀ i < width, columns i = others i) :
    transposed columns width count = transposed others width count := by
  apply List.map_congr_left
  intro k _
  apply List.map_congr_left
  intro i member
  rw [same i (List.mem_range.mp member)]

theorem transposed_append {columns others : Nat → List (Option Value)} {width : Nat} (count more : Nat)
    (long : ∀ i < width, (columns i).length = count) :
    transposed (fun i => columns i ++ others i) width (count + more) =
      transposed columns width count ++ transposed others width more := by
  rw [transposed, List.range_add, List.map_append, List.map_map]
  congr 1
  all_goals
    apply List.map_congr_left
    intro k counted
    apply List.map_congr_left
    intro i member
    have long := long i (List.mem_range.mp member)
  · have counted := List.mem_range.mp counted
    rw [List.getElem?_append_left (by omega)]
  · simp only
    rw [List.getElem?_append_right (by omega), long, Nat.add_sub_cancel_left]

theorem transposed_slice {columns : Nat → List (Option Value)} (width : Nat) {offset length count : Nat}
    (inside : offset + length ≤ count) :
    transposed (fun i => ((columns i).drop offset).take length) width length =
      ((transposed columns width count).drop offset).take length := by
  apply List.ext_getElem
  · simp only [transposed, List.length_map, List.length_range, List.length_take, List.length_drop]
    omega
  · intro k bound _
    have counted : k < length := by simpa [transposed] using bound
    simp [transposed, List.getElem?_take_of_lt counted, List.getElem?_drop]

theorem Concatenates.rowList {parts : List RecordBatch} {whole : RecordBatch}
    (concatenates : Concatenates parts whole) : whole.rowList = parts.flatMap (·.rowList) := by
  have width : ∀ part ∈ parts, part.columns.length = whole.columns.length := fun part member =>
    same_width (concatenates.schema part member)
  rw [RecordBatch.rowList, transposed_congr fun i _ => concatenates.columnRows i, concatenates.numRows]
  generalize whole.columns.length = wide at width
  clear concatenates
  induction parts with
  | nil => rfl
  | cons part rest ih =>
    have first := width part List.mem_cons_self
    have later := ih fun other member => width other (List.mem_cons_of_mem _ member)
    have long : ∀ i < wide, (part.columnRows i).length = part.numRows := fun i inside =>
      columnRows_length (first ▸ inside)
    simp only [List.flatMap_cons, List.map_cons, List.sum_cons]
    rw [transposed_append _ _ long, later, RecordBatch.rowList, first]

/-! Slices of a batch. -/

section Slices

variable [Slicing]

/-- A slice in range is a batch like the whole one. -/
theorem slice_accepts (batch : RecordBatch) {offset length : Nat} (inside : offset + length ≤ batch.numRows) :
    Accepts batch.schema (batch.columns.map fun column => Slicing.sliceArray column offset length) length := by
  have bound := batch.valid.word
  have long {column : ArrayRef} (member : column ∈ batch.columns) : offset + length ≤ column.length := by
    rw [batch.valid.lengths column member]
    exact inside
  have entries {entry : Field × ArrayRef} (member : entry ∈ batch.schema.fields.zip
      (batch.columns.map fun column => Slicing.sliceArray column offset length)) :
      ∃ column, (entry.1, column) ∈ batch.schema.fields.zip batch.columns ∧ column ∈ batch.columns ∧
        entry.2 = Slicing.sliceArray column offset length := by
    rw [List.zip_map_right] at member
    obtain ⟨⟨field, column⟩, paired, rfl⟩ := List.mem_map.mp member
    exact ⟨column, paired, (List.of_mem_zip paired).2, rfl⟩
  refine ⟨by rw [List.length_map]; exact batch.valid.width, ?_, ?_, ?_, by omega⟩
  · intro entry member
    obtain ⟨column, paired, _, same⟩ := entries member
    rw [same, Slicing.slice_type]
    exact batch.valid.types _ paired
  · intro column member
    obtain ⟨whole, inside, rfl⟩ := List.mem_map.mp member
    exact Slicing.slice_length (long inside)
  · intro entry member required
    obtain ⟨column, paired, inside, same⟩ := entries member
    have none_shown := batch.valid.nullability _ paired required
    have split := Slicing.nullCount_split column (long inside)
    rw [same]
    simp only at none_shown
    omega

/-- `RecordBatch::slice`. Out of range it panics, which no caller here reaches: the
model then returns the batch. -/
def slice (batch : RecordBatch) (offset length : Nat) : RecordBatch :=
  if inside : offset + length ≤ batch.numRows then ⟨batch.schema, _, length, batch.slice_accepts inside⟩
  else batch

theorem slice_schema (batch : RecordBatch) (offset length : Nat) :
    (batch.slice offset length).schema = batch.schema := by
  unfold slice
  split <;> rfl

section Inside

variable {batch : RecordBatch} {offset length : Nat}

theorem slice_numRows (inside : offset + length ≤ batch.numRows) : (batch.slice offset length).numRows = length := by
  rw [slice, dif_pos inside]

theorem slice_columns (inside : offset + length ≤ batch.numRows) : (batch.slice offset length).columns =
    batch.columns.map fun column => Slicing.sliceArray column offset length := by
  rw [slice, dif_pos inside]

theorem slice_columnRows (inside : offset + length ≤ batch.numRows) (i : Nat) :
    (batch.slice offset length).columnRows i = ((batch.columnRows i).drop offset).take length := by
  rw [columnRows, slice_columns inside, List.getElem?_map, columnRows]
  cases at_i : batch.columns[i]? with
  | none => simp
  | some column =>
    have long : offset + length ≤ column.length := by
      rw [batch.column_length at_i]
      exact inside
    exact Slicing.slice_rows column offset length long

/-- A further stretch of rows adds the nulls it shows. -/
theorem slice_columnNulls {more : Nat} (inside : offset + (length + more) ≤ batch.numRows) (i : Nat) :
    (batch.slice offset (length + more)).columnNulls i =
      (batch.slice offset length).columnNulls i + (batch.slice (offset + length) more).columnNulls i := by
  rw [columnNulls, columnNulls, columnNulls, slice_columns inside, slice_columns (by omega),
    slice_columns (by omega), List.getElem?_map, List.getElem?_map, List.getElem?_map]
  cases at_i : batch.columns[i]? with
  | none => rfl
  | some column =>
    have long : offset + (length + more) ≤ column.length := by
      rw [batch.column_length at_i]
      exact inside
    exact Slicing.slice_nullCount column offset length more long

end Inside

theorem slice_whole_columnNulls (batch : RecordBatch) (i : Nat) :
    (batch.slice 0 batch.numRows).columnNulls i = batch.columnNulls i := by
  rw [columnNulls, columnNulls, slice_columns (by omega), List.getElem?_map]
  cases at_i : batch.columns[i]? with
  | none => rfl
  | some column =>
    have whole := Slicing.slice_whole column
    rw [batch.column_length at_i] at whole
    exact whole

instance : BatchLike RecordBatch (List (Option Value)) where
  numRows batch := batch.numRows
  rows := rowList
  slice := slice
  getArrayMemorySize batch := (batch.columns.map Slicing.arrayMemory).sum
  rows_length batch := by simp [rowList, transposed]
  numRows_le batch := batch.valid.word
  rows_slice batch offset length inside := by
    have width := same_width (batch.slice_schema offset length)
    rw [rowList, width, slice_numRows inside, transposed_congr fun i _ => slice_columnRows inside i,
      transposed_slice _ inside]
    rfl

end Slices

/-- A way to cut stretches of rows out of a batch. -/
structure Cuts (batch : RecordBatch) (cut : Nat → Nat → RecordBatch) : Prop where
  schema (offset length : Nat) : (cut offset length).schema = batch.schema
  numRows {offset length : Nat} : offset + length ≤ batch.numRows → (cut offset length).numRows = length
  columnRows {offset length : Nat} : offset + length ≤ batch.numRows → ∀ i,
    (cut offset length).columnRows i = ((batch.columnRows i).drop offset).take length
  columnNulls {offset length more : Nat} : offset + (length + more) ≤ batch.numRows → ∀ i,
    (cut offset (length + more)).columnNulls i =
      (cut offset length).columnNulls i + (cut (offset + length) more).columnNulls i

/-- Stretches of the given lengths, one behind the other. -/
def consecutive (cut : Nat → Nat → RecordBatch) : Nat → List Nat → List RecordBatch
  | _, [] => []
  | offset, length :: rest => cut offset length :: consecutive cut (offset + length) rest

/-- Consecutive stretches concatenate to the stretch they cover. The induction is on the
lengths, and the offset moves with it. -/
theorem Cuts.consecutive {batch : RecordBatch} {cut : Nat → Nat → RecordBatch} (cuts : Cuts batch cut)
    (lengths : List Nat) (offset : Nat) (inside : offset + lengths.sum ≤ batch.numRows) :
    Concatenates (consecutive cut offset lengths) (cut offset lengths.sum) := by
  induction lengths generalizing offset with
  | nil =>
    refine ⟨by simp [RecordBatch.consecutive], ?_, ?_, ?_⟩
    · rw [cuts.numRows inside]
      rfl
    · intro i
      rw [cuts.columnRows inside]
      rfl
    · intro i
      have twice : (cut offset (0 + 0)).columnNulls i =
          (cut offset 0).columnNulls i + (cut (offset + 0) 0).columnNulls i :=
        cuts.columnNulls (by simpa using inside) i
      simp only [Nat.add_zero] at twice
      simp only [List.sum_nil, RecordBatch.consecutive, List.map_nil]
      omega
  | cons length rest ih =>
    rw [List.sum_cons] at inside ⊢
    have later := ih (offset + length) (by omega)
    refine ⟨?_, ?_, ?_, ?_⟩
    · intro part member
      rcases List.mem_cons.mp member with rfl | behind
      · rw [cuts.schema, cuts.schema]
      · rw [later.schema part behind, cuts.schema, cuts.schema]
    · have rows := later.numRows
      rw [cuts.numRows (by omega)] at rows ⊢
      rw [RecordBatch.consecutive, List.map_cons, List.sum_cons, cuts.numRows (by omega), ← rows]
    · intro i
      have rows := later.columnRows i
      rw [cuts.columnRows (by omega)] at rows ⊢
      rw [RecordBatch.consecutive, List.flatMap_cons, cuts.columnRows (by omega), ← rows, List.take_add,
        List.drop_drop]
    · intro i
      rw [cuts.columnNulls inside, RecordBatch.consecutive, List.map_cons, List.sum_cons, later.columnNulls i]

variable [Slicing]

theorem slice_cuts (batch : RecordBatch) : Cuts batch batch.slice :=
  ⟨batch.slice_schema, slice_numRows, slice_columnRows, slice_columnNulls⟩

/-- The slices of all rows concatenate to the batch. -/
theorem consecutive_whole (batch : RecordBatch) {lengths : List Nat} (all : lengths.sum = batch.numRows) :
    Concatenates (consecutive batch.slice 0 lengths) batch := by
  have slices := batch.slice_cuts.consecutive lengths 0 (by omega)
  rw [all] at slices
  have inside : 0 + batch.numRows ≤ batch.numRows := by omega
  refine ⟨fun part member => (slices.schema part member).trans (batch.slice_schema _ _), ?_, ?_, ?_⟩
  · rw [← slices.numRows, slice_numRows inside]
  · intro i
    rw [← slices.columnRows i, slice_columnRows inside, columnRows_whole]
  · intro i
    rw [← slices.columnNulls i, slice_whole_columnNulls]

/-- What the stream yields of a batch is a slice, or the batch itself with the same data. -/
theorem cutout_cuts (batch : RecordBatch) : Cuts batch (DecodedStream.cutout batch) := by
  have same {offset length : Nat} (inside : offset + length ≤ batch.numRows) (i : Nat) :
      (DecodedStream.cutout batch offset length).columnNulls i = (batch.slice offset length).columnNulls i := by
    unfold DecodedStream.cutout
    split
    next whole =>
      obtain ⟨rfl, rfl⟩ := whole
      exact (batch.slice_whole_columnNulls i).symm
    next => rfl
  refine ⟨?_, ?_, ?_, ?_⟩
  · intro offset length
    unfold DecodedStream.cutout
    split
    next => rfl
    next => exact batch.slice_schema offset length
  · intro offset length inside
    unfold DecodedStream.cutout
    split
    next whole => exact whole.2.symm
    next => exact slice_numRows inside
  · intro offset length inside i
    unfold DecodedStream.cutout
    split
    next whole =>
      obtain ⟨rfl, rfl⟩ := whole
      exact (columnRows_whole batch i).symm
    next => exact slice_columnRows inside i
  · intro offset length more inside i
    rw [same inside, same (by omega), same (by omega), slice_columnNulls inside]

end RecordBatch

/-! Slicing by copying: a layout of the slice alone. -/

namespace Layout

/-- The lengths of runs that end at the given row numbers. -/
def runLengths (start : Nat) : List Nat → List Nat
  | [] => []
  | finish :: ends => (finish - start) :: runLengths finish ends

def runEnds (start : Nat) : List Nat → List Nat
  | [] => []
  | length :: lengths => (start + length) :: runEnds (start + length) lengths

/-- What `count` rows behind the first `skipped` ones leave of each run. -/
def clipRuns (skipped count : Nat) : List Nat → List Nat
  | [] => []
  | length :: lengths =>
    min count (length - skipped) :: clipRuns (skipped - length) (count - (length - skipped)) lengths

theorem expandRuns_clipped (out start skipped count : Nat) (ends : List Nat) (values : List (Option Value)) :
    expandRuns out (runEnds out (clipRuns skipped count (runLengths start ends))) values =
      ((expandRuns start ends values).drop skipped).take count := by
  induction ends generalizing out start skipped count values with
  | nil => simp [runLengths, clipRuns, runEnds, expandRuns]
  | cons finish ends ih =>
    cases values with
    | nil => simp [runLengths, clipRuns, runEnds, expandRuns]
    | cons value values =>
      simp only [runLengths, clipRuns, runEnds, expandRuns, ih, Nat.add_sub_cancel_left, List.drop_append,
        List.drop_replicate, List.take_append, List.take_replicate, List.length_replicate]

def slice (offset length : Nat) : Layout → Layout
  | .null _ => .null length
  | .plain slots => .plain ((slots.drop offset).take length)
  | .dictionary keys values => .dictionary ((keys.drop offset).take length) values
  | .runEnd ends values => .runEnd (runEnds 0 (clipRuns offset length (runLengths 0 ends))) values
  | .union slots children => .union ((slots.drop offset).take length) children

theorem slice_rows {layout : Layout} {offset length : Nat} (inside : offset + length ≤ layout.rows.length) :
    (layout.slice offset length).rows = (layout.rows.drop offset).take length := by
  cases layout with
  | null count =>
    rw [rows, List.length_replicate] at inside
    simp only [slice, rows, List.drop_replicate, List.take_replicate]
    congr 1
    omega
  | plain slots => rfl
  | dictionary keys values => simp [slice, rows, List.map_drop, List.map_take]
  | runEnd ends values => simp only [slice, rows, expandRuns_clipped]
  | union slots children => simp [slice, rows, List.map_drop, List.map_take]

theorem slice_nullCount (layout : Layout) (offset length more : Nat) :
    (layout.slice offset (length + more)).nullCount =
      (layout.slice offset length).nullCount + (layout.slice (offset + length) more).nullCount := by
  cases layout <;> simp [slice, nullCount, List.take_add, List.drop_drop]

theorem slice_whole (layout : Layout) : (layout.slice 0 layout.rows.length).nullCount = layout.nullCount := by
  cases layout <;> simp [slice, nullCount, rows]

theorem slice_fits {layout : Layout} {type : DataType} (fit : layout.fits type = true) (offset length : Nat) :
    (layout.slice offset length).fits type = true := by
  cases layout with
  | plain slots =>
    obtain ⟨is_plain, admitted⟩ := fits_plain.mp fit
    refine fits_plain.mpr ⟨is_plain, fun slot member => ?_⟩
    exact admitted slot (List.mem_of_mem_drop (List.mem_of_mem_take member))
  | _ => cases type <;> simp_all [slice, fits]

end Layout

/-- Slicing by copying, with as many bytes as rows. -/
abbrev Slicing.small : Slicing where
  sliceArray array offset length :=
    ⟨array.dataType, array.layout.slice offset length, Layout.slice_fits array.fits offset length⟩
  arrayMemory array := array.length
  slice_type _ _ _ := rfl
  slice_rows _ _ _ := Layout.slice_rows
  slice_nullCount array offset length more _ := array.layout.slice_nullCount offset length more
  slice_whole array := array.layout.slice_whole

end FsspecData
