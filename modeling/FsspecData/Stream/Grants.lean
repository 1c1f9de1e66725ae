import FsspecData.Stream.Reference

/-! What the row limit lets through of a source of batches, batch by batch. It does not
depend on the batch size, which only cuts each granted stretch into slices. -/
namespace FsspecData.DecodedStream

open FsspecData

variable {B R : Type} [BatchLike B R]

/-- Every batch with the number of its rows that the budget admits. -/
def grants : Option Nat → List B → List (B × Nat)
  | _, [] => []
  | budget, batch :: rest =>
    (batch, granted budget (numRows batch)) ::
      grants (budget.map (· - granted budget (numRows batch))) rest

/-- The slices of the rows granted of one batch. -/
def grantSlices (size : Nat) (grant : B × Nat) : List (Stretch B) := slices size grant.1 0 grant.2

/-- A slice lies in what was granted of its batch. -/
theorem slices_within {size : Nat} {batch : B} {offset taken : Nat} {stretch : Stretch B}
    (member : stretch ∈ slices size batch offset taken) :
    stretch.batch = batch ∧ stretch.offset + stretch.length ≤ offset + taken := by
  obtain ⟨i, counted, rfl⟩ := List.mem_map.mp member
  have started : i < (taken + size - 1) / size := List.mem_range.mp counted
  have first_row : i * size < taken := by
    have sized : 0 < size := by
      by_contra empty
      obtain rfl : size = 0 := by omega
      simp at started
    have covered : (i + 1) * size ≤ taken + size - 1 :=
      (Nat.mul_le_mul_right size started).trans (Nat.div_mul_le_self _ size)
    rw [Nat.succ_mul] at covered
    omega
  refine ⟨rfl, ?_⟩
  simp only
  omega

theorem grants_le {budget : Option Nat} {source : List B} {grant : B × Nat}
    (member : grant ∈ grants budget source) : grant.2 ≤ numRows grant.1 := by
  induction source generalizing budget with
  | nil => simp [grants] at member
  | cons batch rest ih =>
    rcases List.mem_cons.mp member with rfl | later
    · exact granted_le _ _
    · exact ih later

theorem granted_min (budget : Option Nat) (size left : Nat) :
    granted budget (min size left) = min size (granted budget left) := by
  unfold granted
  cases budget with
  | none => rfl
  | some rows => simp only [Option.map_some, Option.getD_some]; omega

/-- What the budget still grants once it has granted the next slice. -/
theorem granted_rest (budget : Option Nat) (size left : Nat) :
    granted (budget.map (· - min size (granted budget left))) (left - min size left) =
      granted budget left - min size (granted budget left) := by
  unfold granted
  cases budget with
  | none => rfl
  | some rows => simp only [Option.map_some, Option.getD_some]; omega

theorem granted_zero (budget : Option Nat) : granted budget 0 = 0 := Nat.le_zero.mp (granted_le budget 0)

/-- The budget cuts the slices of a batch short as it cuts the batch. The induction is on
the rows not yet cut. -/
theorem limitRows_slices {size : Nat} (positive : 0 < size) (batch : B) (offset left : Nat)
    (budget : Option Nat) (rest : List (Except InterchangeError (Stretch B))) :
    limitRows budget ((slices size batch offset left).map .ok ++ rest) =
      (slices size batch offset (granted budget left)).map .ok ++
        limitRows (budget.map (· - granted budget left)) rest := by
  by_cases unspent : budget = some 0
  · subst unspent
    have none_granted : granted (some 0) left = 0 := by simp [granted]
    simp [none_granted, slices_zero positive]
  by_cases unread : 0 < left
  · have later := limitRows_slices positive batch (offset + min size left) (left - min size left)
      (budget.map (· - min size (granted budget left))) rest
    have some_granted : 0 < granted budget left := granted_pos unspent unread
    have budgets : (budget.map (· - min size (granted budget left))).map
        (· - (granted budget left - min size (granted budget left))) =
        budget.map (· - granted budget left) := by
      rw [Option.map_map]
      congr 1
      funext rows
      simp only [Function.comp_apply]
      omega
    -- where the offsets differ, nothing more is granted
    have same_slices : slices size batch (offset + min size left)
          (granted budget left - min size (granted budget left)) =
        slices size batch (offset + min size (granted budget left))
          (granted budget left - min size (granted budget left)) := by
      by_cases short : granted budget left ≤ size
      · rw [Nat.min_eq_right short, Nat.sub_self, slices_zero positive, slices_zero positive]
      · have := granted_le budget left
        rw [Nat.min_eq_left (by omega), Nat.min_eq_left (by omega)]
    rw [granted_rest, budgets, same_slices] at later
    rw [slices_succ positive unread, List.map_cons, List.cons_append, limitRows_ok unspent, granted_min,
      later, slices_succ positive some_granted, List.map_cons, List.cons_append]
  · obtain rfl : left = 0 := by omega
    have same : budget.map (· - 0) = budget := by simp
    rw [granted_zero, slices_zero positive, same]
    rfl
termination_by left
decreasing_by omega

theorem limitRows_pieces {size : Nat} (positive : 0 < size) (budget : Option Nat) (source : List B) :
    limitRows budget (pieces size (source.map .ok)) =
      ((grants budget source).flatMap (grantSlices size)).map .ok := by
  induction source generalizing budget with
  | nil => simp [pieces, grants]
  | cons batch rest ih =>
    rw [List.map_cons, pieces_ok, cuts_eq_slices, Nat.sub_zero, limitRows_slices positive, ih, grants,
      List.flatMap_cons, List.map_append]
    rfl

theorem untilError_ok (source : List B) : untilError (source.map .ok) = source.map .ok := by
  induction source with
  | nil => rfl
  | cons batch rest ih => simp [untilError, ih]

/-- An error-free source yields, up to the byte limit, the slices of what is granted. -/
theorem reference_ok (source : List B) {options : StreamOptions} (positive : 0 < options.batchSize) :
    reference (source.map .ok) options = limitBytes options.byteLimit 0
      (((grants options.rowLimit source).flatMap (grantSlices options.batchSize)).map fun stretch =>
        .ok stretch.output) := by
  rw [reference, untilError_ok, limitRows_pieces positive, outputs, List.map_map]
  rfl

end FsspecData.DecodedStream
