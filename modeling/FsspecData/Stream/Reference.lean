import FsspecData.Stream.Decoded
import Mathlib.Data.List.Infix
import Mathlib.Tactic.ByContra

/-! What a decoded stream is for: a whole-source reading of the three limits, with no
state. The iterator refines it for every finite source. -/
namespace FsspecData.DecodedStream

open FsspecData

variable {B R : Type} [BatchLike B R]

/-- A stretch of one source batch. -/
structure Stretch (B : Type) where
  batch : B
  offset : Nat
  length : Nat

def Stretch.output (stretch : Stretch B) : B := cutout stretch.batch stretch.offset stretch.length

def untilError : List (Item B) → List (Item B)
  | [] => []
  | .ok batch :: rest => .ok batch :: untilError rest
  | .error error :: _ => [.error error]

/-- Consecutive stretches of `size` rows from `offset` on, the last one shorter. -/
def cuts (size : Nat) (batch : B) (offset : Nat) : List (Stretch B) :=
  let unread := numRows batch - offset
  (List.range ((unread + size - 1) / size)).map fun i =>
    ⟨batch, offset + i * size, min size (unread - i * size)⟩

/-- Every source item in pieces; a batch without rows has none. -/
def pieces (size : Nat) (items : List (Item B)) : List (Except InterchangeError (Stretch B)) :=
  items.flatMap fun
    | .ok batch => (cuts size batch 0).map .ok
    | .error error => [.error error]

/-- The pieces up to the row budget, the last one shortened to it. -/
def limitRows : Option Nat → List (Except InterchangeError (Stretch B)) →
    List (Except InterchangeError (Stretch B))
  | some 0, _ => []
  | _, [] => []
  | budget, .error error :: rest => .error error :: limitRows budget rest
  | none, .ok stretch :: rest => .ok stretch :: limitRows none rest
  | some (rows + 1), .ok stretch :: rest =>
    let length := min (rows + 1) stretch.length
    .ok { stretch with length := length } :: limitRows (some (rows + 1 - length)) rest

/-- The items while the running memory sum stays within the limit; the first one over
it becomes the only error. The reported sum is a `usize`, so it saturates. -/
def limitBytes (limit : Option Nat) : Nat → List (Item B) → List (Item B)
  | _, [] => []
  | spent, .error error :: rest => .error error :: limitBytes limit spent rest
  | spent, .ok batch :: rest =>
    let attempted := spent + getArrayMemorySize batch
    match limit with
    | some bytes =>
      if attempted > bytes then [.error (.byteLimitExceeded bytes (min attempted usizeMax))]
      else .ok batch :: limitBytes limit attempted rest
    | none => .ok batch :: limitBytes limit attempted rest

def outputs (stretches : List (Except InterchangeError (Stretch B))) : List (Item B) :=
  stretches.map (Except.map Stretch.output)

def reference (source : List (Item B)) (options : StreamOptions) : List (Item B) :=
  limitBytes options.byteLimit 0 (outputs
    (limitRows options.rowLimit (pieces options.batchSize (untilError source))))

/-- The cuts of `taken` rows from `offset` on. -/
def slices (size : Nat) (batch : B) (offset taken : Nat) : List (Stretch B) :=
  (List.range ((taken + size - 1) / size)).map fun i =>
    ⟨batch, offset + i * size, min size (taken - i * size)⟩

theorem cuts_eq_slices (size : Nat) (batch : B) (offset : Nat) :
    cuts size batch offset = slices size batch offset (numRows batch - offset) := rfl

theorem slices_zero {size : Nat} (positive : 0 < size) (batch : B) (offset : Nat) :
    slices size batch offset 0 = [] := by
  have no_piece : (0 + size - 1) / size = 0 := Nat.div_eq_of_lt (by omega)
  simp only [slices, no_piece, List.range_zero, List.map_nil]

/-- Rounding the row count up takes one off for the piece cut next. -/
theorem pieces_left (size rows : Nat) (positive : 0 < size) (unread : 0 < rows) :
    (rows + size - 1) / size = (rows - min size rows + size - 1) / size + 1 := by
  rcases Nat.lt_or_ge rows size with short | long
  · rw [Nat.min_eq_right (by omega), Nat.sub_self, Nat.zero_add,
      Nat.div_eq_of_lt (show size - 1 < size by omega)]
    exact Nat.div_eq_of_lt_le (by omega) (by omega)
  · rw [Nat.min_eq_left long, ← Nat.add_div_right _ positive]
    congr 1
    omega

theorem slices_succ {size taken : Nat} (positive : 0 < size) (some_taken : 0 < taken) (batch : B)
    (offset : Nat) : slices size batch offset taken =
      ⟨batch, offset, min size taken⟩ ::
        slices size batch (offset + min size taken) (taken - min size taken) := by
  simp only [slices]
  rw [pieces_left size taken positive some_taken, List.range_succ_eq_map, List.map_cons, List.map_map]
  congr 1
  · simp
  · apply List.map_congr_left
    intro i member
    have inside : i < (taken - min size taken + size - 1) / size := List.mem_range.mp member
    -- a further piece exists only after a full one
    have full : size < taken := by
      by_contra short
      have none_left : taken - min size taken = 0 := by omega
      rw [none_left, Nat.div_eq_of_lt (by omega)] at inside
      omega
    have shift : (i + 1) * size = i * size + size := Nat.succ_mul i size
    simp only [Function.comp_apply, Nat.succ_eq_add_one, shift, Stretch.mk.injEq, true_and]
    omega

theorem cuts_read {size offset : Nat} {batch : B} (positive : 0 < size)
    (read : numRows batch ≤ offset) : cuts size batch offset = [] := by
  rw [cuts_eq_slices, Nat.sub_eq_zero_of_le read, slices_zero positive]

theorem cuts_unread {size offset : Nat} {batch : B} (positive : 0 < size)
    (unread : offset < numRows batch) :
    cuts size batch offset = ⟨batch, offset, min size (numRows batch - offset)⟩ ::
      cuts size batch (offset + min size (numRows batch - offset)) := by
  rw [cuts_eq_slices, slices_succ positive (by omega), cuts_eq_slices, Nat.sub_sub]

@[simp] theorem pieces_error (size : Nat) (error : InterchangeError) (rest : List (Item B)) :
    pieces size (.error error :: rest) = .error error :: pieces size rest := rfl

@[simp] theorem pieces_ok (size : Nat) (batch : B) (rest : List (Item B)) :
    pieces size (.ok batch :: rest) = (cuts size batch 0).map .ok ++ pieces size rest := rfl

theorem rows_cutout (batch : B) (offset length : Nat) (inside : offset + length ≤ numRows batch) :
    rows (cutout batch offset length) = ((rows batch).drop offset).take length := by
  unfold cutout
  split
  next whole =>
    rw [whole.1, whole.2, ← BatchLike.rows_length, List.drop_zero, List.take_length]
  next _ => exact BatchLike.rows_slice batch offset length inside

theorem numRows_cutout (batch : B) (offset length : Nat) (inside : offset + length ≤ numRows batch) :
    numRows (cutout batch offset length) = length := by
  rw [← BatchLike.rows_length, rows_cutout batch offset length inside, List.length_take,
    List.length_drop, BatchLike.rows_length]
  omega

theorem numRows_output (s : DecodedStream B) {batch : B} {offset : Nat} (unread : offset < numRows batch) :
    numRows (cutout batch offset (s.outputLength batch offset)) = s.outputLength batch offset := by
  apply numRows_cutout
  have := s.outputLength_le batch offset
  omega

/-- The rows `limitRows` takes of the next piece. -/
def granted (budget : Option Nat) (length : Nat) : Nat := (budget.map (min · length)).getD length

@[simp] theorem limitRows_nil (budget : Option Nat) : limitRows (B := B) budget [] = [] := by
  cases budget with
  | none => rfl
  | some rows => cases rows <;> rfl

@[simp] theorem limitRows_spent (list : List (Except InterchangeError (Stretch B))) :
    limitRows (some 0) list = [] := by simp [limitRows]

theorem limitRows_error {budget : Option Nat} (unspent : budget ≠ some 0) (error : InterchangeError)
    (rest : List (Except InterchangeError (Stretch B))) :
    limitRows budget (.error error :: rest) = .error error :: limitRows budget rest := by
  cases budget with
  | none => rfl
  | some rows =>
    cases rows with
    | zero => exact absurd rfl unspent
    | succ rows => rfl

theorem limitRows_ok {budget : Option Nat} (unspent : budget ≠ some 0) (stretch : Stretch B)
    (rest : List (Except InterchangeError (Stretch B))) :
    limitRows budget (.ok stretch :: rest) =
      .ok { stretch with length := granted budget stretch.length } ::
        limitRows (budget.map (· - granted budget stretch.length)) rest := by
  cases budget with
  | none => rfl
  | some rows =>
    cases rows with
    | zero => exact absurd rfl unspent
    | succ rows => rfl

theorem limitBytes_none (spent : Nat) (items : List (Item B)) : limitBytes none spent items = items := by
  induction items generalizing spent with
  | nil => rfl
  | cons item rest ih => cases item <;> simp [limitBytes, ih]

/-- Shortening a piece spends the budget, so what follows the piece is then irrelevant. -/
theorem limitRows_tail {budget : Option Nat} {size offset left : Nat} {batch : B}
    (rest : List (Except InterchangeError (Stretch B))) :
    limitRows (budget.map (· - granted budget left))
        ((cuts size batch (offset + left)).map .ok ++ rest) =
      limitRows (budget.map (· - granted budget left))
        ((cuts size batch (offset + granted budget left)).map .ok ++ rest) := by
  cases budget with
  | none => rfl
  | some rows =>
    rcases Nat.le_total left rows with fits | short
    · simp [granted, Nat.min_eq_right fits]
    · simp [granted, Nat.min_eq_left short]

theorem granted_pos {budget : Option Nat} {left : Nat} (unspent : budget ≠ some 0)
    (positive : 0 < left) : 0 < granted budget left := by
  unfold granted
  cases budget with
  | none => simpa using positive
  | some rows =>
    have : rows ≠ 0 := fun zero => unspent (by rw [zero])
    simp only [Option.map_some, Option.getD_some]
    omega

theorem granted_le (budget : Option Nat) (left : Nat) : granted budget left ≤ left := by
  unfold granted
  cases budget with
  | none => simp
  | some rows => simp only [Option.map_some, Option.getD_some]; omega

/-! The reference itself: its batches are short and never empty, and their rows are
the leading rows of the source, all of them unless a limit is met. -/

def yielded (items : List (Item B)) : List R :=
  items.flatMap fun
    | .ok batch => rows batch
    | .error _ => []

/-- A stretch that lies in its batch and is not empty. -/
structure Stretch.Inside (stretch : Stretch B) : Prop where
  positive : 0 < stretch.length
  within : stretch.offset + stretch.length ≤ numRows stretch.batch

def Stretch.rows (stretch : Stretch B) : List R :=
  ((BatchLike.rows stretch.batch).drop stretch.offset).take stretch.length

def covered (list : List (Except InterchangeError (Stretch B))) : List R :=
  list.flatMap fun
    | .ok stretch => stretch.rows
    | .error _ => []

def AllInside (size : Nat) (list : List (Except InterchangeError (Stretch B))) : Prop :=
  ∀ stretch, .ok stretch ∈ list → stretch.Inside ∧ stretch.length ≤ size

theorem Stretch.Inside.length_rows {stretch : Stretch B} (inside : stretch.Inside) :
    stretch.rows.length = stretch.length := by
  have := inside.within
  simp only [Stretch.rows, List.length_take, List.length_drop, BatchLike.rows_length]
  omega

theorem cuts_inside (size : Nat) (positive : 0 < size) (batch : B) (offset : Nat) :
    ∀ stretch ∈ cuts size batch offset, stretch.Inside ∧ stretch.length ≤ size := by
  by_cases unread : offset < numRows batch
  · rw [cuts_unread positive unread]
    intro stretch member
    rcases List.mem_cons.mp member with rfl | later
    · exact ⟨⟨by simp only; omega, by simp only; omega⟩, Nat.min_le_left _ _⟩
    · exact cuts_inside size positive batch _ stretch later
  · simp [cuts_read positive (by omega : numRows batch ≤ offset)]
termination_by numRows batch - offset

theorem cuts_rows (size : Nat) (positive : 0 < size) (batch : B) (offset : Nat) :
    (cuts size batch offset).flatMap Stretch.rows = (rows batch).drop offset := by
  by_cases unread : offset < numRows batch
  · rw [cuts_unread positive unread, List.flatMap_cons, cuts_rows size positive batch _,
      ← List.drop_drop]
    exact List.take_append_drop _ _
  · rw [cuts_read positive (by omega)]
    have := BatchLike.rows_length batch
    simpa using (show (rows batch).length ≤ offset by omega)
termination_by numRows batch - offset

theorem covered_pieces (size : Nat) (positive : 0 < size) (items : List (Item B)) :
    covered (pieces size items) = yielded items := by
  induction items with
  | nil => rfl
  | cons item items ih =>
    cases item with
    | error error => simpa [covered, yielded] using ih
    | ok batch =>
      have first := cuts_rows size positive batch 0
      rw [List.drop_zero] at first
      simp only [covered, yielded, pieces_ok, List.flatMap_append, List.flatMap_cons,
        List.flatMap_map] at ih ⊢
      rw [ih, ← first]

theorem pieces_inside (size : Nat) (positive : 0 < size) (items : List (Item B)) :
    AllInside size (pieces size items) := by
  intro stretch member
  obtain ⟨item, _, member⟩ := List.mem_flatMap.mp member
  cases item with
  | error error => simp at member
  | ok batch =>
    obtain ⟨cut, cut_member, same⟩ := List.mem_map.mp member
    cases same
    exact cuts_inside size positive batch 0 stretch cut_member

/-- The first `budget` rows, all of them without a budget. -/
def takeRows : Option Nat → List R → List R
  | none, list => list
  | some count, list => list.take count

theorem covered_limitRows {size : Nat} (list : List (Except InterchangeError (Stretch B)))
    (budget : Option Nat) (inside : AllInside size list) :
    covered (limitRows budget list) = takeRows budget (covered list) ∧
      AllInside size (limitRows budget list) := by
  induction list generalizing budget with
  | nil => cases budget <;> simp [covered, takeRows, AllInside]
  | cons item rest ih =>
    have rest_inside : AllInside size rest := fun stretch member =>
      inside stretch (List.mem_cons_of_mem _ member)
    by_cases unspent : budget = some 0
    · subst unspent
      simp [covered, takeRows, AllInside]
    · cases item with
      | error error =>
        obtain ⟨same, valid⟩ := ih budget rest_inside
        rw [limitRows_error unspent]
        refine ⟨by simpa [covered] using same, ?_⟩
        intro stretch member
        exact valid stretch (by simpa using member)
      | ok stretch =>
        obtain ⟨valid, short⟩ := inside stretch List.mem_cons_self
        obtain ⟨same, valid_rest⟩ :=
          ih (budget.map (· - granted budget stretch.length)) rest_inside
        rw [limitRows_ok unspent]
        have shorter := granted_le budget stretch.length
        refine ⟨?_, fun other member => ?_⟩
        · have rest_rows : covered (.ok stretch :: rest) = stretch.rows ++ covered rest := rfl
          have new_rows (length : Nat) (rest : List (Except InterchangeError (Stretch B))) :
            covered (.ok { stretch with length := length } :: rest) =
              Stretch.rows { stretch with length := length } ++ covered rest := rfl
          rw [new_rows, same, rest_rows]
          cases budget with
          | none => rfl
          | some count =>
            have length := valid.length_rows
            simp only [takeRows, Option.map_some, granted, Option.getD_some, List.take_append, length]
            congr 1
            · simp [Stretch.rows, List.take_take]
            · congr 1
              omega
        · rcases List.mem_cons.mp member with first | later
          · cases first
            have := valid.within
            have positive := granted_pos unspent valid.positive
            exact ⟨⟨positive, by simp only; omega⟩, by simp only; omega⟩
          · exact valid_rest other later

theorem yielded_outputs {size : Nat} (list : List (Except InterchangeError (Stretch B)))
    (inside : AllInside size list) : yielded (outputs list) = covered list := by
  induction list with
  | nil => rfl
  | cons item rest ih =>
    have rest_rows := ih fun stretch member => inside stretch (List.mem_cons_of_mem _ member)
    cases item with
    | error error => simpa [outputs, yielded, covered, Except.map] using rest_rows
    | ok stretch =>
      have first : rows stretch.output = stretch.rows :=
        rows_cutout _ _ _ (inside stretch List.mem_cons_self).1.within
      simp only [outputs, yielded, covered, List.map_cons, Except.map, List.flatMap_cons] at rest_rows ⊢
      rw [rest_rows, first]

/-- Over the limit the rest is lost, and then the error says so. -/
theorem yielded_limitBytes (limit : Option Nat) (spent : Nat) (items : List (Item B)) :
    yielded (limitBytes limit spent items) <+: yielded items ∧
      ((∀ bytes attempted, .error (.byteLimitExceeded bytes attempted) ∉ limitBytes limit spent items) →
        yielded (limitBytes limit spent items) = yielded items) := by
  induction items generalizing spent with
  | nil => exact ⟨List.prefix_refl _, fun _ => rfl⟩
  | cons item rest ih =>
    cases item with
    | error error =>
      obtain ⟨leading, all⟩ := ih spent
      refine ⟨by simpa [limitBytes, yielded] using leading, ?_⟩
      intro silent
      have rest_silent bytes attempted := List.not_mem_of_not_mem_cons (silent bytes attempted)
      simpa [limitBytes, yielded] using all rest_silent
    | ok batch =>
      obtain ⟨leading, all⟩ := ih (spent + getArrayMemorySize batch)
      have kept (list : List (Item B)) : yielded (.ok batch :: list) = rows batch ++ yielded list := rfl
      cases limit with
      | none =>
        simp only [limitBytes_none] at leading all ⊢
        exact ⟨List.prefix_refl _, fun _ => trivial⟩
      | some bytes =>
        simp only [limitBytes]
        split
        next exceeds => exact ⟨List.nil_prefix, fun silent => absurd List.mem_cons_self (silent _ _)⟩
        next within =>
          refine ⟨by simpa only [kept, List.prefix_append_right_inj] using leading, ?_⟩
          intro silent
          have rest_silent bytes attempted := List.not_mem_of_not_mem_cons (silent bytes attempted)
          rw [kept, kept, all rest_silent]

theorem limitBytes_member {limit : Option Nat} {spent : Nat} {items : List (Item B)} {batch : B}
    (member : .ok batch ∈ limitBytes limit spent items) : .ok batch ∈ items := by
  induction items generalizing spent with
  | nil => simp [limitBytes] at member
  | cons item rest ih =>
    cases item with
    | error error => exact List.mem_cons_of_mem _ (ih (by simpa [limitBytes] using member))
    | ok first =>
      cases limit with
      | none => simpa [limitBytes_none] using member
      | some bytes =>
        simp only [limitBytes] at member
        split at member
        next exceeds => simp at member
        next within =>
          rcases List.mem_cons.mp member with same | later
          · rw [same]; exact List.mem_cons_self
          · exact List.mem_cons_of_mem _ (ih later)

/-- No row is lost, repeated or moved before the limits cut the stream off. -/
theorem reference_rows (source : List (Item B)) (options : StreamOptions)
    (positive : 0 < options.batchSize) :
    yielded (reference source options) <+: yielded (untilError source) ∧
      ((∀ bytes attempted, .error (.byteLimitExceeded bytes attempted) ∉ reference source options) →
        yielded (reference source options) = takeRows options.rowLimit (yielded (untilError source))) := by
  have inside := pieces_inside options.batchSize positive (untilError source)
  obtain ⟨same, valid⟩ := covered_limitRows _ options.rowLimit inside
  rw [covered_pieces options.batchSize positive] at same
  obtain ⟨leading, all⟩ := yielded_limitBytes options.byteLimit 0
    (outputs (limitRows options.rowLimit (pieces options.batchSize (untilError source))))
  rw [yielded_outputs _ valid, same] at leading all
  refine ⟨leading.trans ?_, all⟩
  cases options.rowLimit with
  | none => exact List.prefix_refl _
  | some count => exact List.take_prefix _ _

theorem reference_batches (source : List (Item B)) (options : StreamOptions)
    (positive : 0 < options.batchSize) {batch : B} (member : .ok batch ∈ reference source options) :
    0 < numRows batch ∧ numRows batch ≤ options.batchSize := by
  have inside := pieces_inside options.batchSize positive (untilError source)
  obtain ⟨_, valid⟩ := covered_limitRows _ options.rowLimit inside
  obtain ⟨piece, piece_member, cut⟩ := List.mem_map.mp (limitBytes_member member)
  cases piece with
  | error error => simp [Except.map] at cut
  | ok stretch =>
    cases cut
    obtain ⟨within, short⟩ := valid stretch piece_member
    rw [Stretch.output, numRows_cutout _ _ _ within.within]
    exact ⟨within.positive, short⟩

end FsspecData.DecodedStream
