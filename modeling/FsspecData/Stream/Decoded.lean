import FsspecData.Base

/-! The decoded batch stream. `next` is the iterator step of the source; only its
pull loop needs fuel, and `Next` forgets it. A source is the sequence of its poll
answers, so an iterator that yields again after `None` is one too. -/
namespace FsspecData

/-- What the stream uses of an Arrow record batch: its rows, contiguous slices of
them and the memory its arrays hold on to, which slicing need not shrink. -/
class BatchLike (B : Type) (R : outParam Type) where
  numRows : B → Nat
  rows : B → List R
  slice : B → Nat → Nat → B
  getArrayMemorySize : B → Nat
  rows_length : ∀ batch, (rows batch).length = numRows batch
  numRows_le : ∀ batch, numRows batch ≤ usizeMax
  rows_slice : ∀ batch offset length, offset + length ≤ numRows batch →
    rows (slice batch offset length) = ((rows batch).drop offset).take length

export BatchLike (numRows rows slice getArrayMemorySize)

/-- A batch without columns is only a row count, bounded by nothing but the word. -/
structure ColumnlessBatch where
  count : Nat
  fits : count ≤ usizeMax
  deriving DecidableEq

instance : BatchLike ColumnlessBatch Unit where
  numRows batch := batch.count
  rows batch := List.replicate batch.count ()
  slice batch offset length :=
    ⟨min length (batch.count - offset), by have := batch.fits; omega⟩
  getArrayMemorySize _ := 0
  rows_length batch := List.length_replicate
  numRows_le batch := batch.fits
  rows_slice batch offset length inside := by
    simp only [List.drop_replicate, List.take_replicate]

/-- Stream limits. The bounds say that the three settings are machine words. -/
structure StreamOptions where
  batchSize : Nat := 1024
  rowLimit : Option Nat := none
  byteLimit : Option Nat := none
  batchSize_le : batchSize ≤ usizeMax := by decide
  rowLimit_le : ∀ limit, rowLimit = some limit → limit ≤ usizeMax := by simp
  byteLimit_le : ∀ limit, byteLimit = some limit → limit ≤ usizeMax := by simp

abbrev Item (B : Type) := Except InterchangeError B

/-- The answer of every poll of a source iterator, in poll order. -/
abbrev Source (B : Type) := Nat → Option (Item B)

/-- A finite iterator, exhausted for good after its last item. -/
def Source.ofList (items : List (Item B)) : Source B := fun poll => items[poll]?

/-- `polls` counts the answers taken from the source; `cancelled` is the flag that
all clones of the cancellation token share. -/
structure DecodedStream (B : Type) where
  schema : Schema
  source : Source B
  polls : Nat
  options : StreamOptions
  cancelled : Bool
  pending : Option (B × Nat)
  emittedRows : Nat
  emittedBytes : Nat
  finished : Bool

namespace DecodedStream

variable {B R : Type} [BatchLike B R]

def new (schema : Schema) (source : Source B) (options : StreamOptions) (cancelled : Bool) :
    Except InterchangeError (DecodedStream B) :=
  if options.batchSize = 0 then .error .invalidBatchSize
  else .ok ⟨schema, source, 0, options, cancelled, none, 0, 0, false⟩

/-- How the pull loop of `next` ends: with unread rows, or with an early return. -/
inductive Pulled (B : Type) where
  | ready (batch : B) (offset : Nat)
  | exhausted
  | failed (error : InterchangeError)

/-- The loop of `next`: the pending slice first, then the source, skipping batches
without unread rows. `none` when `fuel` rounds were not enough. -/
def pull : Nat → DecodedStream B → Option (Pulled B × DecodedStream B)
  | 0, _ => none
  | fuel + 1, s =>
    match s.pending with
    | some (batch, offset) =>
      if numRows batch > offset then some (.ready batch offset, { s with pending := none })
      else pull fuel { s with pending := none }
    | none =>
      match s.source s.polls with
      | none => some (.exhausted, { s with polls := s.polls + 1 })
      | some (.ok batch) =>
        if numRows batch > 0 then some (.ready batch 0, { s with polls := s.polls + 1 })
        else pull fuel { s with polls := s.polls + 1 }
      | some (.error error) => some (.failed error, { s with polls := s.polls + 1 })

/-- The rows `offset..offset + length` of a batch; the whole batch is not sliced. -/
def cutout (batch : B) (offset length : Nat) : B :=
  if offset = 0 ∧ length = numRows batch then batch else slice batch offset length

def rowRemaining (s : DecodedStream B) : Nat :=
  (s.options.rowLimit.map (· - s.emittedRows)).getD usizeMax

/-- The end of `next`: cut one output from the pulled rows and charge it. The row
counter wraps as an unchecked `usize` addition does, the byte counter saturates. -/
def emit (s : DecodedStream B) (batch : B) (offset : Nat) : Option (Item B) × DecodedStream B :=
  let available := numRows batch - offset
  let length := min (min available s.options.batchSize) s.rowRemaining
  if length = 0 then (none, { s with finished := true })
  else
    let pending := if length < available then some (batch, offset + length) else s.pending
    let output := cutout batch offset length
    let attempted := min (s.emittedBytes + getArrayMemorySize output) usizeMax
    if s.options.byteLimit.any (attempted > ·) then
      (some (.error (.byteLimitExceeded (s.options.byteLimit.getD 0) attempted)),
        { s with pending := pending, finished := true })
    else
      (some (.ok output), { s with
        pending := pending
        emittedRows := (s.emittedRows + numRows output) % (usizeMax + 1)
        emittedBytes := attempted })

/-- What `next` makes of the loop's end. The `?` on `source.next()` returns before
`finished` is set, so an exhausted source leaves the stream open. -/
def settle (s : DecodedStream B) : Pulled B → Option (Item B) × DecodedStream B
  | .ready batch offset => s.emit batch offset
  | .exhausted => (none, s)
  | .failed error => (some (.error error), { s with finished := true })

def next (fuel : Nat) (s : DecodedStream B) : Option (Option (Item B) × DecodedStream B) :=
  if s.finished then some (none, s)
  else if s.cancelled then some (some (.error .streamCancelled), { s with finished := true })
  else if s.options.rowLimit.any (s.emittedRows ≥ ·) then some (none, { s with finished := true })
  else (pull fuel s).map fun (pulled, s) => s.settle pulled

/-- A call of `next` that returns, whatever number of rounds its loop takes. -/
def Next (s : DecodedStream B) (item : Option (Item B)) (s' : DecodedStream B) : Prop :=
  ∃ fuel, next fuel s = some (item, s')

/-- The items of repeated `next` calls up to the first `None`. -/
inductive Yields : DecodedStream B → List (Item B) → DecodedStream B → Prop where
  | done : Next s none last → Yields s [] last
  | item : Next s (some x) s' → Yields s' xs last → Yields s (x :: xs) last

/-! What one call of `emit` does, said once. -/

/-- The rows that `emit` cuts of the batch. -/
def outputLength (s : DecodedStream B) (batch : B) (offset : Nat) : Nat :=
  min (min (numRows batch - offset) s.options.batchSize) s.rowRemaining

/-- What is pending behind the output. -/
def leftover (s : DecodedStream B) (batch : B) (offset : Nat) : Option (B × Nat) :=
  if s.outputLength batch offset < numRows batch - offset then some (batch, offset + s.outputLength batch offset)
  else s.pending

/-- The byte count that the output brings the stream to. -/
def attemptedBytes (s : DecodedStream B) (output : B) : Nat := min (s.emittedBytes + getArrayMemorySize output) usizeMax

theorem outputLength_le (s : DecodedStream B) (batch : B) (offset : Nat) :
    s.outputLength batch offset ≤ numRows batch - offset := by
  unfold outputLength
  omega

theorem outputLength_limited (s : DecodedStream B) (batch : B) (offset : Nat) {limit : Nat}
    (limited : s.options.rowLimit = some limit) : s.outputLength batch offset ≤ limit - s.emittedRows := by
  have left : s.rowRemaining = limit - s.emittedRows := by simp [rowRemaining, limited]
  unfold outputLength
  omega

/-- Unread rows give a row of output, unless the row limit is met. -/
theorem outputLength_pos {s : DecodedStream B} {batch : B} {offset : Nat} (positive : 0 < s.options.batchSize)
    (unmet : ∀ limit, s.options.rowLimit = some limit → s.emittedRows < limit) (unread : offset < numRows batch) :
    0 < s.outputLength batch offset := by
  have word := BatchLike.numRows_le batch
  have left : 0 < s.rowRemaining := by
    unfold rowRemaining
    cases limited : s.options.rowLimit with
    | none => simp only [Option.map_none, Option.getD_none]; omega
    | some limit =>
      have := unmet limit limited
      simp only [Option.map_some, Option.getD_some]
      omega
  unfold outputLength
  omega

/-- Everything that `emit` can answer, and what it leaves. -/
inductive Emits (s : DecodedStream B) (batch : B) (offset : Nat) : Option (Item B) → DecodedStream B → Prop where
  | empty : s.outputLength batch offset = 0 → Emits s batch offset none { s with finished := true }
  | exceeded : s.outputLength batch offset ≠ 0 → output = cutout batch offset (s.outputLength batch offset) →
      s.options.byteLimit = some limit → limit < s.attemptedBytes output →
      Emits s batch offset (some (.error (.byteLimitExceeded limit (s.attemptedBytes output))))
        { s with pending := s.leftover batch offset, finished := true }
  | yielded : s.outputLength batch offset ≠ 0 → output = cutout batch offset (s.outputLength batch offset) →
      (∀ limit, s.options.byteLimit = some limit → s.attemptedBytes output ≤ limit) →
      Emits s batch offset (some (.ok output)) { s with
        pending := s.leftover batch offset
        emittedRows := (s.emittedRows + numRows output) % (usizeMax + 1)
        emittedBytes := s.attemptedBytes output }

theorem emit_emits {s t : DecodedStream B} {batch : B} {offset : Nat} {item : Option (Item B)}
    (emitted : emit s batch offset = (item, t)) : Emits s batch offset item t := by
  simp only [emit] at emitted
  split at emitted
  next none_left =>
    cases emitted
    exact .empty none_left
  next some_left =>
    split at emitted
    next exceeds =>
      cases emitted
      cases limited : s.options.byteLimit with
      | none => simp [limited] at exceeds
      | some limit =>
        simp only [limited, Option.any_some, decide_eq_true_eq] at exceeds
        exact .exceeded some_left rfl limited exceeds
    next passes =>
      cases emitted
      refine .yielded some_left rfl fun limit limited => ?_
      simp only [limited, Option.any_some, decide_eq_true_eq] at passes
      exact Nat.le_of_not_lt passes

theorem emit_ok_iff {s t : DecodedStream B} {batch output : B} {offset : Nat} :
    emit s batch offset = (some (.ok output), t) ↔
      s.outputLength batch offset ≠ 0 ∧ output = cutout batch offset (s.outputLength batch offset) ∧
      (∀ limit, s.options.byteLimit = some limit → s.attemptedBytes output ≤ limit) ∧
      t = { s with
        pending := s.leftover batch offset
        emittedRows := (s.emittedRows + numRows output) % (usizeMax + 1)
        emittedBytes := s.attemptedBytes output } := by
  constructor
  · intro emitted
    cases emit_emits emitted with
    | yielded some_left cut passes => exact ⟨some_left, cut, passes, rfl⟩
  · rintro ⟨some_left, rfl, passes, rfl⟩
    cases emitted : emit s batch offset with
    | mk item t =>
      cases emit_emits emitted with
      | empty none_left => exact absurd none_left some_left
      | exceeded _ cut limited exceeds => exact absurd (passes _ limited) (Nat.not_le_of_lt (cut ▸ exceeds))
      | yielded _ cut _ => rw [cut]

/-- More fuel never changes how the loop ends. -/
theorem pull_mono {fuel more : Nat} {s : DecodedStream B} (h : pull fuel s = some result)
    (le : fuel ≤ more) : pull more s = some result := by
  induction fuel generalizing more s with
  | zero => simp [pull] at h
  | succ fuel ih =>
    obtain ⟨more, rfl⟩ : ∃ k, more = k + 1 := ⟨more - 1, by omega⟩
    have le : fuel ≤ more := by omega
    simp only [pull] at h ⊢
    split at h
    next batch offset held =>
      split at h
      next unread => simpa [unread] using h
      next read => simpa [read] using ih h le
    next held =>
      split at h
      next answer => simpa [answer] using h
      next batch answer =>
        split at h
        next unread => simpa [unread] using h
        next read => simpa [read] using ih h le
      next error answer => simpa [answer] using h

theorem next_mono {fuel more : Nat} {s : DecodedStream B} (h : next fuel s = some result)
    (le : fuel ≤ more) : next more s = some result := by
  unfold next at h ⊢
  split at h
  next fin => simpa [fin] using h
  next fin =>
    split at h
    next cancelled => simpa [fin, cancelled] using h
    next cancelled =>
      split at h
      next met => simpa [fin, cancelled, met] using h
      next met =>
        cases pulled : pull fuel s with
        | none => simp [pulled] at h
        | some outcome =>
          rw [if_neg fin, if_neg cancelled, if_neg met, pull_mono pulled le]
          simpa [fin, cancelled, met, pulled] using h

theorem Next.unique {s t t' : DecodedStream B} (first : Next s item t) (second : Next s item' t') :
    item = item' ∧ t = t' := by
  obtain ⟨fuel, h⟩ := first
  obtain ⟨fuel', h'⟩ := second
  have same := (next_mono h (Nat.le_max_left fuel fuel')).symm.trans
    (next_mono h' (Nat.le_max_right fuel fuel'))
  exact Prod.mk.inj (Option.some.inj same)

theorem Yields.unique {s last last' : DecodedStream B} (first : Yields s xs last)
    (second : Yields s ys last') : xs = ys ∧ last = last' := by
  induction first generalizing ys with
  | done stop =>
    cases second with
    | done stop' => exact ⟨rfl, (stop.unique stop').2⟩
    | item step _ => cases (stop.unique step).1
  | item step rest ih =>
    cases second with
    | done stop => cases (step.unique stop).1
    | item step' rest' =>
      obtain ⟨same, rfl⟩ := step.unique step'
      obtain ⟨tail, same_last⟩ := ih rest'
      exact ⟨by rw [Option.some.inj same, tail], same_last⟩

end DecodedStream

end FsspecData
