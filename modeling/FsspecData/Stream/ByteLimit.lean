import FsspecData.Stream.Refinement
import FsspecData.Stream.Ended
import FsspecData.Stream.Grants
import Mathlib.Algebra.GroupWithZero.Nat

/-! The byte limit and the batch size. Every output is charged the memory of the buffers
it shares, so a batch is charged once for each slice cut from it. -/
namespace FsspecData.DecodedStream

open FsspecData Machine

variable {B R : Type} [BatchLike B R]

/-- Slices hold on to whole buffers: the memory of a slice is that of its batch. -/
def BuffersShared (B : Type) {R : Type} [BatchLike B R] : Prop :=
  ∀ (batch : B) offset length, offset + length ≤ numRows batch →
    getArrayMemorySize (slice batch offset length) = getArrayMemorySize batch

/-- One column of words. Its slices are windows on one buffer of `memory` bytes. -/
structure WordBatch where
  values : List Int
  memory : Nat
  fits : values.length ≤ usizeMax

instance : BatchLike WordBatch Int where
  numRows batch := batch.values.length
  rows batch := batch.values
  slice batch offset length :=
    ⟨(batch.values.drop offset).take length, batch.memory, by
      have := batch.fits
      simp only [List.length_take, List.length_drop]
      omega⟩
  getArrayMemorySize batch := batch.memory
  rows_length _ := rfl
  numRows_le batch := batch.fits
  rows_slice _ _ _ _ := rfl

/-- Some calls bring up `ByteLimitExceeded`. -/
def Hits (s : DecodedStream B) : Prop :=
  ∃ trace last limit attempted, Run Calls s trace last ∧
    (.next, .item (some (.error (.byteLimitExceeded limit attempted)))) ∈ trace

/-- What the batches of a source are charged when they are cut to `size` rows: of every
batch its memory, times the number of slices the row budget lets through. -/
def charge (size : Nat) (budget : Option Nat) (source : List B) : Nat :=
  ((grants budget source).map fun grant =>
    (grant.2 + size - 1) / size * getArrayMemorySize grant.1).sum

/-- The byte limit covers the charge, or it is the value at which the counter saturates. -/
def Covers (limit : Nat) (options : StreamOptions) (source : List B) : Prop :=
  charge options.batchSize options.rowLimit source ≤ limit ∨ limit = usizeMax

def itemMemory : Item B → Nat
  | .ok batch => getArrayMemorySize batch
  | .error _ => 0

def spending (items : List (Item B)) : Nat := (items.map itemMemory).sum

def Exceeding (items : List (Item B)) : Prop :=
  ∃ limit attempted, .error (.byteLimitExceeded limit attempted) ∈ items

theorem memory_cutout (shared : BuffersShared B) (batch : B) (offset length : Nat)
    (inside : offset + length ≤ numRows batch) :
    getArrayMemorySize (cutout batch offset length) = getArrayMemorySize batch := by
  unfold cutout
  split
  next whole => rfl
  next _ => exact shared batch offset length inside

theorem spending_append (items others : List (Item B)) :
    spending (items ++ others) = spending items + spending others := by
  rw [spending, List.map_append, List.sum_append]
  rfl

/-- The slices of what is granted of a batch are charged its memory each. -/
theorem spending_slices (shared : BuffersShared B) (size : Nat) {grant : B × Nat}
    (taken_le : grant.2 ≤ numRows grant.1) :
    spending ((grantSlices size grant).map fun stretch => .ok stretch.output) =
      (grant.2 + size - 1) / size * getArrayMemorySize grant.1 := by
  have each : ∀ stretch ∈ grantSlices size grant,
      getArrayMemorySize stretch.output = getArrayMemorySize grant.1 := by
    intro stretch member
    obtain ⟨same, within⟩ := slices_within member
    rw [Stretch.output, memory_cutout shared _ _ _ (by rw [same]; omega), same]
  have all_same : spending ((grantSlices size grant).map fun stretch => .ok stretch.output) =
      ((grantSlices size grant).map fun _ => getArrayMemorySize grant.1).sum := by
    rw [spending, List.map_map]
    exact congrArg List.sum (List.map_congr_left each)
  rw [all_same, List.map_const', List.sum_replicate_nat, grantSlices, slices, List.length_map,
    List.length_range]

theorem spending_charge (shared : BuffersShared B) (size : Nat) (budget : Option Nat) (source : List B) :
    spending (((grants budget source).flatMap (grantSlices size)).map fun stretch => .ok stretch.output) =
      charge size budget source := by
  have bounded : ∀ grant ∈ grants budget source, grant.2 ≤ numRows grant.1 := fun _ => grants_le
  rw [charge]
  generalize grants budget source = list at bounded ⊢
  induction list with
  | nil => rfl
  | cons grant rest ih =>
    have later := ih fun other member => bounded other (List.mem_cons_of_mem _ member)
    rw [List.flatMap_cons, List.map_append, spending_append,
      spending_slices shared size (bounded grant List.mem_cons_self), later, List.map_cons, List.sum_cons]

/-- The limit is met when what all items spend is over it: a sum of memory never shrinks. -/
theorem exceeding_limitBytes {limit spent : Nat} {items : List (Item B)}
    (silent : ∀ error, .error error ∉ items) (within : spent ≤ limit) :
    Exceeding (limitBytes (some limit) spent items) ↔ limit < spent + spending items := by
  induction items generalizing spent with
  | nil =>
    simpa [Exceeding, limitBytes, spending] using within
  | cons item rest ih =>
    cases item with
    | error error => exact absurd List.mem_cons_self (silent error)
    | ok batch =>
      have rest_silent (error : InterchangeError) : .error error ∉ rest := fun member =>
        silent error (List.mem_cons_of_mem _ member)
      have spends : spending (.ok batch :: rest) = getArrayMemorySize batch + spending rest := rfl
      rw [spends]
      simp only [limitBytes]
      split
      next exceeds =>
        apply iff_of_true ⟨_, _, List.mem_cons_self⟩
        omega
      next fits =>
        have within_rest : spent + getArrayMemorySize batch ≤ limit := by omega
        have later := ih rest_silent within_rest
        rw [← Nat.add_assoc, ← later]
        simp [Exceeding]

theorem exceeding_reference (shared : BuffersShared B) (source : List B) {options : StreamOptions}
    (positive : 0 < options.batchSize) {limit : Nat} (limited : options.byteLimit = some limit) :
    Exceeding (reference (source.map .ok) options) ↔
      limit < charge options.batchSize options.rowLimit source := by
  rw [reference_ok source positive, limited, exceeding_limitBytes (by simp) (Nat.zero_le limit), Nat.zero_add,
    spending_charge shared]

/-! From the reference to runs: what is expected of a live stream decides whether any
calls bring up the limit. -/

theorem yields_run {s last : DecodedStream B} {items : List (Item B)} (yields : Yields s items last) :
    ∃ trace, Run Calls s trace last ∧ ∀ item ∈ items, (.next, .item (some item)) ∈ trace := by
  induction yields with
  | done stop => exact ⟨_, .cons (.next stop) .nil, by simp⟩
  | item step _ ih =>
    obtain ⟨trace, run, members⟩ := ih
    refine ⟨_, .cons (.next step) run, fun item member => ?_⟩
    rcases List.mem_cons.mp member with rfl | later
    · exact List.mem_cons_self
    · exact List.mem_cons_of_mem _ (members item later)

def Harmless (reply : Reply B) : Prop :=
  ∀ limit attempted, reply ≠ .item (some (.error (.byteLimitExceeded limit attempted)))

theorem harmless_none : Harmless (.item none : Reply B) := by
  intro limit attempted
  simp

theorem not_hits {s : DecodedStream B} (invariant : DecodedStream B → Prop)
    (keep : ∀ {u call reply t}, invariant u → Calls u call reply t → Harmless reply ∧ invariant t)
    (initial : invariant s) : ¬ Hits s := by
  rintro ⟨trace, last, limit, attempted, run, member⟩
  obtain ⟨harmless, _⟩ := run.guarantees invariant (fun _ reply => Harmless reply) keep initial
  exact harmless _ member limit attempted rfl

/-- No later call brings up the limit: the stream is over, about to report its
cancellation, or live with no such error to come. -/
inductive Settled (source : List (Item B)) (s : DecodedStream B) : Prop where
  | finished : s.finished = true → Settled source s
  | cancelled : s.cancelled = true → Settled source s
  | live : Live source s → ¬ Exceeding (expected source s) → Settled source s

theorem live_drained {source : List (Item B)} {s : DecodedStream B} {count : Nat} (live : Live source s)
    (dry : Dry s count) : Live source (s.drained count) ∧ expected source (s.drained count) = [] := by
  have ended := dry.ended
  rw [live.answers] at ended
  have short : source.length ≤ s.polls + count := by simpa [Source.ofList] using ended
  refine ⟨⟨live.answers, live.unfinished, live.uncancelled, live.positive, live.rows, live.bytes⟩, ?_⟩
  have untaken_nil : untaken source (s.drained count) = [] := by
    have all_taken : source.drop (s.drained count).polls = [] := by
      apply List.drop_eq_nil_iff.mpr
      simp only [drained]
      omega
    rw [untaken, all_taken]
    rfl
  have held_nil : held (s.drained count) = [] := rfl
  simp [expected, remaining, untaken_nil, held_nil, outputs, limitBytes]

theorem settled_calls {source : List (Item B)} {s t : DecodedStream B} {call : Call} {reply : Reply B}
    (settled : Settled source s) (taken : Calls s call reply t) : Harmless reply ∧ Settled source t := by
  cases taken with
  | cancel => exact ⟨fun _ _ => nofun, .cancelled rfl⟩
  | next called =>
    by_cases fin : s.finished = true
    · obtain ⟨rfl, rfl⟩ := called.unique (next_finished fin)
      exact ⟨harmless_none, settled⟩
    · have unfinished : s.finished = false := by simpa using fin
      cases settled with
      | finished fin' => exact absurd fin' fin
      | cancelled flag =>
        obtain ⟨rfl, rfl⟩ := called.unique (next_cancelled unfinished flag)
        exact ⟨fun _ _ => by simp, .finished rfl⟩
      | live live silent =>
        rcases live_next live with ⟨_, u, stop⟩ | ⟨x, xs, u, more, step, after⟩
        · obtain ⟨rfl, rfl⟩ := called.unique stop
          refine ⟨harmless_none, ?_⟩
          cases next_returns called with
          | finished fin' => exact absurd fin' fin
          | stopped fin' => exact .finished fin'
          | exhausted _ dry =>
            obtain ⟨live', left⟩ := live_drained live dry
            exact .live live' (by simp [left, Exceeding])
        · obtain ⟨rfl, rfl⟩ := called.unique step
          rw [more] at silent
          refine ⟨fun limit attempted same => silent ⟨limit, attempted, ?_⟩, ?_⟩
          · cases same
            exact List.mem_cons_self
          · rcases after with ⟨_, fin'⟩ | ⟨live', left⟩
            · exact .finished fin'
            · refine .live live' ?_
              rintro ⟨limit, attempted, member⟩
              exact silent ⟨limit, attempted, List.mem_cons_of_mem _ (left ▸ member)⟩

theorem live_hits_iff {source : List (Item B)} {s : DecodedStream B} (live : Live source s) :
    Hits s ↔ Exceeding (expected source s) := by
  constructor
  · intro hits
    by_contra silent
    exact not_hits (Settled source) settled_calls (.live live silent) hits
  · rintro ⟨limit, attempted, member⟩
    obtain ⟨last, yields⟩ := yields_expected _ live rfl
    obtain ⟨trace, run, members⟩ := yields_run yields
    exact ⟨trace, last, limit, attempted, run, members _ member⟩

/-- The states of a stream whose counter saturates at its limit. -/
structure Saturated (source : List B) (s : DecodedStream B) : Prop where
  answers : s.source = Source.ofList (source.map .ok)
  limited : s.options.byteLimit = some usizeMax

theorem saturated_calls {source : List B} {s t : DecodedStream B} {call : Call} {reply : Reply B}
    (saturated : s.finished = true ∨ Saturated source s) (taken : Calls s call reply t) :
    Harmless reply ∧ (t.finished = true ∨ Saturated source t) := by
  cases taken with
  | cancel =>
    refine ⟨fun _ _ => nofun, ?_⟩
    rcases saturated with fin | ⟨answers, limited⟩
    · exact .inl fin
    · exact .inr ⟨answers, limited⟩
  | next called =>
    rcases saturated with fin | ⟨answers, limited⟩
    · obtain ⟨rfl, rfl⟩ := called.unique (next_finished fin)
      exact ⟨harmless_none, .inl fin⟩
    · cases next_returns called with
      | finished fin => exact ⟨harmless_none, .inl fin⟩
      | cancelled => exact ⟨fun _ _ => by simp, .inl rfl⟩
      | stopped fin => exact ⟨harmless_none, .inl fin⟩
      | exhausted _ _ => exact ⟨harmless_none, .inr ⟨answers, limited⟩⟩
      | failed polls answer fin => simp [answers, Source.ofList] at answer
      | exceeded limited' exceeds bound fin =>
        rw [limited] at limited'
        cases limited'
        omega
      | yielded source options =>
        exact ⟨fun _ _ => by simp, .inr ⟨source.trans answers, by rw [options, limited]⟩⟩

/-- A stream over batches meets its byte limit, under some calls, exactly when the limit
does not cover the charge. -/
theorem hits_not_covers (shared : BuffersShared B) (schema : Schema) (source : List B)
    (options : StreamOptions) (limit : Nat) (positive : 1 ≤ options.batchSize)
    (limited : options.byteLimit = some limit) :
    ∃ s, new schema (Source.ofList (source.map .ok)) options false = .ok s ∧
      (Hits s ↔ ¬ Covers limit options source) := by
  by_cases saturates : limit = usizeMax
  · refine ⟨_, if_neg (by omega), iff_of_false ?_ (fun not_covered => not_covered (.inr saturates))⟩
    exact not_hits _ saturated_calls (.inr ⟨rfl, by rw [limited, saturates]⟩)
  · have below (bytes : Nat) (bound : options.byteLimit = some bytes) : bytes < usizeMax := by
      have := options.byteLimit_le bytes bound
      rw [limited] at bound
      cases bound
      omega
    obtain ⟨s, created, live, whole⟩ := new_live schema (source.map .ok) options positive below
    refine ⟨s, created, ?_⟩
    rw [live_hits_iff live, whole, exceeding_reference shared source positive limited, Covers]
    simp [saturates]

/-- Whether the limit is met depends on the batch size through the charge alone: the
limit never shows exactly when it covers the charge, and two batch sizes agree exactly
when their charges are both covered or both not. -/
theorem hits_iff (shared : BuffersShared B) (schema : Schema) (source : List B)
    (options other : StreamOptions) (limit : Nat)
    (positive : 1 ≤ options.batchSize) (positive' : 1 ≤ other.batchSize)
    (limited : options.byteLimit = some limit) (limited' : other.byteLimit = some limit) :
    ∃ s t, new schema (Source.ofList (source.map .ok)) options false = .ok s ∧
      new schema (Source.ofList (source.map .ok)) other false = .ok t ∧
      (¬ Hits s ↔ Covers limit options source) ∧
      ((Hits s ↔ Hits t) ↔ (Covers limit options source ↔ Covers limit other source)) := by
  obtain ⟨s, created, hits⟩ := hits_not_covers shared schema source options limit positive limited
  obtain ⟨t, created', hits'⟩ := hits_not_covers shared schema source other limit positive' limited'
  refine ⟨s, t, created, created', ?_, ?_⟩
  · rw [hits, not_not]
  · rw [hits, hits', not_iff_not]

/-- Batch sizes that leave a batch in one piece never meet a limit of its size. -/
theorem hits_iff_words :
    ∃ s t, new ⟨[], []⟩ (Source.ofList [.ok (⟨[7, 8], 64, by decide⟩ : WordBatch)])
        { batchSize := 2, byteLimit := some 64, byteLimit_le := by decide } false = .ok s ∧
      new ⟨[], []⟩ (Source.ofList [.ok (⟨[7, 8], 64, by decide⟩ : WordBatch)])
        { batchSize := 5, byteLimit := some 64, byteLimit_le := by decide } false = .ok t ∧
      ¬ Hits s ∧ ¬ Hits t := by
  obtain ⟨s, t, created, created', silent, same⟩ := hits_iff (B := WordBatch) (fun _ _ _ _ => rfl) ⟨[], []⟩
    [⟨[7, 8], 64, by decide⟩] { batchSize := 2, byteLimit := some 64, byteLimit_le := by decide }
    { batchSize := 5, byteLimit := some 64, byteLimit_le := by decide } 64 (by decide) (by decide) rfl rfl
  have covered : charge 2 none [(⟨[7, 8], 64, by decide⟩ : WordBatch)] = 64 := by decide
  have covered' : charge 5 none [(⟨[7, 8], 64, by decide⟩ : WordBatch)] = 64 := by decide
  have agree := same.mpr (iff_of_true (.inl covered.le) (.inl covered'.le))
  have first := silent.mpr (.inl covered.le)
  exact ⟨s, t, created, created', first, fun hits => first (agree.mpr hits)⟩

/-- A source of one batch that fits: its two rows in two slices are charged twice. -/
theorem sliced_source_hits :
    ([(⟨[7, 8], 64, by decide⟩ : WordBatch)].map getArrayMemorySize).sum ≤ 64 ∧
    ∃ s t, new ⟨[], []⟩ (Source.ofList [.ok (⟨[7, 8], 64, by decide⟩ : WordBatch)])
        { batchSize := 1, byteLimit := some 64, byteLimit_le := by decide } false = .ok s ∧
      new ⟨[], []⟩ (Source.ofList [.ok (⟨[7, 8], 64, by decide⟩ : WordBatch)])
        { batchSize := 2, byteLimit := some 64, byteLimit_le := by decide } false = .ok t ∧
      Hits s ∧ ¬ Hits t := by
  refine ⟨by decide, ?_⟩
  have shared : BuffersShared WordBatch := fun _ _ _ _ => rfl
  obtain ⟨s, created, hits⟩ := hits_not_covers shared ⟨[], []⟩ [⟨[7, 8], 64, by decide⟩]
    { batchSize := 1, byteLimit := some 64, byteLimit_le := by decide } 64 (by decide) rfl
  obtain ⟨t, created', hits'⟩ := hits_not_covers shared ⟨[], []⟩ [⟨[7, 8], 64, by decide⟩]
    { batchSize := 2, byteLimit := some 64, byteLimit_le := by decide } 64 (by decide) rfl
  refine ⟨s, t, created, created', hits.mpr ?_, fun met => hits'.mp met (.inl (by decide))⟩
  rintro (covered | saturates)
  · exact absurd covered (by decide)
  · exact absurd saturates (by decide)

end FsspecData.DecodedStream
