import FsspecData.Plan.Rowwise
import FsspecData.Stream.Endless

/-! A plan applied to a decoded stream. The batch size decides which slices the plan runs
on; what they come to is decided by the rows granted of each source batch. -/
namespace FsspecData.InterchangePlan

open DecodedStream RecordBatch Plan Fallible

section Applied

variable [Slicing] {plan : InterchangePlan} {arrow : Arrow}

/-- What `apply_stream` makes of each item: errors are passed on. -/
def applyItem (plan : InterchangePlan) (arrow : Arrow) : Item RecordBatch → Except Failure RecordBatch
  | .ok batch => plan.applyBatch arrow batch
  | .error error => .error (.error error)

/-- Some call on the applied stream brings up a failure. -/
def Fails (plan : InterchangePlan) (arrow : Arrow) (s : DecodedStream RecordBatch) : Prop :=
  ∃ items last, Takes s items last ∧ ∃ item ∈ items, ∃ failure, plan.applyItem arrow item = .error failure

/-- Some calls on the applied stream bring up these rows first. -/
def Delivers (plan : InterchangePlan) (arrow : Arrow) (s : DecodedStream RecordBatch)
    (list : List (List (Option Value))) : Prop :=
  ∃ items last outputs, Takes s items last ∧ items.mapM (plan.applyItem arrow) = .ok outputs ∧
    list <+: outputs.flatMap rowList

/-- The applied stream ends after exactly these rows. -/
def Completes (plan : InterchangePlan) (arrow : Arrow) (s : DecodedStream RecordBatch)
    (list : List (List (Option Value))) : Prop :=
  ∃ items last outputs, Yields s items last ∧ items.mapM (plan.applyItem arrow) = .ok outputs ∧
    list = outputs.flatMap rowList

/-- A stream that the plan completes has nothing on which the plan fails. -/
theorem Completes.not_fails {s : DecodedStream RecordBatch} {list : List (List (Option Value))}
    (completes : plan.Completes arrow s list) : ¬ plan.Fails arrow s := by
  rintro ⟨taken, u, takes, item, member, failure, applied⟩
  obtain ⟨items, last, outputs, yields, runs, -⟩ := completes
  have inside : item ∈ items := (takes.leading yields).subset member
  obtain ⟨output, made⟩ := mapM_exists.mp ⟨outputs, runs⟩ item inside
  cases applied.symm.trans made

/-- The rows a run on the granted rows of one batch gives; nothing is run for no rows. -/
def Granted (plan : InterchangePlan) (arrow : Arrow) (grant : RecordBatch × Nat)
    (list : List (List (Option Value))) : Prop :=
  (grant.2 = 0 ∧ list = []) ∨
    (0 < grant.2 ∧ ∃ output, plan.applyBatch arrow (cutout grant.1 0 grant.2) = .ok output ∧ list = output.rowList)

def GrantedAll (plan : InterchangePlan) (arrow : Arrow) (grants : List (RecordBatch × Nat))
    (list : List (List (Option Value))) : Prop :=
  ∃ lists, List.Forall₂ (plan.Granted arrow) grants lists ∧ list = lists.flatten

/-- The batches the stream cuts of a grant. -/
def grantParts (size : Nat) (grant : RecordBatch × Nat) : List RecordBatch :=
  (grantSlices size grant).map Stretch.output

theorem slices_consecutive {size : Nat} (positive : 0 < size) (batch : RecordBatch) (offset taken : Nat) :
    ∃ lengths, lengths.sum = taken ∧
      (slices size batch offset taken).map Stretch.output = consecutive (cutout batch) offset lengths := by
  by_cases some_taken : 0 < taken
  · obtain ⟨lengths, total, same⟩ :=
      slices_consecutive positive batch (offset + min size taken) (taken - min size taken)
    refine ⟨min size taken :: lengths, by rw [List.sum_cons, total]; omega, ?_⟩
    rw [slices_succ positive some_taken, List.map_cons, same, consecutive]
    rfl
  · obtain rfl : taken = 0 := by omega
    exact ⟨[], rfl, by rw [slices_zero positive]; rfl⟩
termination_by taken

/-- The parts of a grant concatenate to the granted rows. -/
theorem grantParts_concatenates {size : Nat} (positive : 0 < size) {grant : RecordBatch × Nat}
    (inside : grant.2 ≤ grant.1.numRows) :
    Concatenates (grantParts size grant) (cutout grant.1 0 grant.2) := by
  obtain ⟨lengths, total, same⟩ := slices_consecutive positive grant.1 0 grant.2
  rw [grantParts, grantSlices, same, ← total]
  exact grant.1.cutout_cuts.consecutive lengths 0 (by omega)

section Planned

variable {provided requested : Schema} {policy : SchemaPolicy} {options : ProjectionOptions}
  (documented : arrow.Documented) (elementwise : arrow.Elementwise)
  (planned : Planned arrow provided requested policy options plan)

include documented elementwise planned in
/-- The runs on the parts of a grant and the run on its rows come to the same. -/
theorem granted_iff {size : Nat} (positive : 0 < size) {grant : RecordBatch × Nat}
    (inside : grant.2 ≤ grant.1.numRows) (list : List (List (Option Value))) :
    plan.Granted arrow grant list ↔ ∃ outputs,
      (grantParts size grant).mapM (plan.applyBatch arrow) = .ok outputs ∧ list = outputs.flatMap rowList := by
  have concatenates := grantParts_concatenates positive inside
  by_cases some_rows : 0 < grant.2
  · constructor
    · rintro (⟨none_granted, _⟩ | ⟨_, output, run, rfl⟩)
      · omega
      have same := applyBatch_schema run
      rw [planned.providedSchema] at same
      have each := (planned.succeeds_parts documented elementwise same concatenates).mp ⟨output, run⟩
      obtain ⟨outputs, runs⟩ := mapM_exists.mpr each
      have joined := planned.outputs_concatenate documented elementwise same concatenates run (mapM_eq_ok.mp runs)
      exact ⟨outputs, runs, joined.rowList⟩
    · rintro ⟨outputs, runs, rfl⟩
      have each := mapM_exists.mp ⟨outputs, runs⟩
      obtain ⟨part, member⟩ : ∃ part, part ∈ grantParts size grant := by
        rw [grantParts, grantSlices, slices_succ positive some_rows]
        exact ⟨_, List.mem_cons_self⟩
      obtain ⟨_, run⟩ := each part member
      have same := applyBatch_schema run
      rw [planned.providedSchema, concatenates.schema part member] at same
      obtain ⟨output, run⟩ := (planned.succeeds_parts documented elementwise same concatenates).mpr each
      have joined := planned.outputs_concatenate documented elementwise same concatenates run (mapM_eq_ok.mp runs)
      exact .inr ⟨some_rows, output, run, joined.rowList.symm⟩
  · have none_granted : grant.2 = 0 := by omega
    have no_parts : grantParts size grant = [] := by
      rw [grantParts, grantSlices, none_granted, slices_zero positive]
      rfl
    simp [Granted, none_granted, no_parts, pure_eq_ok]

include documented elementwise planned in
theorem grantedAll_iff {size : Nat} (positive : 0 < size) {list : List (RecordBatch × Nat)}
    (inside : ∀ grant ∈ list, grant.2 ≤ grant.1.numRows) (given : List (List (Option Value))) :
    plan.GrantedAll arrow list given ↔ ∃ outputs,
      (list.flatMap (grantParts size)).mapM (plan.applyBatch arrow) = .ok outputs ∧
        given = outputs.flatMap rowList := by
  induction list generalizing given with
  | nil => simp [GrantedAll, pure_eq_ok]
  | cons grant rest ih =>
    have first := granted_iff documented elementwise planned positive (inside grant List.mem_cons_self)
    have later := ih fun other member => inside other (List.mem_cons_of_mem _ member)
    rw [List.flatMap_cons, List.mapM_append]
    constructor
    · rintro ⟨lists, each, rfl⟩
      cases each with
      | @cons _ head _ tail given_first given_rest =>
        obtain ⟨outputs, runs, rfl⟩ := (first _).mp given_first
        obtain ⟨others, others_run, same⟩ := (later _).mp ⟨tail, given_rest, rfl⟩
        refine ⟨outputs ++ others, ?_, ?_⟩
        · rw [runs, others_run]
          rfl
        · rw [List.flatten_cons, same, List.flatMap_append]
    · rintro ⟨outputs, runs, rfl⟩
      obtain ⟨head, head_run, rest_runs⟩ := bind_eq_ok.mp runs
      obtain ⟨tail, tail_run, joined⟩ := bind_eq_ok.mp rest_runs
      cases joined
      obtain ⟨lists, each, same⟩ := (later _).mpr ⟨tail, tail_run, rfl⟩
      refine ⟨head.flatMap rowList :: lists, .cons ((first _).mpr ⟨head, head_run, rfl⟩) each, ?_⟩
      rw [List.flatMap_append, same, List.flatten_cons]

/-! What the calls on an applied stream bring up, by beginnings of its source. -/

variable {schema : Schema} {source : Source RecordBatch} {limits : StreamOptions}

/-- The plan on a reference runs on the parts of all grants. -/
theorem reference_runs (positive : 1 ≤ limits.batchSize) (unlimited : limits.byteLimit = none)
    (batches : List RecordBatch) :
    (reference (batches.map .ok) limits).mapM (plan.applyItem arrow) =
      ((grants limits.rowLimit batches).flatMap (grantParts limits.batchSize)).mapM (plan.applyBatch arrow) := by
  have parts : ((grants limits.rowLimit batches).flatMap (grantSlices limits.batchSize)).map Stretch.output =
      (grants limits.rowLimit batches).flatMap (grantParts limits.batchSize) := List.map_flatMap
  rw [reference_ok batches positive, unlimited, limitBytes_none, ← parts, List.mapM_map, List.mapM_map]
  rfl

include documented elementwise planned in
theorem reference_iff (positive : 1 ≤ limits.batchSize) (unlimited : limits.byteLimit = none)
    (batches : List RecordBatch) (list : List (List (Option Value))) :
    plan.GrantedAll arrow (grants limits.rowLimit batches) list ↔ ∃ outputs,
      (reference (batches.map .ok) limits).mapM (plan.applyItem arrow) = .ok outputs ∧
        list = outputs.flatMap rowList := by
  rw [reference_runs positive unlimited]
  exact grantedAll_iff documented elementwise planned positive (fun _ member => grants_le member) list

variable (positive : 1 ≤ limits.batchSize) (unlimited : limits.byteLimit = none)
  (sound : ∀ poll error, source poll ≠ some (.error error))

include positive unlimited sound in
/-- On a stream that does not fail, the plan runs on every reference of a beginning. -/
theorem runs_of_not_fails (clean : ¬ plan.Fails arrow (start schema source limits)) {batches : List RecordBatch}
    (begins : Begins source batches) :
    ∃ outputs, (reference (batches.map .ok) limits).mapM (plan.applyItem arrow) = .ok outputs := by
  obtain ⟨t, takes⟩ := (takes_iff schema positive unlimited sound
    (reference (batches.map .ok) limits)).mpr ⟨batches, begins, List.prefix_refl _⟩
  apply mapM_exists.mpr
  intro item member
  cases applied : plan.applyItem arrow item with
  | ok output => exact ⟨output, rfl⟩
  | error failure => exact absurd ⟨_, t, takes, item, member, failure, applied⟩ clean

include documented elementwise planned positive unlimited sound in
theorem fails_iff : plan.Fails arrow (start schema source limits) ↔
    ∃ batches, Begins source batches ∧
      ¬ ∃ list, plan.GrantedAll arrow (grants limits.rowLimit batches) list := by
  constructor
  · rintro ⟨items, last, takes, item, member, failure, applied⟩
    obtain ⟨batches, begins, leading⟩ := (takes_iff _ positive unlimited sound items).mp ⟨last, takes⟩
    refine ⟨batches, begins, ?_⟩
    rintro ⟨list, given⟩
    obtain ⟨outputs, runs, _⟩ :=
      (reference_iff documented elementwise planned positive unlimited batches list).mp given
    obtain ⟨output, made⟩ := mapM_exists.mp ⟨outputs, runs⟩ item (leading.subset member)
    cases applied.symm.trans made
  · rintro ⟨batches, begins, nothing⟩
    by_contra clean
    obtain ⟨outputs, runs⟩ := runs_of_not_fails positive unlimited sound clean begins
    exact nothing ⟨_, (reference_iff documented elementwise planned positive unlimited batches _).mpr
      ⟨outputs, runs, rfl⟩⟩

include documented elementwise planned positive unlimited sound in
theorem delivers_iff (clean : ¬ plan.Fails arrow (start schema source limits))
    (list : List (List (Option Value))) : plan.Delivers arrow (start schema source limits) list ↔
      ∃ batches longer, Begins source batches ∧
        plan.GrantedAll arrow (grants limits.rowLimit batches) longer ∧ list <+: longer := by
  constructor
  · rintro ⟨items, last, outputs, takes, runs, leading⟩
    obtain ⟨batches, begins, behind, whole⟩ := (takes_iff _ positive unlimited sound items).mp ⟨last, takes⟩
    obtain ⟨all, all_run⟩ := runs_of_not_fails positive unlimited sound clean begins
    refine ⟨batches, all.flatMap rowList, begins,
      (reference_iff documented elementwise planned positive unlimited batches _).mpr ⟨all, all_run, rfl⟩, ?_⟩
    rw [← whole, List.mapM_append] at all_run
    obtain ⟨first, first_run, rest_runs⟩ := bind_eq_ok.mp all_run
    obtain ⟨rest, _, joined⟩ := bind_eq_ok.mp rest_runs
    cases joined
    cases runs.symm.trans first_run
    rw [List.flatMap_append]
    exact leading.trans (List.prefix_append _ _)
  · rintro ⟨batches, longer, begins, given, leading⟩
    obtain ⟨outputs, runs, rfl⟩ :=
      (reference_iff documented elementwise planned positive unlimited batches longer).mp given
    obtain ⟨t, takes⟩ := (takes_iff _ positive unlimited sound (reference (batches.map .ok) limits)).mpr
      ⟨batches, begins, List.prefix_refl _⟩
    exact ⟨_, t, outputs, takes, runs, leading⟩

include documented elementwise planned positive unlimited sound in
theorem completes_iff (list : List (List (Option Value))) :
    plan.Completes arrow (start schema source limits) list ↔ ∃ batches, Begins source batches ∧
      Suffices limits.rowLimit source batches ∧ plan.GrantedAll arrow (grants limits.rowLimit batches) list := by
  constructor
  · rintro ⟨items, last, outputs, yields, runs, rfl⟩
    obtain ⟨batches, begins, enough, rfl⟩ := (yields_iff _ positive unlimited sound items).mp ⟨last, yields⟩
    exact ⟨batches, begins, enough,
      (reference_iff documented elementwise planned positive unlimited batches _).mpr ⟨outputs, runs, rfl⟩⟩
  · rintro ⟨batches, begins, enough, given⟩
    obtain ⟨outputs, runs, rfl⟩ :=
      (reference_iff documented elementwise planned positive unlimited batches list).mp given
    obtain ⟨last, yields⟩ := (yields_iff _ positive unlimited sound (reference (batches.map .ok) limits)).mpr
      ⟨batches, begins, enough, rfl⟩
    exact ⟨_, last, outputs, yields, runs, rfl⟩

end Planned

/-- Execution is row-wise. A run on a batch is the runs on its consecutive slices, and two
streams that cut one source differently fail together, or bring up the same rows in the
same order and end together. -/
theorem planSchemaWith_rowwise (arrow : Arrow) (documented : arrow.Documented) (elementwise : arrow.Elementwise)
    (provided requested : Schema) (policy : SchemaPolicy) (options : ProjectionOptions) (plan : InterchangePlan)
    (planned : planSchemaWith arrow provided requested policy options = .ok plan) :
    (∀ (batch : RecordBatch) (lengths : List Nat), schemaFieldsEqual batch.schema provided = true →
      lengths.sum = batch.numRows →
      ((∃ output, plan.applyBatch arrow batch = .ok output) ↔
        ∃ outputs, (consecutive batch.slice 0 lengths).mapM (plan.applyBatch arrow) = .ok outputs) ∧
      ∀ output outputs, plan.applyBatch arrow batch = .ok output →
        (consecutive batch.slice 0 lengths).mapM (plan.applyBatch arrow) = .ok outputs →
        Concatenates outputs output) ∧
    ∀ (schema : Schema) (source : Source RecordBatch) (limits others : StreamOptions),
      (∀ poll error, source poll ≠ some (.error error)) →
      1 ≤ limits.batchSize → 1 ≤ others.batchSize → limits.byteLimit = none → others.byteLimit = none →
      limits.rowLimit = others.rowLimit →
      ∃ s t, new schema source limits false = .ok s ∧ new schema source others false = .ok t ∧
        (plan.Fails arrow s ↔ plan.Fails arrow t) ∧
        (¬ plan.Fails arrow s → ∀ list, (plan.Delivers arrow s list ↔ plan.Delivers arrow t list) ∧
          (plan.Completes arrow s list ↔ plan.Completes arrow t list)) := by
  have planned := planSchemaWith_planned planned
  constructor
  · intro batch lengths same all
    have concatenates := batch.consecutive_whole all
    refine ⟨(planned.succeeds_parts documented elementwise same concatenates).trans mapM_exists.symm, ?_⟩
    intro output outputs run runs
    exact planned.outputs_concatenate documented elementwise same concatenates run (mapM_eq_ok.mp runs)
  · intro schema source limits others sound positive positive' unlimited unlimited' same_rows
    have fails : plan.Fails arrow (start schema source limits) ↔ plan.Fails arrow (start schema source others) := by
      rw [fails_iff documented elementwise planned positive unlimited sound,
        fails_iff documented elementwise planned positive' unlimited' sound, same_rows]
    refine ⟨_, _, new_start positive, new_start positive', fails, fun clean list => ⟨?_, ?_⟩⟩
    · rw [delivers_iff documented elementwise planned positive unlimited sound clean,
        delivers_iff documented elementwise planned positive' unlimited' sound (fails.not.mp clean), same_rows]
    · rw [completes_iff documented elementwise planned positive unlimited sound,
        completes_iff documented elementwise planned positive' unlimited' sound, same_rows]

end Applied

/-- A rename with a widening cast and an added field, on two rows in three slices, and on
streams that cut the two rows apart or leave them together. -/
theorem planSchemaWith_rowwise_rename :
    letI := Slicing.small
    ∃ plan output outputs, planSchemaWith Arrow.small renameBatch.schema
        ⟨[.mk "c" .int64 true [], .mk "x" .int64 false []], []⟩ .compatible renameOptions = .ok plan ∧
      plan.applyBatch Arrow.small renameBatch = .ok output ∧
      (consecutive renameBatch.slice 0 [1, 0, 1]).mapM (plan.applyBatch Arrow.small) = .ok outputs ∧
      Concatenates outputs output ∧
      ∃ s t, new renameBatch.schema (Source.ofList [.ok renameBatch]) { batchSize := 1 } false = .ok s ∧
        new renameBatch.schema (Source.ofList [.ok renameBatch]) { batchSize := 2 } false = .ok t ∧
        plan.Completes Arrow.small s output.rowList ∧ plan.Completes Arrow.small t output.rowList := by
  let _ := Slicing.small
  obtain ⟨plan, planned, output, run, first, last, cut, whole, stops⟩ : ∃ plan,
      planSchemaWith Arrow.small renameBatch.schema
        ⟨[.mk "c" .int64 true [], .mk "x" .int64 false []], []⟩ .compatible renameOptions = .ok plan ∧
      ∃ output, plan.applyBatch Arrow.small renameBatch = .ok output ∧ ∃ first last,
        plan.applyBatch Arrow.small (cutout renameBatch 0 2) = .ok output ∧
        Next (start renameBatch.schema (Source.ofList [.ok renameBatch]) { batchSize := 2 })
          (some (.ok (cutout renameBatch 0 2))) first ∧ Next first none last :=
    ⟨_, rfl, _, rfl, _, _, rfl, ⟨1, rfl⟩, ⟨1, rfl⟩⟩
  obtain ⟨split, streams⟩ :=
    planSchemaWith_rowwise Arrow.small Arrow.small_documented Arrow.small_elementwise _ _ _ _ plan planned
  obtain ⟨succeeds, joined⟩ := split renameBatch [1, 0, 1] (decide_eq_true rfl) rfl
  obtain ⟨outputs, runs⟩ := succeeds.mp ⟨output, run⟩
  have sound (poll : Nat) (error : InterchangeError) : Source.ofList [.ok renameBatch] poll ≠ some (.error error) := by
    cases poll <;> simp [Source.ofList]
  obtain ⟨t, s, made', made, fails, agree⟩ := streams renameBatch.schema (Source.ofList [.ok renameBatch])
    { batchSize := 2 } { batchSize := 1 } sound (Nat.le_succ 1) (Nat.le_refl 1) rfl rfl rfl
  cases (new_start (Nat.le_succ 1)).symm.trans made'
  have completes : plan.Completes Arrow.small (start renameBatch.schema (Source.ofList [.ok renameBatch])
      { batchSize := 2 }) output.rowList :=
    ⟨_, last, [output], .item whole (.done stops), by simp [applyItem, cut], by simp⟩
  exact ⟨plan, output, outputs, planned, run, runs, joined output outputs run runs, s, _, made, made',
    ((agree completes.not_fails output.rowList).2).mp completes, completes⟩

end FsspecData.InterchangePlan
