import FsspecData.Codec.NativeWriter

/-! A codec writer over a sink that may fail: a full disk, a closed pipe. -/
namespace FsspecData.Codec.NativeCodecWriter

open Output Machine

variable {W S : Type} {library : WriterLibrary W}

/-- The library's operations end at the first error of the sink, and report it. -/
structure Stops (library : WriterLibrary W) : Prop where
  create (schema : Schema) : (library.create schema).Stops fun result => ∃ error, result = .error error
  write (writer : W) (batch : RecordBatch) :
    (library.write writer batch).Stops fun (result, _) => ∃ error, result = .error error
  flush (writer : W) : (library.flush writer).Stops fun (result, _) => ∃ error, result = .error error

theorem Stops.startWriter (stops : Stops library) (schema : Schema) :
    (startWriter library schema).Stops fun result => ∃ error, result = .error error := by
  refine .bind (stops.create schema) (fun result => ?_) fun result failed => ?_
  · cases result with
    | error source => exact .pure _
    | ok writer => exact .pure _
  · obtain ⟨source, rfl⟩ := failed
    exact ⟨_, ⟨_, rfl⟩, rfl⟩

theorem Stops.writeBatch (stops : Stops library) (codec : Codec) (writer : CodecWriter W) (batch : RecordBatch) :
    (codec.writeBatch library writer batch).Stops fun (result, _) => ∃ error, result = .error error := by
  unfold Codec.writeBatch
  cases validateBatch writer.schema batch with
  | error error => exact .pure _
  | ok _ =>
    refine .bind (stops.write writer.writer batch) (fun (result, after) => ?_) fun (result, after) failed => ?_
    · cases result with
      | error source => exact .pure _
      | ok _ =>
        cases codec.flushes with
        | false => exact .pure _
        | true =>
          refine .bind (stops.flush after) (fun _ => .pure _) fun (flushed, last) failed => ?_
          obtain ⟨source, rfl⟩ := failed
          exact ⟨_, ⟨_, rfl⟩, rfl⟩
    · obtain ⟨source, rfl⟩ := failed
      exact ⟨_, ⟨_, rfl⟩, rfl⟩

theorem Stops.native (stops : Stops library) (codec : Codec) (writer : CodecWriter W) (batch : RecordBatch) :
    (NativeCodecWriter.writeBatch codec library ⟨some writer⟩ batch).Stops
      fun (result, _) => ∃ error, result = .error error := by
  refine .bind (stops.writeBatch codec writer batch) (fun _ => .pure _) fun (result, after) failed => ?_
  obtain ⟨error, rfl⟩ := failed
  exact ⟨_, ⟨_, rfl⟩, rfl⟩

variable [Write S] {taken : S → List UInt8}

/-- A batch that is answered as by a writer that never fails is written, or refused, as by
one, and of any other batch a first piece is written. -/
theorem write_step (codec : Codec) (honest : Honest taken) (stops : Stops library) {writer : CodecWriter W} {u : S}
    {batch : RecordBatch} {reply : Reply} {t : Session W S}
    (called : Calls codec library ⟨⟨some writer⟩, u⟩ (.writeBatch batch) reply t) :
    (∃ result, reply = .returned result) ∧
      (∃ piece, piece <+: (codec.writeBatch library writer batch).output ∧ taken t.sink = taken u ++ piece) ∧
      (reply = .returned (answer writer.schema false (.writeBatch batch)) →
        spec codec library (⟨some writer⟩, taken u) (.writeBatch batch) = (reply, t.native, taken t.sink)) := by
  have output : (writeBatch codec library ⟨some writer⟩ batch).output =
      (codec.writeBatch library writer batch).output := by
    simp [writeBatch]
  cases called with
  | panicked fuel left ran =>
    obtain ⟨_, panics, -⟩ := (stops.native codec writer batch).run honest.keeps ran
    cases panics
  | @returned _ _ result native t fuel ran =>
    obtain ⟨_, same, piece, complete⟩ := (stops.native codec writer batch).run honest.keeps ran
    obtain rfl := Outcome.returned.inj same
    rw [output] at piece complete
    refine ⟨⟨_, rfl⟩, piece, fun expected => ?_⟩
    by_cases own : batch.schema = writer.schema
    · have head : answer writer.schema false (.writeBatch batch) = .ok () := by simp [answer, own]
      rw [head] at expected
      cases expected
      obtain ⟨value, everything⟩ := complete (by simp)
      simp only [spec, perform]
      rw [← value, output, everything]
    · have refused : writeBatch codec library ⟨some writer⟩ batch =
          .pure (.error (toPythonError (.interchange .inputSchema)), ⟨some writer⟩) := by
        simp only [writeBatch, Codec.writeBatch, validateBatch, if_pos own]
        rfl
      simp only [perform, refused] at ran
      cases ran
      simp [spec, perform, refused, Program.value, Program.output]

/-- Batches that are all answered so leave the session where the specification is. -/
theorem writes_run (codec : Codec) (honest : Honest taken) (stops : Stops library) {writer : CodecWriter W} {u : S}
    {trace : List (Call × Reply)} {last : Session W S} (run : Run (Calls codec library) ⟨⟨some writer⟩, u⟩ trace last)
    {batches : List RecordBatch} (writes : trace.map Prod.fst = batches.map .writeBatch)
    (unfailed : trace.map Prod.snd = answers writer.schema false (batches.map .writeBatch)) :
    ∃ written, last.native = ⟨some written⟩ ∧ written.schema = writer.schema ∧ ∃ gained,
      taken last.sink = taken u ++ gained ∧
      ∀ more bytes, Encodes codec library writer (batches.filter (·.schema = writer.schema) ++ more) bytes →
        ∃ rest, Encodes codec library written more rest ∧ bytes = gained ++ rest := by
  induction batches generalizing writer u trace with
  | nil =>
    obtain rfl := List.map_eq_nil_iff.mp writes
    cases run
    exact ⟨writer, rfl, rfl, [], (List.append_nil _).symm, fun more bytes encoded => ⟨bytes, encoded, rfl⟩⟩
  | cons batch batches ih =>
    cases run with
    | nil => cases writes
    | @cons _ call reply t trace _ called rest =>
      simp only [List.map_cons, List.cons.injEq, answers, Call.closes, Bool.or_false] at writes unfailed
      obtain ⟨rfl, writes⟩ := writes
      obtain ⟨expected, unfailed⟩ := unfailed
      have follows := (write_step codec honest stops called).2.2 expected
      by_cases own : batch.schema = writer.schema
      · rw [spec_written] at follows
        simp only [Prod.mk.injEq] at follows
        obtain ⟨replied, native, here⟩ := follows
        have wrote : (codec.writeBatch library writer batch).value.1 = .ok () := by
          rw [expected] at replied
          have result := Reply.returned.inj replied
          rw [answer, if_neg Bool.false_ne_true, if_pos own] at result
          exact Fallible.mapError_eq_ok.mp result
        obtain ⟨t, v⟩ := t
        simp only at native here
        subst native
        have schema := writeBatch_schema codec library writer batch
        rw [← schema] at unfailed
        obtain ⟨written, last_native, kept, gained, there, encodes⟩ := ih rest writes unfailed
        rw [schema] at kept encodes
        refine ⟨written, last_native, kept, (codec.writeBatch library writer batch).output ++ gained, ?_,
          fun more bytes encoded => ?_⟩
        · rw [there, ← here, List.append_assoc]
        · rw [List.filter_cons_of_pos (by simpa using own), List.cons_append,
            encodes_cons codec library _ _ (Prod.ext wrote rfl)] at encoded
          obtain ⟨later, others, rfl⟩ := encoded
          obtain ⟨rest, last_ones, rfl⟩ := encodes more later others
          exact ⟨rest, last_ones, (List.append_assoc _ _ _).symm⟩
      · rw [spec_refused codec library _ own] at follows
        simp only [Prod.mk.injEq] at follows
        obtain ⟨-, native, here⟩ := follows
        obtain ⟨t, v⟩ := t
        simp only at native here
        subst native
        rw [List.filter_cons_of_neg (by simpa using own), here]
        exact ih rest writes unfailed

/-- Up to the first call that fails, whatever has reached the sink is the beginning of every
file that the batches so far can be completed to, and no call panics. -/
theorem session_prefix (codec : Codec) (honest : Honest taken) (stops : Stops library) {schema : Schema} {fuel : Nat}
    {before opened : S} {writer : CodecWriter W}
    (started : (startWriter library schema).run (sink S) fuel before = some (.returned (.ok writer), opened))
    (batches : List RecordBatch) (batch : RecordBatch) {trace : List (Call × Reply)} {reply : Reply}
    {last : Session W S}
    (run : Run (Calls codec library) ⟨⟨some writer⟩, opened⟩ (trace ++ [(.writeBatch batch, reply)]) last)
    (writes : trace.map Prod.fst = batches.map .writeBatch)
    (unfailed : trace.map Prod.snd = answers schema false (batches.map .writeBatch)) :
    (∃ result, reply = .returned result) ∧
      ∃ piece, taken last.sink = taken before ++ piece ∧ ∀ more bytes, codec.encode library schema
        ((batches ++ [batch]).filter (·.schema = schema) ++ more) = some (.ok bytes) → piece <+: bytes := by
  obtain ⟨_, same, -, complete⟩ := (stops.startWriter schema).run honest.keeps started
  cases same
  obtain ⟨value, header⟩ := complete (by simp)
  have own := startWriter_schema library value.symm
  obtain ⟨between, earlier, final_step⟩ := run.split
  obtain ⟨written, native, schema_kept, gained, here, encodes⟩ :=
    writes_run codec honest stops earlier writes (own.symm ▸ unfailed)
  cases final_step with
  | @cons _ _ _ t _ _ called rest =>
    cases rest
    obtain ⟨held, u⟩ := between
    simp only at native here
    subst native
    obtain ⟨returned, ⟨piece, first, there⟩, follows⟩ := write_step codec honest stops called
    refine ⟨returned, (startWriter library schema).output ++ gained ++ piece, ?_, fun more bytes encoded => ?_⟩
    · rw [there, here, header]
      simp only [List.append_assoc]
    · obtain ⟨_, tail, started_value, encoded, rfl⟩ := (encode_ok codec library schema _ bytes).mp encoded
      obtain rfl := Except.ok.inj (value.trans started_value)
      rw [List.filter_append, List.append_assoc, ← own] at encoded
      obtain ⟨rest, from_here, rfl⟩ := encodes _ tail encoded
      rw [List.append_assoc]
      refine (List.prefix_append_right_inj _).mpr ((List.prefix_append_right_inj _).mpr (first.trans ?_))
      by_cases same : batch.schema = writer.schema
      · rw [List.filter_cons_of_pos (by simpa using same)] at from_here
        exact encodes_starts codec library from_here
      · rw [← schema_kept] at same
        simp [Codec.writeBatch, validateBatch, same]

theorem Small.library_stops : Stops Small.library where
  create _ := .writeAll _ _ (fun _ => ⟨_, ⟨_, rfl⟩, rfl⟩) (.pure _)
  write _ _ := .pure _
  flush _ := .writeAll _ _ (fun _ => ⟨_, ⟨_, rfl⟩, rfl⟩) (.pure _)

/-- The pipe is full behind the first of two batches. -/
theorem session_prefix_pipe : ∃ (trace : List (Call × Reply)) (last : Session (List UInt8) (PythonWriter Small.Pipe)),
    trace.map Prod.fst = [.writeBatch Small.threeRows, .writeBatch Small.otherRows, .writeBatch Small.twoRows] ∧
    Run (Calls ParquetCodec Small.library) ⟨⟨some ⟨⟨[], []⟩, []⟩⟩, ⟨⟨some 3, [7, 0]⟩⟩⟩ trace last ∧
    ∃ piece, last.sink.sink.bytes = 7 :: piece ∧ piece <+: [0, 3, 2, 255] := by
  have started : (startWriter Small.library ⟨[], []⟩).run (sink (PythonWriter Small.Pipe)) 1 ⟨⟨some 3, [7]⟩⟩ =
      some (.returned (.ok ⟨⟨[], []⟩, []⟩), ⟨⟨some 3, [7, 0]⟩⟩) := rfl
  have run : ∃ last : Session (List UInt8) (PythonWriter Small.Pipe),
      Run (Calls ParquetCodec Small.library) ⟨⟨some ⟨⟨[], []⟩, []⟩⟩, ⟨⟨some 3, [7, 0]⟩⟩⟩
        ([(.writeBatch Small.threeRows, .returned (.ok ())),
          (.writeBatch Small.otherRows, .returned (.error (toPythonError (.interchange .inputSchema))))] ++
          [(.writeBatch Small.twoRows,
            .returned (.error (toPythonError (.interchange (.arrow ⟨"BlockingIOError"⟩)))))]) last :=
    ⟨_, .cons (.returned 1 rfl) (.cons (.returned 1 rfl) (.cons (.returned 1 rfl) .nil))⟩
  obtain ⟨last, run⟩ := run
  obtain ⟨-, piece, gained, begins⟩ := session_prefix ParquetCodec Small.pipe_honest Small.library_stops started
    [Small.threeRows, Small.otherRows] Small.twoRows run rfl rfl
  exact ⟨_, last, rfl, run, piece, gained, begins [] _ rfl⟩

end FsspecData.Codec.NativeCodecWriter
