import FsspecData.Codec.Error
import FsspecData.Library.Output
import Mathlib.Data.List.Basic

/-! Where encoded bytes go: `io::Write`, the loop behind `write_all`, and Python objects
that are written to. -/
namespace FsspecData.Codec

open Output

/-- `io::Write`. A sink may take fewer bytes than it is given, and says how many. -/
class Write (S : Type) where
  write : S → List UInt8 → Except IoError Nat × S
  flush : S → Except IoError Unit × S

/-- A vector takes everything at once. -/
instance : Write (List UInt8) where
  write s buffer := (.ok buffer.length, s ++ buffer)
  flush s := (.ok (), s)

section Sink

variable {S : Type} [Write S]

/-- The standard library's `write_all`. It writes on after short and interrupted writes, and
panics where the sink says that it took more than it was given. -/
def writeAll : (fuel : Nat) → S → List UInt8 → Option (Outcome (Except IoError Unit) × S)
  | _, s, [] => some (.returned (.ok ()), s)
  | 0, _, _ :: _ => none
  | fuel + 1, s, byte :: rest =>
    match Write.write s (byte :: rest) with
    | (.ok 0, s) => some (.returned (.error ⟨.other, "failed to write whole buffer"⟩), s)
    | (.ok n, s) => if (byte :: rest).length < n then some (.panicked, s) else writeAll fuel s ((byte :: rest).drop n)
    | (.error error, s) =>
      if error.kind = .interrupted then writeAll fuel s (byte :: rest) else some (.returned (.error error), s)

theorem writeAll_mono {fuel more : Nat} {s : S} {buffer : List UInt8} {answer : Outcome (Except IoError Unit) × S}
    (written : writeAll fuel s buffer = some answer) (le : fuel ≤ more) : writeAll more s buffer = some answer := by
  induction fuel generalizing more s buffer with
  | zero =>
    cases buffer with
    | nil => simpa [writeAll] using written
    | cons byte rest => simp [writeAll] at written
  | succ fuel ih =>
    obtain ⟨more, rfl⟩ : ∃ k, more = k + 1 := ⟨more - 1, by omega⟩
    have le : fuel ≤ more := by omega
    cases buffer with
    | nil => simpa [writeAll] using written
    | cons byte rest =>
      simp only [writeAll] at written ⊢
      split at written
      next t zero => simpa [zero] using written
      next n t _ took =>
        split at written
        next overrun =>
          rw [← written]
          exact if_pos overrun
        next within =>
          rw [← ih written le]
          exact if_neg within
      next error t failed =>
        split at written
        next interrupted => simpa [failed, interrupted] using ih written le
        next broken => simpa [failed, broken] using written

def sink (S : Type) [Write S] : Sink UInt8 IoError S where
  writeAll := writeAll
  flush s := (.returned (Write.flush s).1, (Write.flush s).2)
  writeAll_mono := writeAll_mono

/-- A sink that goes on taking bytes: a write takes some of them or is interrupted, and it
is interrupted only so often in a row. -/
structure Accepts (taken : S → List UInt8) (ready : S → Prop) (patience : S → Nat) : Prop where
  write_ok : ready s → buffer ≠ [] → Write.write s buffer = (.ok n, t) →
    0 < n ∧ n ≤ buffer.length ∧ taken t = taken s ++ buffer.take n ∧ ready t
  write_error : ready s → buffer ≠ [] → Write.write s buffer = (.error error, t) →
    error.kind = .interrupted ∧ taken t = taken s ∧ patience t < patience s ∧ ready t
  flush : ready s → ∃ t, Write.flush s = (.ok (), t) ∧ taken t = taken s ∧ ready t

variable {taken : S → List UInt8} {ready : S → Prop} {patience : S → Nat}

/-- However short its writes are, such a sink gets all bytes. -/
theorem Accepts.writeAll (accepts : Accepts taken ready patience) (buffer : List UInt8) {s : S} (held : ready s) :
    ∃ fuel t, Codec.writeAll fuel s buffer = some (.returned (.ok ()), t) ∧ taken t = taken s ++ buffer ∧
      ready t := by
  -- on the bytes left, and at each number of them on the interruptions left
  induction left : buffer.length using Nat.strong_induction_on generalizing buffer s with
  | _ length ihLength =>
    subst left
    induction waits : patience s using Nat.strong_induction_on generalizing s with
    | _ wait ihWait =>
      subst waits
      cases buffer with
      | nil => exact ⟨0, s, rfl, (List.append_nil _).symm, held⟩
      | cons byte rest =>
        cases written : Write.write s (byte :: rest) with
        | mk result u =>
          cases result with
          | error error =>
            obtain ⟨interrupted, nothing, sooner, held⟩ := accepts.write_error held (List.cons_ne_nil _ _) written
            obtain ⟨fuel, t, later, all, held⟩ := ihWait _ sooner held rfl
            exact ⟨fuel + 1, t, by simp [Codec.writeAll, written, interrupted, later], nothing ▸ all, held⟩
          | ok n =>
            obtain ⟨some_taken, within, here, held⟩ := accepts.write_ok held (List.cons_ne_nil _ _) written
            have fewer : ((byte :: rest).drop n).length < (byte :: rest).length := by
              rw [List.length_drop]
              omega
            obtain ⟨fuel, t, later, there, held⟩ := ihLength _ fewer _ held rfl
            refine ⟨fuel + 1, t, ?_, ?_, held⟩
            · obtain ⟨n, rfl⟩ : ∃ k, n = k + 1 := ⟨n - 1, by omega⟩
              simp only [Codec.writeAll, written, if_neg (Nat.not_lt.mpr within)]
              exact later
            · rw [there, here, List.append_assoc, List.take_append_drop]

theorem Accepts.takes (accepts : Accepts taken ready patience) : (sink S).Takes taken ready where
  writeAll buffer held := accepts.writeAll buffer held
  flush held := by
    obtain ⟨t, flushed, same, held⟩ := accepts.flush held
    exact ⟨t, by simp [sink, flushed], same, held⟩

/-- A sink that may fail: what it says that it took it has taken, and nothing where it fails. -/
structure Honest (taken : S → List UInt8) : Prop where
  write_ok : Write.write s buffer = (.ok n, t) → n ≤ buffer.length ∧ taken t = taken s ++ buffer.take n
  write_error : Write.write s buffer = (.error error, t) → taken t = taken s
  flush : Write.flush s = (result, t) → taken t = taken s

/-- `write_all` has written a first piece, and everything where it reports no error. -/
theorem Honest.writeAll (honest : Honest taken) {fuel : Nat} {s t : S} {buffer : List UInt8}
    {outcome : Outcome (Except IoError Unit)} (written : Codec.writeAll fuel s buffer = some (outcome, t)) :
    ∃ answer, outcome = .returned answer ∧ (∃ piece, piece <+: buffer ∧ taken t = taken s ++ piece) ∧
      (answer = .ok () → taken t = taken s ++ buffer) := by
  induction fuel generalizing s buffer with
  | zero =>
    cases buffer with
    | nil =>
      cases written
      exact ⟨_, rfl, no_piece _ rfl, fun _ => (List.append_nil _).symm⟩
    | cons byte rest => simp [Codec.writeAll] at written
  | succ fuel ih =>
    cases buffer with
    | nil =>
      cases written
      exact ⟨_, rfl, no_piece _ rfl, fun _ => (List.append_nil _).symm⟩
    | cons byte rest =>
      simp only [Codec.writeAll] at written
      split at written
      next u zero =>
        cases written
        obtain ⟨_, here⟩ := honest.write_ok zero
        exact ⟨_, rfl, no_piece _ (by simpa using here), nofun⟩
      next n u _ took =>
        obtain ⟨within, here⟩ := honest.write_ok took
        rw [if_neg (Nat.not_lt.mpr within)] at written
        obtain ⟨answer, returned, ⟨piece, first, there⟩, complete⟩ := ih written
        refine ⟨answer, returned, ⟨(byte :: rest).take n ++ piece, ?_, ?_⟩, fun finished => ?_⟩
        · conv => rhs; rw [← List.take_append_drop n (byte :: rest)]
          exact (List.prefix_append_right_inj _).mpr first
        · rw [there, here, List.append_assoc]
        · rw [complete finished, here, List.append_assoc, List.take_append_drop]
      next error u failed =>
        have nothing := honest.write_error failed
        split at written
        next interrupted =>
          rw [← nothing]
          exact ih written
        next =>
          cases written
          exact ⟨_, rfl, no_piece _ nothing, nofun⟩

theorem Honest.keeps (honest : Honest taken) : (sink S).Keeps taken where
  writeAll written := honest.writeAll written
  flush {s outcome t} flushed := by
    obtain ⟨rfl, rfl⟩ := Prod.mk.inj flushed
    exact ⟨⟨_, rfl⟩, honest.flush rfl⟩

end Sink

/-! Python objects. -/

/-- A Python object with the methods `write` and `flush`. -/
class PythonSink (S : Type) (V : outParam Type) where
  write : S → List UInt8 → Except PyErr V × S
  flush : S → Except PyErr V × S

structure PythonWriter (S : Type) where
  sink : S

/-- The number of bytes is whatever number Python answers. -/
instance {S V : Type} [PyAny V] [PythonSink S V] : Write (PythonWriter S) where
  write self buffer :=
    match PythonSink.write self.sink buffer with
    | (.error error, sink) => (.error (pythonIoError error), ⟨sink⟩)
    | (.ok written, sink) => ((PyAny.extractUsize written).mapError pythonIoError, ⟨sink⟩)
  flush self :=
    match PythonSink.flush self.sink with
    | (.error error, sink) => (.error (pythonIoError error), ⟨sink⟩)
    | (.ok _, sink) => (.ok (), ⟨sink⟩)

/-- A Python object that takes some of the bytes at each call, and says how many. -/
structure PythonSink.Accepts {S V : Type} [PyAny V] [PythonSink S V] (taken : S → List UInt8) (ready : S → Prop) :
    Prop where
  write : ready s → buffer ≠ [] → ∃ written n t, PythonSink.write s buffer = (.ok written, t) ∧
    PyAny.extractUsize written = .ok n ∧ 0 < n ∧ n ≤ buffer.length ∧ taken t = taken s ++ buffer.take n ∧ ready t
  flush : ready s → ∃ answer t, PythonSink.flush s = (.ok answer, t) ∧ taken t = taken s ∧ ready t

theorem PythonWriter.accepts {S V : Type} [PyAny V] [PythonSink S V] {taken : S → List UInt8} {ready : S → Prop}
    (accepts : PythonSink.Accepts taken ready) :
    Accepts (fun writer : PythonWriter S => taken writer.sink) (fun writer => ready writer.sink) fun _ => 0 where
  write_ok {s buffer n t} held nonempty wrote := by
    obtain ⟨written, count, after, called, counted, positive, within, here, held⟩ := accepts.write held nonempty
    simp only [Write.write, called, counted] at wrote
    obtain ⟨same, rfl⟩ := Prod.mk.inj wrote
    obtain rfl := Except.ok.inj same
    exact ⟨positive, within, here, held⟩
  write_error {s buffer error t} held nonempty failed := by
    obtain ⟨written, count, after, called, counted, -⟩ := accepts.write held nonempty
    simp only [Write.write, called, counted] at failed
    cases (Prod.mk.inj failed).1
  flush {s} held := by
    obtain ⟨answer, after, called, same, held⟩ := accepts.flush held
    exact ⟨⟨after⟩, by simp only [Write.flush, called], same, held⟩

end FsspecData.Codec
