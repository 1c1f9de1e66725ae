import FsspecData.Library.Machine
import Mathlib.Algebra.Group.Nat.Defs
import Mathlib.Data.List.Infix

/-! Random access to a Parquet source. All readers share one underlying reader and its
cursor. A call holds the lock until it returns, so it is one step of the session. -/
namespace FsspecData.Codec

open Machine

/-- The kinds of `io::Error` that are told apart; `other` is every further one. -/
inductive ErrorKind where
  | interrupted
  | unexpectedEof
  | other
  deriving DecidableEq

structure IoError where
  kind : ErrorKind
  message : String
  deriving DecidableEq

inductive ParquetError where
  | general (message : String)
  | external (source : IoError)
  deriving DecidableEq

/-- The underlying reader. Of a buffer only the bytes are kept that a read reports. -/
class CodecReader (S : Type) where
  seek : S → UInt64 → Except IoError UInt64 × S
  read : S → Nat → Except IoError (List UInt8) × S

structure Mutex (S : Type) where
  poisoned : Bool
  inner : S

structure SharedReader where
  position : UInt64
  deriving DecidableEq

variable {S : Type} [CodecReader S]

def SharedReader.read (self : SharedReader) (reader : Mutex S) (length : Nat) :
    Except IoError (List UInt8) × SharedReader × Mutex S :=
  if reader.poisoned then (.error ⟨.other, "parquet reader lock is poisoned"⟩, self, reader)
  else
    match CodecReader.seek reader.inner self.position with
    | (.error error, inner) => (.error error, self, { reader with inner := inner })
    | (.ok _, inner) =>
      match CodecReader.read inner length with
      | (.error error, inner) => (.error error, self, { reader with inner := inner })
      | (.ok bytes, inner) =>
        (.ok bytes, ⟨self.position + UInt64.ofNat bytes.length⟩, { reader with inner := inner })

/-- The standard library's `read_exact`: it reads on after short and interrupted reads,
until the buffer is full. `none` when `fuel` reads were not enough. -/
def readExact : Nat → S → Nat → Option (Except IoError (List UInt8) × S)
  | _, reader, 0 => some (.ok [], reader)
  | 0, _, _ + 1 => none
  | fuel + 1, reader, length =>
    match CodecReader.read reader length with
    | (.ok [], reader) => some (.error ⟨.unexpectedEof, "failed to fill whole buffer"⟩, reader)
    | (.ok bytes, reader) =>
      (readExact fuel reader (length - bytes.length)).map fun (rest, reader) => (rest.map (bytes ++ ·), reader)
    | (.error error, reader) =>
      if error.kind = .interrupted then readExact fuel reader length else some (.error error, reader)

namespace SeekableChunkReader

def getRead (start : UInt64) : SharedReader := ⟨start⟩

def getBytes (fuel : Nat) (reader : Mutex S) (start : UInt64) (length : Nat) :
    Option (Except ParquetError (List UInt8) × Mutex S) :=
  if reader.poisoned then some (.error (.general "parquet reader lock is poisoned"), reader)
  else
    match CodecReader.seek reader.inner start with
    | (.error error, inner) => some (.error (.external error), { reader with inner := inner })
    | (.ok _, inner) => (readExact fuel inner length).map fun (result, inner) =>
      (result.mapError .external, { reader with inner := inner })

end SeekableChunkReader

/-- A chunk reader and the shared readers it has handed out. -/
structure Session (S : Type) where
  reader : Mutex S
  readers : List SharedReader

inductive Call where
  | getRead (start : UInt64)
  | read (index length : Nat)
  | getBytes (start : UInt64) (length : Nat)
  | panic

inductive Reply where
  | reader (index : Nat)
  | read (result : Except IoError (List UInt8))
  | bytes (result : Except ParquetError (List UInt8))
  | panicked

inductive Calls : Session S → Call → Reply → Session S → Prop where
  | getRead : Calls s (.getRead start) (.reader s.readers.length)
      { s with readers := s.readers ++ [SeekableChunkReader.getRead start] }
  | read (reader reader' : SharedReader) : s.readers[i]? = some reader →
      reader.read s.reader length = (result, reader', shared) →
      Calls s (.read i length) (.read result) ⟨shared, s.readers.set i reader'⟩
  | getBytes (fuel : Nat) : SeekableChunkReader.getBytes fuel s.reader start length = some (result, shared) →
      Calls s (.getBytes start length) (.bytes result) { s with reader := shared }
  -- whoever panics with the lock held poisons it
  | panic (inner : S) : Calls s .panic .panicked { s with reader := ⟨true, inner⟩ }

/-- What `Read` and `Seek` promise of a reader over a byte string. A failed seek or read
may leave the cursor anywhere, but an interrupted read has read nothing. -/
structure Correct (bytes : List UInt8) (cursor : S → Nat) : Prop where
  fits : bytes.length < 2 ^ 64
  seek_ok : CodecReader.seek s position = (.ok reached, t) → cursor t = position.toNat
  read_ok : CodecReader.read s length = (.ok got, t) →
    got.length ≤ length ∧ got <+: bytes.drop (cursor s) ∧ cursor t = cursor s + got.length
  read_interrupted : CodecReader.read s length = (.error error, t) → error.kind = .interrupted →
    cursor t = cursor s

/-- The bytes a trace shows reader `i` to have returned. -/
def delivered (i : Nat) (trace : List (Call × Reply)) : List UInt8 :=
  trace.flatMap fun
    | (.read j _, .read (.ok got)) => if j = i then got else []
    | _ => []

/-- Where the readers of a trace start, in the order of their creation. -/
def starts (trace : List (Call × Reply)) : List UInt64 :=
  trace.filterMap fun
    | (.getRead start, _) => some start
    | _ => none

/-- Bytes from one place and bytes from where they end are bytes from the first place. -/
theorem contiguous_append {bytes got rest : List UInt8} {start : Nat} (first : got <+: bytes.drop start)
    (second : rest <+: bytes.drop (start + got.length)) : got ++ rest <+: bytes.drop start := by
  obtain ⟨behind, whole⟩ := first
  have left : bytes.drop (start + got.length) = behind := by
    rw [← List.drop_drop, ← whole, List.drop_left]
  rw [left] at second
  rw [← whole]
  exact (List.prefix_append_right_inj got).mpr second

/-! One call. -/

section Step

variable {bytes : List UInt8} {cursor : S → Nat}

/-- A read that succeeds returns the bytes at the position and moves it behind them; one
that fails leaves it. -/
theorem read_spec (correct : Correct bytes cursor) {reader reader' : SharedReader} {shared shared' : Mutex S}
    {length : Nat} {result : Except IoError (List UInt8)}
    (called : reader.read shared length = (result, reader', shared')) :
    (∀ error, result = .error error → reader' = reader) ∧
      ∀ got, result = .ok got → got <+: bytes.drop reader.position.toNat ∧
        reader'.position.toNat = reader.position.toNat + got.length := by
  unfold SharedReader.read at called
  split at called
  next poisoned =>
    cases called
    exact ⟨fun _ _ => rfl, nofun⟩
  next free =>
    split at called
    next error inner sought =>
      cases called
      exact ⟨fun _ _ => rfl, nofun⟩
    next reached inner sought =>
      split at called
      next error after failed =>
        cases called
        exact ⟨fun _ _ => rfl, nofun⟩
      next got after filled =>
        cases called
        refine ⟨nofun, fun _ same => ?_⟩
        cases same
        have at_position := correct.seek_ok sought
        obtain ⟨_, leading, _⟩ := correct.read_ok filled
        rw [at_position] at leading
        refine ⟨leading, ?_⟩
        -- no sum of a position and what is read there leaves 64 bits
        have short := leading.length_le
        have fits := correct.fits
        have position_fits := reader.position.toNat_lt
        rw [List.length_drop] at short
        rw [UInt64.toNat_add, UInt64.toNat_ofNat', Nat.add_mod_mod]
        apply Nat.mod_eq_of_lt
        omega

/-- `read_exact` returns the bytes at the cursor, as many as it was asked for. -/
theorem readExact_ok (correct : Correct bytes cursor) {fuel : Nat} {s t : S} {length : Nat} {got : List UInt8}
    (called : readExact fuel s length = some (.ok got, t)) :
    got.length = length ∧ got <+: bytes.drop (cursor s) := by
  induction fuel generalizing s length got with
  | zero =>
    cases length with
    | zero =>
      cases called
      exact ⟨rfl, List.nil_prefix⟩
    | succ length => simp [readExact] at called
  | succ fuel ih =>
    cases length with
    | zero =>
      cases called
      exact ⟨rfl, List.nil_prefix⟩
    | succ length =>
      simp only [readExact] at called
      split at called
      next => cases called
      next first u nonempty filled =>
        obtain ⟨⟨rest, v⟩, later, joined⟩ := Option.map_eq_some_iff.mp called
        cases rest with
        | error error => cases joined
        | ok rest =>
          cases joined
          obtain ⟨short, leading, moved⟩ := correct.read_ok filled
          obtain ⟨long, behind⟩ := ih later
          rw [moved] at behind
          refine ⟨?_, contiguous_append leading behind⟩
          rw [List.length_append, long]
          omega
      next error u failed =>
        split at called
        next interrupted =>
          obtain ⟨long, leading⟩ := ih called
          rw [correct.read_interrupted failed interrupted] at leading
          exact ⟨long, leading⟩
        next => cases called

theorem getBytes_ok (correct : Correct bytes cursor) {fuel : Nat} {shared shared' : Mutex S} {start : UInt64}
    {length : Nat} {got : List UInt8}
    (called : SeekableChunkReader.getBytes fuel shared start length = some (.ok got, shared')) :
    got.length = length ∧ got = (bytes.drop start.toNat).take length := by
  unfold SeekableChunkReader.getBytes at called
  split at called
  next => cases called
  next free =>
    split at called
    next => cases called
    next reached inner sought =>
      obtain ⟨⟨result, after⟩, filled, same⟩ := Option.map_eq_some_iff.mp called
      cases result with
      | error error => cases same
      | ok bytes =>
        cases same
        obtain ⟨long, leading⟩ := readExact_ok correct filled
        rw [correct.seek_ok sought] at leading
        refine ⟨long, ?_⟩
        rw [← long]
        exact List.prefix_iff_eq_take.mp leading

end Step

/-! Runs of calls. -/

/-- A reader that started somewhere and has returned the bytes from there to its position. -/
structure Reads (bytes : List UInt8) (start : UInt64) (got : List UInt8) (reader : SharedReader) : Prop where
  position : reader.position.toNat = start.toNat + got.length
  contiguous : got <+: bytes.drop start.toNat

/-- The starts of a session's readers, once those a trace creates are added. -/
def positions (s : Session S) (trace : List (Call × Reply)) : List UInt64 :=
  s.readers.map (·.position) ++ starts trace

/-- One step: each reader's later bytes follow what it returns here. The reader that is
read moves, a created one starts, and all others stay. -/
theorem reads_step {bytes : List UInt8} {cursor : S → Nat} (correct : Correct bytes cursor) {s t : Session S}
    {call : Call} {reply : Reply} (taken : Calls s call reply t) {rest : List (Call × Reply)} {i : Nat}
    {start : UInt64} (at_i : (positions s ((call, reply) :: rest))[i]? = some start) :
    ∃ start', (positions t rest)[i]? = some start' ∧ ∀ got reader, Reads bytes start' got reader →
      Reads bytes start (delivered i [(call, reply)] ++ got) reader := by
  cases taken with
  | getRead =>
    refine ⟨start, ?_, fun got reader reads => reads⟩
    simpa [positions, starts, SeekableChunkReader.getRead] using at_i
  | getBytes fuel called => exact ⟨start, at_i, fun got reader reads => reads⟩
  | panic inner => exact ⟨start, at_i, fun got reader reads => reads⟩
  | @read j length result shared _ reader reader' at_reader called =>
    obtain ⟨failed, filled⟩ := read_spec correct called
    obtain ⟨inside, same⟩ := List.getElem?_eq_some_iff.mp at_reader
    cases result with
    | error error =>
      obtain rfl := failed error rfl
      have unmoved : s.readers.set j reader' = s.readers := by rw [← same, List.set_getElem_self]
      have same_positions : positions (⟨shared, s.readers.set j reader'⟩ : Session S) rest =
          positions s ((.read j length, .read (.error error)) :: rest) := by
        rw [positions, unmoved]
        rfl
      exact ⟨start, same_positions ▸ at_i, fun got reader reads => reads⟩
    | ok got =>
      obtain ⟨leading, moved⟩ := filled got rfl
      have here : delivered i [(.read j length, .read (.ok got))] = if j = i then got else [] := by
        simp [delivered]
      by_cases mine : j = i
      · subst mine
        have started : start = reader.position := by
          have head : (positions s ((.read j length, .read (.ok got)) :: rest))[j]? = some reader.position := by
            rw [positions, List.getElem?_append_left (by simpa using inside), List.getElem?_map, at_reader]
            rfl
          exact Option.some.inj (at_i.symm.trans head)
        refine ⟨reader'.position, ?_, fun later last reads => ?_⟩
        · rw [positions, List.getElem?_append_left (by simpa using inside), List.getElem?_map,
            List.getElem?_set_self inside]
          rfl
        · rw [here, if_pos rfl, started]
          refine ⟨?_, contiguous_append leading (moved ▸ reads.contiguous)⟩
          rw [reads.position, moved, List.length_append, Nat.add_assoc]
      · refine ⟨start, ?_, fun later last reads => ?_⟩
        · rw [← at_i, positions, positions, List.map_set]
          by_cases old : i < s.readers.length
          · rw [List.getElem?_append_left (by simpa using old), List.getElem?_append_left (by simpa using old),
              List.getElem?_set_ne mine]
          · rw [List.getElem?_append_right (by simpa using old), List.getElem?_append_right (by simpa using old),
              List.length_set]
            rfl
        · rw [here, if_neg mine]
          exact reads

theorem reads_run {bytes : List UInt8} {cursor : S → Nat} (correct : Correct bytes cursor) {s last : Session S}
    {trace : List (Call × Reply)} (run : Run Calls s trace last) {i : Nat} {start : UInt64}
    (at_i : (positions s trace)[i]? = some start) :
    ∃ reader, last.readers[i]? = some reader ∧ Reads bytes start (delivered i trace) reader := by
  induction run generalizing start with
  | nil =>
    rw [positions, starts, List.filterMap_nil, List.append_nil, List.getElem?_map] at at_i
    obtain ⟨reader, at_reader, rfl⟩ := Option.map_eq_some_iff.mp at_i
    exact ⟨reader, at_reader, rfl, List.nil_prefix⟩
  | @cons s call reply t trace last taken run ih =>
    obtain ⟨start', at_i', follows⟩ := reads_step correct taken at_i
    obtain ⟨reader, at_reader, reads⟩ := ih at_i'
    have both : delivered i ((call, reply) :: trace) = delivered i [(call, reply)] ++ delivered i trace := by
      simp [delivered]
    exact ⟨reader, at_reader, both ▸ follows _ _ reads⟩

/-- A `get_bytes` that succeeds returns the bytes asked for. -/
def Exact (bytes : List UInt8) (call : Call) (reply : Reply) : Prop :=
  ∀ start length got, call = .getBytes start length → reply = .bytes (.ok got) →
    got.length = length ∧ got = (bytes.drop start.toNat).take length

theorem calls_exact {bytes : List UInt8} {cursor : S → Nat} (correct : Correct bytes cursor) {s t : Session S}
    {call : Call} {reply : Reply} (taken : Calls s call reply t) : Exact bytes call reply := by
  intro start length got called returned
  cases taken with
  | getBytes fuel ran =>
    cases called
    cases returned
    exact getBytes_ok correct ran
  | _ => cases called

/-- A read that fails leaves every reader where it was. -/
theorem failed_unmoved {bytes : List UInt8} {cursor : S → Nat} (correct : Correct bytes cursor) {s t : Session S}
    {i length : Nat} {error : IoError} (failed : Calls s (.read i length) (.read (.error error)) t) :
    t.readers = s.readers := by
  cases failed with
  | read reader reader' at_reader called =>
    obtain rfl := (read_spec correct called).1 error rfl
    obtain ⟨inside, same⟩ := List.getElem?_eq_some_iff.mp at_reader
    simp only
    rw [← same, List.set_getElem_self]

/-- Random access is isolated. Whatever calls are made in whatever order, every reader has
returned the contiguous bytes from its start to its position, every `get_bytes` that
succeeds returns exactly the bytes asked for, and a failed read moves no reader. -/
theorem sharedReaders_isolated (bytes : List UInt8) (cursor : S → Nat) (correct : Correct bytes cursor)
    (shared : Mutex S) (trace : List (Call × Reply)) (last : Session S)
    (run : Run Calls ⟨shared, []⟩ trace last) :
    (∀ i start, (starts trace)[i]? = some start → ∃ reader, last.readers[i]? = some reader ∧
      reader.position.toNat = start.toNat + (delivered i trace).length ∧
      delivered i trace = (bytes.drop start.toNat).take (delivered i trace).length) ∧
    (∀ start length got, (.getBytes start length, .bytes (.ok got)) ∈ trace →
      got.length = length ∧ got = (bytes.drop start.toNat).take length) ∧
    ∀ i length error after, Calls last (.read i length) (.read (.error error)) after →
      after.readers = last.readers := by
  refine ⟨?_, ?_, fun i length error after failed => failed_unmoved correct failed⟩
  · intro i start at_i
    obtain ⟨reader, at_reader, reads⟩ := reads_run correct run at_i
    exact ⟨reader, at_reader, reads.position, List.prefix_iff_eq_take.mp reads.contiguous⟩
  · intro start length got member
    obtain ⟨each, _⟩ := run.guarantees (fun _ => True) (Exact bytes)
      (fun _ taken => ⟨calls_exact correct taken, trivial⟩) trivial
    exact each _ member start length got rfl rfl

/-- A reader over four bytes. It gives at most two of them at a time, and an operation that
its script fails loses the cursor. -/
structure Flaky where
  cursor : Nat
  failures : List Bool

namespace Flaky

def bytes : List UInt8 := [10, 20, 30, 40]

def attempt (self : Flaky) (result : α) (cursor : Nat) : Except IoError α × Flaky :=
  if self.failures.head? = some true then (.error ⟨.other, "device"⟩, ⟨0, self.failures.tail⟩)
  else (.ok result, ⟨cursor, self.failures.tail⟩)

instance : CodecReader Flaky where
  seek self position := self.attempt position position.toNat
  read self length :=
    let got := (bytes.drop self.cursor).take (min 2 length)
    self.attempt got (self.cursor + got.length)

theorem attempt_ok {self t : Flaky} {result got : α} {cursor : Nat}
    (done : self.attempt result cursor = (.ok got, t)) : got = result ∧ t.cursor = cursor := by
  unfold attempt at done
  split at done
  next => cases done
  next =>
    cases done
    exact ⟨rfl, rfl⟩

theorem correct : Correct bytes Flaky.cursor where
  fits := by decide
  seek_ok sought := (attempt_ok sought).2
  read_ok filled := by
    obtain ⟨rfl, moved⟩ := attempt_ok filled
    refine ⟨?_, List.take_prefix _ _, moved⟩
    exact (List.length_take_le _ _).trans (Nat.min_le_right _ _)
  read_interrupted failed interrupted := by
    simp only [CodecReader.read, attempt] at failed
    split at failed
    next =>
      cases failed
      contradiction
    next => cases failed

end Flaky

/-- Two readers read in turn around a `get_bytes`. A read fails behind its seek, and the
next one goes on where the reader was. -/
theorem sharedReaders_isolated_flaky : ∃ (last : Session Flaky) (reader : SharedReader),
    Run Calls ⟨⟨false, ⟨3, [false, false, false, true]⟩⟩, []⟩
      [(.getRead 1, .reader 0), (.getRead 0, .reader 1), (.read 0 8, .read (.ok [20, 30])),
        (.read 1 1, .read (.error ⟨.other, "device"⟩)), (.getBytes 0 3, .bytes (.ok [10, 20, 30])),
        (.read 0 8, .read (.ok [40])), (.read 1 1, .read (.ok [10]))] last ∧
      last.readers[0]? = some reader ∧ reader.position.toNat = 4 := by
  have run : ∃ last : Session Flaky, Run Calls ⟨⟨false, ⟨3, [false, false, false, true]⟩⟩, []⟩
      [(.getRead 1, .reader 0), (.getRead 0, .reader 1), (.read 0 8, .read (.ok [20, 30])),
        (.read 1 1, .read (.error ⟨.other, "device"⟩)), (.getBytes 0 3, .bytes (.ok [10, 20, 30])),
        (.read 0 8, .read (.ok [40])), (.read 1 1, .read (.ok [10]))] last :=
    ⟨_, .cons .getRead (.cons .getRead (.cons (.read _ _ rfl rfl) (.cons (.read _ _ rfl rfl)
      (.cons (.getBytes 2 rfl) (.cons (.read _ _ rfl rfl) (.cons (.read _ _ rfl rfl) .nil))))))⟩
  obtain ⟨last, run⟩ := run
  obtain ⟨isolated, _⟩ := sharedReaders_isolated Flaky.bytes Flaky.cursor Flaky.correct _ _ last run
  obtain ⟨reader, at_reader, position, _⟩ := isolated 0 1 rfl
  exact ⟨last, reader, run, at_reader, position⟩

end FsspecData.Codec
