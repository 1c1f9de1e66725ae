import FsspecData.Codec.Error
import FsspecData.Library.Fallible

/-! Reading from Python. A Python file may give fewer bytes than it is asked for, or more,
or something else; the readers above it still return the bytes of the file. -/
namespace FsspecData.Codec

open Machine

/-- A Python object with the methods `read` and `seek`. -/
class PythonSource (S : Type) (V : outParam Type) where
  read : S → (length : Nat) → Except PyErr V × S
  seek : S → (offset : Int) → (whence : Nat) → Except PyErr V × S

structure PythonReader (S : Type) where
  source : S

/-- A reader that can also seek from its end. -/
class SeekReader (S : Type) extends CodecReader S where
  seekEnd : S → (offset : Int) → Except IoError UInt64 × S

section

variable {S V : Type} [PyAny V] [PythonSource S V]

namespace PythonReader

def read (self : PythonReader S) (length : Nat) : Except IoError (List UInt8) × PythonReader S :=
  match PythonSource.read self.source length with
  | (.error error, source) => (.error (pythonIoError error), ⟨source⟩)
  | (.ok data, source) =>
    match PyAny.castBytes data with
    | .error error => (.error ⟨.other, error.text⟩, ⟨source⟩)
    | .ok data =>
      if data.length > length then (.error ⟨.other, "Python reader returned more bytes than requested"⟩, ⟨source⟩)
      else (.ok data, ⟨source⟩)

/-- The position answered, whatever the kind of seek. -/
def seek (self : PythonReader S) (offset : Int) (whence : Nat) : Except IoError UInt64 × PythonReader S :=
  match PythonSource.seek self.source offset whence with
  | (.error error, source) => (.error (pythonIoError error), ⟨source⟩)
  | (.ok position, source) => ((PyAny.extractU64 position).mapError pythonIoError, ⟨source⟩)

end PythonReader

instance : SeekReader (PythonReader S) where
  read := PythonReader.read
  seek self position := self.seek position.toNat 0
  seekEnd self offset := self.seek offset 2

end

/-- The length, and the reader behind its lock. -/
def SeekableChunkReader.new {S : Type} [SeekReader S] (reader : S) : Except CodecError (UInt64 × Mutex S) :=
  match SeekReader.seekEnd reader 0 with
  | (.error error, _) => .error (.io error)
  | (.ok len, reader) =>
    match CodecReader.seek reader 0 with
    | (.error error, _) => .error (.io error)
    | (.ok _, reader) => .ok (len, ⟨false, reader⟩)

/-! Readers that answer. -/

section Responsive

variable {S : Type} [CodecReader S] {bytes : List UInt8} {cursor patience : S → Nat}

/-- What `read_exact` makes of a byte string: the bytes asked for, or an end of file. -/
def exactly (bytes : List UInt8) (start length : Nat) : Except IoError (List UInt8) :=
  if length ≤ bytes.length - start then .ok ((bytes.drop start).take length)
  else .error ⟨.unexpectedEof, "failed to fill whole buffer"⟩

end Responsive

/-! Python files. -/

section Python

variable {S V : Type} [PyAny V] [PythonSource S V] {bytes : List UInt8} {cursor : S → Nat}

/-- A Python file over a byte string. What it reads lies at its cursor, but may be more than
it was asked for, or no bytes at all, and any call may raise. -/
structure PythonFile (bytes : List UInt8) (cursor : S → Nat) : Prop where
  fits : bytes.length < 2 ^ 64
  read {s t : S} {length : Nat} {data : V} {got : List UInt8} : PythonSource.read s length = (.ok data, t) →
    PyAny.castBytes data = .ok got → got <+: bytes.drop (cursor s) ∧ cursor t = cursor s + got.length
  seek {s t : S} {position : Nat} {reached : V} :
    PythonSource.seek s (Int.ofNat position) 0 = (.ok reached, t) → cursor t = position
  seek_end {s t : S} {reached : V} {position : UInt64} : PythonSource.seek s 0 2 = (.ok reached, t) →
    PyAny.extractU64 reached = .ok position → position.toNat = bytes.length

/-- A Python file that does not fail. -/
structure Answers (bytes : List UInt8) (cursor : S → Nat) : Prop where
  read (s : S) {length : Nat} : 0 < length → ∃ (data : V) (t : S) (got : List UInt8),
    PythonSource.read s length = (.ok data, t) ∧ PyAny.castBytes data = .ok got ∧ got.length ≤ length ∧
      (got = [] → bytes.length ≤ cursor s)
  seek (s : S) (position : Nat) : ∃ (reached : V) (t : S) (place : UInt64),
    PythonSource.seek s (Int.ofNat position) 0 = (.ok reached, t) ∧ PyAny.extractU64 reached = .ok place

theorem PythonReader.correct (file : PythonFile bytes cursor) :
    Correct bytes fun reader : PythonReader S => cursor reader.source where
  fits := file.fits
  seek_ok {s position reached t} sought := by
    simp only [CodecReader.seek, PythonReader.seek] at sought
    split at sought
    next => cases sought
    next answer after called =>
      obtain ⟨-, rfl⟩ := Prod.mk.inj sought
      exact file.seek called
  read_ok {s length got t} filled := by
    simp only [CodecReader.read, PythonReader.read] at filled
    split at filled
    next => cases filled
    next data after called =>
      split at filled
      next => cases filled
      next answer cast =>
        split at filled
        next => cases filled
        next within =>
          cases filled
          obtain ⟨leading, moved⟩ := file.read called cast
          exact ⟨Nat.le_of_not_lt within, leading, moved⟩
  read_interrupted {s length error t} failed interrupted := by
    simp only [CodecReader.read, PythonReader.read] at failed
    split at failed
    next =>
      cases failed
      cases interrupted
    next =>
      split at failed
      next =>
        cases failed
        cases interrupted
      next =>
        split at failed
        next =>
          cases failed
          cases interrupted
        next => cases failed

end Python

/-- A Python file of four bytes that gives at most two of them at a time. -/
structure Slow where
  cursor : Nat

namespace Slow

def bytes : List UInt8 := [10, 20, 30, 40]

instance : PyAny (UInt64 ⊕ List UInt8) where
  extractUsize
    | .inl n => .ok n.toNat
    | .inr _ => .error ⟨"TypeError"⟩
  extractU64
    | .inl n => .ok n
    | .inr _ => .error ⟨"TypeError"⟩
  castBytes
    | .inl _ => .error ⟨"TypeError"⟩
    | .inr data => .ok data

instance : PythonSource Slow (UInt64 ⊕ List UInt8) where
  read self length :=
    let got := (bytes.drop self.cursor).take (min 2 length)
    (.ok (.inr got), ⟨self.cursor + got.length⟩)
  seek _ offset whence :=
    let position := if whence = 2 then bytes.length + offset.toNat else offset.toNat
    (.ok (.inl (.ofNat position)), ⟨position⟩)

theorem file : PythonFile bytes Slow.cursor where
  fits := by decide
  read called cast := by
    cases called
    cases cast
    exact ⟨List.take_prefix _ _, rfl⟩
  seek called := by
    cases called
    rfl
  seek_end called extracted := by
    cases called
    cases extracted
    rfl

theorem answers : Answers bytes Slow.cursor where
  read s length positive := by
    refine ⟨_, _, _, rfl, rfl, (List.length_take_le _ _).trans (Nat.min_le_right _ _), fun ended => ?_⟩
    have none_left := congrArg List.length ended
    simp only [List.length_take, List.length_drop, List.length_nil] at none_left
    omega
  seek _ _ := ⟨_, _, _, rfl, rfl⟩

end Slow

end FsspecData.Codec
