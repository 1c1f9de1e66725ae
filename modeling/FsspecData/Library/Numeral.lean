import FsspecData.Library.Text
import Mathlib.Data.List.Induction

/-! Whole numbers read from text as Python's `int` reads them, and the one spelling of a
number that `str` writes. -/
namespace Numeral

/-- What `int` depends on: the values of digits outside ASCII, and the limit on the number of
digits, which is `0` where there is none. -/
structure Reader where
  decimal : Char → Option (Fin 10)
  maxDigits : ℕ

variable (reader : Reader)

/-- A character as `int` takes it: digits and spaces of other scripts become ASCII. -/
def Reader.ascii (c : Char) : Char :=
  if c.toNat < 127 then c
  else if Text.isSpace c then ' '
  else match reader.decimal c with
    | some digit => Nat.digitChar digit
    | none => '?'

def blank (c : Char) : Bool := c = ' ' || (9 ≤ c.toNat && c.toNat ≤ 13)

/-- Digits, with single underscores between them. -/
def Reader.digits (text : List Char) : Option ℕ :=
  let groups := text.splitOn '_'
  if groups.all (fun group => !group.isEmpty && group.all Char.isDigit) &&
      (groups.flatten.length ≤ 640 || reader.maxDigits = 0 || groups.flatten.length ≤ reader.maxDigits) then
    some (Nat.ofDigitChars 10 groups.flatten 0)
  else none

def Reader.signed : List Char → Option ℤ
  | '+' :: rest => (reader.digits rest).map fun value : ℕ => (value : ℤ)
  | '-' :: rest => (reader.digits rest).map fun value : ℕ => -(value : ℤ)
  | text => (reader.digits text).map fun value : ℕ => (value : ℤ)

/-- `int`; `none` where it raises. -/
def Reader.int (text : String) : Option ℤ :=
  reader.signed (Text.stripWhere blank (text.toList.map reader.ascii))

/-- The first digit, behind a sign. -/
def leading : List Char → Option Char
  | '-' :: rest => rest.head?
  | text => text.head?

/-- ASCII digits behind at most a minus sign, the first of them not `0`. -/
structure Plain (text : List Char) : Prop where
  chars : ∀ c ∈ text, c.isDigit = true ∨ c = '-'
  leads : leading text ≠ some '0'

/-! The digits of a number, and the number of some digits. -/

theorem ofDigitChars_pos {text : List Char} (all : ∀ c ∈ text, c.isDigit = true) (filled : text ≠ [])
    (leads : text.head? ≠ some '0') : 0 < Nat.ofDigitChars 10 text 0 := by
  cases text with
  | nil => exact absurd rfl filled
  | cons c rest =>
    have first : 0 < c.toNat - '0'.toNat := by
      have digit := Char.isDigit_iff_toNat.mp (all c List.mem_cons_self)
      have other : c.toNat ≠ '0'.toNat := fun same => leads (congrArg some (Char.toNat_inj.mp same))
      omega
    rw [Nat.ofDigitChars_cons, Nat.ofDigitChars_eq_ofDigitChars_zero, Nat.mul_zero, Nat.zero_add]
    exact Nat.add_pos_left (Nat.mul_pos (Nat.pow_pos (by decide)) first) _

/-- Digits without a leading zero are those of their number. -/
theorem toDigits_ofDigitChars {text : List Char} (all : ∀ c ∈ text, c.isDigit = true) (filled : text ≠ [])
    (leads : text.head? ≠ some '0') : Nat.toDigits 10 (Nat.ofDigitChars 10 text 0) = text := by
  induction text using List.reverseRecOn with
  | nil => exact absurd rfl filled
  | append_singleton front c ih =>
    rw [List.forall_mem_append, List.forall_mem_singleton] at all
    have range := Char.isDigit_iff_toNat.mp all.2
    simp only [Char.reduceToNat] at range
    have last : Nat.toDigits 10 (c.toNat - 48) = [c] := by
      rw [Nat.toDigits_of_lt_base (by omega), List.singleton_inj, ← Char.toNat_inj,
        Nat.toNat_digitChar_of_lt_ten (by omega)]
      omega
    rw [Nat.ofDigitChars_append, Nat.ofDigitChars_cons, Nat.ofDigitChars_nil]
    cases front with
    | nil => simpa using last
    | cons first rest =>
      have leads' : (first :: rest).head? ≠ some '0' := leads
      have tail := ih all.1 (List.cons_ne_nil _ _) leads'
      have joined := Nat.toDigits_append_toDigits (by decide : 1 < 10)
        (ofDigitChars_pos all.1 (List.cons_ne_nil _ _) leads') (by omega : c.toNat - 48 < 10)
      rw [tail, last] at joined
      exact joined.symm

theorem head_toDigits {m : ℕ} (positive : 0 < m) : (Nat.toDigits 10 m).head? ≠ some '0' := by
  induction m using Nat.strongRecOn with
  | ind m ih =>
    by_cases small : m < 10
    · rw [Nat.toDigits_of_lt_base small, List.head?_cons, ne_eq, Option.some.injEq, Nat.digitChar_eq_zero]
      omega
    · rw [Nat.toDigits_of_base_le (by decide) (by omega), List.head?_append_of_ne_nil _ Nat.toDigits_ne_nil]
      exact ih (m / 10) (by omega) (by omega)

theorem toString_natCast (m : ℕ) : toString (m : ℤ) = toString m := rfl

theorem toString_inj {m n : ℕ} (same : toString m = toString n) : m = n := by
  have digits : Nat.toDigits 10 m = Nat.toDigits 10 n := by
    rw [← Nat.toList_repr, ← Nat.toList_repr]
    exact congrArg String.toList same
  have value := Nat.ofDigitChars_ten_toDigits (n := m)
  rwa [digits, Nat.ofDigitChars_ten_toDigits, eq_comm] at value

theorem toList_ofNat (m : ℕ) : (toString (m : ℤ)).toList = Nat.toDigits 10 m := Nat.toList_repr

theorem toList_neg {m : ℕ} (positive : 0 < m) : (toString (-(m : ℤ))).toList = '-' :: Nat.toDigits 10 m := by
  obtain ⟨k, rfl⟩ := Nat.exists_eq_succ_of_ne_zero positive.ne'
  rw [← Nat.toList_repr]
  change (toString (Int.negSucc k)).toList = _
  simp [toString, Int.repr]

/-! Reading plain text. -/

variable {reader : Reader}

theorem digits_eq_some {text : List Char} (single : '_' ∉ text) {value : ℕ} (read : reader.digits text = some value) :
    text ≠ [] ∧ (∀ c ∈ text, c.isDigit = true) ∧ value = Nat.ofDigitChars 10 text 0 := by
  rw [Reader.digits, List.splitOn_eq_singleton single] at read
  simp only [List.all_cons, List.all_nil, List.flatten_singleton, Bool.and_true, Option.ite_none_right_eq_some,
    Bool.and_eq_true, Bool.not_eq_true', List.isEmpty_eq_false_iff, List.all_eq_true, Option.some.injEq] at read
  exact ⟨read.1.1.1, read.1.1.2, read.2.symm⟩

theorem digits_toDigits {m : ℕ} (short : (Nat.toDigits 10 m).length ≤ 640) :
    reader.digits (Nat.toDigits 10 m) = some m := by
  have all : (Nat.toDigits 10 m).all Char.isDigit = true :=
    List.all_eq_true.mpr fun c member => Nat.isDigit_of_mem_toDigits (by decide) (by decide) member
  rw [Reader.digits, List.splitOn_eq_singleton Nat.underscore_not_in_toDigits]
  simp only [List.all_cons, List.all_nil, List.flatten_singleton, all,
    List.isEmpty_eq_false_iff.mpr Nat.toDigits_ne_nil,
    decide_eq_true short, Bool.not_false, Bool.and_true, Bool.true_or, if_true, Nat.ofDigitChars_ten_toDigits]

/-- What `int` makes of its text leaves ASCII without blanks as it is. -/
theorem int_eq_signed {text : String} (kept : ∀ c ∈ text.toList, c.toNat < 127 ∧ blank c = false) :
    reader.int text = reader.signed text.toList := by
  have same : text.toList.map reader.ascii = text.toList :=
    (List.map_congr_left fun c member => if_pos (kept c member).1).trans (List.map_id _)
  rw [Reader.int, same, Text.stripWhere_of_kept]
  · exact fun c member => (kept c (List.mem_of_mem_head? member)).2
  · exact fun c member => (kept c (List.mem_of_mem_getLast? member)).2

theorem Plain.kept {text : List Char} (plain : Plain text) : ∀ c ∈ text, c.toNat < 127 ∧ blank c = false := by
  intro c member
  rcases plain.chars c member with digit | rfl
  · have range := Char.isDigit_iff_toNat.mp digit
    simp only [Char.reduceToNat] at range
    simp only [blank, ← Char.toNat_inj, Char.reduceToNat]
    grind
  · decide

theorem leading_of_unsigned {text : List Char} (unsigned : ∀ rest, text = '-' :: rest → False) :
    leading text = text.head? := by
  unfold leading
  split
  next rest => exact (unsigned rest rfl).elim
  next => rfl

theorem Plain.single {text : List Char} (plain : Plain text) : '_' ∉ text := by
  intro member
  rcases plain.chars '_' member with digit | same
  · exact absurd digit (by decide)
  · exact absurd same (by decide)

/-- A plain text that is read is the number's own spelling. -/
theorem Plain.eq_toString {text : String} {n : ℤ} (plain : Plain text.toList) (read : reader.int text = some n) :
    text = toString n := by
  rw [int_eq_signed plain.kept] at read
  rw [← String.toList_inj]
  have single := plain.single
  obtain ⟨chars, leads⟩ := plain
  generalize text.toList = written at *
  unfold Reader.signed at read
  split at read
  next rest =>
    rcases chars '+' List.mem_cons_self with digit | same
    · exact absurd digit (by decide)
    · exact absurd same (by decide)
  next rest =>
    obtain ⟨value, digits, rfl⟩ := Option.map_eq_some_iff.mp read
    obtain ⟨filled, all, rfl⟩ := digits_eq_some (fun member => single (List.mem_cons_of_mem _ member)) digits
    rw [toList_neg (ofDigitChars_pos all filled leads), toDigits_ofDigitChars all filled leads]
  next unsigned =>
    obtain ⟨value, digits, rfl⟩ := Option.map_eq_some_iff.mp read
    obtain ⟨filled, all, rfl⟩ := digits_eq_some single digits
    rw [leading_of_unsigned unsigned] at leads
    rw [toList_ofNat, toDigits_ofDigitChars all filled leads]

theorem isDigit_toDigits {m : ℕ} : ∀ c ∈ Nat.toDigits 10 m, c.isDigit = true := fun _ member =>
  Nat.isDigit_of_mem_toDigits (by decide) (by decide) member

theorem toDigits_unsigned {m : ℕ} {sign : Char} (other : sign.isDigit = false) (rest : List Char) :
    Nat.toDigits 10 m ≠ sign :: rest := by
  intro same
  have digit := isDigit_toDigits sign (same ▸ List.mem_cons_self)
  exact Bool.false_ne_true (other.symm.trans digit)

/-- What `str` writes of a number other than zero is plain. -/
theorem plain_toString {n : ℤ} (other : n ≠ 0) : Plain (toString n).toList := by
  obtain ⟨m, rfl | rfl⟩ := n.eq_nat_or_neg
  · rw [toList_ofNat]
    refine ⟨fun c member => .inl (isDigit_toDigits c member), ?_⟩
    rw [leading_of_unsigned fun rest same => toDigits_unsigned (by decide) rest same]
    exact head_toDigits (by omega)
  · have positive : 0 < m := by omega
    rw [toList_neg positive]
    constructor
    · intro c member
      rcases List.mem_cons.mp member with rfl | member
      · exact .inr rfl
      · exact .inl (isDigit_toDigits c member)
    · exact head_toDigits positive

/-- `int` reads what `str` writes. -/
theorem int_toString {n : ℤ} (other : n ≠ 0) (short : n.natAbs < 10 ^ 100) : reader.int (toString n) = some n := by
  rw [int_eq_signed (plain_toString other).kept]
  obtain ⟨m, rfl | rfl⟩ := n.eq_nat_or_neg
  · have length : (Nat.toDigits 10 m).length ≤ 640 :=
      ((Nat.length_toDigits_le_iff (by decide) (by decide)).mpr (by simpa using short)).trans (by decide : 100 ≤ 640)
    rw [toList_ofNat]
    unfold Reader.signed
    split
    next rest same => exact absurd same (toDigits_unsigned (by decide) rest)
    next rest same => exact absurd same (toDigits_unsigned (by decide) rest)
    next => rw [digits_toDigits length, Option.map_some]
  · have positive : 0 < m := by omega
    have length : (Nat.toDigits 10 m).length ≤ 640 :=
      ((Nat.length_toDigits_le_iff (by decide) (by decide)).mpr (by simpa using short)).trans (by decide : 100 ≤ 640)
    rw [toList_neg positive, Reader.signed, digits_toDigits length, Option.map_some]

end Numeral
