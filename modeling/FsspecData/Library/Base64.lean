import Mathlib.Data.List.Basic

/-! Base64 with padding, and its reading. -/
namespace Base64

/-- The character of a six-bit number. -/
def digit (n : ℕ) : Char :=
  if n < 26 then Char.ofNat (65 + n)
  else if n < 52 then Char.ofNat (71 + n)
  else if n < 62 then Char.ofNat (n - 4)
  else if n = 62 then '+'
  else '/'

def value (c : Char) : Option ℕ :=
  if 65 ≤ c.toNat ∧ c.toNat ≤ 90 then some (c.toNat - 65)
  else if 97 ≤ c.toNat ∧ c.toNat ≤ 122 then some (c.toNat - 71)
  else if 48 ≤ c.toNat ∧ c.toNat ≤ 57 then some (c.toNat + 4)
  else if c = '+' then some 62
  else if c = '/' then some 63
  else none

theorem value_digit : ∀ n < 64, value (digit n) = some n := by decide

theorem digit_ne_pad : ∀ n < 64, digit n ≠ '=' := by decide

/-- Three bytes in four characters. -/
def encode : List UInt8 → List Char
  | [] => []
  | [first] => [digit (first.toNat / 4), digit (first.toNat % 4 * 16), '=', '=']
  | [first, second] =>
    [digit (first.toNat / 4), digit (first.toNat % 4 * 16 + second.toNat / 16), digit (second.toNat % 16 * 4), '=']
  | first :: second :: third :: rest =>
    digit (first.toNat / 4) :: digit (first.toNat % 4 * 16 + second.toNat / 16) ::
      digit (second.toNat % 16 * 4 + third.toNat / 64) :: digit (third.toNat % 64) :: encode rest

def firstByte (a b : ℕ) : UInt8 := UInt8.ofNat (a * 4 + b / 16)

def secondByte (b c : ℕ) : UInt8 := UInt8.ofNat (b % 16 * 16 + c / 4)

def thirdByte (c d : ℕ) : UInt8 := UInt8.ofNat (c % 4 * 64 + d)

def decode : List Char → Option (List UInt8)
  | [] => some []
  | first :: second :: third :: fourth :: rest => do
    let a ← value first
    let b ← value second
    if fourth = '=' then
      if rest ≠ [] then none
      else if third = '=' then some [firstByte a b]
      else do
        let c ← value third
        some [firstByte a b, secondByte b c]
    else do
      let c ← value third
      let d ← value fourth
      let later ← decode rest
      some (firstByte a b :: secondByte b c :: thirdByte c d :: later)
  | _ => none

theorem ofNat_eq {byte : UInt8} {n : ℕ} (same : n = byte.toNat) : UInt8.ofNat n = byte := by
  rw [same, UInt8.ofNat_toNat]

theorem firstByte_eq (first : UInt8) {low : ℕ} (short : low < 16) :
    firstByte (first.toNat / 4) (first.toNat % 4 * 16 + low) = first := ofNat_eq (by omega)

theorem secondByte_eq (high : ℕ) (second : UInt8) {low : ℕ} (short : low < 4) :
    secondByte (high * 16 + second.toNat / 16) (second.toNat % 16 * 4 + low) = second := by
  have := second.toNat_lt
  exact ofNat_eq (by omega)

theorem thirdByte_eq (high : ℕ) (third : UInt8) :
    thirdByte (high * 4 + third.toNat / 64) (third.toNat % 64) = third := by
  have := third.toNat_lt
  exact ofNat_eq (by omega)

theorem decode_encode (bytes : List UInt8) : decode (encode bytes) = some bytes := by
  induction bytes using encode.induct with
  | case1 => rfl
  | case2 first =>
    have := first.toNat_lt
    have byte : firstByte (first.toNat / 4) (first.toNat % 4 * 16) = first := firstByte_eq first (Nat.zero_lt_succ 15)
    simp [encode, decode, value_digit _ (show first.toNat / 4 < 64 by omega),
      value_digit _ (show first.toNat % 4 * 16 < 64 by omega), byte]
  | case3 first second =>
    have := first.toNat_lt
    have := second.toNat_lt
    have third : second.toNat % 16 * 4 < 64 := by omega
    have byte := firstByte_eq first (show second.toNat / 16 < 16 by omega)
    have byte' : secondByte (first.toNat % 4 * 16 + second.toNat / 16) (second.toNat % 16 * 4) = second :=
      secondByte_eq _ second (Nat.zero_lt_succ 3)
    simp [encode, decode, value_digit _ (show first.toNat / 4 < 64 by omega),
      value_digit _ (show first.toNat % 4 * 16 + second.toNat / 16 < 64 by omega), value_digit _ third,
      digit_ne_pad _ third, byte, byte']
  | case4 first second third rest ih =>
    have := first.toNat_lt
    have := second.toNat_lt
    have := third.toNat_lt
    have fourth : third.toNat % 64 < 64 := by omega
    have byte := firstByte_eq first (show second.toNat / 16 < 16 by omega)
    have byte' := secondByte_eq (first.toNat % 4) second (show third.toNat / 64 < 4 by omega)
    have byte'' := thirdByte_eq (second.toNat % 16) third
    simp [encode, decode, value_digit _ (show first.toNat / 4 < 64 by omega),
      value_digit _ (show first.toNat % 4 * 16 + second.toNat / 16 < 64 by omega),
      value_digit _ (show second.toNat % 16 * 4 + third.toNat / 64 < 64 by omega), value_digit _ fourth,
      digit_ne_pad _ fourth, ih, byte, byte', byte'']

end Base64
