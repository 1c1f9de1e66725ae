import FsspecData.Library.Text
import Mathlib.Data.List.TakeWhile

/-! Percent-encoding of text through UTF-8, and its reading, which accepts any text. -/
namespace Percent

/-- The characters that stand for themselves. -/
def unreserved (c : Char) : Bool := Text.isAsciiAlnum c || c = '_' || c = '.' || c = '-' || c = '~'

def hexDigit (n : ℕ) : Char := if n < 10 then Char.ofNat (48 + n) else Char.ofNat (55 + n)

def hexValue (c : Char) : Option ℕ :=
  if 48 ≤ c.toNat ∧ c.toNat ≤ 57 then some (c.toNat - 48)
  else if 65 ≤ c.toNat ∧ c.toNat ≤ 70 then some (c.toNat - 55)
  else if 97 ≤ c.toNat ∧ c.toNat ≤ 102 then some (c.toNat - 87)
  else none

def quoteByte (byte : UInt8) : List Char :=
  if unreserved (Char.ofNat byte.toNat) then [Char.ofNat byte.toNat]
  else ['%', hexDigit (byte.toNat / 16), hexDigit (byte.toNat % 16)]

def quoteChars (text : List Char) : List Char := (text.flatMap String.utf8EncodeChar).flatMap quoteByte

/-- `quote` with no safe characters. -/
def quote (text : String) : String := String.ofList (quoteChars text.toList)

/-- `unquote_to_bytes` of ASCII text. What is no escape stands for itself. -/
def unquoteBytes : List Char → List UInt8
  | [] => []
  | '%' :: high :: low :: rest =>
    match hexValue high, hexValue low with
    | some high, some low => UInt8.ofNat (16 * high + low) :: unquoteBytes rest
    | _, _ => UInt8.ofNat '%'.toNat :: unquoteBytes (high :: low :: rest)
  | c :: rest => UInt8.ofNat c.toNat :: unquoteBytes rest

/-- Whether a byte may come second in a sequence of three or four. -/
def second (lead byte : UInt8) : Bool :=
  if lead = 0xe0 then 0xa0 ≤ byte && byte ≤ 0xbf
  else if lead = 0xed then 0x80 ≤ byte && byte ≤ 0x9f
  else if lead = 0xf0 then 0x90 ≤ byte && byte ≤ 0xbf
  else if lead = 0xf4 then 0x80 ≤ byte && byte ≤ 0x8f
  else 0xe0 ≤ lead && lead ≤ 0xf4 && 0x80 ≤ byte && byte ≤ 0xbf

/-- The number of bytes that one replacement character stands for: the longest beginning of a
sequence that could have gone on, or one byte. -/
def broken : List UInt8 → ℕ
  | lead :: byte :: rest =>
    if second lead byte then
      match rest with
      | third :: _ => if 0xf0 ≤ lead && 0x80 ≤ third && third ≤ 0xbf then 3 else 2
      | [] => 2
    else 1
  | _ => 1

theorem broken_pos (bytes : List UInt8) : 0 < broken bytes := by
  unfold broken
  split
  · split
    · split
      · split <;> decide
      · decide
    · decide
  · decide

/-- UTF-8 with the error handler `replace`. -/
def decode (bytes : List UInt8) : List Char :=
  match bytes with
  | [] => []
  | first :: rest =>
    match (first :: rest).toByteArray.utf8DecodeChar? 0 with
    | some c => c :: decode ((first :: rest).drop c.utf8Size)
    | none => Char.ofNat 0xfffd :: decode ((first :: rest).drop (broken (first :: rest)))
termination_by bytes.length
decreasing_by
  · have := c.utf8Size_pos
    simp only [List.length_drop, List.length_cons]
    omega
  · have := broken_pos (first :: rest)
    simp only [List.length_drop, List.length_cons]
    omega

def ascii (c : Char) : Bool := c.toNat < 128

/-- The escapes of each run of ASCII characters are read together. -/
def unquoteChars (text : List Char) : List Char :=
  match text with
  | [] => []
  | c :: rest =>
    if ascii c then decode (unquoteBytes (c :: rest.takeWhile ascii)) ++ unquoteChars (rest.dropWhile ascii)
    else c :: unquoteChars rest
termination_by text.length
decreasing_by
  · exact Nat.lt_succ_of_le (List.dropWhile_sublist _).length_le
  · exact Nat.lt_succ_self _

/-- `unquote`. -/
def unquote (text : String) : String := String.ofList (unquoteChars text.toList)

theorem hexValue_hexDigit {n : ℕ} (small : n < 16) : hexValue (hexDigit n) = some n := by
  revert n
  decide

theorem unreserved_iff {c : Char} : unreserved c = true ↔
    (48 ≤ c.toNat ∧ c.toNat ≤ 57) ∨ (65 ≤ c.toNat ∧ c.toNat ≤ 90) ∨ (97 ≤ c.toNat ∧ c.toNat ≤ 122) ∨
      c.toNat = 95 ∨ c.toNat = 46 ∨ c.toNat = 45 ∨ c.toNat = 126 := by
  simp only [unreserved, Text.isAsciiAlnum, Text.isAsciiAlpha, ← Char.toNat_inj, Bool.or_eq_true, Bool.and_eq_true,
    decide_eq_true_eq, Char.reduceToNat]
  omega

/-- Every character that `quote` writes. -/
def Written (c : Char) : Prop := unreserved c = true ∨ c = '%'

theorem quoteByte_written {byte : UInt8} : ∀ c ∈ quoteByte byte, Written c := by
  have digit {n : ℕ} (small : n < 16) : unreserved (hexDigit n) = true := by
    revert n
    decide
  have high : byte.toNat / 16 < 16 := by
    have := byte.toNat_lt
    omega
  unfold quoteByte
  split
  next plain => simp [Written, plain]
  next => simp [Written, digit high, digit (Nat.mod_lt _ (by decide : 16 > 0))]

theorem quoteChars_written {text : List Char} : ∀ c ∈ quoteChars text, Written c := by
  intro c member
  obtain ⟨byte, _, written⟩ := List.mem_flatMap.mp member
  exact quoteByte_written c written

theorem Written.toNat {c : Char} (written : Written c) :
    32 < c.toNat ∧ c.toNat < 128 ∧ c ∉ ['/', '?', '#', '[', ']'] := by
  have range : (48 ≤ c.toNat ∧ c.toNat ≤ 57) ∨ (65 ≤ c.toNat ∧ c.toNat ≤ 90) ∨ (97 ≤ c.toNat ∧ c.toNat ≤ 122) ∨
      c.toNat = 95 ∨ c.toNat = 46 ∨ c.toNat = 45 ∨ c.toNat = 126 ∨ c.toNat = 37 := by
    rcases written with plain | rfl
    · have := unreserved_iff.mp plain
      omega
    · decide
  simp only [List.mem_cons, List.not_mem_nil, or_false, ← Char.toNat_inj, Char.reduceToNat]
  omega

theorem unquoteBytes_cons {c : Char} {rest : List Char} (plain : c ≠ '%') :
    unquoteBytes (c :: rest) = UInt8.ofNat c.toNat :: unquoteBytes rest := by
  rw [unquoteBytes]
  rintro high low rest' rfl
  exact absurd rfl plain

theorem unquoteBytes_quoteByte (byte : UInt8) (rest : List Char) :
    unquoteBytes (quoteByte byte ++ rest) = byte :: unquoteBytes rest := by
  have bound := byte.toNat_lt
  have same : (Char.ofNat byte.toNat).toNat = byte.toNat := by
    rw [Char.ofNat, dif_pos (.inl (by omega))]
    rfl
  unfold quoteByte
  split
  next plain =>
    have range := unreserved_iff.mp plain
    have other : Char.ofNat byte.toNat ≠ '%' := by
      simp only [ne_eq, ← Char.toNat_inj, Char.reduceToNat]
      omega
    rw [List.singleton_append, unquoteBytes_cons other, same, UInt8.ofNat_toNat]
  next =>
    have high : byte.toNat / 16 < 16 := by omega
    have low : byte.toNat % 16 < 16 := by omega
    simp only [List.cons_append, List.nil_append, unquoteBytes, hexValue_hexDigit high, hexValue_hexDigit low,
      Nat.div_add_mod, UInt8.ofNat_toNat]

theorem unquoteBytes_quoteBytes (bytes : List UInt8) : unquoteBytes (bytes.flatMap quoteByte) = bytes := by
  induction bytes with
  | nil => rfl
  | cons byte rest ih => rw [List.flatMap_cons, unquoteBytes_quoteByte, ih]

theorem decode_cons {bytes : List UInt8} {c : Char} (read : bytes.toByteArray.utf8DecodeChar? 0 = some c) :
    decode bytes = c :: decode (bytes.drop c.utf8Size) := by
  cases bytes with
  | nil =>
    have size := ByteArray.le_size_of_utf8DecodeChar?_eq_some read
    have := c.utf8Size_pos
    simp at size
    omega
  | cons first rest => rw [decode, read]

theorem decode_encode (text : List Char) : decode (text.flatMap String.utf8EncodeChar) = text := by
  induction text with
  | nil => rw [List.flatMap_nil, decode]
  | cons c rest ih =>
    have read :
        (String.utf8EncodeChar c ++ rest.flatMap String.utf8EncodeChar).toByteArray.utf8DecodeChar? 0 = some c := by
      rw [List.toByteArray_append]
      exact ByteArray.utf8DecodeChar?_utf8EncodeChar_append
    rw [List.flatMap_cons, decode_cons read, ← String.length_utf8EncodeChar, List.drop_left, ih]

/-- ASCII text is one run. -/
theorem unquoteChars_ascii {text : List Char} (all : ∀ c ∈ text, ascii c = true) :
    unquoteChars text = decode (unquoteBytes text) := by
  cases text with
  | nil => rw [unquoteChars, unquoteBytes, decode]
  | cons c rest =>
    obtain ⟨first, others⟩ := List.forall_mem_cons.mp all
    rw [unquoteChars, if_pos first, List.takeWhile_eq_self_iff.mpr others, List.dropWhile_eq_nil_iff.mpr others,
      unquoteChars, List.append_nil]

theorem unquoteChars_quoteChars (text : List Char) : unquoteChars (quoteChars text) = text := by
  have all : ∀ c ∈ quoteChars text, ascii c = true := fun c member =>
    decide_eq_true (quoteChars_written c member).toNat.2.1
  rw [unquoteChars_ascii all, quoteChars, unquoteBytes_quoteBytes, decode_encode]

@[simp] theorem unquote_quote (text : String) : unquote (quote text) = text := by
  rw [unquote, quote, String.toList_ofList, unquoteChars_quoteChars, String.ofList_toList]

theorem quoteChars_unreserved {text : List Char} (plain : ∀ c ∈ text, unreserved c = true) :
    quoteChars text = text := by
  induction text with
  | nil => rfl
  | cons c rest ih =>
    obtain ⟨first, others⟩ := List.forall_mem_cons.mp plain
    have range := unreserved_iff.mp first
    have size : c.utf8Size = 1 := by
      rw [Char.utf8Size_eq_one_iff, UInt32.le_iff_toNat_le, Char.toNat_val]
      change c.toNat ≤ 127
      omega
    have byte : c.val.toUInt8.toNat = c.toNat := by
      rw [UInt32.toNat_toUInt8, Char.toNat_val]
      omega
    have tail := ih others
    unfold quoteChars at tail ⊢
    rw [List.flatMap_cons, List.flatMap_append, tail, String.utf8EncodeChar_eq_singleton size, List.flatMap_singleton,
      quoteByte, byte, Char.ofNat_toNat, if_pos first, List.singleton_append]

theorem quote_unreserved {text : String} (plain : ∀ c ∈ text.toList, unreserved c = true) : quote text = text := by
  rw [quote, quoteChars_unreserved plain, String.ofList_toList]

theorem quoteChars_ne_nil {text : List Char} (filled : text ≠ []) : quoteChars text ≠ [] := by
  intro empty
  have same := unquoteChars_quoteChars text
  rw [empty, unquoteChars] at same
  exact filled same.symm

end Percent
