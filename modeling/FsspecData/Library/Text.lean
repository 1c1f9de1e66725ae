import Mathlib.Data.String.Basic

/-! Text as Python handles it. -/
namespace Text

/-- `str.isspace` of one character. -/
def isSpace (c : Char) : Bool :=
  let code := c.toNat
  (9 ≤ code && code ≤ 13) || (28 ≤ code && code ≤ 32) || code = 0x85 || code = 0xa0 || code = 0x1680 ||
    (0x2000 ≤ code && code ≤ 0x200a) || code = 0x2028 || code = 0x2029 || code = 0x202f || code = 0x205f ||
    code = 0x3000

def isAsciiAlpha (c : Char) : Bool := (65 ≤ c.toNat && c.toNat ≤ 90) || (97 ≤ c.toNat && c.toNat ≤ 122)

def isAsciiAlnum (c : Char) : Bool := isAsciiAlpha c || (48 ≤ c.toNat && c.toNat ≤ 57)

/-- `str.strip` of the characters to be removed. -/
def stripWhere (removed : Char → Bool) (text : List Char) : List Char :=
  ((text.dropWhile removed).reverse.dropWhile removed).reverse

/-- `str.strip` without an argument. -/
def strip (text : String) : String := String.ofList (stripWhere isSpace text.toList)

/-- Text that neither begins nor ends with such a character stays. -/
theorem stripWhere_of_kept {removed : Char → Bool} {text : List Char}
    (first : ∀ c ∈ text.head?, removed c = false) (last : ∀ c ∈ text.getLast?, removed c = false) :
    stripWhere removed text = text := by
  have start : text.dropWhile removed = text := by
    cases text with
    | nil => rfl
    | cons c rest => exact List.dropWhile_cons_of_neg (by simp [first c rfl])
  have ends : text.reverse.dropWhile removed = text.reverse := by
    cases reversed : text.reverse with
    | nil => rfl
    | cons c rest =>
      refine List.dropWhile_cons_of_neg ?_
      rw [last c (by rw [← List.head?_reverse, reversed]; rfl)]
      exact Bool.false_ne_true
  rw [stripWhere, start, ends, List.reverse_reverse]

end Text
