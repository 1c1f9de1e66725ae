import FsspecData.Library.Text
import Mathlib.Data.List.TakeWhile

/-! The parts of a URL as Python's `urlsplit` separates them. -/
namespace Url

structure SplitResult where
  scheme : String
  netloc : String
  path : String
  query : String
  fragment : String

/-- The checks of a network location that need more than its characters: of an address in
brackets, and of what Unicode normalization makes of other than ASCII text. Each gives the
message it raises. -/
structure NetlocChecks where
  bracketed : List Char → Option String
  normalized : List Char → Option String

def isSchemeChar (c : Char) : Bool := Text.isAsciiAlnum c || c = '+' || c = '-' || c = '.'

/-- The scheme, in lower case, and what follows its colon. -/
def splitScheme (text : List Char) : List Char × List Char :=
  let name := text.takeWhile (· ≠ ':')
  match text.dropWhile (· ≠ ':') with
  | _ :: rest =>
    if name.head?.any Text.isAsciiAlpha && name.all isSchemeChar then (name.map Char.toLower, rest) else ([], text)
  | [] => ([], text)

def isDelimiter (c : Char) : Bool := c = '/' || c = '?' || c = '#'

def splitNetloc : List Char → List Char × List Char
  | '/' :: '/' :: rest => (rest.takeWhile (!isDelimiter ·), rest.dropWhile (!isDelimiter ·))
  | text => ([], text)

def checkBrackets (checks : NetlocChecks) (netloc : List Char) : Except String Unit :=
  if netloc.contains '[' ≠ netloc.contains ']' then .error "Invalid IPv6 URL"
  else if netloc.contains '[' then
    match checks.bracketed netloc with
    | some message => .error message
    | none => .ok ()
  else .ok ()

def checkNetloc (checks : NetlocChecks) (netloc : List Char) : Except String Unit :=
  if netloc.all (·.toNat < 128) then .ok ()
  else match checks.normalized netloc with
    | some message => .error message
    | none => .ok ()

/-- The text before the first such mark, and behind it. -/
def partition (mark : Char) (text : List Char) : List Char × List Char :=
  (text.takeWhile (· ≠ mark), (text.dropWhile (· ≠ mark)).drop 1)

/-- `urlsplit`, with the message of what it raises. -/
def urlsplit (checks : NetlocChecks) (url : String) : Except String SplitResult := do
  let text := (url.toList.dropWhile (·.toNat ≤ 32)).filter fun c => c ≠ '\t' && c ≠ '\r' && c ≠ '\n'
  let (scheme, text) := splitScheme text
  let (netloc, text) := splitNetloc text
  checkBrackets checks netloc
  let (text, fragment) := partition '#' text
  let (path, query) := partition '?' text
  checkNetloc checks netloc
  .ok ⟨.ofList scheme, .ofList netloc, .ofList path, .ofList query, .ofList fragment⟩

section

variable {p : Char → Bool} {front rest : List Char} {stop : Char}

theorem takeWhile_stop (all : ∀ c ∈ front, p c = true) (stops : p stop = false) :
    (front ++ stop :: rest).takeWhile p = front := by
  rw [List.takeWhile_append_of_pos all, List.takeWhile_cons_of_neg (by simp [stops]), List.append_nil]

theorem dropWhile_stop (all : ∀ c ∈ front, p c = true) (stops : p stop = false) :
    (front ++ stop :: rest).dropWhile p = stop :: rest := by
  rw [List.dropWhile_append_of_pos all, List.dropWhile_cons_of_neg (by simp [stops])]

end

theorem splitScheme_append {scheme : List Char} (rest : List Char) (named : scheme.head?.any Text.isAsciiAlpha = true)
    (chars : ∀ c ∈ scheme, isSchemeChar c = true ∧ c.toLower = c) :
    splitScheme (scheme ++ ':' :: rest) = (scheme, rest) := by
  have other : ∀ c ∈ scheme, decide (c ≠ ':') = true := by
    intro c member
    apply decide_eq_true
    intro same
    exact absurd (same ▸ (chars c member).1 : isSchemeChar ':' = true) (by decide)
  have lower : scheme.map Char.toLower = scheme :=
    (List.map_congr_left fun c member => (chars c member).2).trans (List.map_id _)
  have all : scheme.all isSchemeChar = true := List.all_eq_true.mpr fun c member => (chars c member).1
  simp only [splitScheme, takeWhile_stop other (by decide : decide (':' ≠ ':') = false),
    dropWhile_stop other (by decide : decide (':' ≠ ':') = false), named, all, lower, Bool.and_self, if_true]

theorem splitNetloc_append {netloc : List Char} (rest : List Char)
    (chars : ∀ c ∈ netloc, isDelimiter c = false) :
    splitNetloc ('/' :: '/' :: netloc ++ '/' :: rest) = (netloc, '/' :: rest) := by
  have all : ∀ c ∈ netloc, (!isDelimiter c) = true := fun c member => by rw [chars c member]; rfl
  simp only [splitNetloc, List.cons_append, takeWhile_stop all (by decide : (!isDelimiter '/') = false),
    dropWhile_stop all (by decide : (!isDelimiter '/') = false)]

theorem partition_absent {mark : Char} {text : List Char} (absent : mark ∉ text) :
    partition mark text = (text, []) := by
  have all : ∀ c ∈ text, decide (c ≠ mark) = true := fun c member =>
    decide_eq_true fun same => absent (same ▸ member)
  rw [partition, List.takeWhile_eq_self_iff.mpr all, List.dropWhile_eq_nil_iff.mpr all, List.drop_nil]

theorem checkBrackets_absent (checks : NetlocChecks) {netloc : List Char} (opening : '[' ∉ netloc)
    (closing : ']' ∉ netloc) : checkBrackets checks netloc = .ok () := by
  simp [checkBrackets, opening, closing]

theorem isSchemeChar_toNat {c : Char} (char : isSchemeChar c = true) : 32 < c.toNat := by
  simp only [isSchemeChar, Text.isAsciiAlnum, Text.isAsciiAlpha, ← Char.toNat_inj, Bool.or_eq_true, Bool.and_eq_true,
    decide_eq_true_eq, Char.reduceToNat] at char
  omega

/-- Text of printable characters is taken as it is. -/
theorem cleaned {text : List Char} (printable : ∀ c ∈ text, 32 < c.toNat) :
    (text.dropWhile (·.toNat ≤ 32)).filter (fun c => c ≠ '\t' && c ≠ '\r' && c ≠ '\n') = text := by
  have start : text.dropWhile (·.toNat ≤ 32) = text := by
    cases text with
    | nil => rfl
    | cons c rest =>
      have := printable c List.mem_cons_self
      exact List.dropWhile_cons_of_neg (by simpa using this)
  rw [start, List.filter_eq_self]
  intro c member
  have := printable c member
  simp only [ne_eq, ← Char.toNat_inj, Char.reduceToNat, Bool.and_eq_true, decide_eq_true_eq]
  omega

/-- A URL of printable characters, with a plain network location and a path, comes apart as
it was put together. -/
theorem urlsplit_append (checks : NetlocChecks) {scheme netloc path : List Char}
    (named : scheme.head?.any Text.isAsciiAlpha = true) (schemes : ∀ c ∈ scheme, isSchemeChar c = true ∧ c.toLower = c)
    (hosts : ∀ c ∈ netloc, 32 < c.toNat ∧ c.toNat < 128 ∧ c ∉ ['/', '?', '#', '[', ']'])
    (paths : ∀ c ∈ path, 32 < c.toNat ∧ c ∉ ['?', '#']) :
    urlsplit checks (.ofList (scheme ++ ':' :: ('/' :: '/' :: netloc ++ '/' :: path))) =
      .ok ⟨.ofList scheme, .ofList netloc, .ofList ('/' :: path), "", ""⟩ := by
  have printable : ∀ c ∈ scheme ++ ':' :: ('/' :: '/' :: netloc ++ '/' :: path), 32 < c.toNat := by
    simp only [List.cons_append, List.forall_mem_append, List.forall_mem_cons]
    exact ⟨fun c member => isSchemeChar_toNat (schemes c member).1, by decide, by decide, by decide,
      fun c member => (hosts c member).1, by decide, fun c member => (paths c member).1⟩
  have hostless (c : Char) (delimiter : c ∈ ['/', '?', '#', '[', ']']) : c ∉ netloc := fun member =>
    (hosts c member).2.2 delimiter
  have pathless (c : Char) (mark : c ∈ ['?', '#']) : c ∉ '/' :: path := by
    intro member
    rcases List.mem_cons.mp member with rfl | member
    · exact absurd mark (by decide)
    · exact (paths c member).2 mark
  have delimited : ∀ c ∈ netloc, isDelimiter c = false := by
    intro c member
    have := (hosts c member).2.2
    simp only [List.mem_cons, not_or] at this
    simp [isDelimiter, this]
  have brackets := checkBrackets_absent checks (hostless '[' (by decide)) (hostless ']' (by decide))
  have ascii : netloc.all (·.toNat < 128) = true :=
    List.all_eq_true.mpr fun c member => decide_eq_true (hosts c member).2.1
  simp only [urlsplit, String.toList_ofList, cleaned printable, splitScheme_append _ named schemes,
    splitNetloc_append path delimited, brackets, partition_absent (pathless '#' (by decide)),
    partition_absent (pathless '?' (by decide)), checkNetloc, ascii, if_true]
  rfl

end Url
