import FsspecData.Library.Fallible
import FsspecData.Library.Numeral
import FsspecData.Library.Percent
import FsspecData.Library.Url

/-! References to the schemas of a Confluent registry. The version is checked as a number,
but handed on as it was written. -/
namespace FsspecData.Confluent

open Percent

/-- What `_parse_reference` raises; `split` is an error of `urlsplit`. -/
inductive ReferenceError where
  | reference
  | version
  | split (message : String)

def ReferenceError.message : ReferenceError → String
  | .reference => "Confluent schema URL must be confluent://SUBJECT/versions/VERSION"
  | .version => "Confluent schema VERSION must be 'latest', -1, or a positive integer"
  | .split message => message

variable (checks : Url.NetlocChecks) (reader : Numeral.Reader)

/-- The decoded parts of a path, without empty ones. -/
def pathParts (path : String) : List String :=
  (((Text.stripWhere (· = '/') path.toList).splitOn '/').filter (!·.isEmpty)).map fun part => unquote (.ofList part)

/-- `2**31 - 1`. -/
def maxVersion : ℕ := 2147483647

def checkVersion (version : String) : Except ReferenceError Unit :=
  if version = "latest" then .ok ()
  else match reader.int version with
    | none => .error .version
    | some number => if number ≠ -1 ∧ ¬ (1 ≤ number ∧ number ≤ maxVersion) then .error .version else .ok ()

/-- The subject and the version of a reference. -/
def parseReference (url : String) : Except ReferenceError (String × String) :=
  match Url.urlsplit checks url with
  | .error message => .error (.split message)
  | .ok parsed =>
    if parsed.scheme ≠ "confluent" ∨ parsed.netloc = "" ∨ parsed.query ≠ "" ∨ parsed.fragment ≠ "" then
      .error .reference
    else match pathParts parsed.path with
      | [versions, version] =>
        if versions ≠ "versions" ∨ version = "" then .error .reference
        else do
          checkVersion reader version
          .ok (unquote parsed.netloc, version)
      | _ => .error .reference

/-- The path that `fetch_confluent_schema` asks the registry for. -/
def requestPath (url : String) : Except ReferenceError String := do
  let (subject, requestedVersion) ← parseReference checks reader url
  .ok ("subjects/" ++ quote subject ++ "/versions/" ++ quote requestedVersion)

/-- The segments of a path. -/
def segments (path : String) : List String := (path.toList.splitOn '/').map String.ofList

/-- A version as the documentation has it. -/
def VersionForm (version : String) : Prop :=
  version = "latest" ∨ version = "-1" ∨ ∃ number : ℕ, 1 ≤ number ∧ number ≤ maxVersion ∧ version = toString number

/-- The numbers that a version may stand for. -/
def InRange (number : ℤ) : Prop := number = -1 ∨ (1 ≤ number ∧ number ≤ maxVersion)

/-- A URL in the shape of a reference, with its network location and its decoded version. -/
structure Shaped (url netloc version : String) : Prop where
  parsed : ∃ path, Url.urlsplit checks url = .ok ⟨"confluent", netloc, path, "", ""⟩ ∧
    pathParts path = ["versions", version]
  located : netloc ≠ ""
  filled : version ≠ ""

variable {checks reader}

theorem checkVersion_ok {version : String} : checkVersion reader version = .ok () ↔
    version = "latest" ∨ ∃ number, reader.int version = some number ∧ InRange number := by
  unfold checkVersion
  split
  next latest => simp [latest]
  next other =>
    split
    next unread => simp [other, unread]
    next number read =>
      simp only [other, read, Option.some.injEq, false_or, exists_eq_left']
      split
      next outside =>
        simp only [reduceCtorEq, false_iff, InRange, not_or]
        exact outside
      next inside =>
        simp only [true_iff, InRange]
        exact or_iff_not_imp_left.mpr fun negative => not_not.mp fun big => inside ⟨negative, big⟩

theorem parseReference_eq_ok {url subject version : String} :
    parseReference checks reader url = .ok (subject, version) ↔
      ∃ netloc, Shaped checks url netloc version ∧ subject = unquote netloc ∧ checkVersion reader version = .ok () := by
  constructor
  · intro read
    unfold parseReference at read
    split at read
    next => contradiction
    next parsed split_ok =>
      obtain ⟨scheme, netloc, path, query, fragment⟩ := parsed
      split at read
      next => contradiction
      next shape =>
        simp only [not_or, not_not] at shape
        obtain ⟨rfl, located, rfl, rfl⟩ := shape
        split at read
        next versions text parts =>
          split at read
          next => contradiction
          next named =>
            simp only [not_or, not_not] at named
            obtain ⟨rfl, filled⟩ := named
            obtain ⟨⟨⟩, checked, same⟩ := Fallible.bind_eq_ok.mp read
            cases same
            exact ⟨netloc, ⟨⟨path, split_ok, parts⟩, located, filled⟩, rfl, checked⟩
        next => contradiction
  · intro ⟨netloc, shaped, same, checked⟩
    obtain ⟨⟨path, split_ok, parts⟩, located, filled⟩ := shaped
    simp [parseReference, split_ok, parts, located, filled, checked, same]

theorem quote_segment {text : String} : '/' ∉ (quote text).toList := by
  intro member
  rw [quote, String.toList_ofList] at member
  exact (quoteChars_written '/' member).toNat.2.2 List.mem_cons_self

theorem unquote_unreserved {text : String} (plain : ∀ c ∈ text.toList, unreserved c = true) : unquote text = text := by
  conv_lhs => rw [← quote_unreserved plain]
  exact unquote_quote text

theorem quoteChars_toList (text : String) : (quote text).toList = quoteChars text.toList := by
  rw [quote, String.toList_ofList]

theorem quote_ne_empty {text : String} (filled : text ≠ "") : quote text ≠ "" := by
  intro empty
  have chars := quoteChars_toList text
  rw [empty, String.toList_empty] at chars
  exact quoteChars_ne_nil (fun none => filled (String.toList_eq_nil_iff.mp none)) chars.symm

theorem split_versions (version : List Char) (segment : '/' ∉ version) :
    ("versions/".toList ++ version).splitOn '/' = ["versions".toList, version] := by
  have joined : "versions/".toList ++ version = "versions".toList ++ '/' :: version := rfl
  rw [joined, List.splitOn_append_cons_self_of_not_mem (by decide), List.splitOn_eq_singleton segment]

/-- The path of a reference has two parts. -/
theorem pathParts_quote {version : String} (filled : version ≠ "") :
    pathParts (.ofList ('/' :: ("versions/".toList ++ quoteChars version.toList))) = ["versions", version] := by
  have segment : '/' ∉ quoteChars version.toList := quoteChars_toList version ▸ quote_segment
  have some : quoteChars version.toList ≠ [] := quoteChars_ne_nil fun none => filled (String.toList_eq_nil_iff.mp none)
  have stripped : Text.stripWhere (· = '/') ("versions/".toList ++ quoteChars version.toList) =
      "versions/".toList ++ quoteChars version.toList := by
    apply Text.stripWhere_of_kept
    · intro c first
      cases first
      rfl
    · intro c last
      rw [List.getLast?_append_of_ne_nil _ some] at last
      exact decide_eq_false fun same => segment (same ▸ List.mem_of_getLast? last)
  -- The slash in front of it goes as well.
  change Text.stripWhere (· = '/') ('/' :: ("versions/".toList ++ quoteChars version.toList)) = _ at stripped
  have named : unquote "versions" = "versions" := unquote_unreserved (List.all_eq_true.mp rfl)
  rw [pathParts, String.toList_ofList, stripped, split_versions _ segment]
  have kept : (["versions".toList, quoteChars version.toList].filter (!·.isEmpty)) =
      ["versions".toList, quoteChars version.toList] := by
    simp [some]
  rw [kept, List.map_cons, List.map_singleton, String.ofList_toList, named, ← quote, unquote_quote]

/-- A quoted subject and version come back as they were. -/
theorem shaped_quote {subject version : String} (subjects : subject ≠ "") (versions : version ≠ "") :
    Shaped checks ("confluent://" ++ quote subject ++ "/versions/" ++ quote version) (quote subject) version := by
  have written (text : String) : ∀ c ∈ quoteChars text.toList, 32 < c.toNat ∧ c.toNat < 128 ∧
      c ∉ ['/', '?', '#', '[', ']'] := fun c member => (quoteChars_written c member).toNat
  have joined : "confluent://" ++ quote subject ++ "/versions/" ++ quote version =
      .ofList ("confluent".toList ++ ':' :: ('/' :: '/' :: quoteChars subject.toList ++
        '/' :: ("versions/".toList ++ quoteChars version.toList))) := by
    rw [← String.toList_inj]
    simp [quoteChars_toList]
  have named : "confluent".toList.head?.any Text.isAsciiAlpha = true := by decide
  have schemes : ∀ c ∈ "confluent".toList, Url.isSchemeChar c = true ∧ c.toLower = c := by
    simp [Url.isSchemeChar, Text.isAsciiAlnum, Text.isAsciiAlpha]
  have paths : ∀ c ∈ "versions/".toList ++ quoteChars version.toList, 32 < c.toNat ∧ c ∉ ['?', '#'] := by
    rw [List.forall_mem_append]
    constructor
    · simp
    · intro c member
      obtain ⟨printable, _, other⟩ := written version c member
      simp only [List.mem_cons, not_or] at other ⊢
      exact ⟨printable, other.2.1, other.2.2.1, List.not_mem_nil⟩
  have split := Url.urlsplit_append checks named schemes (written subject) paths
  refine ⟨⟨_, ?_, pathParts_quote versions⟩, quote_ne_empty subjects, versions⟩
  rw [joined]
  exact split

theorem VersionForm.checked {version : String} (form : VersionForm version) :
    checkVersion reader version = .ok () := by
  rw [checkVersion_ok]
  rcases form with latest | rfl | ⟨number, positive, small, rfl⟩
  · exact .inl latest
  · have read : reader.int (toString (-1 : ℤ)) = some (-1) := Numeral.int_toString (by decide) (by decide)
    exact .inr ⟨-1, read, .inl rfl⟩
  · have short : (number : ℤ).natAbs < 10 ^ 100 := by
      rw [Int.natAbs_natCast]
      exact small.trans_lt (by decide)
    have read : reader.int (toString (number : ℤ)) = some (number : ℤ) := Numeral.int_toString (by omega) short
    exact .inr ⟨number, read, .inr (by omega)⟩

theorem VersionForm.unreserved {version : String} (form : VersionForm version) :
    ∀ c ∈ version.toList, unreserved c = true := by
  rcases form with rfl | rfl | ⟨number, _, _, rfl⟩
  · exact List.all_eq_true.mp rfl
  · exact List.all_eq_true.mp rfl
  · intro c member
    have digit : c ∈ Nat.toDigits 10 number := Nat.toList_repr ▸ member
    have range := Char.isDigit_iff_toNat.mp (Numeral.isDigit_toDigits c digit)
    simp only [Char.reduceToNat] at range
    exact unreserved_iff.mpr (.inl range)

theorem VersionForm.filled {version : String} (form : VersionForm version) : version ≠ "" := by
  rcases form with rfl | rfl | ⟨number, _, _, rfl⟩
  · decide
  · decide
  · exact Nat.repr_ne_empty

/-- A number in range that is written plainly is a version of the documented form. -/
theorem versionForm_of_plain {version : String} {number : ℤ} (read : reader.int version = some number)
    (inside : InRange number) (plain : Numeral.Plain version.toList) : VersionForm version := by
  rw [plain.eq_toString read]
  rcases inside with rfl | ⟨positive, small⟩
  · exact .inr (.inl rfl)
  · obtain ⟨m, rfl⟩ := Int.eq_ofNat_of_zero_le (by omega : 0 ≤ number)
    exact .inr (.inr ⟨m, by omega, by omega, rfl⟩)

theorem VersionForm.plain {version : String} (form : VersionForm version) {number : ℤ}
    (read : reader.int version = some number) : Numeral.Plain version.toList := by
  rcases form with rfl | rfl | ⟨m, positive, _, rfl⟩
  · cases read
  · exact Numeral.plain_toString (by decide : (-1 : ℤ) ≠ 0)
  · rw [← Numeral.toString_natCast]
    exact Numeral.plain_toString (by omega)

theorem segments_requestPath (subject version : String) :
    (segments ("subjects/" ++ quote subject ++ "/versions/" ++ quote version)).map unquote =
      ["subjects", subject, "versions", version] := by
  have joined : ("subjects/" ++ quote subject ++ "/versions/" ++ quote version).toList =
      "subjects".toList ++ '/' ::
        ((quote subject).toList ++ '/' :: ("versions/".toList ++ (quote version).toList)) := by
    simp
  have subjects : unquote "subjects" = "subjects" := unquote_unreserved (List.all_eq_true.mp rfl)
  have versions : unquote "versions" = "versions" := unquote_unreserved (List.all_eq_true.mp rfl)
  rw [segments, joined, List.splitOn_append_cons_self_of_not_mem (by decide),
    List.splitOn_append_cons_self_of_not_mem quote_segment, split_versions _ quote_segment]
  simp only [List.map_cons, List.map_nil, String.ofList_toList, subjects, versions, unquote_quote]

theorem parseReference_quote {subject version : String} (subjects : subject ≠ "") (versions : version ≠ "")
    (checked : checkVersion reader version = .ok ()) :
    parseReference checks reader ("confluent://" ++ quote subject ++ "/versions/" ++ quote version) =
      .ok (subject, version) :=
  parseReference_eq_ok.mpr ⟨_, shaped_quote subjects versions, (unquote_quote subject).symm, checked⟩

/-- Quoted references come back and are asked for as they were. A URL gives a version of the
documented form only, unless its version is a number in another spelling. -/
theorem parseReference_exact (checks : Url.NetlocChecks) (reader : Numeral.Reader) :
    (∀ subject version, subject ≠ "" → VersionForm version →
      parseReference checks reader ("confluent://" ++ quote subject ++ "/versions/" ++ version) =
        .ok (subject, version) ∧
      ∃ path, requestPath checks reader ("confluent://" ++ quote subject ++ "/versions/" ++ version) = .ok path ∧
        (segments path).map unquote = ["subjects", subject, "versions", version]) ∧
    ∀ url, (∀ subject version, parseReference checks reader url = .ok (subject, version) → VersionForm version) ↔
      ∀ netloc version number, Shaped checks url netloc version → reader.int version = some number →
        InRange number → Numeral.Plain version.toList := by
  constructor
  · intro subject version filled form
    have checked : checkVersion reader version = .ok () := form.checked
    have parsed : parseReference checks reader ("confluent://" ++ quote subject ++ "/versions/" ++ quote version) =
      .ok (subject, version) := parseReference_quote filled form.filled checked
    rw [quote_unreserved form.unreserved] at parsed
    refine ⟨parsed, _, ?_, segments_requestPath subject version⟩
    rw [requestPath, parsed]
    rfl
  · intro url
    constructor
    · intro forms netloc version number shaped read inside
      have checked := checkVersion_ok.mpr (.inr ⟨number, read, inside⟩)
      exact (forms _ version (parseReference_eq_ok.mpr ⟨netloc, shaped, rfl, checked⟩)).plain read
    · intro plain subject version parsed
      obtain ⟨netloc, shaped, _, checked⟩ := parseReference_eq_ok.mp parsed
      rcases checkVersion_ok.mp checked with latest | ⟨number, read, inside⟩
      · exact .inl latest
      · exact versionForm_of_plain read inside (plain netloc version number shaped read inside)

/-- Checks that raise nothing, and the limit that Python starts with. -/
def anyNetloc : Url.NetlocChecks := ⟨fun _ => none, fun _ => none⟩

def asciiReader : Numeral.Reader := ⟨fun _ => none, 4300⟩

theorem parseReference_exact_slashed :
    parseReference anyNetloc asciiReader ("confluent://" ++ quote "orders/value" ++ "/versions/" ++ "7") =
      .ok ("orders/value", "7") :=
  ((parseReference_exact anyNetloc asciiReader).1 "orders/value" "7" (by decide)
    (.inr (.inr ⟨7, by decide, by decide, rfl⟩))).1

/-- A plus sign is accepted and handed on. -/
theorem plus_handed_on :
    parseReference anyNetloc asciiReader "confluent://orders/versions/%2B5" = .ok ("orders", "+5") ∧
      ¬ VersionForm "+5" := by
  constructor
  · have checked : checkVersion asciiReader "+5" = .ok () := checkVersion_ok.mpr (.inr ⟨5, rfl, .inr (by decide)⟩)
    have written : quote "+5" = "%2B5" := by decide +kernel
    have parsed : parseReference anyNetloc asciiReader
        ("confluent://" ++ quote "orders" ++ "/versions/" ++ quote "+5") =
      .ok ("orders", "+5") := parseReference_quote (by decide) (by decide) checked
    rw [quote_unreserved (List.all_eq_true.mp rfl), written] at parsed
    exact parsed
  · intro form
    exact absurd (form.unreserved '+' (by decide)) (by decide)

end FsspecData.Confluent
