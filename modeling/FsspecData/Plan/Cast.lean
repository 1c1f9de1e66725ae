import FsspecData.Arrow.Array
import Mathlib.Tactic.SplitIfs

/-! The cast registry: which type pairs it knows and how it classifies them. -/
namespace FsspecData

inductive SchemaPolicy where
  | exact | projection | compatible | coerce
  deriving DecidableEq, Repr

inductive CastKind where
  | safe | lossy | runtimeChecked
  deriving DecidableEq, Repr

def CastKind.asStr : CastKind → String
  | .safe => "safe"
  | .lossy => "lossy"
  | .runtimeChecked => "runtime_checked"

/-- Permissiveness order. -/
def CastKind.rank : CastKind → Nat
  | .safe => 0
  | .runtimeChecked => 1
  | .lossy => 2

theorem CastKind.asStr_injective : Function.Injective CastKind.asStr := by
  intro a b same
  revert same
  cases a <;> cases b <;> decide

namespace CastRegistry

def signedRank : DataType → Option Nat
  | .int8 => some 0
  | .int16 => some 1
  | .int32 => some 2
  | .int64 => some 3
  | _ => none

def unsignedRank : DataType → Option Nat
  | .uint8 => some 0
  | .uint16 => some 1
  | .uint32 => some 2
  | .uint64 => some 3
  | _ => none

def isNumeric (type : DataType) : Bool :=
  (signedRank type).isSome || (unsignedRank type).isSome ||
    type matches .float16 | .float32 | .float64

def isText (type : DataType) : Bool := type matches .utf8 | .largeUtf8

/-- The rule of two ranked types: strictly more bits are safe. -/
def ranked (source target : Option Nat) : Option CastKind :=
  match source, target with
  | some source, some target => some (if source < target then .safe else .lossy)
  | _, _ => none

def safePairs : List (DataType × DataType) :=
  [(.float16, .float32), (.float16, .float64), (.float32, .float64), (.utf8, .largeUtf8),
    (.date32, .date64)]

def lossyPairs : List (DataType × DataType) :=
  [(.float32, .float16), (.float64, .float16), (.float64, .float32), (.date64, .date32)]

/-- The rules below the integer ones, in the order of the source. -/
def classifyOther (source target : DataType) : Option CastKind :=
  if (source, target) ∈ safePairs then some .safe
  else if (source, target) ∈ lossyPairs then some .lossy
  else if isNumeric source && isNumeric target then some .lossy
  else if isText target && (isNumeric source || source = .boolean) then some .runtimeChecked
  else if isText source && (isNumeric target || target = .boolean) then some .runtimeChecked
  else if source = .largeUtf8 ∧ target = .utf8 then some .runtimeChecked
  else none

def classify (source target : DataType) : Option CastKind :=
  if source = target then none
  else if source = .null then some .safe
  else
    ranked (signedRank source) (signedRank target) <|>
      ranked (unsignedRank source) (unsignedRank target) <|>
      ranked (unsignedRank source) (signedRank target) <|>
      classifyOther source target

/-- The signed type of a rank has `8 * 2 ^ rank` bits. -/
theorem signedRank_range (h : signedRank type = some rank) :
    type.integerRange = some (-2 ^ (8 * 2 ^ rank - 1), 2 ^ (8 * 2 ^ rank - 1) - 1) := by
  cases type <;> simp [signedRank] at h <;> subst h <;> decide

theorem unsignedRank_range (h : unsignedRank type = some rank) :
    type.integerRange = some (0, 2 ^ (8 * 2 ^ rank) - 1) := by
  cases type <;> simp [unsignedRank] at h <;> subst h <;> decide

theorem classify_self (type : DataType) : classify type type = none := by simp [classify]

theorem ranked_safe (h : ranked source target = some .safe) :
    ∃ a b, source = some a ∧ target = some b ∧ a < b := by
  cases source <;> cases target <;> simp [ranked] at h
  exact ⟨_, _, rfl, rfl, h⟩

/-- Every safe cast: from the null type, into an integer type of strictly higher rank,
or one of the listed pairs. -/
inductive SafeCast : DataType → DataType → Prop where
  | null : target ≠ .null → SafeCast .null target
  | signed : signedRank source = some a → signedRank target = some b → a < b → SafeCast source target
  | unsigned : unsignedRank source = some a → unsignedRank target = some b → a < b →
      SafeCast source target
  | unsignedSigned : unsignedRank source = some a → signedRank target = some b → a < b →
      SafeCast source target
  | listed : (source, target) ∈ safePairs → SafeCast source target

theorem classifyOther_safe (h : classifyOther source target = some .safe) :
    (source, target) ∈ safePairs := by
  unfold classifyOther at h
  split_ifs at h with listed
  all_goals first | exact listed | simp at h

theorem classify_safe (h : classify source target = some .safe) : SafeCast source target := by
  unfold classify at h
  split at h
  next => contradiction
  next distinct =>
    split at h
    next null => exact null ▸ .null (fun same => distinct (null.trans same.symm))
    next =>
      cases signed : ranked (signedRank source) (signedRank target) with
      | some kind =>
        obtain rfl : kind = .safe := by simpa [signed] using h
        obtain ⟨a, b, ha, hb, lt⟩ := ranked_safe signed
        exact .signed ha hb lt
      | none =>
        cases unsigned : ranked (unsignedRank source) (unsignedRank target) with
        | some kind =>
          obtain rfl : kind = .safe := by simpa [signed, unsigned] using h
          obtain ⟨a, b, ha, hb, lt⟩ := ranked_safe unsigned
          exact .unsigned ha hb lt
        | none =>
          cases mixed : ranked (unsignedRank source) (signedRank target) with
          | some kind =>
            obtain rfl : kind = .safe := by simpa [signed, unsigned, mixed] using h
            obtain ⟨a, b, ha, hb, lt⟩ := ranked_safe mixed
            exact .unsignedSigned ha hb lt
          | none => exact .listed (classifyOther_safe (by simpa [signed, unsigned, mixed] using h))

theorem signedRank_of_unsigned (ranked : unsignedRank type = some rank) : signedRank type = none := by
  cases type <;> simp [unsignedRank] at ranked <;> rfl

theorem unsignedRank_of_signed (ranked : signedRank type = some rank) : unsignedRank type = none := by
  cases type <;> simp [signedRank] at ranked <;> rfl

theorem SafeCast.classify_eq (safe : SafeCast source target) : classify source target = some .safe := by
  cases safe with
  | null other => simp [classify, other.symm]
  | signed at_source at_target lt =>
    have distinct : source ≠ target := by
      rintro rfl
      cases at_source.symm.trans at_target
      exact Nat.lt_irrefl _ lt
    have valued : source ≠ .null := by
      rintro rfl
      contradiction
    simp [classify, distinct, valued, ranked, at_source, at_target, lt]
  | unsigned at_source at_target lt =>
    have distinct : source ≠ target := by
      rintro rfl
      cases at_source.symm.trans at_target
      exact Nat.lt_irrefl _ lt
    have valued : source ≠ .null := by
      rintro rfl
      contradiction
    simp [classify, distinct, valued, ranked, signedRank_of_unsigned at_source, at_source, at_target, lt]
  | unsignedSigned at_source at_target lt =>
    have distinct : source ≠ target := by
      rintro rfl
      cases (signedRank_of_unsigned at_source).symm.trans at_target
    have valued : source ≠ .null := by
      rintro rfl
      contradiction
    simp [classify, distinct, valued, ranked, signedRank_of_unsigned at_source,
      unsignedRank_of_signed at_target, at_source, at_target, lt]
  | listed pair =>
    simp only [safePairs, List.mem_cons, Prod.mk.injEq, List.not_mem_nil, or_false] at pair
    rcases pair with ⟨rfl, rfl⟩ | ⟨rfl, rfl⟩ | ⟨rfl, rfl⟩ | ⟨rfl, rfl⟩ | ⟨rfl, rfl⟩ <;> decide

/-- A listed pair joins types without a rank, neither of them null. -/
theorem safePairs_unranked (pair : (source, target) ∈ safePairs) :
    (signedRank source = none ∧ unsignedRank source = none ∧ source ≠ .null) ∧
      signedRank target = none ∧ unsignedRank target = none ∧ target ≠ .null := by
  simp only [safePairs, List.mem_cons, Prod.mk.injEq, List.not_mem_nil, or_false] at pair
  rcases pair with ⟨rfl, rfl⟩ | ⟨rfl, rfl⟩ | ⟨rfl, rfl⟩ | ⟨rfl, rfl⟩ | ⟨rfl, rfl⟩ <;> decide

theorem safePairs_trans (first : (a, b) ∈ safePairs) (second : (b, c) ∈ safePairs) : (a, c) ∈ safePairs := by
  simp only [safePairs, List.mem_cons, Prod.mk.injEq, List.not_mem_nil, or_false] at first second
  rcases first with ⟨rfl, rfl⟩ | ⟨rfl, rfl⟩ | ⟨rfl, rfl⟩ | ⟨rfl, rfl⟩ | ⟨rfl, rfl⟩
  all_goals simp at second
  -- only the float pairs chain
  subst second
  decide

/-- Nothing is cast safely into the null type. -/
theorem SafeCast.target_valued (safe : SafeCast source target) : target ≠ .null := by
  cases safe with
  | null other => exact other
  | signed _ at_target | unsigned _ at_target | unsignedSigned _ at_target =>
    rintro rfl
    contradiction
  | listed pair => exact (safePairs_unranked pair).2.2.2

/-- The rank rules, the listed pairs and the null rule compose. -/
theorem SafeCast.trans (first : SafeCast a b) (second : SafeCast b c) : SafeCast a c := by
  cases first with
  | null _ => exact .null second.target_valued
  | signed at_a at_b lt =>
    cases second with
    | null _ => contradiction
    | signed at_b' at_c lt' =>
      cases at_b.symm.trans at_b'
      exact .signed at_a at_c (Nat.lt_trans lt lt')
    | unsigned at_b' | unsignedSigned at_b' => cases (signedRank_of_unsigned at_b').symm.trans at_b
    | listed pair => cases (safePairs_unranked pair).1.1.symm.trans at_b
  | unsigned at_a at_b lt =>
    cases second with
    | null _ => contradiction
    | signed at_b' => cases (signedRank_of_unsigned at_b).symm.trans at_b'
    | unsigned at_b' at_c lt' =>
      cases at_b.symm.trans at_b'
      exact .unsigned at_a at_c (Nat.lt_trans lt lt')
    | unsignedSigned at_b' at_c lt' =>
      cases at_b.symm.trans at_b'
      exact .unsignedSigned at_a at_c (Nat.lt_trans lt lt')
    | listed pair => cases (safePairs_unranked pair).1.2.1.symm.trans at_b
  | unsignedSigned at_a at_b lt =>
    cases second with
    | null _ => contradiction
    | signed at_b' at_c lt' =>
      cases at_b.symm.trans at_b'
      exact .unsignedSigned at_a at_c (Nat.lt_trans lt lt')
    | unsigned at_b' | unsignedSigned at_b' => cases (signedRank_of_unsigned at_b').symm.trans at_b
    | listed pair => cases (safePairs_unranked pair).1.1.symm.trans at_b
  | listed pair =>
    obtain ⟨_, unsigned, unranked, valued⟩ := safePairs_unranked pair
    cases second with
    | null _ => exact absurd rfl valued
    | signed at_b => cases unsigned.symm.trans at_b
    | unsigned at_b | unsignedSigned at_b => cases unranked.symm.trans at_b
    | listed pair' => exact .listed (safePairs_trans pair pair')

end CastRegistry

end FsspecData
