import Mathlib.Data.Rat.Defs

/-! JSON documents as Python's decoder returns them. -/
namespace FsspecData

inductive Json where
  | null
  | bool (value : Bool)
  | number (value : ℚ)
  | string (value : String)
  | array (items : List Json)
  | object (members : List (String × Json))
  deriving Inhabited

/-- The members of a JSON object, in document order. -/
abbrev Mapping := List (String × Json)

namespace Json

def string? : Json → Option String
  | .string value => some value
  | _ => none

mutual

/-- No object has a key twice, as no `dict` does. -/
def Distinct : Json → Prop
  | .array items => DistinctItems items
  | .object members => (members.map Prod.fst).Nodup ∧ DistinctMembers members
  | _ => True

def DistinctItems : List Json → Prop
  | [] => True
  | item :: rest => item.Distinct ∧ DistinctItems rest

def DistinctMembers : List (String × Json) → Prop
  | [] => True
  | (_, value) :: rest => value.Distinct ∧ DistinctMembers rest

end

theorem distinctMembers_iff {members : Mapping} :
    DistinctMembers members ↔ ∀ entry ∈ members, entry.2.Distinct := by
  induction members with
  | nil => simp [DistinctMembers]
  | cons entry rest ih => simp [DistinctMembers, ih]

end Json

namespace Mapping

/-- `key in value`. -/
def has (value : Mapping) (key : String) : Bool := (value.lookup key).isSome

theorem has_iff {value : Mapping} {key : String} : value.has key = true ↔ key ∈ value.map Prod.fst := by
  rw [has, List.lookup_isSome_iff, List.mem_map]
  refine exists_congr fun entry => and_congr_right fun _ => ?_
  rw [beq_iff_eq, eq_comm]

theorem mem_of_lookup {α : Type} {value : List (String × α)} {key : String} {child : α}
    (found : value.lookup key = some child) : (key, child) ∈ value := by
  obtain ⟨before, behind, rfl, _⟩ := List.lookup_eq_some_iff.mp found
  exact List.mem_append_right _ List.mem_cons_self

/-- With distinct keys each member is what its key finds. -/
theorem lookup_of_mem {value : Mapping} (distinct : (value.map Prod.fst).Nodup) {key : String} {child : Json}
    (member : (key, child) ∈ value) : value.lookup key = some child := by
  obtain ⟨before, behind, rfl⟩ := List.append_of_mem member
  refine List.lookup_eq_some_iff.mpr ⟨before, behind, rfl, fun entry earlier => ?_⟩
  rw [List.map_append, List.nodup_append] at distinct
  have other := distinct.2.2 entry.1 (List.mem_map_of_mem earlier) key (by simp)
  exact bne_iff_ne.mpr other.symm

theorem sizeOf_member {value : Mapping} {entry : String × Json} (member : entry ∈ value) :
    sizeOf entry.2 < sizeOf value := by
  have inside := List.sizeOf_lt_of_mem member
  have parts : sizeOf entry = 1 + sizeOf entry.1 + sizeOf entry.2 := rfl
  omega

theorem sizeOf_lookup {value : Mapping} {key : String} {child : Json} (found : value.lookup key = some child) :
    sizeOf child < sizeOf value := sizeOf_member (mem_of_lookup found)

theorem sizeOf_object (members : Mapping) : sizeOf members < sizeOf (Json.object members) := by
  simp

end Mapping

end FsspecData
