import Mathlib.Data.List.Basic

/-! Dictionaries in the order of their keys' first insertion, as lists. -/
namespace Dict

variable {K V : Type} [DecidableEq K]

/-- A known key keeps its place, a new one comes last. -/
def set (key : K) (value : V) : List (K × V) → List (K × V)
  | [] => [(key, value)]
  | (other, old) :: rest => if other = key then (key, value) :: rest else (other, old) :: set key value rest

def update (dict others : List (K × V)) : List (K × V) := others.foldl (fun dict entry => set entry.1 entry.2 dict) dict

theorem lookup_cons (key first : K) (value : V) (rest : List (K × V)) :
    ((first, value) :: rest).lookup key = if key = first then some value else rest.lookup key := by
  by_cases same : key = first
  · rw [if_pos same, List.lookup_cons, beq_iff_eq.mpr same]
  · rw [if_neg same, List.lookup_cons, beq_eq_false_iff_ne.mpr same]

@[simp] theorem lookup_set (key other : K) (value : V) (dict : List (K × V)) :
    (set key value dict).lookup other = if other = key then some value else dict.lookup other := by
  induction dict with
  | nil => rw [set, lookup_cons]
  | cons entry rest ih =>
    obtain ⟨first, old⟩ := entry
    unfold set
    split
    next same =>
      subst same
      rw [lookup_cons, lookup_cons]
      split <;> rfl
    next different =>
      rw [lookup_cons, lookup_cons, ih]
      by_cases wanted : other = first
      · subst wanted
        simp [different]
      · simp [wanted]

/-- The last value that was given for a key stands. -/
theorem lookup_update (dict others : List (K × V)) (key : K) :
    (update dict others).lookup key = (others.reverse.lookup key).or (dict.lookup key) := by
  induction others generalizing dict with
  | nil => rfl
  | cons entry rest ih =>
    obtain ⟨first, value⟩ := entry
    change (update (set first value dict) rest).lookup key = _
    rw [ih, lookup_set, List.reverse_cons, List.lookup_append, Option.or_assoc, lookup_cons]
    congr 1
    split <;> rfl

theorem set_new {key : K} {dict : List (K × V)} (new : dict.lookup key = none) (value : V) :
    set key value dict = dict ++ [(key, value)] := by
  induction dict with
  | nil => rfl
  | cons entry rest ih =>
    obtain ⟨first, old⟩ := entry
    rw [lookup_cons] at new
    split at new
    next => contradiction
    next other => rw [set, if_neg (Ne.symm other), ih new, List.cons_append]

section Related

variable {related : K × V → K × V → Prop} (keys : ∀ {entry other}, related entry other → entry.1 = other.1)

include keys in
/-- Setting the same key keeps two dictionaries related entry by entry. -/
theorem set_related {key : K} {value other : V} {dict dict' : List (K × V)}
    (each : List.Forall₂ related dict dict') (new : related (key, value) (key, other)) :
    List.Forall₂ related (set key value dict) (set key other dict') := by
  induction each with
  | nil => exact .cons new .nil
  | @cons entry entry' rest rest' first later ih =>
    obtain ⟨name, old⟩ := entry
    obtain ⟨name', old'⟩ := entry'
    obtain rfl : name = name' := keys first
    unfold set
    split
    next => exact .cons new later
    next => exact .cons first ih

include keys in
theorem update_related {dict dict' others others' : List (K × V)} (each : List.Forall₂ related dict dict')
    (new : List.Forall₂ related others others') : List.Forall₂ related (update dict others) (update dict' others') := by
  induction new generalizing dict dict' with
  | nil => exact each
  | @cons entry entry' rest rest' first _ ih =>
    obtain ⟨name, value⟩ := entry
    obtain ⟨name', value'⟩ := entry'
    obtain rfl : name = name' := keys first
    exact ih (set_related keys each first)

end Related

end Dict
