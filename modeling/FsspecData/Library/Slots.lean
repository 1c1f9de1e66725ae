import FsspecData.Library.Fallible
import Mathlib.Data.List.Nodup
import Mathlib.Data.List.Range
import Mathlib.Data.List.Sigma
import Mathlib.Data.List.Perm.Basic
import Mathlib.Logic.Equiv.Defs

/-! Rows of slots filled by position: writes that hit every slot once leave none empty
and each value where it was written. -/
namespace Slots

variable {ε α β : Type}

/-- A list whose entries name their own positions lists the positions in order. -/
theorem map_eq_range {list : List α} {position : α → Nat}
    (own : ∀ i a, list[i]? = some a → position a = i) :
    list.map position = List.range list.length := by
  apply List.ext_getElem (by simp)
  intro i left right
  have inside : i < list.length := by simpa using left
  simp [own i _ (List.getElem?_eq_getElem inside)]

/-- A traversal with positions succeeds position by position. -/
theorem mapM_zipIdx_eq_ok {f : α × Nat → Except ε β} {list : List α} {results : List β} :
    list.zipIdx.mapM f = .ok results ↔ results.length = list.length ∧
      ∀ i a b, list[i]? = some a → results[i]? = some b → f (a, i) = .ok b := by
  rw [Fallible.mapM_eq_ok, List.forall₂_iff_get]
  constructor
  · rintro ⟨length, each⟩
    rw [List.length_zipIdx] at length
    refine ⟨length.symm, fun i a b at_a at_b => ?_⟩
    obtain ⟨inside, rfl⟩ := List.getElem?_eq_some_iff.mp at_a
    obtain ⟨inside', rfl⟩ := List.getElem?_eq_some_iff.mp at_b
    simpa using each i (by simpa using inside) inside'
  · rintro ⟨length, each⟩
    refine ⟨by rw [List.length_zipIdx, length], fun i inside inside' => ?_⟩
    have within : i < list.length := by simpa using inside
    simpa using each i _ _ (List.getElem?_eq_getElem within) (List.getElem?_eq_getElem inside')

/-- What a successful traversal with positions returns at each position. -/
theorem mapM_zipIdx {f : α × Nat → Except ε β} {list : List α} {results : List β}
    (h : list.zipIdx.mapM f = .ok results) :
    results.length = list.length ∧
      ∀ i b, results[i]? = some b → ∃ a, list[i]? = some a ∧ f (a, i) = .ok b := by
  obtain ⟨length, each⟩ := mapM_zipIdx_eq_ok.mp h
  refine ⟨length, fun i b at_b => ?_⟩
  obtain ⟨inside, _⟩ := List.getElem?_eq_some_iff.mp at_b
  have at_a := List.getElem?_eq_getElem (length ▸ inside)
  exact ⟨_, at_a, each i _ b at_a at_b⟩

/-- Where keys are distinct, a search by key finds one entry. -/
theorem filter_zipIdx_key {κ : Type} [DecidableEq κ] {key : α → κ} {list : List α} {a : α} {i : Nat}
    (distinct : (list.map key).Nodup) (at_i : list[i]? = some a) (start : Nat) :
    (list.zipIdx start).filter (fun entry => key entry.1 = key a) = [(a, start + i)] := by
  induction list generalizing i start with
  | nil => simp at at_i
  | cons b rest ih =>
    rw [List.map_cons, List.nodup_cons] at distinct
    rw [List.zipIdx_cons]
    cases i with
    | zero =>
      obtain rfl : b = a := by simpa using at_i
      have others : (rest.zipIdx (start + 1)).filter (fun entry => key entry.1 = key b) = [] := by
        refine List.filter_eq_nil_iff.mpr fun entry member same => distinct.1 ?_
        rw [← of_decide_eq_true same]
        exact List.mem_map_of_mem (List.fst_mem_of_mem_zipIdx member)
      rw [List.filter_cons_of_pos (by simp), others, Nat.add_zero]
    | succ i =>
      have at_i : rest[i]? = some a := by simpa using at_i
      have other : key b ≠ key a := fun same =>
        distinct.1 (same ▸ List.mem_map_of_mem (List.mem_of_getElem? at_i))
      rw [List.filter_cons_of_neg (by simpa using other), ih distinct.2 at_i (start + 1)]
      congr 2
      omega

theorem find?_key {κ : Type} [DecidableEq κ] {key : α → κ} {list : List α} {a : α}
    (distinct : (list.map key).Nodup) (member : a ∈ list) : list.find? (fun b => key b = key a) = some a := by
  induction list with
  | nil => simp at member
  | cons b rest ih =>
    rw [List.map_cons, List.nodup_cons] at distinct
    rcases List.mem_cons.mp member with rfl | later
    · exact List.find?_cons_of_pos (by simp)
    · have other : key b ≠ key a := fun same => distinct.1 (same ▸ List.mem_map_of_mem later)
      rw [List.find?_cons_of_neg (by simpa using other), ih distinct.2 later]

theorem nodup_zipIdx (list : List α) : list.zipIdx.Nodup :=
  (List.nodup_zipIdx_map_snd list).of_map _

/-- A search finds one entry when its position qualifies and no other does. -/
theorem filter_zipIdx_eq_singleton (p : α → Bool) {list : List α} {a : α} {i : Nat} :
    list.zipIdx.filter (fun entry => p entry.1) = [(a, i)] ↔
      list[i]? = some a ∧ p a = true ∧ ∀ (j : Nat) b, list[j]? = some b → p b = true → j = i := by
  have found (j : Nat) (b : α) : (b, j) ∈ list.zipIdx.filter (fun entry => p entry.1) ↔
      list[j]? = some b ∧ p b = true := by
    rw [List.mem_filter, List.mem_zipIdx_iff_getElem?]
  constructor
  · intro only
    obtain ⟨at_i, qualifies⟩ := (found i a).mp (only ▸ List.mem_singleton_self _)
    refine ⟨at_i, qualifies, fun j b at_j other => ?_⟩
    have member := (found j b).mpr ⟨at_j, other⟩
    rw [only, List.mem_singleton] at member
    exact (Prod.mk.inj member).2
  · rintro ⟨at_i, qualifies, only⟩
    apply List.perm_singleton.mp
    apply (List.perm_ext_iff_of_nodup ((nodup_zipIdx list).filter _) (List.nodup_singleton _)).mpr
    rintro ⟨b, j⟩
    rw [found, List.mem_singleton]
    constructor
    · rintro ⟨at_j, other⟩
      obtain rfl := only j b at_j other
      cases at_j.symm.trans at_i
      rfl
    · rintro ⟨⟩
      exact ⟨at_i, qualifies⟩

theorem filter_zipIdx_eq_nil (p : α → Bool) {list : List α} :
    list.zipIdx.filter (fun entry => p entry.1) = [] ↔ ∀ (i : Nat) a, list[i]? = some a → p a = false := by
  rw [List.filter_eq_nil_iff]
  constructor
  · intro none_found i a at_i
    simpa using none_found (a, i) (List.mem_zipIdx_iff_getElem?.mpr at_i)
  · rintro none_qualifies ⟨a, i⟩ member
    simp [none_qualifies i a (List.mem_zipIdx_iff_getElem?.mp member)]

/-- A search that finds neither none nor one finds entries at two positions. -/
theorem filter_zipIdx_several (p : α → Bool) {list : List α}
    (some_found : list.zipIdx.filter (fun entry => p entry.1) ≠ [])
    (more_found : ∀ a i, list.zipIdx.filter (fun entry => p entry.1) ≠ [(a, i)]) :
    ∃ (i j : Nat) (a b : α), i ≠ j ∧ (list[i]? = some a ∧ p a = true) ∧ list[j]? = some b ∧ p b = true := by
  have found (entry : α × Nat) (member : entry ∈ list.zipIdx.filter (fun entry => p entry.1)) :
      list[entry.2]? = some entry.1 ∧ p entry.1 = true := by
    obtain ⟨listed, qualifies⟩ := List.mem_filter.mp member
    exact ⟨List.mem_zipIdx_iff_getElem?.mp listed, qualifies⟩
  have distinct : ((list.zipIdx.filter (fun entry => p entry.1)).map Prod.snd).Nodup :=
    (List.nodup_zipIdx_map_snd list).sublist (List.filter_sublist.map _)
  generalize list.zipIdx.filter (fun entry => p entry.1) = entries at *
  rcases entries with _ | ⟨first, _ | ⟨second, rest⟩⟩
  · exact absurd rfl some_found
  · exact absurd rfl (more_found first.1 first.2)
  · simp only [List.map_cons, List.nodup_cons, List.mem_cons, not_or] at distinct
    exact ⟨first.2, second.2, first.1, second.1, distinct.1.1, found first (by simp), found second (by simp)⟩

/-- Lists in strictly ascending key order with the same members are equal. -/
theorem eq_of_ascending {list list' : List α} {key : α → Nat} (ascending : (list.map key).Pairwise (· < ·))
    (ascending' : (list'.map key).Pairwise (· < ·)) (same : ∀ a, a ∈ list ↔ a ∈ list') : list = list' := by
  have distinct : list.Nodup := .of_map key (ascending.imp Nat.ne_of_lt)
  have distinct' : list'.Nodup := .of_map key (ascending'.imp Nat.ne_of_lt)
  rw [List.pairwise_map] at ascending ascending'
  apply List.Perm.eq_of_pairwise (fun a b _ _ lt gt => absurd lt (Nat.lt_asymm gt)) ascending ascending'
  exact (List.perm_ext_iff_of_nodup distinct distinct').mpr same

/-- The second list holds at every position what the first holds at the permuted one. -/
def Rearranged (σ : Equiv.Perm Nat) (list list' : List α) : Prop := ∀ i, list'[i]? = list[σ i]?

namespace Rearranged

variable {σ : Equiv.Perm Nat} {list list' : List α}

theorem symm (moved : Rearranged σ list list') : Rearranged σ.symm list' list := by
  intro i
  rw [moved, Equiv.apply_symm_apply]

theorem map (moved : Rearranged σ list list') (f : α → β) : Rearranged σ (list.map f) (list'.map f) := by
  intro i
  rw [List.getElem?_map, List.getElem?_map, moved]

theorem perm (moved : Rearranged σ list list') : list'.Perm list := by
  have distinct : (list'.zipIdx.map fun entry => (entry.1, σ entry.2)).Nodup := by
    apply (nodup_zipIdx list').map
    intro entry entry' same
    obtain ⟨values, positions⟩ := Prod.mk.inj same
    exact Prod.ext values (σ.injective positions)
  have entries : (list'.zipIdx.map fun entry => (entry.1, σ entry.2)).Perm list.zipIdx := by
    apply (List.perm_ext_iff_of_nodup distinct (nodup_zipIdx list)).mpr
    rintro ⟨a, i⟩
    rw [List.mem_map, List.mem_zipIdx_iff_getElem?]
    constructor
    · rintro ⟨⟨b, j⟩, member, same⟩
      obtain ⟨rfl, rfl⟩ := Prod.mk.inj same
      exact (moved j).symm.trans (List.mem_zipIdx_iff_getElem?.mp member)
    · intro at_i
      refine ⟨(a, σ.symm i), List.mem_zipIdx_iff_getElem?.mpr ((moved _).trans ?_), ?_⟩
      · rwa [Equiv.apply_symm_apply]
      · rw [Equiv.apply_symm_apply]
  have values := entries.map Prod.fst
  rw [List.map_map] at values
  exact (List.zipIdx_map_fst 0 list').symm ▸ (List.zipIdx_map_fst 0 list) ▸ values

/-- Lists rearranged alike are equal when the lists they come from are. -/
theorem congr {other : List α} (moved : Rearranged σ list list') (moved' : Rearranged σ list other) :
    list' = other :=
  List.ext_getElem? fun i => (moved i).trans (moved' i).symm

end Rearranged

/-- A row of values, one for each entry of a list. -/
theorem row_exists {P : Nat → α → β → Prop} {list : List α}
    (each : ∀ i a, list[i]? = some a → ∃ b, P i a b) :
    ∃ row : List β, row.length = list.length ∧
      ∀ i a, list[i]? = some a → ∃ b, row[i]? = some b ∧ P i a b := by
  induction list generalizing P with
  | nil => exact ⟨[], rfl, by simp⟩
  | cons a rest ih =>
    obtain ⟨b, first⟩ := each 0 a rfl
    obtain ⟨row, length, others⟩ := ih (P := fun i => P (i + 1)) fun i a at_i => each (i + 1) a at_i
    refine ⟨b :: row, by simp [length], fun i a' at_i => ?_⟩
    cases i with
    | zero =>
      obtain rfl : a = a' := by simpa using at_i
      exact ⟨b, rfl, first⟩
    | succ i => exact others i a' (by simpa using at_i)

/-- Writing a list of values at their positions. -/
def fill (slots : List (Option α)) (writes : List (Nat × α)) : List (Option α) :=
  writes.foldl (fun slots write => slots.set write.1 (some write.2)) slots

@[simp] theorem fill_length (slots : List (Option α)) (writes : List (Nat × α)) :
    (fill slots writes).length = slots.length := by
  induction writes generalizing slots with
  | nil => rfl
  | cons write rest ih => exact (ih _).trans (by simp)

theorem fill_append (slots : List (Option α)) (first second : List (Nat × α)) :
    fill slots (first ++ second) = fill (fill slots first) second := List.foldl_append

theorem fill_other {slots : List (Option α)} {writes : List (Nat × α)} {i : Nat}
    (untouched : i ∉ writes.map Prod.fst) : (fill slots writes)[i]? = slots[i]? := by
  induction writes generalizing slots with
  | nil => rfl
  | cons write rest ih =>
    simp only [List.map_cons, List.mem_cons, not_or] at untouched
    exact (ih untouched.2).trans (List.getElem?_set_ne (Ne.symm untouched.1))

theorem fill_written {slots : List (Option α)} {writes : List (Nat × α)} {i : Nat} {a : α}
    (once : (writes.map Prod.fst).Nodup) (inside : i < slots.length) (member : (i, a) ∈ writes) :
    (fill slots writes)[i]? = some (some a) := by
  induction writes generalizing slots with
  | nil => simp at member
  | cons write rest ih =>
    simp only [List.map_cons, List.nodup_cons] at once
    rcases List.mem_cons.mp member with rfl | later
    · exact (fill_other once.1).trans (by simp [inside])
    · exact ih once.2 (by simpa using inside) later

/-- Writes that hit each of `n` slots exactly once leave a full row. -/
theorem fill_covers {n : Nat} {writes : List (Nat × α)}
    (covers : (writes.map Prod.fst).Perm (List.range n)) :
    ∃ row : List α, fill (List.replicate n none) writes = row.map some ∧ row.length = n ∧
      ∀ i a, row[i]? = some a ↔ (i, a) ∈ writes := by
  have once : (writes.map Prod.fst).Nodup := covers.nodup_iff.mpr List.nodup_range
  have written (i : Nat) (a : α) (inside : i < n) (member : (i, a) ∈ writes) :
      (fill (List.replicate n none) writes)[i]? = some (some a) :=
    fill_written once (by simpa using inside) member
  have full (i : Nat) (inside : i < n) : ∃ a, (i, a) ∈ writes ∧
      (fill (List.replicate n none) writes)[i]? = some (some a) := by
    obtain ⟨⟨j, a⟩, member, rfl⟩ := List.mem_map.mp (covers.mem_iff.mpr (List.mem_range.mpr inside))
    exact ⟨a, member, written j a inside member⟩
  have every : ∀ slot ∈ fill (List.replicate n none) writes, slot.isSome := by
    intro slot member
    obtain ⟨i, inside, rfl⟩ := List.mem_iff_getElem.mp member
    obtain ⟨a, _, at_i⟩ := full i (by simpa using inside)
    rw [List.getElem?_eq_getElem inside] at at_i
    simp [Option.some.inj at_i]
  obtain ⟨row, same⟩ : ∃ row : List α, fill (List.replicate n none) writes = row.map some := by
    refine ⟨(fill (List.replicate n none) writes).filterMap id, ?_⟩
    rw [List.map_filterMap]
    refine (List.filterMap_some.symm).trans (List.filterMap_congr fun slot member => ?_)
    obtain ⟨a, rfl⟩ := Option.isSome_iff_exists.mp (every slot member)
    rfl
  have length : row.length = n := by
    have := congrArg List.length same
    simpa using this.symm
  refine ⟨row, same, length, fun i a => ⟨fun at_i => ?_, fun member => ?_⟩⟩
  · obtain ⟨inside, _⟩ := List.getElem?_eq_some_iff.mp at_i
    obtain ⟨b, member, at_b⟩ := full i (by omega)
    rw [same, List.getElem?_map, at_i] at at_b
    obtain rfl : a = b := by simpa using at_b
    exact member
  · have inside : i < n := by
      have := List.mem_map_of_mem (f := Prod.fst) member
      simpa using covers.mem_iff.mp this
    have at_i := written i a inside member
    rw [same, List.getElem?_map] at at_i
    simpa using at_i

/-- A write that fails outside the row. -/
def write (fault : ε) (slots : List (Option α)) (i : Nat) (a : α) : Except ε (List (Option α)) :=
  if i < slots.length then .ok (slots.set i (some a)) else .error fault

/-- A computed value with the position it goes to. -/
def placed (entry : Nat × Except ε α) : Except ε (Nat × α) := (entry.1, ·) <$> entry.2

/-- A loop of computed writes inside the row computes the values in order and fills. -/
theorem foldlM_write (fault : ε) {f : β → Except ε α} {position : β → Nat} (list : List β)
    (slots : List (Option α)) (inside : ∀ b ∈ list, position b < slots.length) :
    list.foldlM (fun slots b => do write fault slots (position b) (← f b)) slots =
      fill slots <$> (list.map fun b => (position b, f b)).mapM placed := by
  induction list generalizing slots with
  | nil => rfl
  | cons b rest ih =>
    rw [List.foldlM_cons, List.map_cons, List.mapM_cons, placed]
    cases f b with
    | error e => rfl
    | ok a =>
      have first : write fault slots (position b) a = .ok (slots.set (position b) (some a)) :=
        if_pos (inside b List.mem_cons_self)
      change (write fault slots (position b) a >>= _) = _
      rw [first]
      refine (ih (slots.set (position b) (some a)) fun b' member => ?_).trans ?_
      · simpa using inside b' (List.mem_cons_of_mem _ member)
      · cases (rest.map fun b => (position b, f b)).mapM placed <;> rfl

theorem mapM_placed_ok {entries : List (Nat × Except ε α)} {writes : List (Nat × α)}
    (h : entries.mapM placed = .ok writes) :
    writes.map Prod.fst = entries.map Prod.fst ∧
      ∀ entry ∈ entries, ∃ a, entry.2 = .ok a ∧ (entry.1, a) ∈ writes := by
  have pointwise := Fallible.mapM_eq_ok.mp h
  clear h
  induction pointwise with
  | nil => simp
  | cons first _ ih =>
    obtain ⟨a, computed, rfl⟩ := Fallible.map_eq_ok.mp first
    refine ⟨by rw [List.map_cons, List.map_cons, ih.1], List.forall_mem_cons.mpr ⟨?_, ?_⟩⟩
    · exact ⟨a, computed, List.mem_cons_self⟩
    · intro entry member
      obtain ⟨b, computed, written⟩ := ih.2 entry member
      exact ⟨b, computed, List.mem_cons_of_mem _ written⟩

theorem mapM_placed_error {entries : List (Nat × Except ε α)} {e : ε}
    (h : entries.mapM placed = .error e) : ∃ entry ∈ entries, entry.2 = .error e := by
  obtain ⟨⟨i, value⟩, member, fails⟩ := Fallible.mapM_eq_error h
  cases value with
  | error e' => cases fails; exact ⟨_, member, rfl⟩
  | ok a => contradiction

section Loops

variable {γ : Type} {n : Nat} {f : β → Except ε α} {p : β → Nat} {g : γ → Except ε α} {q : γ → Nat}
  {first : List β} {second : List γ}

/-- Two loops that together target each slot once fill one row, the first loop's values
computed first. -/
theorem loops_eq (fault : ε) (covers : (first.map p ++ second.map q).Perm (List.range n)) :
    (do
      let slots ← first.foldlM (fun slots b => do write fault slots (p b) (← f b))
        (List.replicate n none)
      second.foldlM (fun slots c => do write fault slots (q c) (← g c)) slots) =
      fill (List.replicate n none) <$>
        ((first.map fun b => (p b, f b)) ++ second.map fun c => (q c, g c)).mapM placed := by
  have inside (i : Nat) (member : i ∈ first.map p ++ second.map q) : i < n := by
    simpa using covers.mem_iff.mp member
  rw [foldlM_write, List.mapM_append]
  · generalize (first.map _).mapM placed = written
    cases written with
    | error e => rfl
    | ok written =>
      refine (foldlM_write _ _ _ fun c member => ?_).trans ?_
      · simpa using inside _ (List.mem_append_right _ (List.mem_map_of_mem member))
      · generalize (second.map _).mapM placed = added
        cases added with
        | error e => rfl
        | ok added => exact congrArg Except.ok (fill_append _ _ _).symm
  · intro b member
    simpa using inside _ (List.mem_append_left _ (List.mem_map_of_mem member))

/-- Each value is in the slot its loop writes. -/
structure Filled (n : Nat) (f : β → Except ε α) (p : β → Nat) (g : γ → Except ε α) (q : γ → Nat)
    (first : List β) (second : List γ) (row : List α) : Prop where
  width : row.length = n
  first : ∀ b ∈ first, ∃ a, row[p b]? = some a ∧ f b = .ok a
  second : ∀ c ∈ second, ∃ a, row[q c]? = some a ∧ g c = .ok a

/-- Two loops of writes into an empty row, of which every slot is then taken. -/
def assemble (fault missing : ε) (n : Nat) (f : β → Except ε α) (p : β → Nat) (g : γ → Except ε α)
    (q : γ → Nat) (first : List β) (second : List γ) : Except ε (List α) := do
  let slots ← first.foldlM (fun slots b => do write fault slots (p b) (← f b)) (List.replicate n none)
  let slots ← second.foldlM (fun slots c => do write fault slots (q c) (← g c)) slots
  slots.mapM (Fallible.orFail missing)

/-- Assembly depends on the computed values and their positions alone. -/
theorem assemble_congr (fault missing : ε) {f' : β → Except ε α} {p' : β → Nat} {g' : γ → Except ε α}
    {q' : γ → Nat} {first' : List β} {second' : List γ}
    (covers : (first.map p ++ second.map q).Perm (List.range n))
    (covers' : (first'.map p' ++ second'.map q').Perm (List.range n))
    (same : (first.map fun b => (p b, f b)) = first'.map fun b => (p' b, f' b))
    (same' : (second.map fun c => (q c, g c)) = second'.map fun c => (q' c, g' c)) :
    assemble fault missing n f p g q first second = assemble fault missing n f' p' g' q' first' second' := by
  rw [assemble, assemble, ← bind_assoc, ← bind_assoc, loops_eq fault covers, loops_eq fault covers', same, same']

/-- Assembly gives a filled row, or fails as one of the computations does. -/
theorem assemble_cases (fault missing : ε) (f : β → Except ε α) (g : γ → Except ε α)
    (covers : (first.map p ++ second.map q).Perm (List.range n)) :
    (∃ row, Filled n f p g q first second row ∧
      assemble fault missing n f p g q first second = .ok row) ∨
    ∃ e, assemble fault missing n f p g q first second = .error e ∧
      ((∃ b ∈ first, f b = .error e) ∨ ∃ c ∈ second, g c = .error e) := by
  rw [assemble, ← bind_assoc, loops_eq fault covers]
  cases computed : ((first.map fun b => (p b, f b)) ++ second.map fun c => (q c, g c)).mapM placed with
  | error e =>
    obtain ⟨entry, member, fails⟩ := mapM_placed_error computed
    refine .inr ⟨e, rfl, (List.mem_append.mp member).imp (fun member => ?_) fun member => ?_⟩
    all_goals obtain ⟨b, inside, rfl⟩ := List.mem_map.mp member; exact ⟨b, inside, fails⟩
  | ok writes =>
    obtain ⟨positions, values⟩ := mapM_placed_ok computed
    have covered : (writes.map Prod.fst).Perm (List.range n) := by
      simpa [positions, Function.comp_def] using covers
    obtain ⟨row, filled, width, at_index⟩ := fill_covers covered
    refine .inl ⟨row, ⟨width, fun b member => ?_, fun c member => ?_⟩, ?_⟩
    · obtain ⟨a, same, written⟩ := values _ (List.mem_append_left _ (List.mem_map_of_mem member))
      exact ⟨a, (at_index _ _).mpr written, same⟩
    · obtain ⟨a, same, written⟩ := values _ (List.mem_append_right _ (List.mem_map_of_mem member))
      exact ⟨a, (at_index _ _).mpr written, same⟩
    · change (fill _ writes).mapM (Fallible.orFail missing) = _
      rw [filled, Fallible.mapM_orFail]

/-- Every slot of a filled row is the value of a computation that targets it. -/
theorem Filled.at_index {row : List α} {i : Nat} {a : α} (filled : Filled n f p g q first second row)
    (covers : (first.map p ++ second.map q).Perm (List.range n)) (at_i : row[i]? = some a) :
    (∃ b ∈ first, p b = i ∧ f b = .ok a) ∨ ∃ c ∈ second, q c = i ∧ g c = .ok a := by
  have inside : i < n := by
    rw [← filled.width]
    exact (List.getElem?_eq_some_iff.mp at_i).1
  rcases List.mem_append.mp (covers.mem_iff.mpr (List.mem_range.mpr inside)) with target | target
  · obtain ⟨b, member, rfl⟩ := List.mem_map.mp target
    obtain ⟨_, at_b, computed⟩ := filled.first b member
    cases at_b.symm.trans at_i
    exact .inl ⟨b, member, rfl, computed⟩
  · obtain ⟨c, member, rfl⟩ := List.mem_map.mp target
    obtain ⟨_, at_c, computed⟩ := filled.second c member
    cases at_c.symm.trans at_i
    exact .inr ⟨c, member, rfl, computed⟩

theorem Filled.unique {row row' : List α} (filled : Filled n f p g q first second row)
    (filled' : Filled n f p g q first second row')
    (covers : (first.map p ++ second.map q).Perm (List.range n)) : row = row' := by
  refine List.ext_getElem? fun i => ?_
  by_cases inside : i < n
  · have within : i < row.length := by rwa [filled.width]
    have at_i := List.getElem?_eq_getElem within
    rcases filled.at_index covers at_i with ⟨b, member, rfl, computed⟩ | ⟨c, member, rfl, computed⟩
    · obtain ⟨a, at_b, computed'⟩ := filled'.first b member
      rw [at_i, at_b, ← Except.ok.inj (computed.symm.trans computed')]
    · obtain ⟨a, at_c, computed'⟩ := filled'.second c member
      rw [at_i, at_c, ← Except.ok.inj (computed.symm.trans computed')]
  · rw [List.getElem?_eq_none (by rw [filled.width]; omega),
      List.getElem?_eq_none (by rw [filled'.width]; omega)]

end Loops

end Slots
