import FsspecData.Library.Machine
import Mathlib.Data.List.Nodup
import Mathlib.Logic.Function.Basic

/-! Concurrent histories in the order of a sequential machine. A call takes effect at one
point between its invocation and its return; the order of the points is then an order in
which the calls could have been made one after the other, each after those that had
returned when it was invoked. -/
namespace Linearizable

open Machine

variable {S Id Op Ret : Type}

/-- What a concurrent execution shows of its calls. -/
inductive Event (Id Op Ret : Type) where
  | invoke (id : Id) (op : Op)
  | respond (id : Id) (ret : Ret)

/-- An order in which the calls of a history could have been made one after the other. A
call that has not returned may be in it or not. -/
structure Linearizes (spec : S → Op → Ret → S → Prop) (s : S) (history : List (Event Id Op Ret))
    (order : List (Id × Op × Ret)) (last : S) : Prop where
  legal : Run spec s (order.map Prod.snd) last
  once : (order.map Prod.fst).Nodup
  invoked : ∀ id op ret, (id, op, ret) ∈ order → .invoke id op ∈ history
  answered : ∀ id ret, .respond id ret ∈ history → ∃ op, (id, op, ret) ∈ order
  realTime : ∀ id ret id' op', [.respond id ret, .invoke id' op'].Sublist history → id' ∈ order.map Prod.fst →
    [id, id'].Sublist (order.map Prod.fst)

/-- Of two calls that do not overlap, the earlier one stands before the later one. -/
theorem Linearizes.split {spec : S → Op → Ret → S → Prop} {s last : S} {history : List (Event Id Op Ret)}
    {order : List (Id × Op × Ret)} {id id' : Id} {op' : Op} {ret ret' : Ret}
    (linearizes : Linearizes spec s history order last)
    (apart : [.respond id ret, .invoke id' op'].Sublist history) (returns : .respond id' ret' ∈ history) :
    ∃ before op between op'' after,
      order = before ++ (id, op, ret) :: (between ++ (id', op'', ret') :: after) := by
  have returned : .respond id ret ∈ history := apart.subset List.mem_cons_self
  obtain ⟨op, member⟩ := linearizes.answered id ret returned
  obtain ⟨op'', member'⟩ := linearizes.answered id' ret' returns
  have listed : id' ∈ order.map Prod.fst := List.mem_map.mpr ⟨_, member', rfl⟩
  have ordered := linearizes.realTime id ret id' op' apart listed
  obtain ⟨entries, sublist, keys⟩ := List.sublist_map_iff.mp ordered
  obtain ⟨entry, rest, rfl, same, keys⟩ := List.map_eq_cons_iff.mp keys.symm
  obtain ⟨entry', rest', rfl, same', keys⟩ := List.map_eq_cons_iff.mp keys
  obtain rfl : rest' = [] := List.map_eq_nil_iff.mp keys
  have unique {a b : Id × Op × Ret} (first : a ∈ order) (second : b ∈ order) (key : a.1 = b.1) : a = b :=
    List.inj_on_of_nodup_map linearizes.once first second key
  obtain rfl : entry = (id, op, ret) := unique (sublist.subset (by simp)) member same
  obtain rfl : entry' = (id', op'', ret') := unique (sublist.subset (by simp)) member' same'
  obtain ⟨first, second, rfl, here, there⟩ := List.cons_sublist_iff.mp sublist
  obtain ⟨before, between, rfl⟩ := List.append_of_mem here
  obtain ⟨between', after, rfl⟩ := List.append_of_mem (List.singleton_sublist.mp there)
  exact ⟨before, op, between ++ between', op'', after, by simp⟩

def Event.invoked? : Event Id Op Ret → Option Id
  | .invoke id _ => some id
  | .respond _ _ => none

/-- No order has more calls than the history. -/
theorem Linearizes.length_le {spec : S → Op → Ret → S → Prop} {s last : S} {history : List (Event Id Op Ret)}
    {order : List (Id × Op × Ret)} (linearizes : Linearizes spec s history order last) :
    order.length ≤ history.length := by
  have listed : order.map Prod.fst ⊆ history.filterMap Event.invoked? := by
    intro id key
    obtain ⟨⟨id, op, ret⟩, member, rfl⟩ := List.mem_map.mp key
    exact List.mem_filterMap.mpr ⟨_, linearizes.invoked id op ret member, rfl⟩
  have fewer := List.Nodup.length_le_of_subset linearizes.once listed
  rw [List.length_map] at fewer
  exact Nat.le_trans fewer (List.length_filterMap_le _ _)

/-- The events of an execution, and the points at which its calls take effect. -/
inductive Mark (Id Op Ret : Type) where
  | event (event : Event Id Op Ret)
  | point (id : Id) (op : Op) (ret : Ret)

def Mark.event? : Mark Id Op Ret → Option (Event Id Op Ret)
  | .event shown => some shown
  | .point _ _ _ => none

def Mark.point? : Mark Id Op Ret → Option (Id × Op × Ret)
  | .event _ => none
  | .point id op ret => some (id, op, ret)

def history (marks : List (Mark Id Op Ret)) : List (Event Id Op Ret) := marks.filterMap Mark.event?

def points (marks : List (Mark Id Op Ret)) : List (Id × Op × Ret) := marks.filterMap Mark.point?

@[simp] theorem history_nil : history ([] : List (Mark Id Op Ret)) = [] := rfl

@[simp] theorem points_nil : points ([] : List (Mark Id Op Ret)) = [] := rfl

@[simp] theorem history_event (event : Event Id Op Ret) (marks : List (Mark Id Op Ret)) :
    history (.event event :: marks) = event :: history marks := List.filterMap_cons_some rfl

@[simp] theorem history_point (id : Id) (op : Op) (ret : Ret) (marks : List (Mark Id Op Ret)) :
    history (.point id op ret :: marks) = history marks := List.filterMap_cons_none rfl

@[simp] theorem points_event (event : Event Id Op Ret) (marks : List (Mark Id Op Ret)) :
    points (.event event :: marks) = points marks := List.filterMap_cons_none rfl

@[simp] theorem points_point (id : Id) (op : Op) (ret : Ret) (marks : List (Mark Id Op Ret)) :
    points (.point id op ret :: marks) = (id, op, ret) :: points marks := List.filterMap_cons_some rfl

/-- How far a call is. -/
inductive Stage (Op Ret : Type) where
  | fresh
  | invoked (op : Op)
  | taken (ret : Ret)
  | returned

variable [DecidableEq Id]

/-- Every call passes its stages in their order, from where it stands. -/
inductive Paced : (Id → Stage Op Ret) → List (Mark Id Op Ret) → Prop where
  | nil {stage : Id → Stage Op Ret} : Paced stage []
  | invoke {stage : Id → Stage Op Ret} {id : Id} {op : Op} {marks : List (Mark Id Op Ret)}
      (fresh : stage id = .fresh) (rest : Paced (Function.update stage id (.invoked op)) marks) :
      Paced stage (.event (.invoke id op) :: marks)
  | point {stage : Id → Stage Op Ret} {id : Id} {op : Op} {ret : Ret} {marks : List (Mark Id Op Ret)}
      (invoked : stage id = .invoked op) (rest : Paced (Function.update stage id (.taken ret)) marks) :
      Paced stage (.point id op ret :: marks)
  | respond {stage : Id → Stage Op Ret} {id : Id} {ret : Ret} {marks : List (Mark Id Op Ret)}
      (taken : stage id = .taken ret) (rest : Paced (Function.update stage id .returned) marks) :
      Paced stage (.event (.respond id ret) :: marks)

variable {stage : Id → Stage Op Ret} {marks : List (Mark Id Op Ret)} {id id' : Id} {op : Op} {ret : Ret}

namespace Paced

/-- A call is invoked at its first stage. -/
theorem invoke_fresh (paced : Paced stage marks) (member : .invoke id op ∈ history marks) : stage id = .fresh := by
  induction paced with
  | nil => simp [history] at member
  | @invoke stage other _ _ fresh _ ih =>
    by_cases same : id = other
    · exact same ▸ fresh
    · simpa [same] using ih (by simpa [same] using member)
  | @point stage other _ _ _ _ _ ih =>
    have later := ih (by simpa using member)
    by_cases same : id = other
    · simp [same] at later
    · simpa [same] using later
  | @respond stage other _ _ _ _ ih =>
    have later := ih (by simpa using member)
    by_cases same : id = other
    · simp [same] at later
    · simpa [same] using later

/-- A call takes effect after its invocation. -/
theorem point_invoked (paced : Paced stage marks) (member : (id, op, ret) ∈ points marks) :
    stage id = .invoked op ∨ stage id = .fresh ∧ .invoke id op ∈ history marks := by
  induction paced with
  | nil => simp [points] at member
  | @invoke stage other op' _ fresh _ ih =>
    have later := ih (by simpa using member)
    by_cases same : id = other
    · subst same
      rcases later with invoked | ⟨again, _⟩
      · refine .inr ⟨fresh, ?_⟩
        rw [Function.update_self] at invoked
        cases invoked
        simp
      · simp at again
    · simpa [same] using later
  | @point stage other op' ret' marks invoked _ ih =>
    by_cases same : id = other
    · subst same
      rw [points_point, List.mem_cons] at member
      rcases member with here | further
      · cases here
        exact .inl invoked
      · simpa using ih further
    · simpa [same] using ih (by simpa [same] using member)
  | @respond stage other _ _ _ _ ih =>
    have later := ih (by simpa using member)
    by_cases same : id = other
    · simp [same] at later
    · simpa [same] using later

/-- A call returns after it took effect. -/
theorem respond_taken (paced : Paced stage marks) (member : .respond id ret ∈ history marks) :
    stage id = .taken ret ∨ ∃ op, (id, op, ret) ∈ points marks := by
  induction paced with
  | nil => simp [history] at member
  | @invoke stage other _ _ _ _ ih =>
    have later := ih (by simpa using member)
    by_cases same : id = other
    · subst same
      exact .inr (by simpa using later)
    · simpa [same] using later
  | @point stage other op' ret' _ _ _ ih =>
    have later := ih (by simpa using member)
    rw [points_point]
    by_cases same : id = other
    · subst same
      rcases later with taken | ⟨op, listed⟩
      · rw [Function.update_self] at taken
        cases taken
        exact .inr ⟨op', List.mem_cons_self⟩
      · exact .inr ⟨op, List.mem_cons_of_mem _ listed⟩
    · simpa [same] using later
  | @respond stage other ret' _ taken _ ih =>
    by_cases same : id = other
    · subst same
      rw [history_event, List.mem_cons] at member
      rcases member with here | further
      · cases here
        exact .inl taken
      · exact .inr (by simpa using ih further)
    · simpa [same] using ih (by simpa [same] using member)

theorem points_once (paced : Paced stage marks) : ((points marks).map Prod.fst).Nodup := by
  induction paced with
  | nil => exact List.nodup_nil
  | invoke _ _ ih => simpa using ih
  | @point stage other _ _ marks _ rest ih =>
    rw [points_point, List.map_cons, List.nodup_cons]
    refine ⟨fun again => ?_, ih⟩
    obtain ⟨⟨id, op, ret⟩, listed, rfl⟩ := List.mem_map.mp again
    simpa using rest.point_invoked listed
  | respond _ _ ih => simpa using ih

/-- A call invoked after another returned takes effect after it. -/
theorem points_ordered (paced : Paced stage marks) (later : [.respond id ret, .invoke id' op].Sublist (history marks))
    (member : id' ∈ (points marks).map Prod.fst) :
    stage id = .taken ret ∨ [id, id'].Sublist ((points marks).map Prod.fst) := by
  induction paced with
  | nil => simp [history] at later
  | @invoke stage other _ marks _ _ ih =>
    rw [history_event] at later
    cases later with
    | cons _ rest =>
      have ordered := ih rest (by simpa using member)
      by_cases same : id = other
      · subst same
        exact .inr (by simpa using ordered)
      · simpa [same] using ordered
  | @point stage other op' ret' marks invoked paced ih =>
    have rest : [.respond id ret, .invoke id' op].Sublist (history marks) := by simpa using later
    have invoked' : .invoke id' op ∈ history marks := rest.subset (by simp)
    have fresh := paced.invoke_fresh invoked'
    have apart : id' ≠ other := by
      rintro rfl
      simp at fresh
    have further : id' ∈ (points marks).map Prod.fst := by simpa [apart] using member
    rw [points_point, List.map_cons]
    rcases ih rest further with taken | ordered
    · by_cases same : id = other
      · subst same
        exact .inr (List.Sublist.cons_cons id (List.singleton_sublist.mpr further))
      · exact .inl (by simpa [same] using taken)
    · exact .inr (ordered.cons other)
  | @respond stage other ret' marks taken _ ih =>
    rw [history_event] at later
    cases later with
    | cons _ rest =>
      have ordered := ih rest (by simpa using member)
      by_cases same : id = other
      · subst same
        exact .inr (by simpa using ordered)
      · simpa [same] using ordered
    | cons_cons _ _ => exact .inl taken

/-- An execution whose calls take effect at their points has those for an order. -/
theorem linearizes {spec : S → Op → Ret → S → Prop} {s last : S}
    (paced : Paced (fun _ => .fresh) marks) (legal : Run spec s ((points marks).map Prod.snd) last) :
    Linearizes spec s (history marks) (points marks) last where
  legal := legal
  once := paced.points_once
  invoked _ _ _ member := (paced.point_invoked member).elim nofun And.right
  answered _ _ member := (paced.respond_taken member).elim nofun id
  realTime _ _ _ _ later member := (paced.points_ordered later member).elim nofun id

end Paced

end Linearizable
