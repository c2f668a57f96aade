import Mathlib.Data.List.Nodup

/-!
# Linked lists in memory

A memory maps addresses to nodes. The nodes from one pointer up to another one form a segment.
Writing outside of a segment does not change it, and its last node can be linked to another place.
-/

namespace TigerMixer.LinkedList

universe u

structure Node (α : Type u) where
  value : α
  next : Option ℕ

abbrev Memory (α : Type u) := ℕ → Option (Node α)

variable {α : Type u} {memory : Memory α} {start middle stop : Option ℕ}
  {entries front back : List (ℕ × α)} {place : ℕ} {value : α}

abbrev places (entries : List (ℕ × α)) : List ℕ := entries.map Prod.fst

/-- The nodes from `start` to `stop` are these entries, by their places and values. -/
def Segment (memory : Memory α) : Option ℕ → List (ℕ × α) → Option ℕ → Prop
  | start, [], stop => start = stop
  | start, (place, value) :: entries, stop =>
    start = some place ∧
      ∃ next, memory place = some ⟨value, next⟩ ∧ Segment memory next entries stop

theorem ne_none_of_update {node : Option (Node α)} {other : ℕ}
    (used : Function.update memory place node other ≠ none) :
    other = place ∨ memory other ≠ none := by
  by_cases same : other = place
  · exact .inl same
  · rw [Function.update_of_ne same] at used
    exact .inr used

namespace Segment

theorem append_iff :
    Segment memory start (front ++ back) stop ↔
      ∃ middle, Segment memory start front middle ∧ Segment memory middle back stop := by
  induction front generalizing start with
  | nil => simp [Segment]
  | cons entry front ih =>
    simp only [List.cons_append, Segment, ih]
    constructor
    · rintro ⟨first, next, node, middle, left, right⟩
      exact ⟨middle, ⟨first, next, node, left⟩, right⟩
    · rintro ⟨middle, ⟨first, next, node, left⟩, right⟩
      exact ⟨first, next, node, middle, left, right⟩

theorem singleton_iff :
    Segment memory start [(place, value)] stop ↔
      start = some place ∧ memory place = some ⟨value, stop⟩ := by
  simp [Segment]

theorem start_eq (segment : Segment memory start entries none) :
    start = (places entries).head? := by
  cases entries with
  | nil => exact segment
  | cons entry entries => exact segment.1

theorem ne_none_of_mem (segment : Segment memory start entries stop)
    (mem : place ∈ places entries) : memory place ≠ none := by
  induction entries generalizing start with
  | nil => cases mem
  | cons entry entries ih =>
    rcases segment with ⟨-, next, node, rest⟩
    rcases List.mem_cons.1 mem with rfl | later
    · simp [node]
    · exact ih rest later

theorem update (segment : Segment memory start entries stop) (outside : place ∉ places entries)
    (node : Option (Node α)) : Segment (Function.update memory place node) start entries stop := by
  induction entries generalizing start with
  | nil => exact segment
  | cons entry entries ih =>
    rcases segment with ⟨first, next, node, rest⟩
    simp only [places, List.map_cons, List.mem_cons, not_or] at outside
    exact ⟨first, next, by rwa [Function.update_of_ne (Ne.symm outside.1)], ih rest outside.2⟩

theorem relink (segment : Segment memory start (entries ++ [(place, value)]) stop)
    (outside : place ∉ places entries) (target : Option ℕ) :
    Segment (Function.update memory place (some ⟨value, target⟩)) start
      (entries ++ [(place, value)]) target := by
  rcases append_iff.1 segment with ⟨middle, front, last⟩
  refine append_iff.2 ⟨middle, front.update outside _, singleton_iff.2 ?_⟩
  exact ⟨(singleton_iff.1 last).1, Function.update_self ..⟩

end Segment

end TigerMixer.LinkedList
