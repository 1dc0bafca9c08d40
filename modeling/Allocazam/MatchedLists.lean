import Mathlib.Data.List.Forall2

/-!
# Lists matched element by element

What `List.Forall₂` says about the parts and the members of two lists.
-/

namespace Allocazam

variable {α β : Type*} {R : α → β → Prop}

theorem forall₂_append_left {front back : List α} {list : List β}
    (matched : List.Forall₂ R (front ++ back) list) :
    ∃ front' back', list = front' ++ back' ∧ List.Forall₂ R front front' ∧
      List.Forall₂ R back back' := by
  induction front generalizing list with
  | nil => exact ⟨[], list, rfl, .nil, matched⟩
  | cons item front ih =>
      obtain ⟨item', rest, first, later, rfl⟩ := List.forall₂_cons_left_iff.mp matched
      obtain ⟨front', back', rfl, frontMatched, backMatched⟩ := ih later
      exact ⟨item' :: front', back', rfl, .cons first frontMatched, backMatched⟩

theorem forall₂_exists {list : List α} {list' : List β}
    (matched : List.Forall₂ R list list') {item : α} (member : item ∈ list) :
    ∃ item' ∈ list', R item item' := by
  induction matched with
  | nil => cases member
  | cons first _ ih =>
      rcases List.mem_cons.mp member with rfl | later
      · exact ⟨_, List.mem_cons_self, first⟩
      · obtain ⟨item', listed, related⟩ := ih later
        exact ⟨item', List.mem_cons_of_mem _ listed, related⟩

end Allocazam
