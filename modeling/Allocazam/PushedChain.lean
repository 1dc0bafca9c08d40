import Allocazam.IntrusiveList

/-!
# Chains of pushes

A node may be pushed onto an intrusive stack a second time, which overwrites its link.
Followed from the head, such a chain still shows the pushes in their order, the latest
first, up to the first node that comes up again.
-/

namespace Allocazam

/-- The first link of each node, those in `seen` apart, leads to the push before. -/
def Chained (next : Nat → Nat) (seen pushes : List Nat) : Prop :=
  ∀ front node rest, pushes = front ++ node :: rest → node ∉ front → node ∉ seen →
    next node = rest.head?.getD 0

section Chained

variable {next : Nat → Nat} {seen pushes nodes : List Nat} {head node : Nat}

theorem IsStack.head_eq (stack : IsStack next head nodes) : head = nodes.head?.getD 0 := by
  cases nodes with
  | nil => exact stack
  | cons node nodes => exact stack.1

theorem IsStack.chained (stack : IsStack next head nodes) : Chained next seen nodes := by
  induction nodes generalizing head with
  | nil =>
      intro front node rest split
      simp at split
  | cons first later ih =>
      intro front node rest split unseen fresh
      cases front with
      | nil =>
          obtain ⟨rfl, rfl⟩ := List.cons.inj split
          exact stack.2.2.head_eq
      | cons other front =>
          obtain ⟨rfl, rfl⟩ := List.cons.inj split
          exact ih stack.2.2 front node rest rfl
            (fun listed => unseen (List.mem_cons_of_mem _ listed)) fresh

theorem Chained.push (chained : Chained next seen pushes) (node : Nat) :
    Chained (Function.update next node (pushes.head?.getD 0)) seen (node :: pushes) := by
  intro front other rest split unseen fresh
  cases front with
  | nil =>
      obtain ⟨rfl, rfl⟩ := List.cons.inj split
      exact Function.update_self _ _ _
  | cons first front =>
      obtain ⟨rfl, rfl⟩ := List.cons.inj split
      have distinct : other ≠ node := fun same => unseen (by simp [same])
      rw [Function.update_of_ne distinct]
      exact chained front other rest rfl
        (fun listed => unseen (List.mem_cons_of_mem _ listed)) fresh

/-- The first node is seen, whatever becomes of its link. -/
theorem Chained.tail (chained : Chained next seen (node :: pushes)) (value : Nat) :
    Chained (Function.update next node value) (node :: seen) pushes := by
  intro front other rest split unseen fresh
  have distinct : other ≠ node := fun same => fresh (by simp [same])
  rw [Function.update_of_ne distinct]
  refine chained (node :: front) other rest (by rw [split]; rfl) ?_ ?_
  · intro listed
    rcases List.mem_cons.mp listed with same | later
    · exact distinct same
    · exact unseen later
  · exact fun listed => fresh (List.mem_cons_of_mem _ listed)

theorem Chained.first (chained : Chained next seen (node :: pushes)) (fresh : node ∉ seen) :
    next node = pushes.head?.getD 0 :=
  chained [] node pushes rfl (by simp) fresh

end Chained

end Allocazam
