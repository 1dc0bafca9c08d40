import Mathlib.Data.List.Nodup
import Mathlib.Data.List.Perm.Basic
import Mathlib.Logic.Function.Basic

/-!
# Intrusive linked lists

A null-terminated list threaded through addresses: `next` and `prev` read the
link words of a node and address `0` is the null pointer.  The predicates
relate such a chain to the list of its node addresses.  They read the links of
the listed nodes only, so a list survives every change of memory elsewhere.
-/

namespace Allocazam

/-- The chain from `head` along `next` visits exactly `nodes` and ends at the
null pointer. -/
def IsStack (next : Nat → Nat) : Nat → List Nat → Prop
  | head, [] => head = 0
  | head, node :: nodes => head = node ∧ node ≠ 0 ∧ IsStack next (next node) nodes

/-- A doubly linked chain: besides `IsStack`, the `prev` link of each node is
the node before it, `before` for the first one. -/
def IsDeque (next prev : Nat → Nat) : Nat → Nat → List Nat → Prop
  | _, head, [] => head = 0
  | before, head, node :: nodes =>
      head = node ∧ node ≠ 0 ∧ prev node = before ∧
        IsDeque next prev node (next node) nodes

section Stack

variable {next next' : Nat → Nat} {head : Nat} {nodes : List Nat}

@[simp]
theorem isStack_nil : IsStack next head [] ↔ head = 0 :=
  Iff.rfl

@[simp]
theorem isStack_cons {node : Nat} :
    IsStack next head (node :: nodes) ↔
      head = node ∧ node ≠ 0 ∧ IsStack next (next node) nodes :=
  Iff.rfl

theorem IsStack.eq_nil_iff (stack : IsStack next head nodes) :
    nodes = [] ↔ head = 0 := by
  cases nodes with
  | nil => simpa using stack
  | cons node nodes =>
      obtain ⟨rfl, nonnull, _⟩ := stack
      simp [nonnull]

theorem IsStack.ne_zero (stack : IsStack next head nodes) :
    ∀ node ∈ nodes, node ≠ 0 := by
  induction nodes generalizing head with
  | nil => simp
  | cons first nodes ih =>
      intro node member
      rcases List.mem_cons.mp member with rfl | later
      · exact stack.2.1
      · exact ih stack.2.2 node later

theorem IsStack.congr (stack : IsStack next head nodes)
    (agrees : ∀ node ∈ nodes, next' node = next node) :
    IsStack next' head nodes := by
  induction nodes generalizing head with
  | nil => exact stack
  | cons node nodes ih =>
      obtain ⟨rfl, nonnull, rest⟩ := stack
      refine ⟨rfl, nonnull, ?_⟩
      rw [agrees head (by simp)]
      exact ih rest fun other member => agrees other (by simp [member])

theorem IsStack.unique {others : List Nat} (stack : IsStack next head nodes)
    (other : IsStack next head others) : nodes = others := by
  induction nodes generalizing head others with
  | nil =>
      exact (other.eq_nil_iff.mpr stack).symm
  | cons node nodes ih =>
      obtain ⟨rfl, nonnull, rest⟩ := stack
      cases others with
      | nil => exact absurd other nonnull
      | cons second others =>
          obtain ⟨rfl, _, otherRest⟩ := other
          rw [ih rest otherRest]

theorem IsStack.suffix {front back : List Nat} {node : Nat}
    (stack : IsStack next head (front ++ node :: back)) :
    IsStack next node (node :: back) := by
  induction front generalizing head with
  | nil =>
      obtain ⟨rfl, nonnull, rest⟩ := stack
      exact ⟨rfl, nonnull, rest⟩
  | cons first front ih => exact ih stack.2.2

/-- A null-terminated chain is acyclic: no node occurs twice. -/
theorem IsStack.nodup (stack : IsStack next head nodes) : nodes.Nodup := by
  induction nodes generalizing head with
  | nil => exact List.nodup_nil
  | cons node nodes ih =>
      refine List.nodup_cons.mpr ⟨fun again => ?_, ih stack.2.2⟩
      obtain ⟨front, back, rfl⟩ := List.append_of_mem again
      obtain ⟨rfl, nonnull, rest⟩ := stack
      have later : IsStack next head (head :: back) := rest.suffix
      have here : IsStack next head (head :: (front ++ head :: back)) :=
        ⟨rfl, nonnull, rest⟩
      have same := here.unique later
      have lengths := congrArg List.length same
      simp at lengths
      omega

/-- Writing the old head into the link of a fresh node pushes it. -/
theorem IsStack.push {node : Nat} (stack : IsStack next head nodes)
    (nonnull : node ≠ 0) (fresh : node ∉ nodes) :
    IsStack (Function.update next node head) node (node :: nodes) := by
  refine ⟨rfl, nonnull, ?_⟩
  rw [Function.update_self]
  refine stack.congr fun other member => Function.update_of_ne ?_ _ _
  rintro rfl
  exact fresh member

/-- Redirecting the link of a listed node past its successor takes the successor
out. -/
theorem IsStack.skip {front back : List Nat} {before node : Nat}
    (stack : IsStack next head (front ++ before :: node :: back)) :
    IsStack (Function.update next before (next node)) head
      (front ++ before :: back) := by
  have nodup := stack.nodup
  induction front generalizing head with
  | nil =>
      obtain ⟨rfl, nonnull, _, _, rest⟩ := stack
      refine ⟨rfl, nonnull, ?_⟩
      rw [Function.update_self]
      refine rest.congr fun other member => Function.update_of_ne ?_ _ _
      rintro rfl
      exact (List.nodup_cons.mp nodup).1 (List.mem_cons_of_mem _ member)
  | cons first front ih =>
      obtain ⟨rfl, nonnull, rest⟩ := stack
      have distinct : head ≠ before := by
        rintro rfl
        exact (List.nodup_cons.mp nodup).1 (by simp)
      refine ⟨rfl, nonnull, ?_⟩
      rw [Function.update_of_ne distinct]
      exact ih rest (List.nodup_cons.mp nodup).2

/-- A list holds fewer nodes than there are addresses. -/
theorem IsStack.length_lt {bound : Nat} (stack : IsStack next head nodes)
    (positive : 0 < bound) (bounded : ∀ node ∈ nodes, node < bound) :
    nodes.length < bound := by
  have nodup : (0 :: nodes).Nodup :=
    List.nodup_cons.mpr ⟨fun null => stack.ne_zero 0 null rfl, stack.nodup⟩
  have inRange : 0 :: nodes ⊆ List.range bound := by
    intro node member
    rcases List.mem_cons.mp member with rfl | later
    · exact List.mem_range.mpr positive
    · exact List.mem_range.mpr (bounded node later)
  have length := (List.subperm_of_subset nodup inRange).length_le
  simp only [List.length_cons, List.length_range] at length
  omega

end Stack

section Deque

variable {next next' prev prev' : Nat → Nat} {before head : Nat}
  {nodes : List Nat}

theorem IsDeque.isStack (deque : IsDeque next prev before head nodes) :
    IsStack next head nodes := by
  induction nodes generalizing before head with
  | nil => exact deque
  | cons node nodes ih =>
      exact ⟨deque.1, deque.2.1, ih deque.2.2.2⟩

theorem IsDeque.congr (deque : IsDeque next prev before head nodes)
    (nextAgrees : ∀ node ∈ nodes, next' node = next node)
    (prevAgrees : ∀ node ∈ nodes, prev' node = prev node) :
    IsDeque next' prev' before head nodes := by
  induction nodes generalizing before head with
  | nil => exact deque
  | cons node nodes ih =>
      obtain ⟨rfl, nonnull, back, rest⟩ := deque
      refine ⟨rfl, nonnull, by rw [prevAgrees head (by simp), back], ?_⟩
      rw [nextAgrees head (by simp)]
      exact ih rest (fun other member => nextAgrees other (by simp [member]))
        fun other member => prevAgrees other (by simp [member])

theorem IsDeque.next_mem_back {front back : List Nat} {node : Nat}
    (deque : IsDeque next prev before head (front ++ node :: back)) :
    next node = 0 ∨ next node ∈ back := by
  induction front generalizing before head with
  | nil =>
      obtain ⟨rfl, _, _, rest⟩ := deque
      cases back with
      | nil => exact Or.inl rest
      | cons second back => exact Or.inr (by simp [rest.1])
  | cons first front ih => exact ih deque.2.2.2

/-- The node before a listed node is one of the earlier ones, or the entry
point. -/
theorem IsDeque.prev_mem_front {front back : List Nat} {node : Nat}
    (deque : IsDeque next prev before head (front ++ node :: back)) :
    prev node = before ∨ prev node ∈ front := by
  induction front generalizing before head with
  | nil =>
      obtain ⟨rfl, _, link, _⟩ := deque
      exact Or.inl link
  | cons first front ih =>
      obtain ⟨rfl, _, _, rest⟩ := deque
      rcases ih rest with entry | listed
      · exact Or.inr (by simp [entry])
      · exact Or.inr (by simp [listed])

/-- `next` and `prev` are mutually inverse along the list. -/
theorem IsDeque.next_prev (deque : IsDeque next prev before head nodes)
    {node : Nat} (member : node ∈ nodes) (inner : next node ≠ 0) :
    prev (next node) = node := by
  induction nodes generalizing before head with
  | nil => simp at member
  | cons first nodes ih =>
      obtain ⟨rfl, _, _, rest⟩ := deque
      rcases List.mem_cons.mp member with rfl | later
      · cases nodes with
        | nil => exact absurd rest inner
        | cons second nodes =>
            rw [rest.1]
            exact rest.2.2.1
      · exact ih rest later

theorem IsDeque.prev_next (deque : IsDeque next prev before head nodes)
    {node : Nat} (member : node ∈ nodes) (inner : prev node ≠ before) :
    next (prev node) = node := by
  induction nodes generalizing before head with
  | nil => simp at member
  | cons first nodes ih =>
      have nodup := deque.isStack.nodup
      obtain ⟨rfl, _, back, rest⟩ := deque
      rcases List.mem_cons.mp member with rfl | later
      · exact absurd back inner
      cases nodes with
      | nil => simp at later
      | cons second nodes =>
          have headFresh := (List.nodup_cons.mp nodup).1
          rcases List.mem_cons.mp later with rfl | deeper
          · rw [rest.2.2.1]
            exact rest.1
          · refine ih rest later ?_
            rintro same
            obtain ⟨front, back, rfl⟩ := List.append_of_mem deeper
            rcases rest.2.2.2.prev_mem_front with entry | listed
            · exact headFresh (by simp [← same, entry])
            · exact headFresh (by rw [← same]; simp [listed])

/-- Taking a listed node out: its predecessor's `next` (or the head pointer)
skips it and its successor's `prev` skips it. -/
theorem IsDeque.unlink {front back : List Nat} {node : Nat}
    (deque : IsDeque next prev before head (front ++ node :: back))
    (entry : before ∉ front ++ node :: back)
    (nextSkips : ∀ other ∈ front ++ back,
      next' other = if other = prev node then next node else next other)
    (prevSkips : ∀ other ∈ front ++ back,
      prev' other = if other = next node then prev node else prev other) :
    IsDeque next' prev' before
      (if prev node = before then next node else head) (front ++ back) := by
  have nodup : (front ++ node :: back).Nodup := deque.isStack.nodup
  induction front generalizing before head with
  | nil =>
      obtain ⟨rfl, nonnull, link, rest⟩ := deque
      simp only [List.nil_append] at *
      rw [if_pos link]
      cases back with
      | nil => exact rest
      | cons second back =>
          obtain ⟨headEq, secondNonnull, secondPrev, later⟩ := rest
          have notEntry : before ∉ second :: back := by
            intro member
            exact entry (List.mem_cons_of_mem _ member)
          have secondNotBack : second ∉ back :=
            (List.nodup_cons.mp (List.nodup_cons.mp nodup).2).1
          refine ⟨headEq, secondNonnull, ?_, ?_⟩
          · rw [prevSkips second (by simp), if_pos headEq.symm, link]
          · have ne : second ≠ prev head := by
              rw [link]
              rintro rfl
              exact notEntry (by simp)
            rw [nextSkips second (by simp), if_neg ne]
            refine later.congr (fun other member => ?_) fun other member => ?_
            · have ne : other ≠ prev head := by
                rw [link]
                rintro rfl
                exact notEntry (by simp [member])
              rw [nextSkips other (by simp [member]), if_neg ne]
            · have ne : other ≠ next head := by
                rw [headEq]
                rintro rfl
                exact secondNotBack member
              rw [prevSkips other (by simp [member]), if_neg ne]
  | cons first front ih =>
      obtain ⟨rfl, nonnull, link, rest⟩ := deque
      have nodupRest := (List.nodup_cons.mp nodup).2
      have firstFresh : head ∉ front ++ node :: back :=
        (List.nodup_cons.mp nodup).1
      have prevNotEntry : prev node ≠ before := by
        rintro same
        rcases rest.prev_mem_front with first | later
        · exact entry (by simp [← same, first])
        · exact entry (by rw [← same]; simp [later])
      rw [if_neg prevNotEntry]
      have tail := ih rest firstFresh
        (fun other member => nextSkips other (by simp_all))
        (fun other member => prevSkips other (by simp_all)) nodupRest
      have headNotNext : head ≠ next node := by
        rintro same
        rcases rest.next_mem_back with null | listed
        · exact nonnull (same.trans null)
        · exact firstFresh (by rw [same]; simp [listed])
      refine ⟨rfl, nonnull, ?_, ?_⟩
      · rw [prevSkips head (by simp), if_neg headNotNext, link]
      · rw [nextSkips head (by simp)]
        by_cases adjacent : head = prev node
        · rw [if_pos adjacent]
          rwa [if_pos adjacent.symm] at tail
        · rw [if_neg adjacent]
          rwa [if_neg (Ne.symm adjacent)] at tail

/-- Pushing a fresh node in front of a list entered from the null pointer. -/
theorem IsDeque.push {node : Nat} (deque : IsDeque next prev 0 head nodes)
    (nonnull : node ≠ 0) (fresh : node ∉ nodes)
    (nextNode : next' node = head) (prevNode : prev' node = 0)
    (nextKept : ∀ other ∈ nodes, next' other = next other)
    (prevHead : head ≠ 0 → prev' head = node)
    (prevKept : ∀ other ∈ nodes, other ≠ head → prev' other = prev other) :
    IsDeque next' prev' 0 node (node :: nodes) := by
  refine ⟨rfl, nonnull, prevNode, ?_⟩
  rw [nextNode]
  cases nodes with
  | nil => exact deque
  | cons first nodes =>
      have nodup := deque.isStack.nodup
      obtain ⟨rfl, headNonnull, _, rest⟩ := deque
      refine ⟨rfl, headNonnull, prevHead headNonnull, ?_⟩
      rw [nextKept head (by simp)]
      refine rest.congr (fun other member => nextKept other (by simp [member]))
        fun other member => prevKept other (by simp [member]) ?_
      rintro rfl
      exact (List.nodup_cons.mp nodup).1 member

end Deque

end Allocazam
