import Allocazam.CoalescedTiling
import Mathlib.Tactic.Ring

/-!
# Fenced arenas

Several arenas laid out in one list of blocks: every arena is tiled by free and
used blocks and ends with a fence block of the given size.  A stretch of blocks
inside one arena may be exchanged for any other stretch over the same interval.
-/

namespace Allocazam

/-- `blocks` lists, arena by arena, a fence-free tiling followed by the fence
block that closes the arena. -/
inductive Fenced (fence : Nat) : List (Nat × Nat) → List Block → Prop
  | nil : Fenced fence [] []
  | cons {first last : Nat} {blocks rest : List Block}
      {arenas : List (Nat × Nat)}
      (tiles : Tiles first blocks last)
      (noFence : ∀ block ∈ blocks, block.kind ≠ .fence)
      (others : Fenced fence arenas rest) :
      Fenced fence ((first, last + fence) :: arenas)
        (blocks ++ ⟨last, fence, .fence⟩ :: rest)

namespace Fenced

variable {fence : Nat} {arenas : List (Nat × Nat)} {blocks : List Block}

/-- Every block lies in an arena, and only the fence reaches its last bytes. -/
theorem mem_arena (fenced : Fenced fence arenas blocks) {block : Block}
    (member : block ∈ blocks) :
    ∃ arena ∈ arenas, arena.1 ≤ block.addr ∧ block.stop ≤ arena.2 ∧
      (block.kind ≠ .fence → block.stop + fence ≤ arena.2) := by
  induction fenced with
  | nil => simp at member
  | @cons first last inner rest arenas tiles noFence others ih =>
      rcases List.mem_append.mp member with inside | outside
      · obtain ⟨lower, upper⟩ := tiles.bounds block inside
        exact ⟨(first, last + fence), by simp, lower, by simp only; omega,
          fun _ => by simp only; omega⟩
      · rcases List.mem_cons.mp outside with rfl | later
        · exact ⟨(first, last + fence), by simp, tiles.le, by simp [Block.stop],
            by simp⟩
        · obtain ⟨arena, arenaMember, bounds⟩ := ih later
          exact ⟨arena, by simp [arenaMember], bounds⟩

theorem fence_size (fenced : Fenced fence arenas blocks) {block : Block}
    (member : block ∈ blocks) (isFence : block.kind = .fence) :
    block.size = fence := by
  induction fenced with
  | nil => simp at member
  | cons tiles noFence others ih =>
      rcases List.mem_append.mp member with inside | outside
      · exact absurd isFence (noFence block inside)
      · rcases List.mem_cons.mp outside with rfl | later
        · rfl
        · exact ih later

/-- The blocks of one arena, between those of the arenas before and after. -/
theorem exists_arena (fenced : Fenced fence arenas blocks) {arena : Nat × Nat}
    (member : arena ∈ arenas) :
    ∃ front inner last back,
      blocks = front ++ inner ++ ⟨last, fence, .fence⟩ :: back ∧
        arena.2 = last + fence ∧ Tiles arena.1 inner last ∧
        (∀ block ∈ inner, block.kind ≠ .fence) ∧
        carryFree false front = false := by
  induction fenced with
  | nil => simp at member
  | @cons first last inner rest arenas tiles noFence others ih =>
      rcases List.mem_cons.mp member with rfl | later
      · exact ⟨[], inner, last, rest, rfl, rfl, tiles, noFence, rfl⟩
      · obtain ⟨front, inner', last', back, rfl, stops, tiles', noFence', before⟩ :=
          ih later
        refine ⟨inner ++ ⟨last, fence, .fence⟩ :: front, inner', last', back, ?_,
          stops, tiles', noFence', ?_⟩
        · simp
        · rw [carryFree_append, carryFree_cons]
          exact before

/-- Nonempty blocks are no more than there are addresses. -/
theorem length_le (fenced : Fenced fence arenas blocks)
    (positive : ∀ block ∈ blocks, 0 < block.size) :
    blocks.length ≤ (arenas.map fun arena => arena.2 - arena.1).sum := by
  induction fenced with
  | nil => simp
  | @cons first last inner rest arenas tiles noFence others ih =>
      have inside := tiles.length_le fun block member =>
        positive block (by simp [member])
      have fenceSize := positive ⟨last, fence, .fence⟩ (by simp)
      have outside := ih fun block member => positive block (by simp [member])
      simp only at fenceSize
      simp only [List.length_append, List.length_cons, List.map_cons,
        List.sum_cons]
      omega

/-- Block addresses inherit a common divisor of the arena starts and the block
sizes. -/
theorem dvd_addr {unit : Nat} (fenced : Fenced fence arenas blocks)
    (starts : ∀ arena ∈ arenas, unit ∣ arena.1)
    (sizes : ∀ block ∈ blocks, unit ∣ block.size) :
    ∀ block ∈ blocks, unit ∣ block.addr := by
  induction fenced with
  | nil => simp
  | @cons first last inside rest arenas tiles noFence others ih =>
      obtain ⟨inner, finish⟩ := tiles.dvd_addr
        (starts (first, last + fence) (by simp))
        fun block member => sizes block (by simp [member])
      intro block member
      rcases List.mem_append.mp member with inside | outside
      · exact inner block inside
      · rcases List.mem_cons.mp outside with rfl | later
        · exact finish
        · exact ih (fun arena member => starts arena (by simp [member]))
            (fun other member => sizes other (by simp [member])) block later

theorem pairwise_apart (fenced : Fenced fence arenas blocks)
    (disjoint : arenas.Pairwise fun one two => one.2 ≤ two.1 ∨ two.2 ≤ one.1) :
    blocks.Pairwise Block.Apart := by
  induction fenced with
  | nil => exact List.Pairwise.nil
  | @cons first last inner rest arenas tiles noFence others ih =>
      obtain ⟨headApart, tailApart⟩ := List.pairwise_cons.mp disjoint
      have fromRest : ∀ block ∈ rest,
          last + fence ≤ block.addr ∨ block.stop ≤ first := by
        intro block member
        obtain ⟨arena, arenaMember, lower, upper, _⟩ := others.mem_arena member
        rcases headApart arena arenaMember with before | after
        · exact Or.inl (by simp only at before; omega)
        · exact Or.inr (by simp only at after; omega)
      refine List.pairwise_append.mpr ⟨tiles.pairwise_apart, ?_, ?_⟩
      · refine List.pairwise_cons.mpr ⟨fun block member => ?_, ih tailApart⟩
        have := tiles.le
        rcases fromRest block member with before | after
        · exact Or.inl (by simp only [Block.stop]; omega)
        · exact Or.inr (by simp only; omega)
      · intro one oneMember two twoMember
        obtain ⟨lower, upper⟩ := tiles.bounds one oneMember
        rcases List.mem_cons.mp twoMember with rfl | later
        · exact Or.inl upper
        · rcases fromRest two later with before | after
          · exact Or.inl (by omega)
          · exact Or.inr (by omega)

/-- The block listed after a free or used block starts where that one stops. -/
theorem exists_next {front back : List Block} {block : Block}
    (fenced : Fenced fence arenas (front ++ block :: back))
    (notFence : block.kind ≠ .fence) :
    ∃ next rest, back = next :: rest ∧ next.addr = block.stop := by
  generalize listed : front ++ block :: back = all at fenced
  induction fenced generalizing front with
  | nil => simp at listed
  | @cons first last inner rest arenas tiles noFence others ih =>
      rcases List.append_eq_append_iff.mp listed with
        ⟨gap, innerEq, restEq⟩ | ⟨gap, frontEq, restEq⟩
      · cases gap with
        | nil =>
            obtain ⟨rfl, rfl⟩ := List.cons.inj restEq
            exact absurd rfl notFence
        | cons head gap =>
            obtain ⟨rfl, backEq⟩ := List.cons.inj restEq
            subst innerEq
            obtain ⟨middle, _, atBlock, rest⟩ := tiles_append.mp tiles
            cases gap with
            | nil => exact ⟨_, _, backEq, rest.symm⟩
            | cons next gap => exact ⟨next, _, backEq, rest.1⟩
      · cases gap with
        | nil =>
            obtain ⟨rfl, rfl⟩ := List.cons.inj restEq
            exact absurd rfl notFence
        | cons head gap =>
            obtain ⟨_, restEq⟩ := List.cons.inj restEq
            exact ih restEq.symm

/-- Exchanging a stretch of one arena for another over the same interval. -/
theorem replace {front old new back : List Block} {first last : Nat}
    (fenced : Fenced fence arenas (front ++ old ++ back))
    (nonempty : old ≠ []) (oldTiles : Tiles first old last)
    (newTiles : Tiles first new last)
    (oldNoFence : ∀ block ∈ old, block.kind ≠ .fence)
    (newNoFence : ∀ block ∈ new, block.kind ≠ .fence) :
    Fenced fence arenas (front ++ new ++ back) := by
  generalize listed : front ++ old ++ back = all at fenced
  induction fenced generalizing front with
  | nil =>
      simp only [List.append_eq_nil_iff] at listed
      exact absurd listed.1.2 nonempty
  | @cons start finish inner rest arenas tiles noFence others ih =>
      rw [List.append_assoc] at listed
      have fenceNotOld : ∀ tail, (⟨finish, fence, .fence⟩ : Block) :: rest =
          tail ++ back → ∃ more, tail = ⟨finish, fence, .fence⟩ :: more ∨
            tail = [] := by
        intro tail same
        cases tail with
        | nil => exact ⟨[], Or.inr rfl⟩
        | cons head more =>
            exact ⟨more, Or.inl (by rw [(List.cons.inj same).1])⟩
      rcases List.append_eq_append_iff.mp listed with
        ⟨gap, innerEq, restEq⟩ | ⟨gap, frontEq, restEq⟩
      · -- The stretch starts inside the first arena, so it also ends there.
        obtain ⟨tail, gapEq, backEq⟩ : ∃ tail, gap = old ++ tail ∧
            back = tail ++ ⟨finish, fence, .fence⟩ :: rest := by
          rcases List.append_eq_append_iff.mp restEq with
            ⟨tail, gapEq, backEq⟩ | ⟨tail, oldEq, backEq⟩
          · exact ⟨tail, gapEq, backEq⟩
          · obtain ⟨more, isFence | isEmpty⟩ := fenceNotOld tail backEq
            · exact absurd rfl (oldNoFence ⟨finish, fence, .fence⟩
                (by simp [oldEq, isFence]))
            · subst isEmpty
              exact ⟨[], by simpa using oldEq.symm, by simpa using backEq.symm⟩
        subst innerEq gapEq backEq
        obtain ⟨entry, frontTiles, stretch⟩ := tiles_append.mp tiles
        obtain ⟨upto, oldTiles', tailTiles⟩ := tiles_append.mp stretch
        obtain ⟨rfl, rfl⟩ := oldTiles.interval_unique oldTiles' nonempty
        have replaced := Fenced.cons
          (tiles_append.mpr ⟨_, frontTiles,
            tiles_append.mpr ⟨_, newTiles, tailTiles⟩⟩)
          (fun block member => ?_) others
        · simpa using replaced
        · rcases List.mem_append.mp member with inFront | inside
          · exact noFence block (by simp [inFront])
          · rcases List.mem_append.mp inside with inNew | inTail
            · exact newNoFence block inNew
            · exact noFence block (by simp [inTail])
      · -- The stretch lies in a later arena.
        cases gap with
        | nil =>
            cases old with
            | nil => exact absurd rfl nonempty
            | cons head old =>
                have isFence := (List.cons.inj restEq).1
                exact absurd (congrArg Block.kind isFence.symm)
                  (oldNoFence head (by simp))
        | cons head gap =>
            obtain ⟨rfl, restEq⟩ := List.cons.inj restEq
            have replaced := ih (by simpa using restEq.symm)
            subst frontEq
            simpa using Fenced.cons tiles noFence replaced

end Fenced

end Allocazam
