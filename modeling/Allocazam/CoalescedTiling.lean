import Mathlib.Data.List.Basic
import Mathlib.Data.List.Pairwise
import Mathlib.Tactic.Common

/-!
# Coalesced tilings of arenas

An arena is an address interval `(first, last)`.  Each arena is tiled by blocks
that are free or used and is closed by a fence block of fixed size, so the
blocks of all arenas form one list in which a neighbour never has to be looked
for in another arena.  A tiling is coalesced when no two free blocks are
adjacent.

The main results are the replacement rule, which exchanges a stretch of blocks
for another one over the same interval, and the uniqueness of a coalesced
tiling among those with the same used blocks.
-/

namespace Allocazam

inductive BlockKind where
  | free
  | used
  | fence
  deriving DecidableEq, Repr

/-- A block of an arena: its address, its length and what it is used for. -/
structure Block where
  addr : Nat
  size : Nat
  kind : BlockKind
  deriving DecidableEq, Repr

namespace Block

def stop (block : Block) : Nat :=
  block.addr + block.size

def isFree (block : Block) : Bool :=
  block.kind == .free

def Holds (block : Block) (address : Nat) : Prop :=
  block.addr ≤ address ∧ address < block.stop

def Apart (first second : Block) : Prop :=
  first.stop ≤ second.addr ∨ second.stop ≤ first.addr

theorem isFree_iff {block : Block} :
    block.isFree = true ↔ block.kind = .free := by
  simp [isFree]

theorem isFree_eq_false_iff {block : Block} :
    block.isFree = false ↔ block.kind ≠ .free := by
  simp [isFree]

end Block

/-- Whether a block following `blocks` follows a free block; `before` is the
answer for the first one. -/
def carryFree (before : Bool) : List Block → Bool
  | [] => before
  | block :: blocks => carryFree block.isFree blocks

@[simp]
theorem carryFree_nil (before : Bool) : carryFree before [] = before :=
  rfl

@[simp]
theorem carryFree_cons (before : Bool) (block : Block) (blocks : List Block) :
    carryFree before (block :: blocks) = carryFree block.isFree blocks :=
  rfl

@[simp]
theorem carryFree_append (before : Bool) (front back : List Block) :
    carryFree before (front ++ back) =
      carryFree (carryFree before front) back := by
  induction front generalizing before with
  | nil => rfl
  | cons block front ih => exact ih block.isFree

/-- A stretch that follows a free block ends with one. -/
theorem exists_last_of_carryFree {blocks : List Block}
    (carries : carryFree false blocks = true) :
    ∃ front last, blocks = front ++ [last] ∧ last.kind = .free := by
  rcases List.eq_nil_or_concat blocks with rfl | ⟨front, last, rfl⟩
  · simp at carries
  · refine ⟨front, last, by simp, ?_⟩
    simpa [Block.isFree_iff] using carries

def Coalesced : Bool → List Block → Prop
  | _, [] => True
  | before, block :: blocks =>
      ¬ (before = true ∧ block.kind = .free) ∧ Coalesced block.isFree blocks

@[simp]
theorem coalesced_nil (before : Bool) : Coalesced before [] :=
  trivial

@[simp]
theorem coalesced_cons {before : Bool} {block : Block} {blocks : List Block} :
    Coalesced before (block :: blocks) ↔
      ¬ (before = true ∧ block.kind = .free) ∧
        Coalesced block.isFree blocks :=
  Iff.rfl

theorem Coalesced.of_used_before {before : Bool} {blocks : List Block}
    (coalesced : Coalesced before blocks) : Coalesced false blocks := by
  cases blocks with
  | nil => trivial
  | cons block blocks => exact ⟨by simp, coalesced.2⟩

theorem coalesced_append {before : Bool} {front back : List Block} :
    Coalesced before (front ++ back) ↔
      Coalesced before front ∧ Coalesced (carryFree before front) back := by
  induction front generalizing before with
  | nil => simp
  | cons block front ih => simp [ih, and_assoc]

/-- The blocks follow each other without gap from `first` to `last`. -/
def Tiles : Nat → List Block → Nat → Prop
  | first, [], last => first = last
  | first, block :: blocks, last =>
      block.addr = first ∧ Tiles block.stop blocks last

@[simp]
theorem tiles_nil {first last : Nat} : Tiles first [] last ↔ first = last :=
  Iff.rfl

@[simp]
theorem tiles_cons {first last : Nat} {block : Block} {blocks : List Block} :
    Tiles first (block :: blocks) last ↔
      block.addr = first ∧ Tiles block.stop blocks last :=
  Iff.rfl

theorem tiles_append {first last : Nat} {front back : List Block} :
    Tiles first (front ++ back) last ↔
      ∃ middle, Tiles first front middle ∧ Tiles middle back last := by
  induction front generalizing first with
  | nil => simp
  | cons block front ih => simp [ih, and_assoc]

namespace Tiles

variable {first last : Nat} {blocks : List Block}

theorem le (tiles : Tiles first blocks last) : first ≤ last := by
  induction blocks generalizing first with
  | nil => exact Nat.le_of_eq tiles
  | cons block blocks ih =>
      obtain ⟨rfl, rest⟩ := tiles
      have := ih rest
      unfold Block.stop at this
      omega

theorem bounds (tiles : Tiles first blocks last) :
    ∀ block ∈ blocks, first ≤ block.addr ∧ block.stop ≤ last := by
  induction blocks generalizing first with
  | nil => simp
  | cons head blocks ih =>
      obtain ⟨rfl, rest⟩ := tiles
      intro block member
      rcases List.mem_cons.mp member with rfl | later
      · exact ⟨Nat.le_refl _, rest.le⟩
      · obtain ⟨lower, upper⟩ := ih rest block later
        unfold Block.stop at lower
        exact ⟨by omega, upper⟩

theorem interval_unique {otherFirst otherLast : Nat}
    (tiles : Tiles first blocks last)
    (other : Tiles otherFirst blocks otherLast) (nonempty : blocks ≠ []) :
    otherFirst = first ∧ otherLast = last := by
  induction blocks generalizing first otherFirst with
  | nil => exact absurd rfl nonempty
  | cons block blocks ih =>
      obtain ⟨rfl, rest⟩ := tiles
      obtain ⟨otherAddr, otherRest⟩ := other
      refine ⟨otherAddr.symm, ?_⟩
      cases blocks with
      | nil => exact otherRest.symm.trans rest
      | cons next blocks => exact (ih rest otherRest (by simp)).2

theorem pairwise_apart (tiles : Tiles first blocks last) :
    blocks.Pairwise Block.Apart := by
  induction blocks generalizing first with
  | nil => exact List.Pairwise.nil
  | cons block blocks ih =>
      refine List.pairwise_cons.mpr ⟨fun other member => ?_, ih tiles.2⟩
      exact Or.inl (tiles.2.bounds other member).1

theorem length_le (tiles : Tiles first blocks last)
    (positive : ∀ block ∈ blocks, 0 < block.size) :
    first + blocks.length ≤ last := by
  induction blocks generalizing first with
  | nil => exact Nat.le_of_eq tiles
  | cons block blocks ih =>
      obtain ⟨rfl, rest⟩ := tiles
      have := ih rest fun other member => positive other (by simp [member])
      have := positive block (by simp)
      unfold Block.stop at *
      simp only [List.length_cons]
      omega

/-- Block addresses inherit a common divisor of the start and the sizes. -/
theorem dvd_addr {unit : Nat} (tiles : Tiles first blocks last)
    (start : unit ∣ first) (sizes : ∀ block ∈ blocks, unit ∣ block.size) :
    (∀ block ∈ blocks, unit ∣ block.addr) ∧ unit ∣ last := by
  induction blocks generalizing first with
  | nil =>
      obtain rfl : first = last := tiles
      exact ⟨by simp, start⟩
  | cons block blocks ih =>
      obtain ⟨rfl, rest⟩ := tiles
      obtain ⟨inner, finish⟩ := ih rest
        (Nat.dvd_add start (sizes block (by simp)))
        fun other member => sizes other (by simp [member])
      refine ⟨fun other member => ?_, finish⟩
      rcases List.mem_cons.mp member with rfl | later
      · exact start
      · exact inner other later

/-- Every address of the interval lies in one of the blocks. -/
theorem exists_holds (tiles : Tiles first blocks last) {address : Nat}
    (lower : first ≤ address) (upper : address < last) :
    ∃ block ∈ blocks, block.Holds address := by
  induction blocks generalizing first with
  | nil =>
      have same : first = last := tiles
      omega
  | cons block blocks ih =>
      obtain ⟨rfl, rest⟩ := tiles
      by_cases here : address < block.stop
      · exact ⟨block, by simp, lower, here⟩
      · obtain ⟨other, member, holds⟩ := ih rest (by omega)
        exact ⟨other, by simp [member], holds⟩

/-- What no used block of a coalesced tiling reaches into lies in one free
block. -/
theorem exists_free (tiles : Tiles first blocks last) {before : Bool}
    (coalesced : Coalesced before blocks)
    (noFence : ∀ block ∈ blocks, block.kind ≠ .fence)
    (positive : ∀ block ∈ blocks, 0 < block.size) {start stop : Nat}
    (lower : first ≤ start) (nonempty : start < stop) (upper : stop ≤ last)
    (clear : ∀ block ∈ blocks, block.kind = .used →
      block.stop ≤ start ∨ stop ≤ block.addr) :
    ∃ block ∈ blocks, block.kind = .free ∧ block.addr ≤ start ∧
      stop ≤ block.stop := by
  induction blocks generalizing first before with
  | nil =>
      have same : first = last := tiles
      omega
  | cons block blocks ih =>
      obtain ⟨rfl, rest⟩ := tiles
      have restClear : ∀ other ∈ blocks, other.kind = .used →
          other.stop ≤ start ∨ stop ≤ other.addr :=
        fun other member => clear other (List.mem_cons_of_mem block member)
      by_cases here : start < block.stop
      · have free : block.kind = .free := by
          cases kind : block.kind with
          | free => rfl
          | used =>
              have apart := clear block List.mem_cons_self kind
              omega
          | fence => exact absurd kind (noFence block List.mem_cons_self)
        refine ⟨block, List.mem_cons_self, free, lower, ?_⟩
        by_contra longer
        cases blocks with
        | nil =>
            have same : block.stop = last := rest
            omega
        | cons next blocks =>
            -- The next block is used, and the stretch would reach into it.
            have nextPositive := positive next (by simp)
            have nextUsed : next.kind = .used := by
              have notFree := coalesced.2.1
              rw [Block.isFree_iff.mpr free] at notFree
              cases kind : next.kind with
              | free => exact absurd ⟨rfl, kind⟩ notFree
              | used => rfl
              | fence => exact absurd kind (noFence next (by simp))
            have apart := clear next (by simp) nextUsed
            have addr : next.addr = block.stop := rest.1
            unfold Block.stop at apart here longer addr
            omega
      · obtain ⟨other, member, found⟩ := ih rest coalesced.2
          (fun other member => noFence other (List.mem_cons_of_mem block member))
          (fun other member => positive other (List.mem_cons_of_mem block member))
          (by omega) restClear
        exact ⟨other, List.mem_cons_of_mem block member, found⟩

/-- A nonempty block apart from every block of a tiling is apart from the whole
interval. -/
theorem apart_of_forall (tiles : Tiles first blocks last)
    (nonempty : first < last) {block : Block} (positive : 0 < block.size)
    (apart : ∀ other ∈ blocks, block.Apart other) :
    block.stop ≤ first ∨ last ≤ block.addr := by
  by_contra overlap
  push Not at overlap
  have stopEq : block.stop = block.addr + block.size := rfl
  obtain ⟨other, member, lower, upper⟩ :
      ∃ other ∈ blocks, other.Holds (max first block.addr) :=
    tiles.exists_holds (by omega) (by omega)
  rcases apart other member with before | after <;> omega

/-- If the first block of one coalesced tiling is free, no other coalesced
tiling with the same used blocks starts with a longer free block. -/
private theorem free_size_le {block other : Block} {others : List Block}
    (tiles : Tiles first (block :: blocks) last)
    (otherTiles : Tiles first (other :: others) last)
    (coalesced : Coalesced false (block :: blocks))
    (noFence : ∀ b ∈ block :: blocks, b.kind ≠ .fence)
    (positive : ∀ b ∈ block :: blocks, 0 < b.size)
    (blockFree : block.kind = .free) (otherFree : other.kind = .free)
    (usedKept : ∀ b ∈ block :: blocks, b.kind = .used → b ∈ other :: others) :
    other.size ≤ block.size := by
  obtain ⟨rfl, rest⟩ := tiles
  obtain ⟨otherAddr, otherRest⟩ := otherTiles
  by_contra longer
  have otherEnd := otherRest.le
  unfold Block.stop at rest otherEnd
  cases blocks with
  | nil =>
      have same : block.addr + block.size = last := rest
      omega
  | cons next blocks =>
      have nextAddr : next.addr = block.addr + block.size := rest.1
      have blockPositive := positive block (by simp)
      have nextUsed : next.kind = .used := by
        have notFree : next.kind ≠ .free := by
          have := coalesced.2.1
          simpa [Block.isFree, blockFree] using this
        have notFence := noFence next (by simp)
        cases kind : next.kind <;> simp_all
      rcases List.mem_cons.mp (usedKept next (by simp) nextUsed) with
        rfl | later
      · rw [nextUsed] at otherFree
        cases otherFree
      · have := (otherRest.bounds next later).1
        unfold Block.stop at this
        omega

/-- A coalesced tiling of an interval is determined by its used blocks: the
free blocks are the maximal gaps between them. -/
theorem eq_of_used_iff {others : List Block}
    (tiles : Tiles first blocks last) (otherTiles : Tiles first others last)
    (coalesced : Coalesced false blocks)
    (otherCoalesced : Coalesced false others)
    (noFence : ∀ b ∈ blocks, b.kind ≠ .fence)
    (otherNoFence : ∀ b ∈ others, b.kind ≠ .fence)
    (positive : ∀ b ∈ blocks, 0 < b.size)
    (otherPositive : ∀ b ∈ others, 0 < b.size)
    (sameUsed : ∀ b : Block, b.kind = .used → (b ∈ blocks ↔ b ∈ others)) :
    blocks = others := by
  induction blocks generalizing first others with
  | nil =>
      cases others with
      | nil => rfl
      | cons other others =>
          have same : first = last := tiles
          have bound := (otherTiles.bounds other (by simp))
          have := otherPositive other (by simp)
          unfold Block.stop at bound
          omega
  | cons block blocks ih =>
      have blockPositive := positive block (by simp)
      cases others with
      | nil =>
          have same : first = last := otherTiles
          have bound := (tiles.bounds block (by simp))
          unfold Block.stop at bound
          omega
      | cons other others =>
          have otherPositiveHead := otherPositive other (by simp)
          have addrEq : other.addr = block.addr :=
            otherTiles.1.trans tiles.1.symm
          have blockLater : block ∉ others := by
            intro member
            have := (otherTiles.2.bounds block member).1
            unfold Block.stop at this
            omega
          have otherLater : other ∉ blocks := by
            intro member
            have := (tiles.2.bounds other member).1
            unfold Block.stop at this
            omega
          have headEq : block = other := by
            by_cases blockUsed : block.kind = .used
            · have member := (sameUsed block blockUsed).mp (by simp)
              rcases List.mem_cons.mp member with same | later
              · exact same
              · exact absurd later blockLater
            by_cases otherUsed : other.kind = .used
            · have member := (sameUsed other otherUsed).mpr (by simp)
              rcases List.mem_cons.mp member with same | later
              · exact same.symm
              · exact absurd later otherLater
            have blockFree : block.kind = .free := by
              have := noFence block (by simp)
              cases kind : block.kind <;> simp_all
            have otherFree : other.kind = .free := by
              have := otherNoFence other (by simp)
              cases kind : other.kind <;> simp_all
            have notLonger := free_size_le tiles otherTiles coalesced noFence
              positive blockFree otherFree
              fun b member used => (sameUsed b used).mp member
            have notShorter := free_size_le otherTiles tiles otherCoalesced
              otherNoFence otherPositive otherFree blockFree
              fun b member used => (sameUsed b used).mpr member
            cases block
            cases other
            simp only at addrEq notLonger notShorter blockFree otherFree
            simp only [Block.mk.injEq]
            exact ⟨addrEq.symm, by omega, blockFree.trans otherFree.symm⟩
          subst headEq
          congr 1
          refine ih tiles.2 otherTiles.2 coalesced.2.of_used_before
            otherCoalesced.2.of_used_before
            (fun b member => noFence b (by simp [member]))
            (fun b member => otherNoFence b (by simp [member]))
            (fun b member => positive b (by simp [member]))
            (fun b member => otherPositive b (by simp [member]))
            fun b used => ?_
          constructor
          · intro member
            rcases List.mem_cons.mp ((sameUsed b used).mp (by simp [member]))
              with rfl | later
            · exact absurd member otherLater
            · exact later
          · intro member
            rcases List.mem_cons.mp ((sameUsed b used).mpr (by simp [member]))
              with rfl | later
            · exact absurd member blockLater
            · exact later

end Tiles

end Allocazam
