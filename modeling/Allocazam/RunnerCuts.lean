import Allocazam.RunnerExchange
import Allocazam.RunnerPasses
import Mathlib.Algebra.BigOperators.Finprod

/-!
# Requests of one size

Requests of one size cut their runs from the front of free runs.  How many of them a
runner serves without a new chunk can be told beforehand: as many as fit into its free
runs, and, when these are used up and the remote stack has been drained, as many as fit
into the gaps that are left between the runs that are not parked.
-/

namespace Allocazam

namespace Runner

variable {cfg : Config} {s t : State} {os : Os} {blocks : List Block} {runs : Set Block}
  {parked : List Nat} {needed size : Nat} {spared : Set Nat}

/-- How many requests a gap of the given size serves.  Only what is large enough is split
off behind a run, so that the last one may take the rest along. -/
def cuts (needed size : Nat) : Nat :=
  if size < needed then 0
  else (size - max needed (minFreeRunSize + splitRemainderThreshold)) / needed + 1

def cutBytes (needed size : Nat) : Nat :=
  if size < cuts needed size * needed + (minFreeRunSize + splitRemainderThreshold) then size
  else cuts needed size * needed

theorem cuts_eq_zero_iff : cuts needed size = 0 ↔ size < needed := by
  unfold cuts
  split <;> simp_all

theorem cuts_mul_le : cuts needed size * needed ≤ size := by
  unfold cuts
  split
  · omega
  · have whole := Nat.div_mul_le_self
      (size - max needed (minFreeRunSize + splitRemainderThreshold)) needed
    rw [Nat.add_mul, Nat.one_mul]
    omega

theorem cuts_carved (positive : 0 < needed) (fits : needed ≤ size) :
    cuts needed size = cuts needed (size - carved needed size) + 1 := by
  unfold cuts carved
  simp only [minFreeRunSize_eq, splitRemainderThreshold_eq]
  rw [if_neg (Nat.not_lt.mpr fits)]
  by_cases room : needed + (48 + 64) ≤ size
  · rw [if_pos room]
    by_cases more : size - needed < needed
    · rw [if_pos more, Nat.div_eq_of_lt (by omega)]
    · rw [if_neg more, Nat.div_eq_sub_div positive (by omega)]
      congr 3
      omega
  · rw [if_neg room, Nat.sub_self, if_pos positive, Nat.div_eq_of_lt (by omega)]

theorem cutBytes_carved (positive : 0 < needed) (fits : needed ≤ size)
    (more : needed ≤ size - carved needed size) :
    cutBytes needed size =
      carved needed size + cutBytes needed (size - carved needed size) := by
  have served := cuts_carved positive fits
  have split : carved needed size = needed := by
    refine if_pos ?_
    by_contra short
    rw [carved, if_neg short] at more
    omega
  have bounded : cuts needed (size - needed) * needed ≤ size - needed := cuts_mul_le
  unfold cutBytes
  rw [split] at served ⊢
  rw [served, Nat.add_mul, Nat.one_mul]
  generalize cuts needed (size - needed) * needed = taken at bounded
  simp only [minFreeRunSize_eq, splitRemainderThreshold_eq]
  split <;> split <;> omega

theorem cutBytes_last (positive : 0 < needed) (fits : needed ≤ size)
    (last : size - carved needed size < needed) :
    cutBytes needed size = carved needed size := by
  have one : cuts needed size = 1 := by
    rw [cuts_carved positive fits, cuts_eq_zero_iff.mpr last]
  unfold cutBytes carved
  rw [one, Nat.one_mul]
  simp only [minFreeRunSize_eq, splitRemainderThreshold_eq]
  split <;> split <;> omega

theorem cutBytes_covers (positive : 0 < needed) :
    cutBytes needed size ≤ size ∧ size < cutBytes needed size + needed := by
  have bounded : cuts needed size * needed ≤ size := cuts_mul_le
  have rest : size < cuts needed size * needed +
      max needed (minFreeRunSize + splitRemainderThreshold) := by
    unfold cuts
    split
    · omega
    · have remainder := Nat.lt_div_mul_add positive (a := size -
        max needed (minFreeRunSize + splitRemainderThreshold))
      rw [Nat.add_mul, Nat.one_mul]
      omega
  unfold cutBytes
  generalize cuts needed size * needed = taken at bounded rest
  simp only [minFreeRunSize_eq, splitRemainderThreshold_eq] at rest ⊢
  split <;> omega

noncomputable def tally (needed : Nat) (gap : Nat → Nat → Prop) : Nat :=
  ∑ᶠ run ∈ {run : Nat × Nat | gap run.1 run.2}, cuts needed run.2

def listTally (needed : Nat) (blocks : List Block) : Nat :=
  ((blocks.filter fun block => block.isFree).map fun block => cuts needed block.size).sum

theorem listTally_append (front back : List Block) :
    listTally needed (front ++ back) = listTally needed front + listTally needed back := by
  simp [listTally]

theorem listTally_cons (block : Block) (blocks : List Block) :
    listTally needed (block :: blocks) =
      (if block.kind = .free then cuts needed block.size else 0) +
        listTally needed blocks := by
  unfold listTally
  by_cases free : block.kind = .free <;> simp [free, Block.isFree]

theorem HeapOk.tally_eq (heap : HeapOk cfg s blocks) :
    tally needed s.FreeRun = listTally needed blocks := by
  have nodup : ((blocks.filter fun block => block.isFree).map fun block =>
      (block.addr, block.size)).Nodup := by
    refine (heap.layout.nodup.filter _).map_on ?_
    intro one oneFree two twoFree same
    exact heap.layout.eq_of_addr_eq (List.mem_of_mem_filter oneFree)
      (List.mem_of_mem_filter twoFree) (congrArg Prod.fst same)
  have listed : {run : Nat × Nat | s.FreeRun run.1 run.2} =
      (((blocks.filter fun block => block.isFree).map fun block =>
        (block.addr, block.size)).toFinset : Set (Nat × Nat)) := by
    ext ⟨addr, length⟩
    simp only [Set.mem_ofPred_eq, List.coe_toFinset, List.mem_map, List.mem_filter,
      heap.freeRun_iff, mem_freeRuns]
    constructor
    · rintro ⟨member, _⟩
      exact ⟨_, ⟨member, rfl⟩, rfl⟩
    · rintro ⟨block, ⟨member, free⟩, same⟩
      obtain ⟨rfl, rfl⟩ := Prod.mk.inj same
      have kind : block.kind = .free := by simpa [Block.isFree] using free
      exact ⟨by rwa [← kind], trivial⟩
  unfold tally listTally
  rw [listed, finsum_mem_coe_finset, List.sum_toFinset _ nodup, List.map_map]
  rfl

/-- A stretch that is clear of the runs that are not spared and of what the requests take
of the free runs. -/
def State.ClearBeside (s : State) (needed : Nat) (spared : Set Nat) (start stop : Nat) :
    Prop :=
  s.Clear spared start stop ∧ ∀ addr size, s.FreeRun addr size → needed ≤ size →
    addr + cutBytes needed size ≤ start ∨ stop ≤ addr

/-- Such a stretch of the given address and size that is part of no longer one. -/
def State.GapBeside (s : State) (needed : Nat) (spared : Set Nat) (addr size : Nat) :
    Prop :=
  s.ClearBeside needed spared addr (addr + size) ∧
    ∀ start stop, s.ClearBeside needed spared start stop → start ≤ addr →
      addr + size ≤ stop → start = addr ∧ stop = addr + size

/-- Beside what is taken of the free runs, nothing serves another request while no run is
freed. -/
theorem HeapOk.gapBeside_small (heap : HeapOk cfg s blocks) (positive : 0 < needed)
    {addr : Nat} (gap : s.GapBeside needed ∅ addr size) : size < needed := by
  obtain ⟨⟨clear, beside⟩, _⟩ := gap
  obtain ⟨start, length, free, lower, upper⟩ := clear_covered heap clear
  by_contra fits
  have apart := beside start length free (by omega)
  obtain ⟨_, rest⟩ := @cutBytes_covers needed length positive
  omega

/-- When the free runs serve no request, the gaps are those between the runs that are not
spared. -/
theorem gapBeside_of_noFit (full : s.NoFit needed) {addr : Nat} :
    s.GapBeside needed spared addr size ↔ s.Gap spared addr size := by
  have same : ∀ start stop, s.ClearBeside needed spared start stop ↔
      s.Clear spared start stop := by
    intro start stop
    refine ⟨And.left, fun clear => ⟨clear, fun addr size free fits => ?_⟩⟩
    have small := full addr size free
    omega
  unfold State.GapBeside State.Gap
  simp only [same]

theorem tally_eq_zero {gap : Nat → Nat → Prop}
    (small : ∀ addr size, gap addr size → size < needed) : tally needed gap = 0 := by
  refine finsum_mem_eq_zero_of_forall_eq_zero fun run member => ?_
  exact cuts_eq_zero_iff.mpr (small run.1 run.2 member)

/-- The free runs serve no request exactly when none of them is large enough. -/
theorem HeapOk.tally_eq_zero_iff (heap : HeapOk cfg s blocks) :
    tally needed s.FreeRun = 0 ↔ s.NoFit needed := by
  refine ⟨fun none addr size free => ?_, fun full => tally_eq_zero full⟩
  obtain ⟨member, _⟩ := heap.freeRun_iff.mp free
  rw [heap.tally_eq, listTally, List.sum_eq_zero_iff] at none
  refine cuts_eq_zero_iff.mp (none _ (List.mem_map.mpr ⟨_, List.mem_filter.mpr
    ⟨member, ?_⟩, rfl⟩))
  simp [Block.isFree]

section Carved

variable {front back : List Block} {run : Block}
  (before : HeapOk cfg s (front ++ run :: back)) (free : run.kind = .free)
  (after : HeapOk cfg t (front ++ carvedRuns run.addr needed run.size ++ back))
  (chunks : t.chunks = s.chunks) (positive : 0 < needed) (fits : needed ≤ run.size)

include before free after

theorem carved_allocated {addr length : Nat} : t.Allocated addr length ↔
    s.Allocated addr length ∨ addr = run.addr ∧ length = carved needed run.size := by
  rw [before.allocated_iff, after.allocated_iff, mem_usedRuns, mem_usedRuns]
  have notFree : (⟨addr, length, .used⟩ : Block) ≠ run := by
    rintro rfl
    cases free
  have notRest : (⟨addr, length, .used⟩ : Block) ∉
      remainder run.addr (carved needed run.size) run.size := by
    unfold remainder
    split <;> simp
  simp only [carvedRuns, List.mem_append, List.mem_cons, notFree, notRest, false_or, or_false,
    and_true, Block.mk.injEq]
  tauto

theorem carved_freeRun : ∃ elsewhere : Nat → Nat → Prop,
    (∀ addr length, s.FreeRun addr length ↔
      elsewhere addr length ∨ addr = run.addr ∧ length = run.size) ∧
    ∀ addr length, t.FreeRun addr length ↔
      elsewhere addr length ∨ carved needed run.size < run.size ∧
        addr = run.addr + carved needed run.size ∧
        length = run.size - carved needed run.size := by
  refine ⟨fun addr length => (⟨addr, length, .free⟩ : Block) ∈ front ++ back,
    fun addr length => ?_, fun addr length => ?_⟩
  · have same : (⟨addr, length, .free⟩ : Block) = run ↔
        addr = run.addr ∧ length = run.size := by
      rw [← free]
      exact Block.mk.injEq .. ▸ by simp
    rw [before.freeRun_iff, mem_freeRuns]
    simp only [List.mem_append, List.mem_cons, same]
    tauto
  · rw [after.freeRun_iff, mem_freeRuns]
    unfold carvedRuns remainder
    split
    · rename_i more
      simp only [List.mem_append, List.mem_cons, List.not_mem_nil, or_false, Block.mk.injEq,
        reduceCtorEq, and_false, and_true, false_or, more, true_and]
      tauto
    · rename_i whole
      simp only [List.mem_append, List.mem_cons, List.not_mem_nil, or_false, Block.mk.injEq,
        reduceCtorEq, and_false, and_true, whole, false_and]

include positive fits

/-- A request that is served from a free run is one of those that the free runs serve. -/
theorem carved_tally : tally needed s.FreeRun = tally needed t.FreeRun + 1 := by
  rw [before.tally_eq, after.tally_eq, listTally_append, listTally_cons, listTally_append,
    listTally_append, if_pos free, cuts_carved positive fits]
  unfold carvedRuns remainder
  rw [listTally_cons, if_neg (by simp)]
  split
  · rw [listTally_cons, if_pos rfl]
    simp only [listTally, List.filter_nil, List.map_nil, List.sum_nil]
    omega
  · rename_i whole
    have none : run.size - carved needed run.size = 0 := by omega
    rw [none, cuts_eq_zero_iff.mpr positive]
    simp only [listTally, List.filter_nil, List.map_nil, List.sum_nil]
    omega

include chunks

/-- What the requests of one size take together does not change when one of them is
served. -/
theorem carved_clearBeside (unspared : run.addr + 16 ∉ spared) {start stop : Nat} :
    t.ClearBeside needed spared start stop ↔ s.ClearBeside needed spared start stop := by
  obtain ⟨elsewhere, freeBefore, freeAfter⟩ :=
    carved_freeRun before free after
  have marked := fun addr length =>
    @carved_allocated _ _ _ _ _ _ _ before free after addr length
  have last := @cutBytes_last needed run.size positive fits
  have further := @cutBytes_carved needed run.size positive fits
  have whole : carved needed run.size ≤ run.size := by
    unfold carved
    split <;> omega
  constructor
  · rintro ⟨⟨chunk, member, lower, nonempty, upper, clear⟩, beside⟩
    rw [chunks] at member
    refine ⟨⟨chunk, member, lower, nonempty, upper, fun addr length allocated =>
      clear addr length ((marked _ _).mpr (Or.inl allocated))⟩,
      fun addr length isFree large => ?_⟩
    rcases (freeBefore _ _).mp isFree with other | ⟨rfl, rfl⟩
    · exact beside addr length ((freeAfter _ _).mpr (Or.inl other)) large
    have granted := clear _ _ ((marked _ _).mpr (Or.inr ⟨rfl, rfl⟩)) unspared
    by_cases more : needed ≤ run.size - carved needed run.size
    · have rest := beside _ _ ((freeAfter _ _).mpr (Or.inr ⟨by omega, rfl, rfl⟩)) more
      have bytes := further more
      omega
    · have bytes := last (by omega)
      omega
  · rintro ⟨⟨chunk, member, lower, nonempty, upper, clear⟩, beside⟩
    have here := beside _ _ ((freeBefore _ _).mpr (Or.inr ⟨rfl, rfl⟩)) fits
    rw [← chunks] at member
    refine ⟨⟨chunk, member, lower, nonempty, upper, fun addr length allocated kept => ?_⟩,
      fun addr length isFree large => ?_⟩
    · rcases (marked _ _).mp allocated with old | ⟨rfl, rfl⟩
      · exact clear addr length old kept
      by_cases more : needed ≤ run.size - carved needed run.size
      · have bytes := further more
        omega
      · have bytes := last (by omega)
        omega
    · rcases (freeAfter _ _).mp isFree with other | ⟨_, rfl, rfl⟩
      · exact beside addr length ((freeBefore _ _).mpr (Or.inl other)) large
      have bytes := further large
      omega

end Carved

end Runner

end Allocazam
