import Allocazam.RunnerAllocate
import Allocazam.RunnerDeterminacy

/-!
# Completeness of the fit search

`_find_fit` returns null only when no free run is large enough, and so only when
no chunk has that many bytes in a row outside its allocated runs.
-/

namespace Allocazam

namespace Runner

variable {cfg : Config} {s t : State} {os : Os} {blocks : List Block}
  {runs : Set Block} {parked : List Nat} {needed : Nat}

/-- The scan of one bin finds a run that fits if the bin has one. -/
theorem scanBin_complete {nodes : List Nat} {fuel h scanCount : Nat}
    (stack : IsStack (fun h => s.mem (h + 16)) h nodes)
    (enough : nodes.length ≤ fuel)
    (fits : ∃ node ∈ nodes, needed ≤ s.runSize node) :
    (s.scanBin cfg needed fuel h scanCount).1 ≠ 0 := by
  induction nodes generalizing fuel h scanCount with
  | nil => simp at fits
  | cons node nodes ih =>
      obtain ⟨rfl, nonnull, rest⟩ := stack
      obtain ⟨fuel, rfl⟩ : ∃ rounds, fuel = rounds + 1 :=
        ⟨fuel - 1, by rw [List.length_cons] at enough; omega⟩
      unfold State.scanBin
      rw [if_neg nonnull]
      dsimp only
      by_cases large : s.runSize h ≥ needed
      · rw [if_pos large]
        exact nonnull
      · rw [if_neg large]
        apply ih rest (Nat.le_of_succ_le_succ enough)
        obtain ⟨node, listed, fit⟩ := fits
        rcases List.mem_cons.mp listed with rfl | later
        · exact absurd fit large
        · exact ⟨node, later, fit⟩

section Bins

variable {binned : Nat → List Nat} {free : Set Block}
  (index : FreeIndex s binned free) (linkable : Linkable free)
  (sizes : ∀ block ∈ free, s.runSize block.addr = block.size)
  (counted : ∀ idx < 536, (binned idx).length ≤ s.nodeBound)

include index linkable

theorem binBit_of_free {block : Block} (member : block ∈ free) :
    binIndexFor block.size < 536 ∧
      s.binBit (binIndexFor block.size) = true ∧
      block.addr ∈ binned (binIndexFor block.size) := by
  have bound : binIndexFor block.size < 536 :=
    binIndexFor_lt (linkable.sizeAligned block member)
      (linkable.sizeBound block member)
  have listed := (index.mem_iff _ bound _).mpr ⟨block, member, rfl, rfl⟩
  refine ⟨bound, (index.maskBit _ (by omega)).mpr ⟨bound, fun null => ?_⟩, listed⟩
  have empty := (index.deque _ bound).isStack.eq_nil_iff.mpr null
  rw [empty] at listed
  cases listed

include sizes counted

/-- The search finds a run if there is one that fits, and none in a later bin. -/
theorem scanBins_complete {fuel scanCount : Nat} {block : Block}
    (member : block ∈ free) (fits : needed ≤ block.size)
    (aligned : 16 ∣ needed) :
    let found := (s.scanBins cfg needed (binIndexFor needed) (fuel + 2)
      (s.firstNonemptyBinFrom (binIndexFor needed)) scanCount).1
    found ≠ 0 ∧ ∀ run ∈ free, run.addr = found →
      binIndexFor run.size ≤ binIndexFor block.size := by
  obtain ⟨bound, marked, listed⟩ := binBit_of_free index linkable member
  have reached : binIndexFor needed ≤ binIndexFor block.size :=
    binIndexFor_mono aligned (linkable.sizeAligned block member)
      (linkable.sizeBound block member) fits
  -- From any bin up to that of the run, the next nonempty bin is in range.
  have next : ∀ start, start ≤ binIndexFor block.size →
      s.firstNonemptyBinFrom start ≤ binIndexFor block.size ∧
        s.bins (s.firstNonemptyBinFrom start) ≠ 0 := by
    intro start le
    have first := s.isFirstNonempty_firstNonemptyBinFrom index.maskBound start
    have upper : s.firstNonemptyBinFrom start ≤ binIndexFor block.size := by
      by_contra later
      have clear := first.2 _ le (by omega) bound
      rw [marked] at clear
      cases clear
    have nonempty := (first.1 (by omega)).2
    exact ⟨upper, ((index.maskBit _ (by omega)).mp nonempty).2⟩
  -- A run listed in a bin up to that of the run is in no later bin.
  have lowest : ∀ idx ≤ binIndexFor block.size, ∀ h ∈ binned idx,
      ∀ run ∈ free, run.addr = h →
        binIndexFor run.size ≤ binIndexFor block.size := by
    intro idx le h inBin run runMember same
    obtain ⟨other, otherMember, addrEq, rfl⟩ :=
      (index.mem_iff idx (by omega) h).mp inBin
    obtain rfl := linkable.injective run runMember other otherMember
      (same.trans addrEq.symm)
    exact le
  obtain ⟨upper, head⟩ := next _ reached
  generalize s.firstNonemptyBinFrom (binIndexFor needed) = idx at upper head ⊢
  unfold State.scanBins
  simp only [binCount_eq, linearBinCount_eq]
  rw [if_pos (by omega)]
  by_cases direct : idx ≠ binIndexFor needed ∨ idx < 512
  · rw [if_pos direct]
    exact ⟨head, lowest idx upper _ (index.head_mem (by omega) head).1⟩
  · rw [if_neg direct]
    have here : idx = binIndexFor needed := by
      by_contra other
      exact direct (Or.inl other)
    have stack := (index.deque idx (by omega)).isStack
    have scanned : binIndexFor block.size = idx →
        (s.scanBin cfg needed s.nodeBound (s.bins idx) scanCount).1 ≠ 0 := by
      rintro rfl
      apply scanBin_complete stack (counted _ bound)
      exact ⟨block.addr, listed, by rw [sizes block member]; exact fits⟩
    have inBin := @scanBin_sound cfg s needed _ s.nodeBound _ scanCount stack
    generalize s.scanBin cfg needed s.nodeBound (s.bins idx) scanCount = found
      at scanned inBin
    split
    · rename_i count
      have elsewhere : binIndexFor block.size ≠ idx :=
        fun same => scanned same rfl
      obtain ⟨upper, head⟩ := next (idx + 1) (by omega)
      have later := (s.isFirstNonempty_firstNonemptyBinFrom index.maskBound
        (idx + 1)).1 (by omega)
      generalize s.firstNonemptyBinFrom (idx + 1) = idx' at upper head later ⊢
      unfold State.scanBins
      simp only [binCount_eq, linearBinCount_eq]
      rw [if_pos (by omega), if_pos (Or.inl (by omega))]
      exact ⟨head, lowest idx' upper _ (index.head_mem (by omega) head).1⟩
    · rename_i notNull
      have nonnull : found.1 ≠ 0 := fun null =>
        notNull found.2 (Prod.ext null rfl)
      exact ⟨nonnull, lowest idx upper _ (inBin.resolve_left nonnull).1⟩

end Bins

/-- `_find_fit` finds a free run if there is one that is large enough, and none in
a later bin. -/
theorem findFit_lowest {scanCount : Nat} {block : Block}
    (heap : HeapOk cfg s blocks) (member : block ∈ freeRuns blocks)
    (fits : needed ≤ block.size) (aligned : 16 ∣ needed) :
    (s.findFit cfg needed scanCount).2.1 ≠ 0 ∧
      ∀ run ∈ freeRuns blocks,
        run.addr = (s.findFit cfg needed scanCount).2.1 →
          binIndexFor run.size ≤ binIndexFor block.size := by
  have recorded : HeapOk cfg (s.record cfg fun stats =>
      { stats with findFitCalls := wrapAdd stats.findFitCalls 1 }) blocks :=
    heap.congr (by simp) (by simp) (by simp) (by simp)
  obtain ⟨binned, index⟩ := recorded.indexed
  unfold State.findFit
  dsimp only
  generalize (s.record cfg fun stats =>
    { stats with findFitCalls := wrapAdd stats.findFitCalls 1 }) = u
      at recorded index ⊢
  have sizes : ∀ block ∈ freeRuns blocks, u.runSize block.addr = block.size :=
    fun block member =>
      recorded.runSize member.1 (by rw [member.2]; decide)
  exact scanBins_complete index heap.layout.linkable sizes
    (fun idx bound => recorded.binned_length_le index bound) member fits aligned

/-- `_find_fit` finds a free run if there is one that is large enough. -/
theorem findFit_complete {scanCount : Nat} {block : Block}
    (heap : HeapOk cfg s blocks) (member : block ∈ freeRuns blocks)
    (fits : needed ≤ block.size) (aligned : 16 ∣ needed) :
    (s.findFit cfg needed scanCount).2.1 ≠ 0 :=
  (findFit_lowest heap member fits aligned).1

end Runner

end Allocazam
