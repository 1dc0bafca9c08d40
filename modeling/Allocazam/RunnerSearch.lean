import Allocazam.RunnerHeapStep

/-!
# The fit search

`_find_fit` returns null or a free run that is large enough; it changes nothing
but the statistics.
-/

namespace Allocazam

namespace Runner

variable {cfg : Config} {s : State} {binned : Nat → List Nat}
  {free : Set Block} {needed : Nat}

/-- `h` is null or a free run with room for `needed` bytes. -/
def Fits (free : Set Block) (needed h : Nat) : Prop :=
  h = 0 ∨ ∃ block ∈ free, block.addr = h ∧ needed ≤ block.size

/-- The scan of one bin returns null or a listed run that fits. -/
theorem scanBin_sound {nodes : List Nat} {fuel h scanCount : Nat}
    (stack : IsStack (fun h => s.mem (h + 16)) h nodes) :
    (s.scanBin cfg needed fuel h scanCount).1 = 0 ∨
      (s.scanBin cfg needed fuel h scanCount).1 ∈ nodes ∧
        needed ≤ s.runSize (s.scanBin cfg needed fuel h scanCount).1 := by
  induction fuel generalizing nodes h scanCount with
  | zero => exact Or.inl rfl
  | succ fuel ih =>
      unfold State.scanBin
      by_cases null : h = 0
      · rw [if_pos null]
        exact Or.inl rfl
      rw [if_neg null]
      cases nodes with
      | nil => exact absurd stack null
      | cons node nodes =>
          obtain ⟨rfl, _, rest⟩ := stack
          dsimp only
          by_cases enough : s.runSize h ≥ needed
          · simp only [if_pos enough]
            exact Or.inr ⟨by simp, enough⟩
          · simp only [if_neg enough]
            rcases ih rest with none | found
            · exact Or.inl none
            · exact Or.inr ⟨List.mem_cons_of_mem _ found.1, found.2⟩

theorem scanBins_past {startBin fuel idx scanCount : Nat}
    (past : ¬ idx < 536) :
    s.scanBins cfg needed startBin fuel idx scanCount = (0, scanCount) := by
  cases fuel with
  | zero => rfl
  | succ fuel =>
      unfold State.scanBins
      rw [binCount_eq, if_neg past]

section Bins

variable (index : FreeIndex s binned free) (linkable : Linkable free)
  (sizes : ∀ block ∈ free, s.runSize block.addr = block.size)
  (aligned : 16 ∣ needed) (bounded : needed < 2 ^ 64)

include index linkable sizes aligned bounded

/-- The search from bin `idx` on, where `idx` is past the request's bin or is
its first non-empty successor. -/
theorem scanBins_sound {fuel idx scanCount : Nat}
    (reached : binIndexFor needed ≤ idx)
    (nonempty : idx < 536 → s.binBit idx = true) :
    Fits free needed
      (s.scanBins cfg needed (binIndexFor needed) fuel idx scanCount).1 := by
  induction fuel generalizing idx scanCount with
  | zero => exact Or.inl rfl
  | succ fuel ih =>
      unfold State.scanBins
      simp only [binCount_eq, linearBinCount_eq]
      by_cases inRange : idx < 536
      swap
      · rw [if_neg inRange]
        exact Or.inl rfl
      rw [if_pos inRange]
      have head := ((index.maskBit idx (by omega)).mp (nonempty inRange)).2
      obtain ⟨_, run, runMember, runAddr, runBin⟩ :=
        index.head_mem inRange head
      have runAligned := linkable.sizeAligned run runMember
      have runBound := linkable.sizeBound run runMember
      by_cases direct : idx ≠ binIndexFor needed ∨ idx < 512
      · rw [if_pos direct]
        refine Or.inr ⟨run, runMember, runAddr, ?_⟩
        by_cases later : idx = binIndexFor needed
        · rcases direct with other | linear
          · exact absurd later other
          · exact (eq_of_binIndexFor_eq aligned runAligned bounded runBound
              (by rw [runBin, later]) (by rw [← later]; exact linear)).le
        · exact (lt_of_binIndexFor_lt aligned runAligned bounded
            (by rw [runBin]; omega)).le
      · rw [if_neg direct]
        have scanned := @scanBin_sound cfg s needed _ s.nodeBound _ scanCount
          (index.deque idx inRange).isStack
        generalize s.scanBin cfg needed s.nodeBound (s.bins idx) scanCount =
          found at scanned
        split
        · have first := s.isFirstNonempty_firstNonemptyBinFrom index.maskBound
            (idx + 1)
          by_cases found : s.firstNonemptyBinFrom (idx + 1) < 536
          · have start := first.1 found
            exact ih (by omega) fun _ => start.2
          · rw [scanBins_past found]
            exact Or.inl rfl
        · rename_i notNull
          rcases scanned with null | ⟨listed, enough⟩
          · exact (notNull found.2 (Prod.ext null rfl)).elim
          · obtain ⟨block, member, addrEq, _⟩ :=
              (index.mem_iff idx inRange _).mp listed
            rw [← addrEq, sizes block member] at enough
            exact Or.inr ⟨block, member, addrEq, enough⟩

end Bins

theorem findFit_same (needed scanCount : Nat) :
    (s.findFit cfg needed scanCount).1.mem = s.mem ∧
      (s.findFit cfg needed scanCount).1.bins = s.bins ∧
      (s.findFit cfg needed scanCount).1.binNonemptyMask =
        s.binNonemptyMask ∧
      (s.findFit cfg needed scanCount).1.outer = s.outer := by
  unfold State.findFit
  simp

theorem findFit_heap {blocks : List Block} {scanCount : Nat}
    (heap : HeapOk cfg s blocks) :
    HeapOk cfg (s.findFit cfg needed scanCount).1 blocks := by
  obtain ⟨mem, bins, mask, outer⟩ :=
    findFit_same (s := s) needed scanCount
  exact heap.congr (State.chunks_of_outer outer) mem bins mask

/-- `_find_fit` returns null or a free run with enough room. -/
theorem findFit_sound {blocks : List Block} {scanCount : Nat}
    (heap : HeapOk cfg s blocks) (aligned : 16 ∣ needed)
    (bounded : needed < 2 ^ 64) :
    Fits (freeRuns blocks) needed (s.findFit cfg needed scanCount).2.1 := by
  have recorded : HeapOk cfg (s.record cfg fun stats =>
      { stats with findFitCalls := wrapAdd stats.findFitCalls 1 }) blocks :=
    heap.congr (by simp) (by simp) (by simp) (by simp)
  obtain ⟨binned, index⟩ := recorded.indexed
  have first := State.isFirstNonempty_firstNonemptyBinFrom _ index.maskBound
    (binIndexFor needed)
  have sizes : ∀ block ∈ freeRuns blocks, (s.record cfg fun stats =>
      { stats with findFitCalls := wrapAdd stats.findFitCalls 1 }).runSize
        block.addr = block.size :=
    fun block member =>
      recorded.runSize member.1 (by rw [member.2]; decide)
  unfold State.findFit
  dsimp only
  by_cases found : (s.record cfg fun stats => { stats with
      findFitCalls := wrapAdd stats.findFitCalls 1 }).firstNonemptyBinFrom
        (binIndexFor needed) < 536
  · obtain ⟨reached, nonempty⟩ := first.1 found
    exact scanBins_sound index heap.layout.linkable sizes aligned bounded
      reached fun _ => nonempty
  · rw [scanBins_past found]
    exact Or.inl rfl

end Runner

end Allocazam
