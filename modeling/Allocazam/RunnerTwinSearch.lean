import Allocazam.RunnerTwins

/-!
# The fit search of twins

The mask, the heads of the bins and the sizes along a bin agree, so that the searches
of twins end in the same bin, at the same run or at none.
-/

namespace Allocazam

namespace Runner

variable {cfg cfg' : Config} {s t : State} {chunks chunks' : List ChunkNode}
  {needed : Nat}

def PointerAlike (chunks chunks' : List ChunkNode) (p p' : Nat) : Prop :=
  p = 0 ∧ p' = 0 ∨ Alike chunks chunks' p p'

theorem PointerAlike.eq_zero_iff {p p' : Nat} (alike : PointerAlike chunks chunks' p p')
    (ok : ChunksOk chunks) (ok' : ChunksOk chunks')
    (same : SameLengths chunks chunks') : p = 0 ↔ p' = 0 := by
  rcases alike with ⟨null, null'⟩ | alike
  · simp [null, null']
  · exact iff_of_false (alike.ne_zero ok) ((alike.swap same).ne_zero ok')

theorem PointerAlike.alike {p p' : Nat} (alike : PointerAlike chunks chunks' p p')
    (nonnull : p ≠ 0) : Alike chunks chunks' p p' :=
  alike.resolve_left fun null => nonnull null.1

theorem firstNonemptyBinFrom_congr
    (mask : ∀ word < binWordCount, t.binNonemptyMask word = s.binNonemptyMask word)
    (startIdx : Nat) : t.firstNonemptyBinFrom startIdx = s.firstNonemptyBinFrom startIdx := by
  have walk : ∀ words wordIdx word, t.firstNonemptyWord words wordIdx word =
      s.firstNonemptyWord words wordIdx word := by
    intro words
    induction words with
    | zero => exact fun _ _ => rfl
    | succ words ih =>
        intro wordIdx word
        unfold State.firstNonemptyWord
        by_cases past : wordIdx + 1 ≥ binWordCount
        · simp only [if_pos past]
        · simp only [if_neg past]
          rw [ih, mask _ (by omega)]
  unfold State.firstNonemptyBinFrom
  by_cases past : startIdx ≥ binCount
  · rw [if_pos past, if_pos past]
  · rw [if_neg past, if_neg past]
    simp only [binCount_eq] at past
    dsimp only
    have inMask : binWordIndex startIdx < binWordCount := by
      unfold binWordIndex
      simp only [binWordBits_eq, binWordCount_eq]
      omega
    rw [walk, mask _ inMask]

theorem scanBin_alike {nodes nodes' : List Nat} {fuel h h' count count' : Nat}
    (matched : List.Forall₂ (fun h h' => Alike chunks chunks' h h' ∧
      t.runSize h' = s.runSize h) nodes nodes')
    (stack : IsStack (fun h => s.mem (h + 16)) h nodes)
    (stack' : IsStack (fun h => t.mem (h + 16)) h' nodes') :
    PointerAlike chunks chunks' (s.scanBin cfg needed fuel h count).1
      (t.scanBin cfg' needed fuel h' count').1 := by
  induction fuel generalizing nodes nodes' h h' count count' with
  | zero => exact Or.inl ⟨rfl, rfl⟩
  | succ fuel ih =>
      unfold State.scanBin
      cases matched with
      | nil =>
          rw [if_pos (show h = 0 from stack), if_pos (show h' = 0 from stack')]
          exact Or.inl ⟨rfl, rfl⟩
      | cons first later =>
          obtain ⟨rfl, nonnull, rest⟩ := stack
          obtain ⟨rfl, nonnull', rest'⟩ := stack'
          obtain ⟨alike, size⟩ := first
          rw [if_neg nonnull, if_neg nonnull', size]
          dsimp only
          by_cases enough : s.runSize h ≥ needed
          · rw [if_pos enough, if_pos enough]
            exact Or.inr alike
          · rw [if_neg enough, if_neg enough]
            exact ih later rest rest'

namespace Mirrors

variable (mirrors : Mirrors cfg cfg' s t)

include mirrors

theorem pointer_eq_zero_iff {p p' : Nat}
    (alike : PointerAlike s.chunks t.chunks p p') : p = 0 ↔ p' = 0 := by
  obtain ⟨blocks, blocks', heap, heap', _⟩ := mirrors.layouts
  exact alike.eq_zero_iff heap.layout.chunksOk heap'.layout.chunksOk mirrors.chunks

/-- The counterpart of a free run is free and has its size. -/
theorem freeRun {addr addr' size : Nat} (free : s.FreeRun addr size)
    (alike : Alike s.chunks t.chunks addr addr') : t.FreeRun addr' size := by
  have unique := mirrors.biUnique
  obtain ⟨blocks, blocks', heap, heap', matched⟩ := mirrors.layouts
  obtain ⟨run', member', same⟩ := forall₂_exists matched (heap.freeRun_iff.mp free).1
  obtain rfl := unique.2 alike same.addr
  rw [heap'.freeRun_iff]
  have shape : run' = ⟨run'.addr, size, .free⟩ := by
    rw [← show run'.size = size from same.size,
      ← show run'.kind = .free from same.kind]
  rw [← shape]
  exact ⟨member', same.kind⟩

theorem binRuns_sized {idx : Nat} (bound : idx < 536) :
    List.Forall₂ (fun h h' => Alike s.chunks t.chunks h h' ∧
      t.runSize h' = s.runSize h) (s.binRuns idx) (t.binRuns idx) := by
  obtain ⟨blocks, blocks', heap, heap', matched⟩ := mirrors.layouts
  obtain ⟨binned, index⟩ := heap.indexed
  obtain ⟨binned', index'⟩ := heap'.indexed
  have sized : ∀ h ∈ s.binRuns idx, ∀ h', Alike s.chunks t.chunks h h' →
      t.runSize h' = s.runSize h := by
    intro h listed h' alike
    rw [heap.binRuns_eq index bound] at listed
    obtain ⟨run, member, rfl, _⟩ := (index.mem_iff idx bound h).mp listed
    have free : s.FreeRun run.addr run.size := by
      rw [heap.freeRun_iff, ← member.2]
      exact member
    have free' := heap'.freeRun_iff.mp (mirrors.freeRun free alike)
    rw [heap.runSize member.1 (by rw [member.2]; decide)]
    exact heap'.runSize free'.1 (by simp)
  have both := (List.forall₂_and_left _ _).mpr ⟨sized, mirrors.bins idx bound⟩
  exact both.imp fun h h' pair => ⟨pair.2, pair.1 h' pair.2⟩

theorem bins_alike {idx : Nat} (bound : idx < 536) :
    PointerAlike s.chunks t.chunks (s.bins idx) (t.bins idx) := by
  obtain ⟨blocks, blocks', heap, heap', _⟩ := mirrors.layouts
  have deque := binRuns_deque heap bound
  have deque' := binRuns_deque heap' bound
  have matched := mirrors.bins idx bound
  generalize s.binRuns idx = nodes at deque matched
  generalize t.binRuns idx = nodes' at deque' matched
  cases matched with
  | nil => exact Or.inl ⟨deque, deque'⟩
  | cons first _ =>
      rw [deque.1, deque'.1]
      exact Or.inr first

theorem scanBins_alike (needed startBin fuel idx count count' : Nat) :
    PointerAlike s.chunks t.chunks (s.scanBins cfg needed startBin fuel idx count).1
      (t.scanBins cfg' needed startBin fuel idx count').1 := by
  induction fuel generalizing idx count count' with
  | zero => exact Or.inl ⟨rfl, rfl⟩
  | succ fuel ih =>
      unfold State.scanBins
      simp only [binCount_eq]
      by_cases inRange : idx < 536
      swap
      · rw [if_neg inRange, if_neg inRange]
        exact Or.inl ⟨rfl, rfl⟩
      rw [if_pos inRange, if_pos inRange]
      by_cases direct : idx ≠ startBin ∨ idx < linearBinCount
      · rw [if_pos direct, if_pos direct]
        exact mirrors.bins_alike inRange
      · rw [if_neg direct, if_neg direct]
        obtain ⟨blocks, blocks', heap, heap', _⟩ := mirrors.layouts
        have scanned : PointerAlike s.chunks t.chunks
            (s.scanBin cfg needed s.nodeBound (s.bins idx) count).1
            (t.scanBin cfg' needed t.nodeBound (t.bins idx) count').1 := by
          rw [mirrors.nodeBound]
          exact scanBin_alike (mirrors.binRuns_sized inRange)
            (binRuns_deque heap inRange).isStack
            (binRuns_deque heap' inRange).isStack
        have sameNull := mirrors.pointer_eq_zero_iff scanned
        rw [firstNonemptyBinFrom_congr fun word bound => mirrors.mask bound]
        generalize s.scanBin cfg needed s.nodeBound (s.bins idx) count = found
          at scanned sameNull ⊢
        generalize t.scanBin cfg' needed t.nodeBound (t.bins idx) count' = found'
          at scanned sameNull ⊢
        obtain ⟨h, count⟩ := found
        obtain ⟨h', count'⟩ := found'
        dsimp only at scanned sameNull
        by_cases null : h = 0
        · obtain rfl := sameNull.mp null
          subst null
          exact ih _ _ _
        · have null' : h' ≠ 0 := fun isNull => null (sameNull.mpr isNull)
          split
          · rename_i isNull
            exact absurd (Prod.mk.inj isNull).1 null
          · split
            · rename_i isNull
              exact absurd (Prod.mk.inj isNull).1 null'
            · exact scanned

theorem findFit {count count' : Nat} :
    Mirrors cfg cfg' (s.findFit cfg needed count).1 (t.findFit cfg' needed count').1 ∧
      PointerAlike s.chunks t.chunks (s.findFit cfg needed count).2.1
        (t.findFit cfg' needed count').2.1 := by
  obtain ⟨mem, bins, mask, outer⟩ := @findFit_same cfg s needed count
  obtain ⟨mem', bins', mask', outer'⟩ := @findFit_same cfg' t needed count'
  refine ⟨mirrors.same mem mem' bins bins' mask mask' outer outer', ?_⟩
  have recorded : Mirrors cfg cfg' (s.record cfg fun stats =>
      { stats with findFitCalls := wrapAdd stats.findFitCalls 1 })
      (t.record cfg' fun stats =>
        { stats with findFitCalls := wrapAdd stats.findFitCalls 1 }) :=
    mirrors.same (by simp) (by simp) (by simp) (by simp) (by simp) (by simp) (by simp)
      (by simp)
  have start := firstNonemptyBinFrom_congr
    (fun word (bound : word < binWordCount) => recorded.mask bound)
    (binIndexFor needed)
  have scanned := recorded.scanBins_alike needed (binIndexFor needed) binCount
    ((s.record cfg fun stats => { stats with
      findFitCalls := wrapAdd stats.findFitCalls 1 }).firstNonemptyBinFrom
        (binIndexFor needed)) count count'
  rw [record_chunks, record_chunks] at scanned
  unfold State.findFit
  dsimp only
  rw [start]
  exact scanned

end Mirrors

end Runner

end Allocazam
