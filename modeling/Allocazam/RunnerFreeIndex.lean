import Allocazam.CoalescedTiling
import Allocazam.IntrusiveList
import Allocazam.RunnerBinIndex

/-!
# The free index

The bins, the links stored in free runs and the non-empty mask form an index
of a set of free runs.  Linking and unlinking a run change that set by one
element; both write only link words of free runs, so an index survives every
change of memory elsewhere.
-/

namespace Allocazam

namespace Runner

namespace State

variable (s : State)

/-- Bit `idx` of the non-empty mask. -/
def binBit (idx : Nat) : Bool :=
  (s.binNonemptyMask (idx / 64)).testBit (idx % 64)

def outer : List ChunkNode × Nat × Nat × Nat :=
  (s.chunks, s.nextGrowth, s.deferredBytes, s.remoteHead)

theorem chunks_of_outer {s t : State} (same : t.outer = s.outer) :
    t.chunks = s.chunks :=
  congrArg (fun members => members.1) same

theorem remoteHead_of_outer {s t : State} (same : t.outer = s.outer) :
    t.remoteHead = s.remoteHead :=
  congrArg (fun members => members.2.2.2) same

@[simp] theorem write_mem (addr value : Nat) :
    (s.write addr value).mem = Function.update s.mem addr value := rfl
@[simp] theorem write_bins (addr value : Nat) :
    (s.write addr value).bins = s.bins := rfl
@[simp] theorem write_binNonemptyMask (addr value : Nat) :
    (s.write addr value).binNonemptyMask = s.binNonemptyMask := rfl
@[simp] theorem write_outer (addr value : Nat) :
    (s.write addr value).outer = s.outer := rfl
@[simp] theorem write_stats (addr value : Nat) :
    (s.write addr value).stats = s.stats := rfl

@[simp] theorem setBin_mem (idx head : Nat) :
    (s.setBin idx head).mem = s.mem := rfl
@[simp] theorem setBin_bins (idx head : Nat) :
    (s.setBin idx head).bins = Function.update s.bins idx head := rfl
@[simp] theorem setBin_binNonemptyMask (idx head : Nat) :
    (s.setBin idx head).binNonemptyMask = s.binNonemptyMask := rfl

@[simp] theorem setBinNonempty_mem (idx : Nat) :
    (s.setBinNonempty idx).mem = s.mem := rfl
@[simp] theorem setBinNonempty_bins (idx : Nat) :
    (s.setBinNonempty idx).bins = s.bins := rfl
@[simp] theorem setBinEmpty_mem (idx : Nat) :
    (s.setBinEmpty idx).mem = s.mem := rfl
@[simp] theorem setBinEmpty_bins (idx : Nat) :
    (s.setBinEmpty idx).bins = s.bins := rfl

@[simp] theorem linkFree_outer (h : Nat) : (s.linkFree h).outer = s.outer := by
  unfold linkFree
  dsimp only
  split <;> rfl

@[simp] theorem linkFree_stats (h : Nat) : (s.linkFree h).stats = s.stats := by
  unfold linkFree
  dsimp only
  split <;> rfl

@[simp] theorem clearIfEmpty_mem (idx : Nat) :
    (s.clearIfEmpty idx).mem = s.mem := by
  unfold clearIfEmpty
  split <;> rfl

@[simp] theorem clearIfEmpty_bins (idx : Nat) :
    (s.clearIfEmpty idx).bins = s.bins := by
  unfold clearIfEmpty
  split <;> rfl

theorem clearIfEmpty_binNonemptyMask (idx : Nat) :
    (s.clearIfEmpty idx).binNonemptyMask =
      if s.bins idx = 0 then (s.setBinEmpty idx).binNonemptyMask
      else s.binNonemptyMask := by
  unfold clearIfEmpty
  split <;> rfl

@[simp] theorem skipForward_binNonemptyMask (h idx : Nat) :
    (s.skipForward h idx).binNonemptyMask = s.binNonemptyMask := by
  unfold skipForward
  split <;> rfl

@[simp] theorem skipBackward_bins (h : Nat) :
    (s.skipBackward h).bins = s.bins := by
  unfold skipBackward
  split <;> rfl

@[simp] theorem skipBackward_binNonemptyMask (h : Nat) :
    (s.skipBackward h).binNonemptyMask = s.binNonemptyMask := by
  unfold skipBackward
  split <;> rfl

@[simp] theorem unlinkFree_outer (h : Nat) :
    (s.unlinkFree h).outer = s.outer := by
  unfold unlinkFree clearIfEmpty skipBackward skipForward
  dsimp only
  split <;> split <;> split <;> rfl

@[simp] theorem unlinkFree_stats (h : Nat) :
    (s.unlinkFree h).stats = s.stats := by
  unfold unlinkFree clearIfEmpty skipBackward skipForward
  dsimp only
  split <;> split <;> split <;> rfl

section Unlink

variable (h : Nat) (prevNotSelf : s.mem (h + 24) ≠ h)
  (prevApart : s.mem (h + 24) + 16 ≠ h + 24)

include prevNotSelf prevApart

theorem unlinkFree_mem :
    (s.unlinkFree h).mem = fun word =>
      if s.mem (h + 16) ≠ 0 ∧ word = s.mem (h + 16) + 24 then s.mem (h + 24)
      else if s.mem (h + 24) ≠ 0 ∧ word = s.mem (h + 24) + 16 then
        s.mem (h + 16)
      else s.mem word := by
  have apart : h + 24 ≠ s.mem (h + 24) + 16 := Ne.symm prevApart
  funext word
  unfold unlinkFree skipBackward skipForward
  by_cases first : s.mem (h + 24) = 0 <;> by_cases last : s.mem (h + 16) = 0 <;>
    simp [first, last, apart, prevNotSelf.symm, Function.update_apply]

omit prevNotSelf prevApart in
theorem unlinkFree_bins :
    (s.unlinkFree h).bins =
      if s.mem (h + 24) = 0 then
        Function.update s.bins (binIndexFor (s.runSize h)) (s.mem (h + 16))
      else s.bins := by
  unfold unlinkFree
  simp only [clearIfEmpty_bins, skipBackward_bins]
  unfold skipForward
  by_cases first : s.mem (h + 24) = 0 <;> simp [first]

omit prevNotSelf prevApart in
theorem unlinkFree_binNonemptyMask :
    (s.unlinkFree h).binNonemptyMask =
      if (s.unlinkFree h).bins (binIndexFor (s.runSize h)) = 0 then
        (s.setBinEmpty (binIndexFor (s.runSize h))).binNonemptyMask
      else s.binNonemptyMask := by
  unfold unlinkFree
  simp only [clearIfEmpty_bins, clearIfEmpty_binNonemptyMask, setBinEmpty,
    skipBackward_binNonemptyMask, skipForward_binNonemptyMask]

end Unlink

theorem linkFree_mem (h : Nat) :
    (s.linkFree h).mem = fun word =>
      if s.bins (binIndexFor (s.runSize h)) ≠ 0 ∧
          word = s.bins (binIndexFor (s.runSize h)) + 24 then h
      else if word = h + 16 then s.bins (binIndexFor (s.runSize h))
      else if word = h + 24 then 0
      else s.mem word := by
  funext word
  unfold linkFree
  by_cases empty : s.bins (binIndexFor (s.runSize h)) = 0 <;>
    simp [empty, Function.update_apply]

theorem linkFree_bins (h : Nat) :
    (s.linkFree h).bins =
      Function.update s.bins (binIndexFor (s.runSize h)) h := by
  unfold linkFree
  by_cases empty : s.bins (binIndexFor (s.runSize h)) = 0 <;> simp [empty]

theorem linkFree_binNonemptyMask (h : Nat) :
    (s.linkFree h).binNonemptyMask =
      (s.setBinNonempty (binIndexFor (s.runSize h))).binNonemptyMask := by
  unfold linkFree
  by_cases empty : s.bins (binIndexFor (s.runSize h)) = 0 <;>
    simp [empty, setBinNonempty]

theorem binBit_setBinNonempty (idx other : Nat) :
    (s.setBinNonempty idx).binBit other =
      (s.binBit other || decide (idx = other)) := by
  unfold binBit setBinNonempty binWordIndex binWordBit
  simp only [binWordBits_eq]
  by_cases sameWord : other / 64 = idx / 64
  · rw [sameWord, Function.update_self, testBit_or_shift]
    congr 1
    simp only [decide_eq_decide]
    omega
  · rw [Function.update_of_ne sameWord]
    have different : idx ≠ other := by
      rintro rfl
      exact sameWord rfl
    simp [different]

theorem binBit_setBinEmpty (idx other : Nat)
    (bounded : s.binNonemptyMask (idx / 64) < 2 ^ 64) :
    (s.setBinEmpty idx).binBit other =
      (s.binBit other && ! decide (idx = other)) := by
  unfold binBit setBinEmpty binWordIndex binWordBit
  simp only [binWordBits_eq]
  by_cases sameWord : other / 64 = idx / 64
  · rw [sameWord, Function.update_self,
      testBit_and_not_shift _ bounded (Nat.mod_lt _ (by decide))]
    congr 2
    simp only [decide_eq_decide]
    omega
  · rw [Function.update_of_ne sameWord]
    have different : idx ≠ other := by
      rintro rfl
      exact sameWord rfl
    simp [different]

theorem setBinNonempty_mask_lt {idx : Nat}
    (bounded : ∀ word, s.binNonemptyMask word < 2 ^ 64) (word : Nat) :
    (s.setBinNonempty idx).binNonemptyMask word < 2 ^ 64 := by
  unfold setBinNonempty binWordBit
  simp only [Function.update_apply]
  split
  · exact or_shift_lt (bounded _) (Nat.mod_lt _ (by decide))
  · exact bounded word

theorem setBinEmpty_mask_lt {idx : Nat}
    (bounded : ∀ word, s.binNonemptyMask word < 2 ^ 64) (word : Nat) :
    (s.setBinEmpty idx).binNonemptyMask word < 2 ^ 64 := by
  unfold setBinEmpty
  simp only [Function.update_apply]
  split
  · exact and_lt_of_left (bounded _)
  · exact bounded word

/-- `found` is the first non-empty bin from `startIdx` on, if there is one. -/
def IsFirstNonempty (startIdx found : Nat) : Prop :=
  (found < 536 → startIdx ≤ found ∧ s.binBit found = true) ∧
    ∀ idx, startIdx ≤ idx → idx < found → idx < 536 → s.binBit idx = false

private theorem isFirstNonempty_word {startIdx wordIdx word : Nat}
    (bounded : word < 2 ^ 64) (nonzero : word ≠ 0)
    (bits : ∀ bit < 64, word.testBit bit =
      (s.binBit (wordIdx * 64 + bit) &&
        decide (startIdx ≤ wordIdx * 64 + bit)))
    (earlier : ∀ idx, startIdx ≤ idx → idx < wordIdx * 64 →
      s.binBit idx = false) :
    s.IsFirstNonempty startIdx
      (let idx := wordIdx * binWordBits + countrZero binWordBits word
       if idx < binCount then idx else binCount) := by
  simp only [binWordBits_eq, binCount_eq]
  obtain ⟨below, isSet, lowClear⟩ := countrZero_spec bounded nonzero
  have clear : ∀ idx, startIdx ≤ idx →
      idx < wordIdx * 64 + countrZero 64 word →
      s.binBit idx = false := by
    intro idx lower upper
    by_cases before : idx < wordIdx * 64
    · exact earlier idx lower before
    · have low := bits (idx - wordIdx * 64) (by omega)
      rw [show wordIdx * 64 + (idx - wordIdx * 64) = idx by omega,
        lowClear _ (by omega)] at low
      simpa [lower] using low.symm
  have found := bits (countrZero 64 word) below
  rw [isSet] at found
  simp only [Bool.true_eq, Bool.and_eq_true, decide_eq_true_eq] at found
  by_cases inRange : wordIdx * 64 + countrZero 64 word < 536
  · rw [if_pos inRange]
    exact ⟨fun _ => ⟨found.2, found.1⟩,
      fun idx lower upper _ => clear idx lower upper⟩
  · rw [if_neg inRange]
    exact ⟨by simp, fun idx lower _ upper => clear idx lower (by omega)⟩

/-- The multiword scan from word `wordIdx` on, when every bin from `startIdx`
to that word is empty. -/
private theorem isFirstNonempty_firstNonemptyWord {startIdx : Nat}
    (maskBound : ∀ word, s.binNonemptyMask word < 2 ^ 64) :
    ∀ words wordIdx word : Nat, word < 2 ^ 64 → wordIdx < 9 →
      9 ≤ wordIdx + 1 + words → startIdx < wordIdx * 64 + 64 →
      (∀ bit < 64, word.testBit bit =
        (s.binBit (wordIdx * 64 + bit) &&
          decide (startIdx ≤ wordIdx * 64 + bit))) →
      (∀ idx, startIdx ≤ idx → idx < wordIdx * 64 → s.binBit idx = false) →
      s.IsFirstNonempty startIdx (s.firstNonemptyWord words wordIdx word) := by
  intro words
  induction words with
  | zero =>
      intro wordIdx word bounded wordBound enough started bits earlier
      unfold firstNonemptyWord
      by_cases empty : word = 0
      · have clear : ∀ idx, startIdx ≤ idx → idx < 536 →
            s.binBit idx = false := by
          intro idx lower upper
          by_cases before : idx < wordIdx * 64
          · exact earlier idx lower before
          · have bit := bits (idx - wordIdx * 64) (by omega)
            rw [show wordIdx * 64 + (idx - wordIdx * 64) = idx by omega,
              empty] at bit
            simpa [lower] using bit.symm
        simp only [empty, ne_eq, not_true_eq_false, if_false]
        exact ⟨by simp, fun idx lower _ upper => clear idx lower upper⟩
      · simp only [ne_eq, empty, not_false_eq_true, if_true]
        exact s.isFirstNonempty_word bounded empty bits earlier
  | succ words ih =>
      intro wordIdx word bounded wordBound enough started bits earlier
      unfold firstNonemptyWord
      by_cases empty : word = 0
      · have clear : ∀ idx, startIdx ≤ idx → idx < (wordIdx + 1) * 64 →
            s.binBit idx = false := by
          intro idx lower upper
          by_cases before : idx < wordIdx * 64
          · exact earlier idx lower before
          · have bit := bits (idx - wordIdx * 64) (by omega)
            rw [show wordIdx * 64 + (idx - wordIdx * 64) = idx by omega,
              empty] at bit
            simpa [lower] using bit.symm
        simp only [empty, ne_eq, not_true_eq_false, if_false]
        by_cases last : wordIdx + 1 ≥ binWordCount
        · rw [if_pos last]
          simp only [binWordCount_eq] at last
          exact ⟨by simp, fun idx lower _ upper => clear idx lower (by omega)⟩
        · rw [if_neg last]
          simp only [binWordCount_eq] at last
          refine ih (wordIdx + 1) _ (maskBound _) (by omega) (by omega)
            (by omega) (fun bit bitBound => ?_) clear
          have wordEq : ((wordIdx + 1) * 64 + bit) / 64 = wordIdx + 1 := by
            omega
          have bitEq : ((wordIdx + 1) * 64 + bit) % 64 = bit := by omega
          have reached : startIdx ≤ (wordIdx + 1) * 64 + bit := by omega
          simp [binBit, wordEq, bitEq, reached]
      · simp only [ne_eq, empty, not_false_eq_true, if_true]
        exact s.isFirstNonempty_word bounded empty bits earlier

theorem isFirstNonempty_firstNonemptyBinFrom
    (maskBound : ∀ word, s.binNonemptyMask word < 2 ^ 64) (startIdx : Nat) :
    s.IsFirstNonempty startIdx (s.firstNonemptyBinFrom startIdx) := by
  unfold firstNonemptyBinFrom binWordIndex
  by_cases past : startIdx ≥ binCount
  · rw [if_pos past]
    simp only [binCount_eq] at past
    exact ⟨by simp, fun idx lower upper _ => by omega⟩
  · rw [if_neg past]
    simp only [binCount_eq] at past
    simp only [binWordBits_eq]
    refine s.isFirstNonempty_firstNonemptyWord maskBound _ _ _
      (and_lt_of_left (maskBound _)) (by omega) (by simp) (by omega)
      (fun bit bitBound => ?_) (fun idx lower upper => by omega)
    rw [testBit_and_high _ (maskBound _) (by omega)]
    have wordEq : (startIdx / 64 * 64 + bit) / 64 = startIdx / 64 := by omega
    have bitEq : (startIdx / 64 * 64 + bit) % 64 = bit := by omega
    have reached : startIdx % 64 ≤ bit ↔ startIdx ≤ startIdx / 64 * 64 + bit := by
      omega
    simp [binBit, wordEq, bitEq, reached]

end State

/-- The runs of `free` are placed so that their link words can be told
apart. -/
structure Linkable (free : Set Block) : Prop where
  aligned : ∀ block ∈ free, 16 ∣ block.addr
  nonnull : ∀ block ∈ free, block.addr ≠ 0
  sizeAligned : ∀ block ∈ free, 16 ∣ block.size
  sizeBound : ∀ block ∈ free, block.size < 2 ^ 64
  injective : ∀ block ∈ free, ∀ other ∈ free,
    block.addr = other.addr → block = other

theorem Linkable.mono {free larger : Set Block} (subset : free ⊆ larger)
    (linkable : Linkable larger) : Linkable free where
  aligned block member := linkable.aligned block (subset member)
  nonnull block member := linkable.nonnull block (subset member)
  sizeAligned block member := linkable.sizeAligned block (subset member)
  sizeBound block member := linkable.sizeBound block (subset member)
  injective block member other otherMember :=
    linkable.injective block (subset member) other (subset otherMember)

/-- A word holding a bin link of a run of `free`. -/
def LinkWord (free : Set Block) (word : Nat) : Prop :=
  ∃ block ∈ free, word = block.addr + 16 ∨ word = block.addr + 24

theorem LinkWord.mono {free larger : Set Block} (subset : free ⊆ larger)
    {word : Nat} (isLink : LinkWord free word) : LinkWord larger word := by
  obtain ⟨block, member, place⟩ := isLink
  exact ⟨block, subset member, place⟩

theorem LinkWord.of_insert {free : Set Block} {block : Block} {word : Nat}
    (isLink : LinkWord (insert block free) word) :
    (word = block.addr + 16 ∨ word = block.addr + 24) ∨ LinkWord free word := by
  obtain ⟨run, rfl | member, place⟩ := isLink
  · exact Or.inl place
  · exact Or.inr ⟨run, member, place⟩

/-- The bins, links and mask of the state index exactly the runs of `free`;
`binned idx` lists the addresses in bin `idx`. -/
structure FreeIndex (s : State) (binned : Nat → List Nat)
    (free : Set Block) : Prop where
  deque : ∀ idx < 536,
    IsDeque (fun h => s.mem (h + 16)) (fun h => s.mem (h + 24)) 0
      (s.bins idx) (binned idx)
  mem_iff : ∀ idx < 536, ∀ h, h ∈ binned idx ↔
    ∃ block ∈ free, block.addr = h ∧ binIndexFor block.size = idx
  maskBound : ∀ word, s.binNonemptyMask word < 2 ^ 64
  maskBit : ∀ idx < 576,
    s.binBit idx = true ↔ idx < 536 ∧ s.bins idx ≠ 0

namespace FreeIndex

variable {s s' : State} {binned : Nat → List Nat} {free : Set Block}

/-- An index only depends on the bins, the mask and the link words. -/
theorem congr (index : FreeIndex s binned free) (bins : s'.bins = s.bins)
    (mask : s'.binNonemptyMask = s.binNonemptyMask)
    (links : ∀ word, LinkWord free word → s'.mem word = s.mem word) :
    FreeIndex s' binned free where
  deque idx bound := by
    rw [bins]
    refine (index.deque idx bound).congr (fun h member => ?_)
      fun h member => ?_
    · obtain ⟨block, inFree, rfl, _⟩ := (index.mem_iff idx bound h).mp member
      exact links _ ⟨block, inFree, Or.inl rfl⟩
    · obtain ⟨block, inFree, rfl, _⟩ := (index.mem_iff idx bound h).mp member
      exact links _ ⟨block, inFree, Or.inr rfl⟩
  mem_iff := index.mem_iff
  maskBound := by rw [mask]; exact index.maskBound
  maskBit idx bound := by
    rw [bins, show s'.binBit idx = s.binBit idx by
      unfold State.binBit; rw [mask]]
    exact index.maskBit idx bound

theorem nodup (index : FreeIndex s binned free) {idx : Nat}
    (bound : idx < 536) : (binned idx).Nodup :=
  (index.deque idx bound).isStack.nodup

section Unlink

variable (index : FreeIndex s binned free) (linkable : Linkable free)
  {block : Block} (member : block ∈ free)
  (size : s.runSize block.addr = block.size)

include index linkable member

theorem exists_split :
    binIndexFor block.size < 536 ∧ ∃ front back,
      binned (binIndexFor block.size) = front ++ block.addr :: back ∧
        IsDeque (fun h => s.mem (h + 16)) (fun h => s.mem (h + 24)) 0
          (s.bins (binIndexFor block.size)) (front ++ block.addr :: back) := by
  have bound : binIndexFor block.size < 536 :=
    binIndexFor_lt (linkable.sizeAligned block member)
      (linkable.sizeBound block member)
  have listed : block.addr ∈ binned (binIndexFor block.size) :=
    (index.mem_iff _ bound _).mpr ⟨block, member, rfl, rfl⟩
  obtain ⟨front, back, split⟩ := List.append_of_mem listed
  exact ⟨bound, front, back, split, split ▸ index.deque _ bound⟩

theorem neighbour_mem {word : Nat}
    (neighbour : word = s.mem (block.addr + 16) ∨
      word = s.mem (block.addr + 24)) (nonnull : word ≠ 0) :
    ∃ other ∈ free \ {block}, other.addr = word ∧
      binIndexFor other.size = binIndexFor block.size := by
  obtain ⟨bound, front, back, split, deque⟩ :=
    index.exists_split linkable member
  have nodup := deque.isStack.nodup
  have inList : word ∈ front ∨ word ∈ back := by
    rcases neighbour with rfl | rfl
    · exact Or.inr (deque.next_mem_back.resolve_left nonnull)
    · exact Or.inl (deque.prev_mem_front.resolve_left nonnull)
  have listed : word ∈ binned (binIndexFor block.size) := by
    rw [split]
    rcases inList with early | late <;> simp [*]
  obtain ⟨other, otherMember, addrEq, sameBin⟩ :=
    (index.mem_iff _ bound _).mp listed
  refine ⟨other, ⟨otherMember, ?_⟩, addrEq, sameBin⟩
  rintro rfl
  rw [← addrEq] at inList
  have := List.nodup_middle.mp nodup
  simp only [List.nodup_cons, List.mem_append] at this
  exact this.1 inList

theorem prev_ne_self : s.mem (block.addr + 24) ≠ block.addr := by
  intro same
  have nonnull := linkable.nonnull block member
  obtain ⟨other, otherMember, addrEq, _⟩ := index.neighbour_mem linkable member
    (Or.inr rfl) (by rw [same]; exact nonnull)
  exact otherMember.2 (linkable.injective other otherMember.1 block member
    (addrEq.trans same))

theorem prev_apart :
    s.mem (block.addr + 24) + 16 ≠ block.addr + 24 := by
  intro same
  have aligned := linkable.aligned block member
  obtain ⟨other, otherMember, addrEq, _⟩ := index.neighbour_mem linkable member
    (Or.inr rfl) (by omega)
  have otherAligned := linkable.aligned other otherMember.1
  omega

/-- Unlinking changes only link words of runs that stay in the index. -/
theorem unlinkFree_frame {word : Nat}
    (notLink : ¬ LinkWord (free \ {block}) word) :
    (s.unlinkFree block.addr).mem word = s.mem word := by
  rw [s.unlinkFree_mem _ (index.prev_ne_self linkable member)
    (index.prev_apart linkable member)]
  by_cases isNext : s.mem (block.addr + 16) ≠ 0 ∧
      word = s.mem (block.addr + 16) + 24
  · obtain ⟨other, otherMember, addrEq, _⟩ := index.neighbour_mem linkable member
      (Or.inl rfl) isNext.1
    exact absurd ⟨other, otherMember, Or.inr (by omega)⟩ notLink
  by_cases isPrev : s.mem (block.addr + 24) ≠ 0 ∧
      word = s.mem (block.addr + 24) + 16
  · obtain ⟨other, otherMember, addrEq, _⟩ := index.neighbour_mem linkable member
      (Or.inr rfl) isPrev.1
    exact absurd ⟨other, otherMember, Or.inl (by omega)⟩ notLink
  simp only [if_neg isNext, if_neg isPrev]

include size

/-- Unlinking a run takes it out of its bin. -/
theorem unlinkFree :
    FreeIndex (s.unlinkFree block.addr)
      (Function.update binned (binIndexFor block.size)
        ((binned (binIndexFor block.size)).erase block.addr))
      (free \ {block}) := by
  have memEq := s.unlinkFree_mem block.addr
    (index.prev_ne_self linkable member) (index.prev_apart linkable member)
  have binsEq := s.unlinkFree_bins block.addr
  have maskEq := s.unlinkFree_binNonemptyMask block.addr
  rw [size] at binsEq maskEq
  obtain ⟨bound, front, back, split, deque⟩ :=
    index.exists_split linkable member
  generalize idxEq : binIndexFor block.size = idx at *
  have nodup := deque.isStack.nodup
  have notListed : block.addr ∉ front ++ back := by
    have := List.nodup_middle.mp nodup
    exact (List.nodup_cons.mp this).1
  have erased : (binned idx).erase block.addr = front ++ back := by
    rw [split, List.erase_append_right _ (by
      intro early
      exact notListed (by simp [early])), List.erase_cons_head]
  have nextAligned : 16 ∣ s.mem (block.addr + 16) := by
    by_cases null : s.mem (block.addr + 16) = 0
    · simp [null]
    · obtain ⟨other, otherMember, addrEq, _⟩ :=
        index.neighbour_mem linkable member (Or.inl rfl) null
      exact addrEq ▸ linkable.aligned other otherMember.1
  have prevAligned : 16 ∣ s.mem (block.addr + 24) := by
    by_cases null : s.mem (block.addr + 24) = 0
    · simp [null]
    · obtain ⟨other, otherMember, addrEq, _⟩ :=
        index.neighbour_mem linkable member (Or.inr rfl) null
      exact addrEq ▸ linkable.aligned other otherMember.1
  have nextWord : ∀ h, 16 ∣ h → h ≠ 0 →
      (s.unlinkFree block.addr).mem (h + 16) =
        if h = s.mem (block.addr + 24) then s.mem (block.addr + 16)
        else s.mem (h + 16) := by
    intro h aligned nonnull
    rw [memEq]
    have notNext : ¬ (s.mem (block.addr + 16) ≠ 0 ∧
        h + 16 = s.mem (block.addr + 16) + 24) := by omega
    dsimp only
    rw [if_neg notNext]
    by_cases isPrev : h = s.mem (block.addr + 24)
    · rw [if_pos ⟨by omega, by omega⟩, if_pos isPrev]
    · rw [if_neg (fun both => isPrev (by omega)), if_neg isPrev]
  have prevWord : ∀ h, 16 ∣ h → h ≠ 0 →
      (s.unlinkFree block.addr).mem (h + 24) =
        if h = s.mem (block.addr + 16) then s.mem (block.addr + 24)
        else s.mem (h + 24) := by
    intro h aligned nonnull
    rw [memEq]
    have notPrev : ¬ (s.mem (block.addr + 24) ≠ 0 ∧
        h + 24 = s.mem (block.addr + 24) + 16) := by omega
    dsimp only
    by_cases isNext : h = s.mem (block.addr + 16)
    · rw [if_pos ⟨by omega, by omega⟩, if_pos isNext]
    · rw [if_neg (fun both => isNext (by omega)), if_neg notPrev,
        if_neg isNext]
  have listedSpec : ∀ other < 536, ∀ h ∈ binned other,
      16 ∣ h ∧ h ≠ 0 ∧ (other ≠ idx → h ≠ s.mem (block.addr + 16) ∧
        h ≠ s.mem (block.addr + 24)) := by
    intro other otherBound h listed
    obtain ⟨run, runMember, rfl, runBin⟩ :=
      (index.mem_iff other otherBound h).mp listed
    have nonnull := linkable.nonnull run runMember
    refine ⟨linkable.aligned run runMember, nonnull, fun different => ?_⟩
    constructor <;> intro same
    · obtain ⟨near, nearMember, addrEq, sameBin⟩ := index.neighbour_mem linkable
        member (Or.inl rfl) (same ▸ nonnull)
      rw [linkable.injective run runMember near nearMember.1
        (same.trans addrEq.symm)] at runBin
      omega
    · obtain ⟨near, nearMember, addrEq, sameBin⟩ := index.neighbour_mem linkable
        member (Or.inr rfl) (same ▸ nonnull)
      rw [linkable.injective run runMember near nearMember.1
        (same.trans addrEq.symm)] at runBin
      omega
  have binsOther : ∀ other, other ≠ idx →
      (s.unlinkFree block.addr).bins other = s.bins other := by
    intro other different
    rw [binsEq]
    split
    · exact Function.update_of_ne different _ _
    · rfl
  refine ⟨fun other otherBound => ?_, fun other otherBound h => ?_,
    fun word => ?_, fun other otherBound => ?_⟩
  · by_cases same : other = idx
    · subst same
      have inBin : ∀ h ∈ front ++ back, h ∈ binned other := by
        intro h listed
        rw [split]
        rcases List.mem_append.mp listed with early | late <;> simp [*]
      have headEq : (s.unlinkFree block.addr).bins other =
          if s.mem (block.addr + 24) = 0 then s.mem (block.addr + 16)
          else s.bins other := by
        rw [binsEq]
        split <;> simp
      rw [Function.update_self, erased, headEq]
      refine deque.unlink (fun zero => deque.isStack.ne_zero 0 zero rfl)
        (fun h listed => ?_) fun h listed => ?_
      · obtain ⟨aligned, nonnull, _⟩ := listedSpec other bound h (inBin h listed)
        exact nextWord h aligned nonnull
      · obtain ⟨aligned, nonnull, _⟩ := listedSpec other bound h (inBin h listed)
        exact prevWord h aligned nonnull
    · rw [Function.update_of_ne same, binsOther other same]
      refine (index.deque other otherBound).congr (fun h listed => ?_)
        fun h listed => ?_
      · obtain ⟨aligned, nonnull, apart⟩ := listedSpec other otherBound h listed
        rw [nextWord h aligned nonnull, if_neg (apart same).2]
      · obtain ⟨aligned, nonnull, apart⟩ := listedSpec other otherBound h listed
        rw [prevWord h aligned nonnull, if_neg (apart same).1]
  · by_cases same : other = idx
    · subst same
      rw [Function.update_self, (index.nodup otherBound).mem_erase_iff,
        index.mem_iff other otherBound]
      constructor
      · rintro ⟨different, run, runMember, rfl, runBin⟩
        exact ⟨run, ⟨runMember, fun isBlock => different (by rw [isBlock])⟩,
          rfl, runBin⟩
      · rintro ⟨run, ⟨runMember, notBlock⟩, rfl, runBin⟩
        exact ⟨fun sameAddr => notBlock
          (linkable.injective run runMember block member sameAddr),
          run, runMember, rfl, runBin⟩
    · rw [Function.update_of_ne same, index.mem_iff other otherBound]
      constructor
      · rintro ⟨run, runMember, rfl, runBin⟩
        refine ⟨run, ⟨runMember, ?_⟩, rfl, runBin⟩
        rintro rfl
        exact same (runBin.symm.trans idxEq)
      · rintro ⟨run, runMember, rfl, runBin⟩
        exact ⟨run, runMember.1, rfl, runBin⟩
  · rw [maskEq]
    split
    · exact s.setBinEmpty_mask_lt index.maskBound word
    · exact index.maskBound word
  · have oldBit := index.maskBit other otherBound
    have oldNonempty : s.bins idx ≠ 0 := by
      intro null
      have := deque.isStack.eq_nil_iff.mpr null
      simp at this
    have newBit : (s.unlinkFree block.addr).binBit other =
        (s.binBit other &&
          ! decide (idx = other ∧ (s.unlinkFree block.addr).bins idx = 0)) := by
      by_cases emptied : (s.unlinkFree block.addr).bins idx = 0
      · rw [if_pos emptied] at maskEq
        have := s.binBit_setBinEmpty idx other (index.maskBound _)
        unfold State.binBit at this ⊢
        rw [maskEq, this]
        simp [emptied]
      · rw [if_neg emptied] at maskEq
        unfold State.binBit
        rw [maskEq]
        simp [emptied]
    rw [newBit]
    by_cases same : other = idx
    · subst same
      by_cases emptied : (s.unlinkFree block.addr).bins other = 0
      · simp [emptied]
      · simp [emptied, oldBit, oldNonempty]
    · rw [binsOther other same, ← oldBit]
      simp [Ne.symm same]

end Unlink

section Link

variable (index : FreeIndex s binned free) {block : Block}
  (linkable : Linkable (insert block free))
  (size : s.runSize block.addr = block.size)

include index linkable

omit linkable in
/-- The head of a non-empty bin is a run of the index. -/
theorem head_mem {idx : Nat} (bound : idx < 536)
    (nonempty : s.bins idx ≠ 0) :
    s.bins idx ∈ binned idx ∧
      ∃ run ∈ free, run.addr = s.bins idx ∧ binIndexFor run.size = idx := by
  have listed : s.bins idx ∈ binned idx := by
    have deque := index.deque idx bound
    cases nodes : binned idx with
    | nil =>
        rw [nodes] at deque
        exact absurd deque nonempty
    | cons node rest =>
        rw [nodes] at deque
        simp [deque.1]
  exact ⟨listed, (index.mem_iff idx bound _).mp listed⟩

include size

/-- Linking changes only link words of runs of the new index. -/
theorem linkFree_frame {word : Nat}
    (notLink : ¬ LinkWord (insert block free) word) :
    (s.linkFree block.addr).mem word = s.mem word := by
  have bound : binIndexFor block.size < 536 :=
    binIndexFor_lt (linkable.sizeAligned block (by simp))
      (linkable.sizeBound block (by simp))
  rw [s.linkFree_mem, size]
  dsimp only
  by_cases isHead : s.bins (binIndexFor block.size) ≠ 0 ∧
      word = s.bins (binIndexFor block.size) + 24
  · obtain ⟨_, run, runMember, addrEq, _⟩ := index.head_mem bound isHead.1
    exact absurd ⟨run, Or.inr runMember, Or.inr (by omega)⟩ notLink
  rw [if_neg isHead, if_neg, if_neg]
  · rintro rfl
    exact notLink ⟨block, Or.inl rfl, Or.inr rfl⟩
  · rintro rfl
    exact notLink ⟨block, Or.inl rfl, Or.inl rfl⟩

/-- Linking a run puts it in front of its bin. -/
theorem linkFree (fresh : block ∉ free) :
    FreeIndex (s.linkFree block.addr)
      (Function.update binned (binIndexFor block.size)
        (block.addr :: binned (binIndexFor block.size)))
      (insert block free) := by
  have memEq := s.linkFree_mem block.addr
  have binsEq := s.linkFree_bins block.addr
  have maskEq := s.linkFree_binNonemptyMask block.addr
  rw [size] at memEq binsEq maskEq
  have bound : binIndexFor block.size < 536 :=
    binIndexFor_lt (linkable.sizeAligned block (by simp))
      (linkable.sizeBound block (by simp))
  have aligned := linkable.aligned block (by simp)
  have nonnull := linkable.nonnull block (by simp)
  have notListed : ∀ other < 536, block.addr ∉ binned other := by
    intro other otherBound listed
    obtain ⟨run, runMember, addrEq, _⟩ :=
      (index.mem_iff other otherBound _).mp listed
    exact fresh (linkable.injective run (Or.inr runMember) block (Or.inl rfl)
      addrEq ▸ runMember)
  generalize idxEq : binIndexFor block.size = idx at *
  have headAligned : 16 ∣ s.bins idx := by
    by_cases null : s.bins idx = 0
    · simp [null]
    · obtain ⟨_, run, runMember, addrEq, _⟩ := index.head_mem bound null
      exact addrEq ▸ linkable.aligned run (Or.inr runMember)
  have nextWord : ∀ h, 16 ∣ h → h ≠ block.addr →
      (s.linkFree block.addr).mem (h + 16) = s.mem (h + 16) := by
    intro h hAligned different
    rw [memEq]
    dsimp only
    rw [if_neg (by omega), if_neg (by omega), if_neg (by omega)]
  have prevWord : ∀ h, 16 ∣ h → h ≠ block.addr → h ≠ s.bins idx →
      (s.linkFree block.addr).mem (h + 24) = s.mem (h + 24) := by
    intro h hAligned different notHead
    rw [memEq]
    dsimp only
    rw [if_neg (by omega), if_neg (by omega), if_neg (by omega)]
  have listedSpec : ∀ other < 536, ∀ h ∈ binned other,
      16 ∣ h ∧ h ≠ block.addr ∧ (other ≠ idx → h ≠ s.bins idx) := by
    intro other otherBound h listed
    have different : h ≠ block.addr := by
      rintro rfl
      exact notListed other otherBound listed
    obtain ⟨run, runMember, rfl, runBin⟩ :=
      (index.mem_iff other otherBound h).mp listed
    refine ⟨linkable.aligned run (Or.inr runMember), different,
      fun otherBin same => ?_⟩
    obtain ⟨_, head, headMember, headAddr, headBin⟩ :=
      index.head_mem bound (same ▸ linkable.nonnull run (Or.inr runMember))
    rw [linkable.injective run (Or.inr runMember) head (Or.inr headMember)
      (same.trans headAddr.symm)] at runBin
    omega
  refine ⟨fun other otherBound => ?_, fun other otherBound h => ?_,
    fun word => ?_, fun other otherBound => ?_⟩
  · by_cases same : other = idx
    · subst same
      have headEq : (s.linkFree block.addr).bins other = block.addr := by
        rw [binsEq, Function.update_self]
      rw [Function.update_self, headEq]
      refine (index.deque other otherBound).push nonnull
        (notListed other otherBound) ?_ ?_ (fun h listed => ?_)
        (fun notNull => ?_) fun h listed notHead => ?_
      · rw [memEq]
        dsimp only
        rw [if_neg (by omega), if_pos rfl]
      · rw [memEq]
        dsimp only
        have apart : ¬ (s.bins other ≠ 0 ∧
            block.addr + 24 = s.bins other + 24) := by
          rintro ⟨notNull, same⟩
          obtain ⟨listed, _⟩ := index.head_mem otherBound notNull
          exact notListed other otherBound
            ((by omega : s.bins other = block.addr) ▸ listed)
        rw [if_neg apart, if_neg (by omega), if_pos rfl]
      · obtain ⟨hAligned, different, _⟩ := listedSpec other otherBound h listed
        exact nextWord h hAligned different
      · rw [memEq]
        dsimp only
        rw [if_pos ⟨notNull, rfl⟩]
      · obtain ⟨hAligned, different, _⟩ := listedSpec other otherBound h listed
        exact prevWord h hAligned different notHead
    · rw [Function.update_of_ne same]
      rw [binsEq, Function.update_of_ne same]
      refine (index.deque other otherBound).congr (fun h listed => ?_)
        fun h listed => ?_
      · obtain ⟨hAligned, different, _⟩ := listedSpec other otherBound h listed
        exact nextWord h hAligned different
      · obtain ⟨hAligned, different, notHead⟩ :=
          listedSpec other otherBound h listed
        exact prevWord h hAligned different (notHead same)
  · by_cases same : other = idx
    · subst same
      rw [Function.update_self, List.mem_cons, index.mem_iff other otherBound]
      constructor
      · rintro (rfl | ⟨run, runMember, addrEq, runBin⟩)
        · exact ⟨block, Or.inl rfl, rfl, idxEq⟩
        · exact ⟨run, Or.inr runMember, addrEq, runBin⟩
      · rintro ⟨run, rfl | runMember, rfl, runBin⟩
        · exact Or.inl rfl
        · exact Or.inr ⟨run, runMember, rfl, runBin⟩
    · rw [Function.update_of_ne same, index.mem_iff other otherBound]
      constructor
      · rintro ⟨run, runMember, addrEq, runBin⟩
        exact ⟨run, Or.inr runMember, addrEq, runBin⟩
      · rintro ⟨run, rfl | runMember, addrEq, runBin⟩
        · exact absurd (runBin.symm.trans idxEq) same
        · exact ⟨run, runMember, addrEq, runBin⟩
  · rw [maskEq]
    exact s.setBinNonempty_mask_lt index.maskBound word
  · have newBit : (s.linkFree block.addr).binBit other =
        (s.binBit other || decide (idx = other)) := by
      have := s.binBit_setBinNonempty idx other
      unfold State.binBit at this ⊢
      rw [maskEq, this]
    have oldBit := index.maskBit other otherBound
    rw [newBit, binsEq]
    by_cases same : other = idx
    · subst same
      simp [bound, nonnull]
    · rw [Function.update_of_ne same, ← oldBit]
      simp [Ne.symm same]

end Link

end FreeIndex

end Runner

end Allocazam
