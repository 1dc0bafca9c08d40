import Allocazam.RunnerLayout
import Allocazam.RunnerOperations

/-!
# Reading and rewriting boundary tags

What the header accessors return on tagged memory, and the specifications of
the three compound updates of the source: making a free remainder, handing out
a run whole and marking a coalesced run free.
-/

namespace Allocazam

namespace Runner

variable {cfg : Config} {s : State} {before : Bool}

/-- A block whose size can be packed into a header word. -/
def Packable (block : Block) : Prop :=
  block.kind ≠ .fence → 48 ≤ block.size ∧ 16 ∣ block.size ∧ block.size < 2 ^ 64

theorem LayoutOk.packable {chunks : List ChunkNode} {blocks : List Block}
    (layout : LayoutOk chunks blocks) {block : Block}
    (member : block ∈ blocks) : Packable block := by
  intro notFence
  obtain ⟨large, aligned⟩ := layout.sizes block member notFence
  exact ⟨large, aligned, layout.size_lt member⟩

namespace BlockTagged

variable {block : Block} (tagged : BlockTagged cfg s.mem before block)
  (packable : Packable block)

include tagged

theorem header (notFence : block.kind ≠ .fence) :
    s.mem block.addr = pack block.size block.isFree before := by
  unfold BlockTagged at tagged
  unfold Block.isFree
  cases kind : block.kind
  · simp only [kind] at tagged
    exact tagged.1
  · simp only [kind] at tagged
    exact tagged.1
  · exact absurd kind notFence

include packable

theorem runSize (notFence : block.kind ≠ .fence) :
    s.runSize block.addr = block.size := by
  obtain ⟨_, aligned, bounded⟩ := packable notFence
  unfold State.runSize
  rw [tagged.header notFence]
  exact sizeField_pack (Nat.dvd_trans (by decide) aligned) bounded _ _

theorem isFree (notFence : block.kind ≠ .fence) :
    s.isFree block.addr = block.isFree := by
  obtain ⟨_, aligned, _⟩ := packable notFence
  unfold State.isFree
  rw [tagged.header notFence]
  exact flag_isFree_pack (Nat.dvd_trans (by decide) aligned) _ _

theorem prevIsFree (notFence : block.kind ≠ .fence) :
    s.prevIsFree block.addr = before := by
  obtain ⟨_, aligned, _⟩ := packable notFence
  unfold State.prevIsFree
  rw [tagged.header notFence]
  exact flag_prevIsFree_pack (Nat.dvd_trans (by decide) aligned) _ _

omit packable in
theorem runSize_fence (isFence : block.kind = .fence) :
    s.runSize block.addr = 0 := by
  unfold BlockTagged at tagged
  rw [isFence] at tagged
  unfold State.runSize
  rw [tagged]
  exact sizeField_pack (by decide) (by decide) _ _

/-- `_next_run` finds the block behind a run unless it is the epilogue. -/
theorem nextRun {h : Nat} (adjacent : block.addr = h + s.runSize h) :
    s.nextRun h = if block.kind = .fence then 0 else block.addr := by
  unfold State.nextRun
  dsimp only
  rw [← adjacent]
  by_cases isFence : block.kind = .fence
  · rw [if_pos (tagged.runSize_fence isFence), if_pos isFence]
  · have size := tagged.runSize packable isFence
    have := (packable isFence).1
    rw [if_neg (by omega), if_neg isFence]

end BlockTagged

theorem setPrevFree_mem {h size : Nat} {free flag prevFree : Bool}
    (header : s.mem h = pack size free prevFree) (aligned : 4 ∣ size)
    (bounded : size < 2 ^ 64) :
    (s.setPrevFree h flag).mem =
      Function.update s.mem h (pack size free flag) := by
  have current : s.prevIsFree h = prevFree := by
    unfold State.prevIsFree
    rw [header]
    exact flag_prevIsFree_pack aligned _ _
  unfold State.setPrevFree
  rw [current]
  cases prevFree <;> cases flag <;> simp only [Bool.false_eq_true,
    Bool.true_eq_false, if_true, if_false, State.write_mem]
  · rw [← header, Function.update_eq_self]
  · rw [header, pack_or_prevIsFree]
  · rw [header, pack_and_not_prevIsFree aligned bounded]
  · rw [← header, Function.update_eq_self]

@[simp] theorem setPrevFree_bins (h : Nat) (flag : Bool) :
    (s.setPrevFree h flag).bins = s.bins := by
  unfold State.setPrevFree
  split <;> [rfl; split <;> rfl]

@[simp] theorem setPrevFree_binNonemptyMask (h : Nat) (flag : Bool) :
    (s.setPrevFree h flag).binNonemptyMask = s.binNonemptyMask := by
  unfold State.setPrevFree
  split <;> [rfl; split <;> rfl]

@[simp] theorem flagNextRun_bins (h : Nat) (flag : Bool) :
    (s.flagNextRun h flag).bins = s.bins := by
  unfold State.flagNextRun
  dsimp only
  split <;> simp

@[simp] theorem flagNextRun_binNonemptyMask (h : Nat) (flag : Bool) :
    (s.flagNextRun h flag).binNonemptyMask = s.binNonemptyMask := by
  unfold State.flagNextRun
  dsimp only
  split <;> simp

@[simp] theorem setPrevFree_outer (h : Nat) (flag : Bool) :
    (s.setPrevFree h flag).outer = s.outer := by
  unfold State.setPrevFree
  split <;> [rfl; split <;> rfl]

@[simp] theorem setPrevFree_stats (h : Nat) (flag : Bool) :
    (s.setPrevFree h flag).stats = s.stats := by
  unfold State.setPrevFree
  split <;> [rfl; split <;> rfl]

@[simp] theorem flagNextRun_outer (h : Nat) (flag : Bool) :
    (s.flagNextRun h flag).outer = s.outer := by
  unfold State.flagNextRun
  dsimp only
  split <;> simp

@[simp] theorem flagNextRun_stats (h : Nat) (flag : Bool) :
    (s.flagNextRun h flag).stats = s.stats := by
  unfold State.flagNextRun
  dsimp only
  split <;> simp

section FlagNextRun

variable {next : Block} {h : Nat} (flag : Bool)
  (tagged : BlockTagged cfg s.mem before next) (packable : Packable next)
  (positive : 0 < next.addr) (adjacent : next.addr = h + s.runSize h)

include tagged packable positive adjacent

theorem flagNextRun_mem :
    (s.flagNextRun h flag).mem =
      if next.kind = .fence then s.mem
      else Function.update s.mem next.addr (pack next.size next.isFree flag) := by
  unfold State.flagNextRun
  dsimp only
  rw [tagged.nextRun packable adjacent]
  by_cases isFence : next.kind = .fence
  · simp [isFence]
  · obtain ⟨_, aligned, bounded⟩ := packable isFence
    rw [if_neg isFence, if_pos (by omega), if_neg isFence]
    exact setPrevFree_mem (tagged.header isFence)
      (Nat.dvd_trans (by decide) aligned) bounded

theorem flagNextRun_frame {word : Nat} (notHeader : word ≠ next.addr) :
    (s.flagNextRun h flag).mem word = s.mem word := by
  rw [flagNextRun_mem flag tagged packable positive adjacent]
  split
  · rfl
  · exact Function.update_of_ne notHeader _ _

theorem flagNextRun_tagged :
    BlockTagged cfg (s.flagNextRun h flag).mem flag next := by
  rw [flagNextRun_mem flag tagged packable positive adjacent]
  cases kind : next.kind
  case fence =>
    unfold BlockTagged at tagged ⊢
    simpa [kind] using tagged
  case free =>
    have large := (packable (by rw [kind]; decide)).1
    unfold BlockTagged Block.isFree Block.stop at *
    simp only [kind] at tagged ⊢
    have apart : next.addr + next.size - 8 ≠ next.addr := by omega
    simp [Function.update_of_ne apart, tagged.2]
  case used =>
    have notFree : next.isFree = false := by simp [Block.isFree, kind]
    unfold BlockTagged at *
    simp only [kind, notFree] at tagged ⊢
    simp [tagged.2]

end FlagNextRun

/-- The run `block` and the block `next` behind it, apart from every link word
of the index. -/
structure Splice (cfg : Config) (s : State) (free : Set Block)
    (block next : Block) (before : Bool) : Prop where
  packable : 48 ≤ block.size ∧ 16 ∣ block.size ∧ block.size < 2 ^ 64
  aligned : 16 ∣ block.addr
  adjacent : next.addr = block.stop
  nextTagged : BlockTagged cfg s.mem before next
  nextPackable : Packable next
  nextLarge : 16 ≤ next.size
  positive : 0 < block.addr
  noLink : ∀ word, block.Holds word ∨ TagWord next word → ¬ LinkWord free word
  linkable : Linkable (insert block free)

namespace Splice

variable {free : Set Block} {binned : Nat → List Nat} {block next : Block}

theorem congr {s' : State} (splice : Splice cfg s free block next before)
    (agrees : ∀ word, TagWord next word → s'.mem word = s.mem word) :
    Splice cfg s' free block next before :=
  { splice with nextTagged := splice.nextTagged.congr agrees }

theorem packed (splice : Splice cfg s free block next before)
    (isFree prevIsFree : Bool) :
    sizeField (pack block.size isFree prevIsFree) = block.size :=
  sizeField_pack (Nat.dvd_trans (by decide) splice.packable.2.1)
    splice.packable.2.2 _ _

theorem markFree {flag : Bool} (splice : Splice cfg s free block next before)
    (index : FreeIndex s binned free) (isFree : block.kind = .free) :
    let marked := (s.setHeader block.addr block.size true flag).writeFooter
      block.addr
    Splice cfg marked free block next before ∧
      FreeIndex marked binned free ∧
        BlockTagged cfg marked.mem flag block ∧
          (∀ word, word ≠ block.addr → word ≠ block.stop - 8 →
            marked.mem word = s.mem word) ∧
            marked.outer = s.outer ∧ marked.stats = s.stats := by
  have size := splice.packed true flag
  have large := splice.packable.1
  have stopEq : block.stop = block.addr + block.size := rfl
  have adjacent := splice.adjacent
  have nextStop : next.stop = next.addr + next.size := rfl
  have nextLarge := splice.nextLarge
  have footerApart : block.addr ≠ block.stop - 8 := by omega
  dsimp only
  have memEq : ((s.setHeader block.addr block.size true flag).writeFooter
      block.addr).mem = Function.update
        (Function.update s.mem block.addr (pack block.size true flag))
        (block.stop - 8) block.size := by
    simp [State.writeFooter, State.setHeader, State.footerPtr, State.runSize,
      size, stopEq]
  have frame : ∀ word, word ≠ block.addr → word ≠ block.stop - 8 →
      ((s.setHeader block.addr block.size true flag).writeFooter
        block.addr).mem word = s.mem word := by
    intro word notHeader notFooter
    rw [memEq, Function.update_of_ne notFooter, Function.update_of_ne notHeader]
  refine ⟨splice.congr fun word isTag => frame word ?_ ?_,
    index.congr rfl rfl fun word isLink => frame word ?_ ?_, ?_, frame, rfl,
    rfl⟩
  · rcases isTag.place with rfl | rfl | rfl <;> omega
  · rcases isTag.place with rfl | rfl | rfl <;> omega
  · rintro rfl
    exact splice.noLink _ (Or.inl ⟨by omega, by omega⟩) isLink
  · rintro rfl
    exact splice.noLink _ (Or.inl ⟨by omega, by omega⟩) isLink
  · unfold BlockTagged
    rw [isFree, memEq]
    refine ⟨?_, Function.update_self _ _ _⟩
    rw [Function.update_of_ne footerApart, Function.update_self]

/-- A word of the run or a tag of the next one is a link word only as a link of
the run itself. -/
theorem linkWord_insert (splice : Splice cfg s free block next before)
    {word : Nat} (place : block.Holds word ∨ TagWord next word)
    (isLink : LinkWord (insert block free) word) :
    word = block.addr + 16 ∨ word = block.addr + 24 := by
  exact isLink.of_insert.resolve_right (splice.noLink word place)

theorem not_linkWord_of_tagWord (splice : Splice cfg s free block next before)
    {word : Nat} (isTag : TagWord block word ∨ TagWord next word) :
    ¬ LinkWord (insert block free) word := by
  have large := splice.packable.1
  have stopEq : block.stop = block.addr + block.size := rfl
  have adjacent := splice.adjacent
  have nextStop : next.stop = next.addr + next.size := rfl
  have nextLarge := splice.nextLarge
  intro isLink
  have place : block.Holds word ∨ TagWord next word := by
    rcases isTag with own | nextTag
    · left
      unfold Block.Holds
      rcases own.place with rfl | rfl | rfl <;> omega
    · exact Or.inr nextTag
  have spot := splice.linkWord_insert place isLink
  rcases isTag with own | nextTag
  · rcases own.place with own | own | own <;> omega
  · rcases nextTag.place with own | own | own <;> omega

theorem link {flag : Bool} (splice : Splice cfg s free block next before)
    (index : FreeIndex s binned free) (isFree : block.kind = .free)
    (tagged : BlockTagged cfg s.mem flag block) (fresh : block ∉ free) :
    Splice cfg (s.linkFree block.addr) free block next before ∧
      FreeIndex (s.linkFree block.addr)
        (Function.update binned (binIndexFor block.size)
          (block.addr :: binned (binIndexFor block.size)))
        (insert block free) ∧
        BlockTagged cfg (s.linkFree block.addr).mem flag block ∧
          ∀ word, ¬ LinkWord (insert block free) word →
            (s.linkFree block.addr).mem word = s.mem word := by
  have notFence : block.kind ≠ .fence := by rw [isFree]; decide
  have size := tagged.runSize (fun _ => splice.packable) notFence
  have frame : ∀ word, ¬ LinkWord (insert block free) word →
      (s.linkFree block.addr).mem word = s.mem word :=
    fun word => index.linkFree_frame splice.linkable size
  refine ⟨splice.congr fun word isTag => frame word ?_,
    index.linkFree splice.linkable size fresh,
    tagged.congr fun word isTag => frame word ?_, frame⟩
  · exact splice.not_linkWord_of_tagWord (Or.inr isTag)
  · exact splice.not_linkWord_of_tagWord (Or.inl isTag)

theorem flagNext (splice : Splice cfg s free block next before) (flag : Bool)
    (size : s.runSize block.addr = block.size) :
    Splice cfg (s.flagNextRun block.addr flag) free block next flag ∧
      ∀ word, word ≠ next.addr →
        (s.flagNextRun block.addr flag).mem word = s.mem word := by
  have adjacent : next.addr = block.addr + s.runSize block.addr := by
    rw [size]
    exact splice.adjacent
  have positive : 0 < next.addr := by
    have := splice.positive
    omega
  exact ⟨{ splice with
      nextTagged := flagNextRun_tagged flag splice.nextTagged
        splice.nextPackable positive adjacent },
    fun word => flagNextRun_frame flag splice.nextTagged splice.nextPackable
      positive adjacent⟩

end Splice

section Compound

variable {free : Set Block} {binned : Nat → List Nat} {block next : Block}
  (splice : Splice cfg s free block next before)
  (index : FreeIndex s binned free)

include splice index

theorem makeRemainder_spec (isFree : block.kind = .free)
    (fresh : block ∉ free) :
    let made := s.makeRemainder block.addr block.size
    FreeIndex made
        (Function.update binned (binIndexFor block.size)
          (block.addr :: binned (binIndexFor block.size)))
        (insert block free) ∧
      BlockTagged cfg made.mem false block ∧
        BlockTagged cfg made.mem true next ∧
          (∀ word, word ≠ block.addr → word ≠ block.stop - 8 →
            word ≠ next.addr → ¬ LinkWord (insert block free) word →
              made.mem word = s.mem word) ∧
            made.outer = s.outer ∧ made.stats = s.stats := by
  have notFence : block.kind ≠ .fence := by rw [isFree]; decide
  obtain ⟨markedSplice, markedIndex, markedTagged, markedFrame, markedOuter,
    markedStats⟩ := splice.markFree index isFree
  dsimp only
  unfold State.makeRemainder
  dsimp only
  generalize (s.setHeader block.addr block.size true false).writeFooter
    block.addr = marked at *
  obtain ⟨linkedSplice, linkedIndex, linkedTagged, linkedFrame⟩ :=
    markedSplice.link markedIndex isFree markedTagged fresh
  have size := linkedTagged.runSize (fun _ => splice.packable) notFence
  obtain ⟨flaggedSplice, flaggedFrame⟩ := linkedSplice.flagNext true size
  have nextNotLink := splice.not_linkWord_of_tagWord
    (Or.inr (Or.inl rfl))
  have stopEq : block.stop = block.addr + block.size := rfl
  have large := splice.packable.1
  have adjacent := splice.adjacent
  refine ⟨linkedIndex.congr (by simp) (by simp) fun word isLink =>
      flaggedFrame word ?_, linkedTagged.congr fun word isTag =>
      flaggedFrame word ?_, flaggedSplice.nextTagged,
      fun word notHeader notFooter notNext notLink => ?_, ?_, ?_⟩
  · rintro rfl
    exact nextNotLink isLink
  · rcases isTag.place with rfl | rfl | rfl <;> omega
  · rw [flaggedFrame word notNext, linkedFrame word notLink,
      markedFrame word notHeader notFooter]
  · simp [markedOuter]
  · simp [markedStats]

theorem makeFree_spec (isFree : block.kind = .free) (fresh : block ∉ free)
    {flag : Bool} (prevFlag : s.prevIsFree block.addr = flag) :
    let made := s.makeFree block.addr block.size
    FreeIndex made
        (Function.update binned (binIndexFor block.size)
          (block.addr :: binned (binIndexFor block.size)))
        (insert block free) ∧
      BlockTagged cfg made.mem flag block ∧
        BlockTagged cfg made.mem true next ∧
          (∀ word, word ≠ block.addr → word ≠ block.stop - 8 →
            word ≠ next.addr → ¬ LinkWord (insert block free) word →
              made.mem word = s.mem word) ∧
            made.outer = s.outer ∧ made.stats = s.stats := by
  have notFence : block.kind ≠ .fence := by rw [isFree]; decide
  obtain ⟨markedSplice, markedIndex, markedTagged, markedFrame, markedOuter,
    markedStats⟩ := splice.markFree index isFree
  dsimp only
  unfold State.makeFree
  dsimp only
  rw [prevFlag]
  generalize (s.setHeader block.addr block.size true flag).writeFooter
    block.addr = marked at *
  have size := markedTagged.runSize (fun _ => splice.packable) notFence
  obtain ⟨flaggedSplice, flaggedFrame⟩ := markedSplice.flagNext true size
  have nextNotLink := splice.not_linkWord_of_tagWord
    (Or.inr (Or.inl rfl))
  have stopEq : block.stop = block.addr + block.size := rfl
  have large := splice.packable.1
  have adjacent := splice.adjacent
  have flaggedIndex : FreeIndex (marked.flagNextRun block.addr true) binned
      free := by
    refine markedIndex.congr (by simp) (by simp) fun word isLink =>
      flaggedFrame word ?_
    rintro rfl
    exact nextNotLink (isLink.mono (Set.subset_insert _ _))
  have flaggedTagged : BlockTagged cfg
      (marked.flagNextRun block.addr true).mem flag block := by
    refine markedTagged.congr fun word isTag => flaggedFrame word ?_
    rcases isTag.place with rfl | rfl | rfl <;> omega
  obtain ⟨linkedSplice, linkedIndex, linkedTagged, linkedFrame⟩ :=
    flaggedSplice.link flaggedIndex isFree flaggedTagged fresh
  refine ⟨linkedIndex, linkedTagged, linkedSplice.nextTagged,
    fun word notHeader notFooter notNext notLink => ?_, ?_, ?_⟩
  · rw [linkedFrame word notLink, flaggedFrame word notNext,
      markedFrame word notHeader notFooter]
  · simp [markedOuter]
  · simp [markedStats]

theorem takeWhole_spec (flag : Bool) :
    let taken := s.takeWhole block.addr block.size flag
    FreeIndex taken binned free ∧
      taken.mem block.addr = pack block.size false flag ∧
        BlockTagged cfg taken.mem false next ∧
          (∀ word, word ≠ block.addr → word ≠ next.addr →
            taken.mem word = s.mem word) ∧
            taken.outer = s.outer ∧ taken.stats = s.stats := by
  have large := splice.packable.1
  have stopEq : block.stop = block.addr + block.size := rfl
  have adjacent := splice.adjacent
  have nextStop : next.stop = next.addr + next.size := rfl
  have nextLarge := splice.nextLarge
  have frame : ∀ word, word ≠ block.addr →
      (s.setHeader block.addr block.size false flag).mem word = s.mem word :=
    fun word different => Function.update_of_ne different _ _
  have headed : Splice cfg (s.setHeader block.addr block.size false flag) free
      block next before := by
    refine splice.congr fun word isTag => frame word ?_
    rcases isTag.place with rfl | rfl | rfl <;> omega
  have size : (s.setHeader block.addr block.size false flag).runSize
      block.addr = block.size := by
    simp [State.runSize, State.setHeader, splice.packed]
  obtain ⟨flaggedSplice, flaggedFrame⟩ := headed.flagNext false size
  dsimp only
  unfold State.takeWhole
  dsimp only
  refine ⟨index.congr (by simp [State.setHeader]) (by simp [State.setHeader])
      fun word isLink => ?_, ?_, flaggedSplice.nextTagged,
      fun word notHeader notNext => ?_, by simp [State.setHeader],
      by simp [State.setHeader]⟩
  · rw [flaggedFrame, frame]
    · rintro rfl
      exact splice.noLink _ (Or.inl ⟨by omega, by omega⟩) isLink
    · rintro rfl
      exact splice.noLink _ (Or.inr (Or.inl rfl)) isLink
  · rw [flaggedFrame _ (by omega)]
    exact Function.update_self _ _ _
  · rw [flaggedFrame word notNext, frame word notHeader]

end Compound

end Runner

end Allocazam
