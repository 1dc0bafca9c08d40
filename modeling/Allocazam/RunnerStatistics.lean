import Allocazam.RunnerSizes

/-!
# The runner without its statistics

The statistics are written and never read: a runner does with statistics what it
does without, and its other members and its memory do not depend on them.
-/

namespace Allocazam

namespace Runner

/-- The template arguments without `collect_stats`. -/
def Config.silent (cfg : Config) : Config :=
  { cfg with collectStats := false }

def State.unmeasured (s : State) : State :=
  { s with stats := {} }

variable {cfg : Config} {s t : State} {os : Os}

section Members

@[simp] theorem unmeasured_mem : s.unmeasured.mem = s.mem := rfl
@[simp] theorem unmeasured_bins : s.unmeasured.bins = s.bins := rfl
@[simp] theorem unmeasured_chunks : s.unmeasured.chunks = s.chunks := rfl
@[simp] theorem unmeasured_nextGrowth :
    s.unmeasured.nextGrowth = s.nextGrowth := rfl
@[simp] theorem unmeasured_deferredBytes :
    s.unmeasured.deferredBytes = s.deferredBytes := rfl
@[simp] theorem unmeasured_remoteHead :
    s.unmeasured.remoteHead = s.remoteHead := rfl
@[simp] theorem unmeasured_binNonemptyMask :
    s.unmeasured.binNonemptyMask = s.binNonemptyMask := rfl

@[simp] theorem unmeasured_unmeasured :
    s.unmeasured.unmeasured = s.unmeasured := rfl

theorem unmeasured_eq_iff :
    t.unmeasured = s.unmeasured ↔
      t.bins = s.bins ∧ t.binNonemptyMask = s.binNonemptyMask ∧
        t.outer = s.outer ∧ t.mem = s.mem := by
  constructor
  · intro same
    have bins := congrArg (fun u => u.bins) same
    have mask := congrArg (fun u => u.binNonemptyMask) same
    have outer := congrArg State.outer same
    have mem := congrArg State.mem same
    exact ⟨bins, mask, outer, mem⟩
  · rintro ⟨bins, mask, outer, mem⟩
    have chunks : t.chunks = s.chunks := State.chunks_of_outer outer
    have next : t.nextGrowth = s.nextGrowth :=
      congrArg (fun members => members.2.1) outer
    have deferred : t.deferredBytes = s.deferredBytes :=
      congrArg (fun members => members.2.2.1) outer
    have head : t.remoteHead = s.remoteHead := State.remoteHead_of_outer outer
    unfold State.unmeasured
    rw [bins, mask, chunks, next, deferred, head, mem]

@[simp] theorem record_unmeasured (update : Stats → Stats) :
    (s.record cfg update).unmeasured = s.unmeasured := by
  unfold State.record
  split <;> rfl

@[simp] theorem record_silent (update : Stats → Stats) :
    s.record cfg.silent update = s :=
  rfl

@[simp] theorem write_unmeasured (addr value : Nat) :
    (s.write addr value).unmeasured = s.unmeasured.write addr value :=
  rfl

@[simp] theorem setHeader_unmeasured (h bytes : Nat) (isFree prevIsFree : Bool) :
    (s.setHeader h bytes isFree prevIsFree).unmeasured =
      s.unmeasured.setHeader h bytes isFree prevIsFree :=
  rfl

@[simp] theorem writeFooter_unmeasured (h : Nat) :
    (s.writeFooter h).unmeasured = s.unmeasured.writeFooter h :=
  rfl

@[simp] theorem setPrevFree_unmeasured (h : Nat) (prevFree : Bool) :
    (s.setPrevFree h prevFree).unmeasured =
      s.unmeasured.setPrevFree h prevFree := by
  have flag : s.unmeasured.prevIsFree h = s.prevIsFree h := rfl
  unfold State.setPrevFree
  rw [flag]
  split_ifs <;> rfl

@[simp] theorem flagNextRun_unmeasured (h : Nat) (free : Bool) :
    (s.flagNextRun h free).unmeasured = s.unmeasured.flagNextRun h free := by
  have next : s.unmeasured.nextRun h = s.nextRun h := rfl
  unfold State.flagNextRun
  rw [next]
  dsimp only
  split_ifs
  · exact setPrevFree_unmeasured _ _
  · rfl

@[simp] theorem linkFree_unmeasured (h : Nat) :
    (s.linkFree h).unmeasured = s.unmeasured.linkFree h := by
  have size : s.unmeasured.runSize h = s.runSize h := rfl
  have linked : ∀ (u : State) head,
      (if head ≠ 0 then u.write (prevLink head) h else u).unmeasured =
        if head ≠ 0 then u.unmeasured.write (prevLink head) h
        else u.unmeasured := by
    intro u head
    split_ifs <;> rfl
  unfold State.linkFree
  rw [size]
  generalize binIndexFor (s.runSize h) = idx
  exact congrArg (fun u => (State.setBin u idx h).setBinNonempty idx)
    (linked ((s.write (prevLink h) 0).write (nextLink h) (s.bins idx)) (s.bins idx))

@[simp] theorem unlinkFree_unmeasured (h : Nat) :
    (s.unlinkFree h).unmeasured = s.unmeasured.unlinkFree h := by
  have forward : ∀ idx, (s.skipForward h idx).unmeasured =
      s.unmeasured.skipForward h idx := by
    intro idx
    unfold State.skipForward
    rw [unmeasured_mem]
    split_ifs <;> rfl
  have backward : ∀ u : State, (u.skipBackward h).unmeasured =
      u.unmeasured.skipBackward h := by
    intro u
    unfold State.skipBackward
    rw [unmeasured_mem]
    split_ifs <;> rfl
  have clear : ∀ (u : State) idx, (u.clearIfEmpty idx).unmeasured =
      u.unmeasured.clearIfEmpty idx := by
    intro u idx
    unfold State.clearIfEmpty
    rw [unmeasured_bins]
    split_ifs <;> rfl
  have size : s.unmeasured.runSize h = s.runSize h := rfl
  unfold State.unlinkFree
  rw [size]
  dsimp only
  rw [← forward, ← backward, ← clear]

end Members

theorem coalesceNext_unmeasured (current size : Nat) :
    (s.coalesceNext cfg current size).map State.unmeasured id =
      s.unmeasured.coalesceNext cfg.silent current size := by
  have next : s.unmeasured.nextRun current = s.nextRun current := rfl
  have free : ∀ h, s.unmeasured.isFree h = s.isFree h := fun _ => rfl
  unfold State.coalesceNext
  rw [next]
  dsimp only
  rw [free]
  split_ifs
  · rw [Prod.map_apply, record_unmeasured, unlinkFree_unmeasured, record_silent,
      ← unlinkFree_unmeasured]
    rfl
  · rfl

theorem coalescePrev_unmeasured (current size : Nat) :
    (s.coalescePrev cfg current size).map State.unmeasured id =
      s.unmeasured.coalescePrev cfg.silent current size := by
  have prev : s.unmeasured.prevRun current = s.prevRun current := rfl
  have flag : s.unmeasured.prevIsFree current = s.prevIsFree current := rfl
  have free : ∀ h, s.unmeasured.isFree h = s.isFree h := fun _ => rfl
  unfold State.coalescePrev
  rw [prev, flag]
  dsimp only
  rw [free]
  split_ifs
  · rw [Prod.map_apply, record_unmeasured, unlinkFree_unmeasured, record_silent,
      ← unlinkFree_unmeasured]
    rfl
  · rfl
  · rfl

theorem makeFree_unmeasured (current size : Nat) :
    (s.makeFree current size).unmeasured =
      s.unmeasured.makeFree current size := by
  unfold State.makeFree
  simp only [linkFree_unmeasured, flagNextRun_unmeasured, writeFooter_unmeasured,
    setHeader_unmeasured]
  rfl

theorem deallocateBytes_unmeasured (p : Nat) :
    (s.deallocateBytes cfg p).unmeasured =
      s.unmeasured.deallocateBytes cfg.silent p := by
  unfold State.deallocateBytes
  split_ifs
  · rfl
  dsimp only
  rw [record_silent, record_silent]
  have same : (s.record cfg fun stats => { stats with
      deallocateCalls := wrapAdd stats.deallocateCalls 1 }).unmeasured =
      s.unmeasured := record_unmeasured _
  generalize (s.record cfg fun stats => { stats with
      deallocateCalls := wrapAdd stats.deallocateCalls 1 }) = u at same ⊢
  have size : u.runSize (headerFromPayload p) =
      s.unmeasured.runSize (headerFromPayload p) := by rw [← same]; rfl
  rw [size]
  have same' : (u.record cfg fun stats => { stats with
      liveBytes := wrapSub stats.liveBytes (wrapSub
        (s.unmeasured.runSize (headerFromPayload p)) headerBytes) }).unmeasured =
      s.unmeasured := (record_unmeasured _).trans same
  generalize (u.record cfg fun stats => { stats with
      liveBytes := wrapSub stats.liveBytes (wrapSub
        (s.unmeasured.runSize (headerFromPayload p)) headerBytes) }) = v
    at same' ⊢
  rw [← same', ← coalesceNext_unmeasured]
  generalize v.coalesceNext cfg (headerFromPayload p)
    (v.unmeasured.runSize (headerFromPayload p)) = merged
  obtain ⟨w, size'⟩ := merged
  rw [Prod.map_apply]
  dsimp only [id]
  rw [← coalescePrev_unmeasured]
  generalize w.coalescePrev cfg (headerFromPayload p) size' = joined
  obtain ⟨x, current, size''⟩ := joined
  rw [Prod.map_apply]
  exact makeFree_unmeasured _ _

theorem drainWalk_unmeasured (fuel head : Nat) :
    (State.drainWalk cfg fuel head s).unmeasured =
      State.drainWalk cfg.silent fuel head s.unmeasured := by
  induction fuel generalizing head s with
  | zero => rfl
  | succ fuel ih =>
      unfold State.drainWalk
      split_ifs
      · rfl
      · dsimp only
        rw [ih, deallocateBytes_unmeasured, unmeasured_mem]

theorem drainRemote_unmeasured :
    (s.drainRemote cfg).map State.unmeasured id =
      s.unmeasured.drainRemote cfg.silent := by
  unfold State.drainRemote
  rw [unmeasured_remoteHead]
  dsimp only
  split_ifs
  · rfl
  · rw [Prod.map_apply, drainWalk_unmeasured]
    rfl

theorem withChunk_unmeasured (chunk : ChunkNode) :
    (s.withChunk chunk).unmeasured = s.unmeasured.withChunk chunk := by
  unfold State.withChunk State.initializeFreeRun
  simp only [write_unmeasured, setHeader_unmeasured, linkFree_unmeasured,
    writeFooter_unmeasured]
  rfl

theorem addOwnedChunk_unmeasured (bytes : Nat) :
    (s.addOwnedChunk cfg os bytes).map State.unmeasured id =
      s.unmeasured.addOwnedChunk cfg.silent os bytes := by
  have granularity : State.ownedChunkBytesFor cfg.silent bytes =
      State.ownedChunkBytesFor cfg bytes := rfl
  have memory : State.allocateOwnedMemory cfg.silent = State.allocateOwnedMemory cfg :=
    rfl
  unfold State.addOwnedChunk
  rw [granularity, memory, unmeasured_chunks]
  cases State.ownedChunkBytesFor cfg bytes with
  | error exn => rfl
  | ok length =>
      dsimp only
      cases State.allocateOwnedMemory cfg os s.chunks length runAlignment with
      | none => rfl
      | some obtained =>
          exact Prod.ext (withChunk_unmeasured _) rfl

theorem scanBin_unmeasured {needed fuel h scanCount scanCount' : Nat} :
    (s.scanBin cfg needed fuel h scanCount).1 =
      (s.unmeasured.scanBin cfg.silent needed fuel h scanCount').1 := by
  have size : ∀ h, s.unmeasured.runSize h = s.runSize h := fun _ => rfl
  induction fuel generalizing h scanCount scanCount' with
  | zero => rfl
  | succ fuel ih =>
      unfold State.scanBin
      dsimp only
      rw [size]
      by_cases null : h = 0
      · rw [if_pos null, if_pos null]
      rw [if_neg null, if_neg null]
      by_cases enough : s.runSize h ≥ needed
      · rw [if_pos enough, if_pos enough]
      · rw [if_neg enough, if_neg enough]
        exact ih

theorem firstNonemptyBinFrom_unmeasured (idx : Nat) :
    s.unmeasured.firstNonemptyBinFrom idx = s.firstNonemptyBinFrom idx := by
  have word : ∀ words wordIdx word,
      s.unmeasured.firstNonemptyWord words wordIdx word =
        s.firstNonemptyWord words wordIdx word := by
    intro words
    induction words with
    | zero => exact fun _ _ => rfl
    | succ words ih =>
        intro wordIdx word
        unfold State.firstNonemptyWord
        dsimp only
        rw [ih]
        rfl
  unfold State.firstNonemptyBinFrom
  rw [word]
  rfl

theorem scanBins_unmeasured
    {needed startBin fuel idx scanCount scanCount' : Nat} :
    (s.scanBins cfg needed startBin fuel idx scanCount).1 =
      (s.unmeasured.scanBins cfg.silent needed startBin fuel idx
        scanCount').1 := by
  induction fuel generalizing idx scanCount scanCount' with
  | zero => rfl
  | succ fuel ih =>
      unfold State.scanBins
      have bound : s.unmeasured.nodeBound = s.nodeBound := rfl
      have scanned : (s.scanBin cfg needed s.nodeBound (s.bins idx) scanCount).1 =
          (s.unmeasured.scanBin cfg.silent needed s.nodeBound (s.bins idx)
            scanCount').1 := scanBin_unmeasured
      rw [unmeasured_bins, bound]
      generalize s.scanBin cfg needed s.nodeBound (s.bins idx) scanCount = found
        at scanned ⊢
      generalize s.unmeasured.scanBin cfg.silent needed s.nodeBound (s.bins idx)
        scanCount' = found' at scanned ⊢
      obtain ⟨h, count⟩ := found
      obtain ⟨h', count'⟩ := found'
      obtain rfl : h = h' := scanned
      by_cases inRange : idx < binCount
      swap
      · rw [if_neg inRange, if_neg inRange]
      rw [if_pos inRange, if_pos inRange]
      by_cases direct : idx ≠ startBin ∨ idx < linearBinCount
      · rw [if_pos direct, if_pos direct]
      rw [if_neg direct, if_neg direct]
      cases h with
      | zero =>
          rw [firstNonemptyBinFrom_unmeasured]
          exact ih
      | succ h => rfl

/-- A search finds the same run with and without statistics. -/
theorem findFit_unmeasured (needed scanCount scanCount' : Nat) :
    (s.findFit cfg needed scanCount).1.unmeasured = s.unmeasured ∧
      (s.findFit cfg needed scanCount).2.1 =
        (s.unmeasured.findFit cfg.silent needed scanCount').2.1 := by
  unfold State.findFit
  dsimp only
  rw [record_unmeasured, record_unmeasured, record_silent]
  refine ⟨rfl, ?_⟩
  have same : (s.record cfg fun stats =>
    { stats with findFitCalls := wrapAdd stats.findFitCalls 1 }).unmeasured =
      s.unmeasured := record_unmeasured _
  generalize (s.record cfg fun stats =>
    { stats with findFitCalls := wrapAdd stats.findFitCalls 1 }) = u at same ⊢
  rw [← same, firstNonemptyBinFrom_unmeasured]
  exact scanBins_unmeasured

theorem growFor_unmeasured (needed : Nat) :
    (s.growFor cfg os needed).map State.unmeasured id =
      s.unmeasured.growFor cfg.silent os needed := by
  unfold State.growFor
  dsimp only
  rw [record_silent]
  have same : (s.record cfg fun stats =>
    { stats with growCalls := wrapAdd stats.growCalls 1 }).unmeasured =
      s.unmeasured := record_unmeasured _
  generalize (s.record cfg fun stats =>
    { stats with growCalls := wrapAdd stats.growCalls 1 }) = u at same ⊢
  cases checkedAdd needed minChunkBytes with
  | none => exact Prod.ext same rfl
  | some overhead =>
      dsimp only
      rw [← same, ← addOwnedChunk_unmeasured, unmeasured_nextGrowth]
      generalize u.addOwnedChunk cfg os (max u.nextGrowth overhead) = added
      obtain ⟨v, exn | chunkBytes⟩ := added <;> rfl

end Runner

end Allocazam
