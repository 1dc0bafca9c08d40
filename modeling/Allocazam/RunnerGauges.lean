import Allocazam.RunnerExits

/-!
# What the operations record

How the counters of a runner that collects statistics change: a deallocation and
an allocation from a free run adjust the live bytes, a search adjusts the scans,
and no operation touches a counter that is not its own.
-/

namespace Allocazam

namespace Runner

variable {cfg : Config} {s t : State} {os : Os}

def Stats.scans (stats : Stats) : Nat × Nat :=
  (stats.findFitCalls, stats.scannedNodes)

def Stats.live (stats : Stats) : Nat × Nat :=
  (stats.liveBytes, stats.peakLiveBytes)

theorem scans_liveBytes (stats : Stats) (bytes : Nat) :
    { stats with liveBytes := bytes }.scans = stats.scans :=
  rfl

theorem live_counters (stats : Stats) (successes granted : Nat) :
    { stats with allocateSuccess := successes, grantedBytes := granted }.live =
      stats.live :=
  rfl

theorem record_stats (measured : cfg.collectStats = true) (update : Stats → Stats) :
    (s.record cfg update).stats = update s.stats := by
  unfold State.record
  rw [if_pos measured]

theorem record_kept {α : Type} (read : Stats → α) (update : Stats → Stats)
    (apart : read (update s.stats) = read s.stats) :
    read (s.record cfg update).stats = read s.stats := by
  unfold State.record
  split
  · exact apart
  · rfl

section Kept

variable {α : Type} (read : Stats → α)
  (coalescing : ∀ stats next prev, read { stats with
    coalesceNextCount := next, coalescePrevCount := prev } = read stats)

include coalescing

theorem coalesceNext_kept (current size : Nat) :
    read (s.coalesceNext cfg current size).1.stats = read s.stats := by
  unfold State.coalesceNext
  dsimp only
  split_ifs
  · dsimp only
    rw [record_kept read _ (coalescing _ _ _), State.unlinkFree_stats]
  · rfl

theorem coalescePrev_kept (current size : Nat) :
    read (s.coalescePrev cfg current size).1.stats = read s.stats := by
  unfold State.coalescePrev
  dsimp only
  split_ifs
  · dsimp only
    rw [record_kept read _ (coalescing _ _ _), State.unlinkFree_stats]
  · rfl
  · rfl

end Kept

theorem makeFree_stats (current size : Nat) :
    (s.makeFree current size).stats = s.stats := by
  unfold State.makeFree
  simp [State.writeFooter, State.setHeader]

theorem makeRemainder_stats (rem bytes : Nat) :
    (s.makeRemainder rem bytes).stats = s.stats := by
  unfold State.makeRemainder
  simp [State.writeFooter, State.setHeader]

theorem takeWhole_stats (h bytes : Nat) (prevFree : Bool) :
    (s.takeWhole h bytes prevFree).stats = s.stats := by
  unfold State.takeWhole
  simp [State.setHeader]

theorem withChunk_stats (chunk : ChunkNode) :
    (s.withChunk chunk).stats = s.stats := by
  unfold State.withChunk State.initializeFreeRun
  simp [State.writeFooter, State.setHeader]

theorem addOwnedChunk_stats (bytes : Nat) :
    (s.addOwnedChunk cfg os bytes).1.stats = s.stats := by
  have added := addOwnedChunk_added cfg s os bytes
  generalize s.addOwnedChunk cfg os bytes = outcome at added ⊢
  cases added with
  | overflow => rfl
  | refused => rfl
  | added => exact withChunk_stats _

theorem Starts.stats {session : Session} (starts : Starts cfg session) :
    session.state.stats = {} := by
  cases starts with
  | @eager os mem initialBytes s word built =>
      unfold State.construct at built
      have added := @addOwnedChunk_stats cfg
        (State.blank mem (max initialBytes 65536) 0) os initialBytes
      generalize (State.blank mem (max initialBytes 65536) 0).addOwnedChunk cfg os
        initialBytes = outcome at built added
      obtain ⟨t, exn | chunkBytes⟩ := outcome
      · cases built
      · obtain rfl := Except.ok.inj built
        exact added
  | deferred word => rfl
  | external nonnull bounded built =>
      unfold State.constructExternal State.addExternalChunk at built
      dsimp only at built
      split_ifs at built
      obtain rfl := Except.ok.inj built
      exact withChunk_stats (s := State.blank _ 0 0) _

theorem deallocateBytes_scans (p : Nat) :
    (s.deallocateBytes cfg p).stats.scans = s.stats.scans := by
  unfold State.deallocateBytes
  split
  · rfl
  dsimp only
  rw [makeFree_stats, coalescePrev_kept Stats.scans fun _ _ _ => rfl,
    coalesceNext_kept Stats.scans fun _ _ _ => rfl, record_kept Stats.scans,
    record_kept Stats.scans]
  · rfl
  · exact scans_liveBytes _ _

/-- A deallocation takes the payload off the live bytes. -/
theorem deallocateBytes_live (measured : cfg.collectStats = true) {p : Nat}
    (nonnull : p ≠ 0) :
    (s.deallocateBytes cfg p).stats.live =
      (wrapSub s.stats.liveBytes (wrapSub (s.runSize (p - 16)) 16),
        s.stats.peakLiveBytes) := by
  unfold State.deallocateBytes
  rw [if_neg nonnull]
  dsimp only
  rw [makeFree_stats, coalescePrev_kept Stats.live fun _ _ _ => rfl,
    coalesceNext_kept Stats.live fun _ _ _ => rfl, record_stats measured,
    record_stats measured]
  have size : (s.record cfg fun stats => { stats with
      deallocateCalls := wrapAdd stats.deallocateCalls 1 }).runSize
        (headerFromPayload p) = s.runSize (p - 16) := by
    unfold State.runSize
    simp
  rw [size]
  rfl

theorem drainRemote_scans :
    (s.drainRemote cfg).1.stats.scans = s.stats.scans := by
  have walked : ∀ fuel head (t : State),
      (State.drainWalk cfg fuel head t).stats.scans = t.stats.scans := by
    intro fuel
    induction fuel with
    | zero => exact fun _ _ => rfl
    | succ fuel ih =>
        intro head t
        unfold State.drainWalk
        split
        · rfl
        · dsimp only
          rw [ih, deallocateBytes_scans]
  unfold State.drainRemote
  dsimp only
  split
  · rfl
  · exact walked _ _ _

theorem growFor_kept {α : Type} (read : Stats → α)
    (apart : ∀ stats calls, read { stats with growCalls := calls } = read stats)
    (needed : Nat) :
    read (s.growFor cfg os needed).1.stats = read s.stats := by
  unfold State.growFor
  dsimp only
  have recorded : read (s.record cfg fun stats =>
      { stats with growCalls := wrapAdd stats.growCalls 1 }).stats = read s.stats :=
    record_kept read _ (apart _ _)
  generalize (s.record cfg fun stats =>
    { stats with growCalls := wrapAdd stats.growCalls 1 }) = u at recorded ⊢
  cases checkedAdd needed minChunkBytes with
  | none => exact recorded
  | some overhead =>
      dsimp only
      have added := @addOwnedChunk_stats cfg u os (max u.nextGrowth overhead)
      generalize u.addOwnedChunk cfg os (max u.nextGrowth overhead) = outcome
        at added ⊢
      obtain ⟨v, exn | chunkBytes⟩ := outcome
      all_goals
        dsimp only at added ⊢
        rw [added]
        exact recorded

theorem addLiveBytes_scans (bytes : Nat) :
    (s.addLiveBytes cfg bytes).stats.scans = s.stats.scans :=
  record_kept Stats.scans _ rfl

theorem allocateFromFreeRun_scans (h needed : Nat) :
    (s.allocateFromFreeRun cfg h needed).1.stats.scans = s.stats.scans := by
  unfold State.allocateFromFreeRun
  dsimp only
  rw [addLiveBytes_scans, State.write_stats]
  split
  · rw [makeRemainder_stats, record_kept Stats.scans _ rfl]
    simp [State.setHeader]
  · rw [takeWhole_stats, State.unlinkFree_stats]

theorem finishAllocate_scans (h needed : Nat) :
    (s.finishAllocate cfg h needed).1.stats.scans = s.stats.scans := by
  unfold State.finishAllocate
  split
  · exact record_kept Stats.scans _ rfl
  · dsimp only
    rw [record_kept Stats.scans _ rfl, allocateFromFreeRun_scans]

theorem expandInto_scans (current next currentRunSize combinedSize needed : Nat) :
    (s.expandInto cfg current next currentRunSize combinedSize needed).1.stats.scans =
      s.stats.scans := by
  unfold State.expandInto
  dsimp only
  split_ifs
  all_goals
    simp [addLiveBytes_scans, makeRemainder_stats, takeWhole_stats, State.setHeader]

theorem expand_scans (p minNewBytes : Nat) :
    (s.expand cfg p minNewBytes).1.stats.scans = s.stats.scans := by
  unfold State.expand
  split
  · rfl
  dsimp only
  split
  · rfl
  cases normalizedRunBytesForPayload minNewBytes with
  | none => rfl
  | some needed =>
      dsimp only
      split
      · rfl
      cases checkedAdd (s.runSize (headerFromPayload p))
        (s.runSize (s.nextRun (headerFromPayload p))) with
      | none => rfl
      | some combinedSize =>
          dsimp only
          split
          · rfl
          · exact expandInto_scans _ _ _ _ _

def Stats.raised (stats : Stats) (bytes : Nat) : Nat × Nat :=
  let live := wrapAdd stats.liveBytes bytes
  (live, max stats.peakLiveBytes live)

theorem allocateFromFreeRun_placed (cfg : Config) (s : State) (h needed : Nat) :
    ∃ placed : State, placed.stats.live = s.stats.live ∧
      (s.allocateFromFreeRun cfg h needed).1 =
        placed.addLiveBytes cfg (wrapSub (placed.runSize h) headerBytes) := by
  refine ⟨_, ?_, rfl⟩
  rw [State.write_stats]
  split
  · rw [makeRemainder_stats, record_kept Stats.live _ rfl]
    simp [State.setHeader]
  · rw [takeWhole_stats, State.unlinkFree_stats]

/-- What `expandInto` does before it adjusts the live bytes. -/
theorem expandInto_placed (cfg : Config) (s : State)
    (current next currentRunSize combinedSize needed : Nat) :
    ∃ placed : State, placed.stats = s.stats ∧
      s.expandInto cfg current next currentRunSize combinedSize needed =
        (if wrapSub (placed.runSize current) headerBytes >
            wrapSub currentRunSize headerBytes then
          placed.addLiveBytes cfg (wrapSub (wrapSub (placed.runSize current)
            headerBytes) (wrapSub currentRunSize headerBytes))
        else placed, wrapSub (placed.runSize current) headerBytes) := by
  refine ⟨_, ?_, rfl⟩
  rw [State.write_stats]
  split
  · rw [makeRemainder_stats]
    simp [State.setHeader]
  · rw [takeWhole_stats, State.unlinkFree_stats]

section Live

variable (measured : cfg.collectStats = true)

include measured

theorem addLiveBytes_live (bytes : Nat) :
    (s.addLiveBytes cfg bytes).stats.live = s.stats.raised bytes := by
  unfold State.addLiveBytes
  rw [record_stats measured]
  unfold Stats.live Stats.raised
  dsimp only
  congr 1
  split <;> omega

/-- An allocation adds the payload to the live bytes. -/
theorem allocateFromFreeRun_live (h needed : Nat) :
    (s.allocateFromFreeRun cfg h needed).1.stats.live =
      s.stats.raised
        (wrapSub ((s.allocateFromFreeRun cfg h needed).1.runSize h) headerBytes) := by
  obtain ⟨placed, kept, result⟩ := allocateFromFreeRun_placed cfg s h needed
  have size : ∀ bytes, (placed.addLiveBytes cfg bytes).runSize h = placed.runSize h := by
    intro bytes
    unfold State.addLiveBytes State.runSize
    simp
  rw [result, size, addLiveBytes_live measured]
  have live : placed.stats.liveBytes = s.stats.liveBytes := congrArg Prod.fst kept
  have peak : placed.stats.peakLiveBytes = s.stats.peakLiveBytes :=
    congrArg Prod.snd kept
  unfold Stats.raised
  rw [live, peak]

theorem expandInto_live (current next currentRunSize combinedSize needed : Nat)
    {t : State} {reported : Nat}
    (result : s.expandInto cfg current next currentRunSize combinedSize needed =
      (t, reported)) :
    t.stats.live = if reported > wrapSub currentRunSize headerBytes then
      s.stats.raised (wrapSub reported (wrapSub currentRunSize headerBytes))
      else s.stats.live := by
  obtain ⟨placed, kept, placedResult⟩ :=
    expandInto_placed cfg s current next currentRunSize combinedSize needed
  rw [placedResult] at result
  obtain ⟨rfl, rfl⟩ := Prod.mk.inj result
  split
  · rw [addLiveBytes_live measured, kept]
  · rw [kept]

theorem expand_live {p minNewBytes reported : Nat} {t : State} (nonnull : p ≠ 0)
    (result : s.expand cfg p minNewBytes = (t, reported)) :
    t.stats.live = if reported > wrapSub (s.runSize (p - 16)) 16 then
      s.stats.raised (wrapSub reported (wrapSub (s.runSize (p - 16)) 16))
      else s.stats.live := by
  have header : headerFromPayload p = p - 16 := rfl
  have early : s = t ∧ wrapSub (s.runSize (p - 16)) 16 = reported →
      t.stats.live = if reported > wrapSub (s.runSize (p - 16)) 16 then
        s.stats.raised (wrapSub reported (wrapSub (s.runSize (p - 16)) 16))
        else s.stats.live := by
    rintro ⟨rfl, same⟩
    rw [if_neg (by rw [same]; exact lt_irrefl reported)]
  unfold State.expand at result
  rw [if_neg nonnull, header] at result
  dsimp only at result
  split at result
  · exact early (Prod.mk.inj result)
  cases sized : normalizedRunBytesForPayload minNewBytes with
  | none =>
      rw [sized] at result
      exact early (Prod.mk.inj result)
  | some needed =>
      rw [sized] at result
      dsimp only at result
      split at result
      · exact early (Prod.mk.inj result)
      cases combined : checkedAdd (s.runSize (p - 16))
          (s.runSize (s.nextRun (p - 16))) with
      | none =>
          rw [combined] at result
          exact early (Prod.mk.inj result)
      | some combinedSize =>
          rw [combined] at result
          dsimp only at result
          split at result
          · exact early (Prod.mk.inj result)
          · exact expandInto_live measured _ _ _ _ _ result

end Live

theorem findFit_live (needed scanCount : Nat) :
    (s.findFit cfg needed scanCount).1.stats.live = s.stats.live := by
  unfold State.findFit
  dsimp only
  rw [record_kept Stats.live _ rfl, record_kept Stats.live _ rfl]

theorem findOrDefer_live (needed : Nat) (found : State × Nat × Nat) :
    (State.findOrDefer cfg os needed found).1.stats.live = found.1.stats.live := by
  obtain ⟨s, h, scanCount⟩ := found
  unfold State.findOrDefer
  dsimp only
  split
  swap
  · rfl
  have added := @addOwnedChunk_stats cfg s os s.deferredBytes
  generalize s.addOwnedChunk cfg os s.deferredBytes = outcome at added ⊢
  have kept := congrArg Stats.live added
  obtain ⟨t, exn | chunkBytes⟩ := outcome
  · exact kept
  · exact (findFit_live needed scanCount).trans kept

theorem findOrGrow_live (needed h scanCount : Nat) :
    (s.findOrGrow cfg os needed h scanCount).1.stats.live = s.stats.live := by
  unfold State.findOrGrow
  split
  swap
  · rfl
  have grown : (s.growFor cfg os needed).1.stats.live = s.stats.live :=
    growFor_kept Stats.live (fun _ _ => rfl) needed
  generalize s.growFor cfg os needed = outcome at grown ⊢
  obtain ⟨t, exn | done⟩ := outcome
  · exact grown
  · exact (findFit_live needed scanCount).trans grown

end Runner

end Allocazam
