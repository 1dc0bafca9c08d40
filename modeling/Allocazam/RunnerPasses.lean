import Allocazam.RunnerGaps
import Allocazam.RunnerScans

/-!
# How the passes of an allocation end

A pass that fails looks at all runs of the request's own bin if that bin is
logarithmic, and at none otherwise.  Which passes a call makes depends on what fits
after each stage and on the chunks the OS grants.
-/

namespace Allocazam

namespace Runner

variable {cfg : Config} {s t u : State} {os : Os} {blocks : List Block}
  {runs : Set Block} {parked : List Nat} {needed : Nat}

/-- A run of the given size in the request's own bin, which the inner loop walks
through. -/
def Misfit (needed size : Nat) : Prop :=
  linearBinCount ≤ binIndexFor needed ∧ binIndexFor size = binIndexFor needed

theorem scannedBin_eq {fuel h : Nat}
    (none : ∀ node ∈ s.nodesFrom fuel h, s.runSize node < needed) :
    s.scannedBin needed fuel h = s.nodesFrom fuel h := by
  induction fuel generalizing h with
  | zero => rfl
  | succ fuel ih =>
      unfold State.nodesFrom at none ⊢
      unfold State.scannedBin
      by_cases null : h = 0
      · rw [if_pos null, if_pos null]
      rw [if_neg null] at none ⊢
      have small := none h List.mem_cons_self
      rw [if_neg null, if_neg (Nat.not_le.mpr small)]
      exact congrArg (h :: ·)
        (ih fun node member => none node (List.mem_cons_of_mem h member))

section Full

variable (heap : HeapOk cfg s blocks) (normalized : Normalized needed)
  (full : s.NoFit needed)

include heap normalized full

/-- When nothing fits, no run is in a later bin, nor in the request's own if that is
linear. -/
theorem bin_of_full {idx : Nat} (inRange : idx < 536)
    (reached : binIndexFor needed ≤ idx) (nonempty : s.bins idx ≠ 0) :
    idx = binIndexFor needed ∧ 512 ≤ idx := by
  obtain ⟨binned, index⟩ := heap.indexed
  have linkable := heap.layout.linkable
  obtain ⟨block, member, _, rfl⟩ :=
    (index.mem_iff idx inRange _).mp (index.head_mem inRange nonempty).1
  have small := heap.noFit_iff.mp full block member
  have aligned := linkable.sizeAligned block member
  have word := linkable.sizeBound block member
  have ordered := binIndexFor_mono aligned normalized.aligned normalized.word small.le
  refine ⟨by omega, ?_⟩
  by_contra linear
  have same := eq_of_binIndexFor_eq aligned normalized.aligned word normalized.word
    (by omega) (by omega)
  omega

theorem firstNonempty_of_full {start : Nat} (reached : binIndexFor needed ≤ start)
    (inRange : s.firstNonemptyBinFrom start < 536) :
    start = binIndexFor needed ∧ s.firstNonemptyBinFrom start = start ∧
      512 ≤ start := by
  obtain ⟨binned, index⟩ := heap.indexed
  obtain ⟨lower, marked⟩ :=
    (s.isFirstNonempty_firstNonemptyBinFrom index.maskBound start).1 inRange
  have nonempty := ((index.maskBit _ (by omega)).mp marked).2
  have here := bin_of_full heap normalized full inRange (by omega) nonempty
  omega

theorem scanned_of_full :
    s.scanned needed =
      if 512 ≤ binIndexFor needed then s.binRuns (binIndexFor needed) else [] := by
  have bound := binIndexFor_lt normalized.aligned normalized.word
  obtain ⟨binned, index⟩ := heap.indexed
  have past : ∀ fuel idx, ¬ idx < 536 →
      s.scannedBins needed (binIndexFor needed) fuel idx = [] := by
    intro fuel idx outside
    cases fuel with
    | zero => rfl
    | succ fuel =>
        unfold State.scannedBins
        rw [binCount_eq, if_neg outside]
  have small : ∀ node ∈ s.nodesFrom s.nodeBound (s.bins (binIndexFor needed)),
      s.runSize node < needed := by
    intro node listed
    have listed' : node ∈ s.binRuns (binIndexFor needed) := listed
    rw [heap.binRuns_eq index bound] at listed'
    obtain ⟨block, member, rfl, _⟩ := (index.mem_iff _ bound _).mp listed'
    rw [heap.runSize member.1 (by rw [member.2]; decide)]
    exact heap.noFit_iff.mp full block member
  unfold State.scanned
  dsimp only
  by_cases inRange : s.firstNonemptyBinFrom (binIndexFor needed) < 536
  · obtain ⟨_, same, logarithmic⟩ :=
      firstNonempty_of_full heap normalized full le_rfl inRange
    have later : ¬ s.firstNonemptyBinFrom (binIndexFor needed + 1) < 536 := by
      intro inRange
      have here := firstNonempty_of_full heap normalized full (by omega) inRange
      omega
    rw [same, if_pos logarithmic]
    unfold State.scannedBins
    dsimp only
    rw [scannedBin_eq small, past _ _ later, binCount_eq, linearBinCount_eq,
      if_pos bound, if_neg (by omega), List.append_nil, ite_self]
    rfl
  · rw [past _ _ inRange]
    by_cases logarithmic : 512 ≤ binIndexFor needed
    · rw [if_pos logarithmic]
      by_contra nonempty
      have head := (binRuns_ne_nil heap bound).mp (Ne.symm nonempty)
      have marked := (index.maskBit _ (by omega)).mpr ⟨bound, head⟩
      have clear := (s.isFirstNonempty_firstNonemptyBinFrom index.maskBound
        (binIndexFor needed)).2 _ le_rfl (by omega) bound
      rw [marked] at clear
      cases clear
    · rw [if_neg logarithmic]

/-- A pass that fails has looked at a run when a run is in the request's own
bin. -/
theorem scanned_ne_nil_iff :
    s.scanned needed ≠ [] ↔ ∃ addr size, s.FreeRun addr size ∧ Misfit needed size := by
  have bound := binIndexFor_lt normalized.aligned normalized.word
  rw [scanned_of_full heap normalized full]
  unfold Misfit
  rw [linearBinCount_eq]
  by_cases logarithmic : 512 ≤ binIndexFor needed
  swap
  · simp [logarithmic]
  obtain ⟨binned, index⟩ := heap.indexed
  rw [if_pos logarithmic, heap.binRuns_eq index bound, ← List.length_pos_iff,
    List.length_pos_iff_exists_mem]
  constructor
  · rintro ⟨h, listed⟩
    obtain ⟨block, member, rfl, same⟩ := (index.mem_iff _ bound _).mp listed
    refine ⟨block.addr, block.size, heap.freeRun_iff.mpr ?_, logarithmic, same⟩
    rw [← member.2]
    exact member
  · rintro ⟨addr, size, free, _, same⟩
    exact ⟨addr, (index.mem_iff _ bound _).mpr
      ⟨_, heap.freeRun_iff.mp free, rfl, same⟩⟩

/-- A pass that fails looks at less than `2 ^ 60` runs. -/
theorem scanned_length_le : (s.scanned needed).length ≤ 2 ^ 60 := by
  have bound := binIndexFor_lt normalized.aligned normalized.word
  rw [scanned_of_full heap normalized full]
  split
  swap
  · simp
  have nodup := (binRuns_deque heap bound).isStack.nodup
  have placed : ∀ h ∈ s.binRuns (binIndexFor needed), 16 ∣ h ∧ h < 2 ^ 64 := by
    intro h listed
    obtain ⟨binned, index⟩ := heap.indexed
    rw [heap.binRuns_eq index bound] at listed
    obtain ⟨block, free, rfl, _⟩ := (index.mem_iff _ bound _).mp listed
    obtain ⟨chunk, member, _, below, _⟩ := heap.layout.mem_chunk free.1
    have inSpace := heap.layout.chunksOk.bounded chunk member
    have large := (heap.layout.sizes block free.1 (by rw [free.2]; decide)).1
    unfold Block.stop at below
    exact ⟨heap.layout.linkable.aligned block free, by omega⟩
  have slots : ((s.binRuns (binIndexFor needed)).map (· / 16)).Nodup := by
    apply nodup.map_on
    intro one oneListed two twoListed same
    have oneAligned := (placed one oneListed).1
    have twoAligned := (placed two twoListed).1
    omega
  have inside : (s.binRuns (binIndexFor needed)).map (· / 16) ⊆ List.range (2 ^ 60) := by
    intro slot listed
    obtain ⟨h, member, rfl⟩ := List.mem_map.mp listed
    have word := (placed h member).2
    exact List.mem_range.mpr (by omega)
  have counted := (List.subperm_of_subset slots inside).length_le
  rwa [List.length_map, List.length_range] at counted

end Full

/-- The OS grants a chunk of the length that `_add_owned_chunk` asks for. -/
def ChunkGranted (cfg : Config) (os : Os) (chunks : List ChunkNode) (bytes : Nat)
    (base length : Nat) : Prop :=
  IsLeast (chunkLengths cfg (max bytes minChunkBytes)) length ∧ length < 2 ^ 64 ∧
    os.grant chunks length = some base

theorem ChunkGranted.unique {chunks : List ChunkNode}
    {bytes base length base' length' : Nat}
    (one : ChunkGranted cfg os chunks bytes base length)
    (two : ChunkGranted cfg os chunks bytes base' length') :
    base = base' ∧ length = length' := by
  obtain ⟨least, _, grants⟩ := one
  obtain ⟨least', _, grants'⟩ := two
  obtain rfl := le_antisymm (least.2 least'.1) (least'.2 least.1)
  rw [grants] at grants'
  exact ⟨Option.some.inj grants', rfl⟩

/-- The deferred first chunk is granted. -/
def FirstGranted (cfg : Config) (s : State) (os : Os) (base length : Nat) : Prop :=
  s.deferredBytes ≠ 0 ∧ ChunkGranted cfg os s.chunks s.deferredBytes base length

/-- Growth is granted. -/
def GrowthGranted (cfg : Config) (os : Os) (chunks : List ChunkNode)
    (nextGrowth needed : Nat) : Prop :=
  cfg.canGrow = true ∧ needed + minChunkBytes < 2 ^ 64 ∧
    ∃ base length, ChunkGranted cfg os chunks
      (max nextGrowth (needed + minChunkBytes)) base length

def State.withFirst (s : State) (base length : Nat) : State :=
  { s.withChunk (ownedChunk base length) with
    nextGrowth := length
    deferredBytes := 0 }

/-- The passes after the drain, when nothing fits: none, one after the first chunk,
one after growth, or both. -/
inductive LaterPasses (cfg : Config) (s : State) (os : Os) (needed : Nat) :
    List (List Nat) → Prop
  | none
      (unavailable : ∀ base length, ¬ FirstGranted cfg s os base length)
      (ungrown : s.deferredBytes = 0 →
        ¬ GrowthGranted cfg os s.chunks s.nextGrowth needed) :
      LaterPasses cfg s os needed []
  | grown (undeferred : s.deferredBytes = 0)
      (growth : GrowthGranted cfg os s.chunks s.nextGrowth needed)
      (last : List Nat) : LaterPasses cfg s os needed [last]
  | first {base length : Nat} (granted : FirstGranted cfg s os base length)
      (enough : (s.withFirst base length).NoFit needed →
        ¬ GrowthGranted cfg os (ownedChunk base length :: s.chunks) length needed)
      (last : List Nat) : LaterPasses cfg s os needed [last]
  | both {base length : Nat} (granted : FirstGranted cfg s os base length)
      (full : (s.withFirst base length).NoFit needed)
      (growth : GrowthGranted cfg os (ownedChunk base length :: s.chunks) length
        needed)
      (last : List Nat) :
      LaterPasses cfg s os needed [(s.withFirst base length).scanned needed, last]

theorem addOwnedChunk_of_granted {bytes base length : Nat} (word : bytes < 2 ^ 64)
    (granted : ChunkGranted cfg os s.chunks bytes base length) :
    s.addOwnedChunk cfg os bytes =
      (s.withChunk (ownedChunk base length), .ok length) := by
  obtain ⟨least, bounded, grants⟩ := granted
  have unique : ∀ other, State.ownedChunkBytesFor cfg bytes = .ok other →
      other = length := fun other sized => by
    have isLeast := ownedChunkBytesFor_isLeast sized
    exact le_antisymm (isLeast.2 least.1) (least.2 isLeast.1)
  have added := addOwnedChunk_added cfg s os bytes
  generalize s.addOwnedChunk cfg os bytes = outcome at added ⊢
  cases added with
  | overflow sized =>
      have large := ((ownedChunkBytesFor_eq_error word).mp sized).2 length least.1
      omega
  | refused sized refuses =>
      rw [unique _ sized, grants] at refuses
      cases refuses
  | added sized other =>
      obtain rfl := unique _ sized
      rw [grants] at other
      obtain rfl := Option.some.inj other
      rfl

/-- The chunk that is granted is one free run. -/
theorem ChunkGranted.heap {bytes base length : Nat}
    (granted : ChunkGranted cfg os s.chunks bytes base length)
    (heap : HeapOk cfg s blocks) (word : bytes < 2 ^ 64) :
    HeapOk cfg (s.withChunk (ownedChunk base length))
      ((ownedChunk base length).wholeRun :: (ownedChunk base length).epilogue ::
        blocks) := by
  obtain ⟨least, bounded, grants⟩ := granted
  have sized : State.ownedChunkBytesFor cfg bytes = .ok length := by
    cases sized : State.ownedChunkBytesFor cfg bytes with
    | error exn =>
        have large := ((ownedChunkBytesFor_eq_error word).mp sized).2 length least.1
        omega
    | ok other =>
        have isLeast := ownedChunkBytesFor_isLeast sized
        rw [le_antisymm (least.2 isLeast.1) (isLeast.2 least.1)]
  exact (initializeFreeRun_spec heap (ownedChunk_fresh word sized grants)).1

theorem granted_of_addOwnedChunk {bytes length : Nat} (word : bytes < 2 ^ 64)
    (added : s.addOwnedChunk cfg os bytes = (t, .ok length)) :
    ∃ base, ChunkGranted cfg os s.chunks bytes base length ∧
      t = s.withChunk (ownedChunk base length) := by
  have ends := addOwnedChunk_added cfg s os bytes
  rw [added] at ends
  cases ends with
  | @added length base sized granted =>
      exact ⟨base, ⟨ownedChunkBytesFor_isLeast sized,
        (ownedChunkBytesFor_spec word sized).2.2.1, granted⟩, rfl⟩

theorem growFor_granted (word : s.nextGrowth < 2 ^ 64) :
    GrowthGranted cfg os s.chunks s.nextGrowth needed ↔
      cfg.canGrow = true ∧ (s.growFor cfg os needed).2 = .ok () := by
  have same : (s.record cfg fun stats =>
    { stats with growCalls := wrapAdd stats.growCalls 1 }).unmeasured =
      s.unmeasured := record_unmeasured _
  unfold GrowthGranted State.growFor
  dsimp only
  generalize (s.record cfg fun stats =>
    { stats with growCalls := wrapAdd stats.growCalls 1 }) = u at same ⊢
  have next : u.nextGrowth = s.nextGrowth := congrArg (fun v => v.nextGrowth) same
  have chunks : u.chunks = s.chunks := congrArg (fun v => v.chunks) same
  rw [next, ← chunks]
  apply and_congr_right
  intro _
  cases summed : checkedAdd needed minChunkBytes with
  | none =>
      have large := (checkedAdd_eq_none (by decide)).mp summed
      constructor
      · rintro ⟨small, _⟩
        omega
      · intro grows
        cases grows
  | some overhead =>
      obtain ⟨bounded, rfl⟩ := (checkedAdd_eq_some (by decide)).mp summed
      dsimp only
      constructor
      · rintro ⟨_, base, length, granted⟩
        rw [addOwnedChunk_of_granted (by omega) granted]
      · intro grows
        refine ⟨bounded, ?_⟩
        generalize outcomeEq : u.addOwnedChunk cfg os
          (max s.nextGrowth (needed + minChunkBytes)) = outcome at grows
        obtain ⟨v, exn | length⟩ := outcome
        · cases grows
        · obtain ⟨base, granted, _⟩ := granted_of_addOwnedChunk (by omega) outcomeEq
          exact ⟨base, length, granted⟩

theorem growthPasses_eq (word : s.nextGrowth < 2 ^ 64) :
    (GrowthGranted cfg os s.chunks s.nextGrowth needed →
        ∃ last, s.growthPasses cfg os needed 0 = [last]) ∧
      (¬ GrowthGranted cfg os s.chunks s.nextGrowth needed →
        s.growthPasses cfg os needed 0 = []) := by
  rw [growFor_granted word]
  unfold State.growthPasses
  by_cases growable : cfg.canGrow = true
  swap
  · rw [if_neg fun both => growable both.2]
    exact ⟨fun both => absurd both.1 growable, fun _ => rfl⟩
  rw [if_pos ⟨rfl, growable⟩]
  generalize s.growFor cfg os needed = outcome
  obtain ⟨t, exn | done⟩ := outcome
  · exact ⟨fun both => (by cases both.2), fun _ => rfl⟩
  · exact ⟨fun _ => ⟨_, rfl⟩, fun fails => absurd ⟨growable, rfl⟩ fails⟩

theorem laterPasses_cases (ok : RunnerOk cfg s runs parked)
    (normalized : Normalized needed) (scanCount : Nat) :
    LaterPasses cfg s os needed
      (State.laterPasses cfg os needed (s, 0, scanCount)) := by
  unfold State.laterPasses State.deferredPasses State.findOrDefer
  dsimp only
  by_cases undeferred : s.deferredBytes = 0
  · rw [if_neg (by simp [undeferred]), if_neg (by simp [undeferred]),
      List.nil_append]
    dsimp only
    obtain ⟨grows, stays⟩ := @growthPasses_eq cfg s os needed ok.growth
    by_cases growth : GrowthGranted cfg os s.chunks s.nextGrowth needed
    · obtain ⟨last, passes⟩ := grows growth
      rw [passes]
      exact .grown undeferred growth last
    · rw [stays growth]
      exact .none (fun _ _ granted => granted.1 undeferred) fun _ => growth
  rw [if_pos ⟨rfl, undeferred⟩, if_pos ⟨rfl, undeferred⟩]
  have added := (addDeferred_step os ok).ok
  unfold State.addDeferred at added
  rw [if_neg undeferred] at added
  generalize outcomeEq : s.addOwnedChunk cfg os s.deferredBytes = outcome
    at added
  obtain ⟨t, exn | length⟩ := outcome
  · refine .none (fun base length granted => ?_) fun zero => absurd zero undeferred
    rw [addOwnedChunk_of_granted ok.deferred granted.2] at outcomeEq
    cases outcomeEq
  · obtain ⟨base, granted, rfl⟩ := granted_of_addOwnedChunk ok.deferred outcomeEq
    have granted' : FirstGranted cfg s os base length := ⟨undeferred, granted⟩
    have first : RunnerOk cfg (s.withFirst base length) runs parked := added
    change LaterPasses cfg s os needed ((s.withFirst base length).scanned needed ::
      (State.findFit cfg (s.withFirst base length) needed scanCount).1.growthPasses cfg
        os needed (State.findFit cfg (s.withFirst base length) needed scanCount).2.1)
    have chunks : (s.withFirst base length).chunks =
        ownedChunk base length :: s.chunks :=
      congrArg (fun members => members.1) (withChunk_outer (ownedChunk base length))
    have missing := first.findFit_eq_zero normalized scanCount
    have same := (@findFit_unmeasured cfg (s.withFirst base length) needed
      scanCount 0).1
    generalize (s.withFirst base length).findFit cfg needed scanCount = found
      at missing same ⊢
    obtain ⟨w, h, count⟩ := found
    dsimp only at missing same ⊢
    by_cases null : h = 0
    swap
    · unfold State.growthPasses
      rw [if_neg fun both => null both.1]
      exact .first granted' (fun full => absurd (missing.mpr full) null) _
    subst null
    have next : w.nextGrowth = length := congrArg (fun v => v.nextGrowth) same
    have chunksEq : w.chunks = ownedChunk base length :: s.chunks :=
      (congrArg (fun v => v.chunks) same).trans chunks
    obtain ⟨grows, stays⟩ :=
      @growthPasses_eq cfg w os needed (first.of_unmeasured same).growth
    rw [next, chunksEq] at grows stays
    by_cases growth : GrowthGranted cfg os (ownedChunk base length :: s.chunks)
        length needed
    · obtain ⟨last, passes⟩ := grows growth
      rw [passes]
      exact .both granted' (missing.mp rfl) growth last
    · rw [stays growth]
      exact .first granted' (fun _ => growth) _

theorem withFirst_unmeasured {base length : Nat}
    (same : t.unmeasured = s.unmeasured) :
    (t.withFirst base length).unmeasured = (s.withFirst base length).unmeasured := by
  have added : (t.withChunk (ownedChunk base length)).unmeasured =
      (s.withChunk (ownedChunk base length)).unmeasured := by
    rw [withChunk_unmeasured, withChunk_unmeasured, same]
  exact congrArg (fun u : State => { u with nextGrowth := length, deferredBytes := 0 })
    added

theorem NoFit.congr (full : s.NoFit needed) (same : t.unmeasured = s.unmeasured) :
    t.NoFit needed := fun addr size free =>
  full addr size (free.congr (congrArg (fun u => u.chunks) same).symm
    (congrArg (fun u => u.mem) same).symm)

theorem LaterPasses.congr {passes : List (List Nat)}
    (later : LaterPasses cfg t os needed passes)
    (same : t.unmeasured = s.unmeasured) : LaterPasses cfg s os needed passes := by
  have chunks : t.chunks = s.chunks := congrArg (fun u => u.chunks) same
  have next : t.nextGrowth = s.nextGrowth := congrArg (fun u => u.nextGrowth) same
  have deferred : t.deferredBytes = s.deferredBytes :=
    congrArg (fun u => u.deferredBytes) same
  have first : ∀ base length, FirstGranted cfg t os base length ↔
      FirstGranted cfg s os base length := by
    intro base length
    unfold FirstGranted
    rw [chunks, deferred]
  cases later with
  | none unavailable ungrown =>
      rw [chunks, next, deferred] at ungrown
      exact .none (fun base length granted =>
        unavailable base length ((first base length).mpr granted)) ungrown
  | grown undeferred growth last =>
      rw [deferred] at undeferred
      rw [chunks, next] at growth
      exact .grown undeferred growth last
  | first granted enough last =>
      rw [chunks] at enough
      exact .first ((first _ _).mp granted)
        (fun full => enough (NoFit.congr full (withFirst_unmeasured same))) last
  | both granted full growth last =>
      rw [chunks] at growth
      rw [scanned_congr (withFirst_unmeasured same)]
      exact .both ((first _ _).mp granted)
        (NoFit.congr full (withFirst_unmeasured same).symm) growth last

/-- The passes of a call that is neither over-aligned nor too large. -/
inductive CallPasses (cfg : Config) (s : State) (os : Os) (parked : List Nat)
    (needed : Nat) : List (List Nat) → Prop
  | first (fits : ¬ s.NoFit needed) (last : List Nat) :
      CallPasses cfg s os parked needed [last]
  | drained (full : s.NoFit needed) (waiting : parked ≠ [])
      (fits : ¬ (s.drainRemote cfg).1.NoFit needed) (last : List Nat) :
      CallPasses cfg s os parked needed [s.scanned needed, last]
  | emptied (full : (s.drainRemote cfg).1.NoFit needed) (waiting : parked ≠ [])
      {passes : List (List Nat)}
      (later : LaterPasses cfg (s.drainRemote cfg).1 os needed passes) :
      CallPasses cfg s os parked needed
        (s.scanned needed :: (s.drainRemote cfg).1.scanned needed :: passes)
  | idle (full : (s.drainRemote cfg).1.NoFit needed) (none : parked = [])
      {passes : List (List Nat)}
      (later : LaterPasses cfg (s.drainRemote cfg).1 os needed passes) :
      CallPasses cfg s os parked needed (s.scanned needed :: passes)

theorem laterPasses_found {h scanCount : Nat} (found : h ≠ 0) :
    State.laterPasses cfg os needed (s, h, scanCount) = [] := by
  unfold State.laterPasses State.deferredPasses State.findOrDefer
    State.growthPasses
  dsimp only
  rw [if_neg fun both => found both.1, if_neg fun both => found both.1]
  exact if_neg fun both => found both.1

theorem RunnerOk.idle_noFit (ok : RunnerOk cfg s runs []) :
    (s.drainRemote cfg).1.NoFit needed ↔ s.NoFit needed := by
  obtain ⟨blocks, heap, _⟩ := ok.heap
  have none : {p | p ∈ ([] : List Nat)} = ∅ := by simp
  rw [ok.drained_noFit, none]
  unfold State.NoFit
  simp only [heap.freeRun_iff_gap]

theorem passes_cases (os : Os) (ok : RunnerOk cfg s runs parked)
    {bytes alignment : Nat} (word : bytes < 2 ^ 64) (small : alignment ≤ 16)
    (sized : normalizedRunBytesForPayload (if bytes = 0 then 1 else bytes) =
      some needed) :
    CallPasses cfg s os parked needed (s.passes cfg os bytes alignment) := by
  obtain ⟨aligned, large, _, bounded⟩ :=
    normalizedRunBytesForPayload_spec (by split <;> omega) sized
  have normalized : Normalized needed := ⟨aligned, large, bounded⟩
  unfold State.passes
  rw [if_neg (Nat.not_lt.mpr small)]
  dsimp only
  rw [sized]
  dsimp only
  generalize (if bytes = 0 then 1 else bytes) = request
  have same : (s.record cfg fun stats =>
    { stats with
      allocateCalls := wrapAdd stats.allocateCalls 1
      requestedBytes := wrapAdd stats.requestedBytes request }).unmeasured =
      s.unmeasured := record_unmeasured _
  generalize s.record cfg (fun stats =>
    { stats with
      allocateCalls := wrapAdd stats.allocateCalls 1
      requestedBytes := wrapAdd stats.requestedBytes request }) = r at same ⊢
  have recorded := ok.of_unmeasured same
  obtain ⟨_, _, drains⟩ := drainRemote_spec ok
  have found := recorded.findFit_eq_zero normalized 0
  rw [ok.noFit_congr same] at found
  have searched := (@findFit_unmeasured cfg r needed 0 0).1
  unfold State.drainPasses State.findOrDrain
  rw [scanned_congr same]
  generalize r.findFit cfg needed 0 = search at found searched ⊢
  obtain ⟨u, h, count⟩ := search
  dsimp only at found searched ⊢
  by_cases null : h = 0
  swap
  · rw [if_neg null, if_neg null, laterPasses_found null]
    exact .first (fun full => null (found.mpr full)) _
  rw [if_pos null, if_pos null]
  have full := found.mp null
  have sameDrain : (u.drainRemote cfg).1.unmeasured =
      (s.drainRemote cfg).1.unmeasured := by
    have pairs : (u.drainRemote cfg).map State.unmeasured id =
        (s.drainRemote cfg).map State.unmeasured id := by
      rw [drainRemote_unmeasured, drainRemote_unmeasured, searched.trans same]
    exact congrArg Prod.fst pairs
  have flag := (drainRemote_spec (recorded.of_unmeasured searched)).1
  have drained := drains.ok.of_unmeasured sameDrain
  generalize u.drainRemote cfg = outcome at sameDrain flag drained ⊢
  obtain ⟨v, reclaimed⟩ := outcome
  dsimp only at sameDrain flag drained
  cases reclaimed with
  | false =>
      obtain rfl : parked = [] := by simpa using flag
      dsimp only
      rw [null]
      exact .idle (ok.idle_noFit.mpr full) rfl
        ((laterPasses_cases drained normalized count).congr sameDrain)
  | true =>
      have waiting : parked ≠ [] := by simpa using flag
      have again := drained.findFit_eq_zero normalized count
      rw [drains.ok.noFit_congr sameDrain] at again
      have researched := (@findFit_unmeasured cfg v needed count 0).1
      dsimp only
      rw [scanned_congr sameDrain]
      generalize v.findFit cfg needed count = search at again researched ⊢
      obtain ⟨w, h', count'⟩ := search
      dsimp only at again researched
      by_cases missing : h' = 0
      · rw [missing]
        exact .emptied (again.mp missing) waiting
          ((laterPasses_cases (drained.of_unmeasured researched) normalized
            count').congr (researched.trans sameDrain))
      · rw [laterPasses_found missing]
        exact .drained full waiting (fun none => missing (again.mpr none)) _

end Runner

end Allocazam
