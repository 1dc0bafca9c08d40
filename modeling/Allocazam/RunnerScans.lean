import Allocazam.RunnerGauges
import Mathlib.Data.Nat.ModEq

/-!
# The passes of an allocation

An `allocate_bytes` runs `_find_fit` up to four times with one scan count.  A pass
adds the count so far to `scanned_nodes`, so that the runs of a pass are added again
by each later one.
-/

namespace Allocazam

namespace Runner

variable {cfg : Config} {s t u : State} {os : Os} {needed : Nat}

namespace State

variable (cfg : Config) (s : State)

/-- The runs that the inner loop of `_find_fit` looks at, from node `h`. -/
def scannedBin (needed : Nat) : Nat → Nat → List Nat
  | 0, _ => []
  | fuel + 1, h =>
      if h = 0 then []
      else if s.runSize h ≥ needed then [h]
      else h :: scannedBin needed fuel (s.mem (nextLink h))

/-- The runs that the outer loop of `_find_fit` looks at, from bin `idx`. -/
def scannedBins (needed startBin : Nat) : Nat → Nat → List Nat
  | 0, _ => []
  | fuel + 1, idx =>
      if idx < binCount then
        if idx ≠ startBin ∨ idx < linearBinCount then [s.bins idx]
        else
          let inBin := s.scannedBin needed s.nodeBound (s.bins idx)
          if inBin.any fun h => decide (s.runSize h ≥ needed) then inBin
          else inBin ++
            scannedBins needed startBin fuel (s.firstNonemptyBinFrom (idx + 1))
      else []

/-- The runs that a pass of `_find_fit` looks at. -/
def scanned (needed : Nat) : List Nat :=
  let startBin := binIndexFor needed
  s.scannedBins needed startBin binCount (s.firstNonemptyBinFrom startBin)

/-- The passes of `allocate_bytes` up to the one after a drain. -/
def drainPasses (needed : Nat) : List (List Nat) :=
  let (t, h, _) := s.findFit cfg needed 0
  s.scanned needed ::
    if h = 0 then
      match t.drainRemote cfg with
      | (u, true) => [u.scanned needed]
      | (_, false) => []
    else []

def deferredPasses (os : Os) (needed h : Nat) : List (List Nat) :=
  if h = 0 ∧ s.deferredBytes ≠ 0 then
    match s.addOwnedChunk cfg os s.deferredBytes with
    | (_, .error _) => []
    | (t, .ok chunkBytes) =>
        let t := { t with nextGrowth := chunkBytes, deferredBytes := 0 }
        [t.scanned needed]
  else []

def growthPasses (os : Os) (needed h : Nat) : List (List Nat) :=
  if h = 0 ∧ cfg.canGrow then
    match s.growFor cfg os needed with
    | (_, .error _) => []
    | (t, .ok ()) => [t.scanned needed]
  else []

/-- The passes of `allocate_bytes` from the point where the remote stack has been
dealt with. -/
def laterPasses (os : Os) (needed : Nat) (found : State × Nat × Nat) :
    List (List Nat) :=
  found.1.deferredPasses cfg os needed found.2.1 ++
    match findOrDefer cfg os needed found with
    | (_, .error _) => []
    | (t, .ok (h, _)) => t.growthPasses cfg os needed h

/-- The runs that each pass of an `allocate_bytes` looks at. -/
def passes (os : Os) (bytes alignment : Nat) : List (List Nat) :=
  let bytes := if bytes = 0 then 1 else bytes
  if alignment > runAlignment then []
  else
    let s := s.record cfg fun stats =>
      { stats with
        allocateCalls := wrapAdd stats.allocateCalls 1
        requestedBytes := wrapAdd stats.requestedBytes bytes }
    match normalizedRunBytesForPayload bytes with
    | none => []
    | some needed =>
        s.drainPasses cfg needed ++
          laterPasses cfg os needed (s.findOrDrain cfg needed)

end State

theorem scanned_unmeasured : s.unmeasured.scanned needed = s.scanned needed := by
  have inBin : ∀ fuel h, s.unmeasured.scannedBin needed fuel h =
      s.scannedBin needed fuel h := by
    intro fuel
    induction fuel with
    | zero => exact fun _ => rfl
    | succ fuel ih =>
        intro h
        unfold State.scannedBin
        rw [ih]
        rfl
  have size : ∀ h, s.unmeasured.runSize h = s.runSize h := fun _ => rfl
  have inBins : ∀ startBin fuel idx,
      s.unmeasured.scannedBins needed startBin fuel idx =
        s.scannedBins needed startBin fuel idx := by
    intro startBin fuel
    induction fuel with
    | zero => exact fun _ => rfl
    | succ fuel ih =>
        intro idx
        have bound : s.unmeasured.nodeBound = s.nodeBound := rfl
        unfold State.scannedBins
        dsimp only
        rw [inBin, firstNonemptyBinFrom_unmeasured, ih, unmeasured_bins, bound]
        simp only [size]
  unfold State.scanned
  dsimp only
  rw [inBins, firstNonemptyBinFrom_unmeasured]

theorem scanned_congr (same : t.unmeasured = s.unmeasured) :
    t.scanned needed = s.scanned needed := by
  rw [← scanned_unmeasured, same, scanned_unmeasured]

/-- What passes with the given counts add up to, when each of them adds the sum of
all counts so far. -/
def runningTotal : Nat → List Nat → Nat
  | _, [] => 0
  | count, pass :: rest => count + pass + runningTotal (count + pass) rest

/-- What they add too much: a pass counts once for each pass after it. -/
def recounted : List Nat → Nat
  | [] => 0
  | pass :: rest => pass * rest.length + recounted rest

theorem runningTotal_eq (count : Nat) (counts : List Nat) :
    runningTotal count counts =
      count * counts.length + (counts.sum + recounted counts) := by
  induction counts generalizing count with
  | nil => rfl
  | cons pass rest ih =>
      rw [runningTotal, recounted, ih, List.length_cons, List.sum_cons]
      ring

theorem runningTotal_append (count : Nat) (front back : List Nat) :
    runningTotal count (front ++ back) =
      runningTotal count front + runningTotal (count + front.sum) back := by
  induction front generalizing count with
  | nil => simp [runningTotal]
  | cons pass rest ih =>
      rw [List.cons_append, runningTotal, runningTotal, ih, List.sum_cons,
        Nat.add_assoc count pass rest.sum]
      omega

theorem recounted_eq_zero {counts : List Nat} :
    recounted counts = 0 ↔ ∀ pass ∈ counts.dropLast, pass = 0 := by
  induction counts with
  | nil => simp [recounted]
  | cons pass rest ih =>
      cases rest with
      | nil => simp [recounted]
      | cons next rest =>
          rw [recounted, Nat.add_eq_zero_iff, ih, List.dropLast_cons_cons]
          simp

theorem recounted_le {bound : Nat} {counts : List Nat}
    (small : ∀ pass ∈ counts.dropLast, pass ≤ bound) :
    recounted counts ≤ bound * (counts.length * (counts.length - 1)) := by
  induction counts with
  | nil => exact Nat.zero_le _
  | cons pass rest ih =>
      cases rest with
      | nil => simp [recounted]
      | cons next rest =>
          rw [List.dropLast_cons_cons] at small
          have here := small pass List.mem_cons_self
          have later := ih fun other member =>
            small other (List.mem_cons_of_mem pass member)
          rw [recounted]
          generalize next :: rest = following at later ⊢
          rw [List.length_cons, Nat.add_sub_cancel]
          calc pass * following.length + recounted following
              ≤ bound * following.length +
                  bound * (following.length * (following.length - 1)) :=
                Nat.add_le_add (Nat.mul_le_mul_right _ here) later
            _ ≤ bound * following.length +
                  bound * (following.length * following.length) := by
                apply Nat.add_le_add_left
                apply Nat.mul_le_mul_left
                exact Nat.mul_le_mul_left _ (Nat.sub_le _ 1)
            _ = bound * ((following.length + 1) * following.length) := by
                ring

/-- How much of a change of the statistics some passes account for. -/
structure Counted (old new : Stats) (before after : Nat) (counts : List Nat) :
    Prop where
  calls : new.findFitCalls ≡ old.findFitCalls + counts.length [MOD 2 ^ 64]
  nodes : new.scannedNodes ≡
    old.scannedNodes + runningTotal before counts [MOD 2 ^ 64]
  count : after ≡ before + counts.sum [MOD 2 ^ 64]

namespace Counted

variable {old middle new : Stats} {before between after : Nat}
  {front back counts : List Nat}

theorem nil (same : new.scans = old.scans) (count : Nat) :
    Counted old new count count [] where
  calls := by
    rw [show new.findFitCalls = old.findFitCalls from congrArg Prod.fst same]
    rfl
  nodes := by
    rw [show new.scannedNodes = old.scannedNodes from congrArg Prod.snd same]
    rfl
  count := rfl

theorem trans (first : Counted old middle before between front)
    (second : Counted middle new between after back) :
    Counted old new before after (front ++ back) where
  calls := by
    rw [List.length_append, ← Nat.add_assoc]
    exact second.calls.trans (first.calls.add_right _)
  nodes := by
    rw [runningTotal_append, ← Nat.add_assoc]
    apply second.nodes.trans
    apply first.nodes.add
    rw [runningTotal_eq, runningTotal_eq]
    exact (first.count.mul_right _).add_right _
  count := by
    rw [List.sum_append, ← Nat.add_assoc]
    exact second.count.trans (first.count.add_right _)

theorem of_scans (same : middle.scans = old.scans)
    (second : Counted middle new before after counts) :
    Counted old new before after counts :=
  (nil same before).trans second

theorem trans_scans (first : Counted old middle before after counts)
    (same : new.scans = middle.scans) : Counted old new before after counts := by
  have none := first.trans (nil same after)
  rwa [List.append_nil] at none

end Counted

theorem wrapAdd_modEq (lhs rhs : Nat) : wrapAdd lhs rhs ≡ lhs + rhs [MOD 2 ^ 64] :=
  Nat.mod_modEq _ _

section Pass

variable (measured : cfg.collectStats = true)

include measured

/-- The scan of one bin counts the runs it looks at, and finds one if one of them
fits. -/
theorem scanBin_counts (fuel h scanCount : Nat) :
    (s.scanBin cfg needed fuel h scanCount).2 ≡
        scanCount + (s.scannedBin needed fuel h).length [MOD 2 ^ 64] ∧
      ((s.scanBin cfg needed fuel h scanCount).1 = 0 ↔
        ((s.scannedBin needed fuel h).any fun h =>
          decide (s.runSize h ≥ needed)) = false) := by
  induction fuel generalizing h scanCount with
  | zero => exact ⟨rfl, by simp [State.scanBin, State.scannedBin]⟩
  | succ fuel ih =>
      unfold State.scanBin State.scannedBin
      dsimp only
      rw [if_pos measured]
      by_cases null : h = 0
      · rw [if_pos null, if_pos null]
        exact ⟨rfl, by simp⟩
      rw [if_neg null, if_neg null]
      by_cases fits : s.runSize h ≥ needed
      · rw [if_pos fits, if_pos fits]
        exact ⟨wrapAdd_modEq _ _, by simp [null, fits]⟩
      · rw [if_neg fits, if_neg fits]
        obtain ⟨counted, found⟩ := ih (s.mem (nextLink h)) (wrapAdd scanCount 1)
        constructor
        · rw [List.length_cons, Nat.add_comm _ 1, ← Nat.add_assoc]
          exact counted.trans ((wrapAdd_modEq _ _).add_right _)
        · rw [found, List.any_cons, decide_eq_false fits, Bool.false_or]

theorem scanBins_counts (startBin fuel idx scanCount : Nat) :
    (s.scanBins cfg needed startBin fuel idx scanCount).2 ≡
      scanCount + (s.scannedBins needed startBin fuel idx).length [MOD 2 ^ 64] := by
  induction fuel generalizing idx scanCount with
  | zero => rfl
  | succ fuel ih =>
      unfold State.scanBins State.scannedBins
      dsimp only
      by_cases inRange : idx < binCount
      swap
      · rw [if_neg inRange, if_neg inRange]
        rfl
      rw [if_pos inRange, if_pos inRange]
      by_cases direct : idx ≠ startBin ∨ idx < linearBinCount
      · rw [if_pos direct, if_pos direct, if_pos measured]
        exact wrapAdd_modEq _ _
      rw [if_neg direct, if_neg direct]
      obtain ⟨counted, found⟩ :=
        @scanBin_counts cfg s needed measured s.nodeBound (s.bins idx) scanCount
      generalize s.scanBin cfg needed s.nodeBound (s.bins idx) scanCount = result
        at counted found ⊢
      obtain ⟨h, count⟩ := result
      dsimp only at counted found
      cases h with
      | zero =>
          rw [if_neg (by rw [found.mp rfl]; decide), List.length_append,
            ← Nat.add_assoc]
          exact (ih _ count).trans (counted.add_right _)
      | succ h =>
          have some := mt found.mpr (Nat.succ_ne_zero h)
          rw [if_pos (by simpa using some)]
          exact counted

theorem findFit_counts (needed scanCount : Nat) :
    Counted s.stats (s.findFit cfg needed scanCount).1.stats scanCount
      (s.findFit cfg needed scanCount).2.2 [(s.scanned needed).length] := by
  unfold State.findFit
  dsimp only
  have recorded := @record_stats cfg s measured
    fun stats => { stats with findFitCalls := wrapAdd stats.findFitCalls 1 }
  have same : (s.record cfg fun stats =>
      { stats with findFitCalls := wrapAdd stats.findFitCalls 1 }).scanned needed =
        s.scanned needed := scanned_congr (record_unmeasured _)
  rw [← same]
  generalize (s.record cfg fun stats =>
    { stats with findFitCalls := wrapAdd stats.findFitCalls 1 }) = u at recorded ⊢
  have counted := @scanBins_counts cfg u needed measured (binIndexFor needed)
    binCount (u.firstNonemptyBinFrom (binIndexFor needed)) scanCount
  generalize u.scanBins cfg needed (binIndexFor needed) binCount
    (u.firstNonemptyBinFrom (binIndexFor needed)) scanCount = result at counted ⊢
  obtain ⟨h, count⟩ := result
  have total := @record_stats cfg u measured
    fun stats => { stats with scannedNodes := wrapAdd stats.scannedNodes count }
  dsimp only at counted
  dsimp only
  rw [recorded] at total
  constructor
  · rw [total]
    exact wrapAdd_modEq _ _
  · rw [total]
    exact (wrapAdd_modEq _ _).trans (counted.add_left _)
  · exact counted

theorem findOrDrain_counts (needed : Nat) :
    Counted s.stats (s.findOrDrain cfg needed).1.stats 0
      (s.findOrDrain cfg needed).2.2
      ((s.drainPasses cfg needed).map List.length) := by
  have first := @findFit_counts cfg s measured needed 0
  unfold State.findOrDrain State.drainPasses
  generalize s.findFit cfg needed 0 = found at first ⊢
  obtain ⟨t, h, count⟩ := found
  dsimp only at first ⊢
  by_cases null : h = 0
  swap
  · rw [if_neg null, if_neg null]
    exact first
  rw [if_pos null, if_pos null]
  have drained := @drainRemote_scans cfg t
  generalize t.drainRemote cfg = outcome at drained ⊢
  obtain ⟨u, reclaimed⟩ := outcome
  have left := first.trans_scans drained
  cases reclaimed with
  | false => exact left
  | true => exact left.trans (findFit_counts measured needed count)

theorem findOrDefer_counts (needed h scanCount : Nat) :
    ∃ after, Counted s.stats
        (State.findOrDefer cfg os needed (s, h, scanCount)).1.stats scanCount after
        ((s.deferredPasses cfg os needed h).map List.length) ∧
      ∀ found count, (State.findOrDefer cfg os needed (s, h, scanCount)).2 =
        .ok (found, count) → count = after := by
  unfold State.findOrDefer State.deferredPasses
  dsimp only
  by_cases missing : h = 0 ∧ s.deferredBytes ≠ 0
  swap
  · rw [if_neg missing, if_neg missing]
    refine ⟨scanCount, Counted.nil rfl scanCount, fun found count same => ?_⟩
    exact (congrArg Prod.snd (Except.ok.inj same)).symm
  rw [if_pos missing, if_pos missing]
  have added := @addOwnedChunk_stats cfg s os s.deferredBytes
  generalize s.addOwnedChunk cfg os s.deferredBytes = outcome at added ⊢
  have kept := congrArg Stats.scans added
  obtain ⟨t, exn | chunkBytes⟩ := outcome
  · exact ⟨scanCount, Counted.nil kept scanCount, fun _ _ thrown => by cases thrown⟩
  · dsimp only at kept ⊢
    have pass := @findFit_counts cfg
      { t with nextGrowth := chunkBytes, deferredBytes := 0 } measured needed scanCount
    refine ⟨_, Counted.of_scans kept pass, fun found count same => ?_⟩
    exact (congrArg Prod.snd (Except.ok.inj same)).symm

theorem findOrGrow_counts (needed h scanCount : Nat) :
    ∃ after, Counted s.stats (s.findOrGrow cfg os needed h scanCount).1.stats
      scanCount after ((s.growthPasses cfg os needed h).map List.length) := by
  unfold State.findOrGrow State.growthPasses
  by_cases missing : h = 0 ∧ cfg.canGrow = true
  swap
  · rw [if_neg missing, if_neg missing]
    exact ⟨scanCount, Counted.nil rfl scanCount⟩
  rw [if_pos missing, if_pos missing]
  have grown : (s.growFor cfg os needed).1.stats.scans = s.stats.scans :=
    growFor_kept Stats.scans (fun _ _ => rfl) needed
  generalize s.growFor cfg os needed = outcome at grown ⊢
  obtain ⟨t, exn | done⟩ := outcome
  · exact ⟨scanCount, Counted.nil grown scanCount⟩
  · exact ⟨_, Counted.of_scans grown (findFit_counts measured needed scanCount)⟩

theorem resumeAllocate_counts (needed h scanCount : Nat) :
    ∃ after, Counted s.stats
      (State.resumeAllocate cfg os needed (s, h, scanCount)).1.stats scanCount after
      ((State.laterPasses cfg os needed (s, h, scanCount)).map List.length) := by
  unfold State.resumeAllocate State.laterPasses
  obtain ⟨after, deferred, same⟩ :=
    @findOrDefer_counts cfg s os measured needed h scanCount
  generalize State.findOrDefer cfg os needed (s, h, scanCount) = outcome
    at deferred same ⊢
  rw [List.map_append]
  obtain ⟨t, exn | ⟨found, count⟩⟩ := outcome
  · exact ⟨after, deferred.trans (Counted.nil rfl after)⟩
  · obtain rfl := same found count rfl
    obtain ⟨after, grown⟩ := @findOrGrow_counts cfg t os measured needed found count
    dsimp only at deferred ⊢
    generalize t.findOrGrow cfg os needed found count = outcome at grown ⊢
    have total := deferred.trans grown
    obtain ⟨u, exn | last⟩ := outcome
    · exact ⟨after, total⟩
    · exact ⟨after, total.trans_scans (finishAllocate_scans last needed)⟩

/-- A call adds its passes to the statistics, each with the ones before it. -/
theorem allocateBytes_counts (bytes alignment : Nat) :
    ∃ after, Counted s.stats (s.allocateBytes cfg os bytes alignment).1.stats 0
      after ((s.passes cfg os bytes alignment).map List.length) := by
  unfold State.allocateBytes State.passes
  by_cases overAligned : alignment > runAlignment
  · rw [if_pos overAligned, if_pos overAligned]
    exact ⟨0, Counted.nil rfl 0⟩
  rw [if_neg overAligned, if_neg overAligned]
  dsimp only
  generalize (if bytes = 0 then 1 else bytes) = request
  have recorded : (s.record cfg fun stats =>
      { stats with
        allocateCalls := wrapAdd stats.allocateCalls 1
        requestedBytes := wrapAdd stats.requestedBytes request }).stats.scans =
      s.stats.scans := record_kept Stats.scans _ rfl
  generalize s.record cfg (fun stats =>
    { stats with
      allocateCalls := wrapAdd stats.allocateCalls 1
      requestedBytes := wrapAdd stats.requestedBytes request }) = r at recorded ⊢
  cases normalizedRunBytesForPayload request with
  | none =>
      exact ⟨0, Counted.nil ((record_kept Stats.scans _ rfl).trans recorded) 0⟩
  | some needed =>
      dsimp only
      have drained := @findOrDrain_counts cfg r measured needed
      generalize r.findOrDrain cfg needed = found at drained ⊢
      obtain ⟨t, h, count⟩ := found
      obtain ⟨after, later⟩ := @resumeAllocate_counts cfg t os measured needed h count
      rw [List.map_append]
      exact ⟨after, Counted.of_scans recorded (drained.trans later)⟩

end Pass

end Runner

end Allocazam
