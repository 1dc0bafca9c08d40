import Allocazam.RunnerPasses

/-!
# What the scan statistics count

The statistics are right after a call exactly when no pass but the last has looked
at a run, and right after a run in which every call is like that.
-/

namespace Allocazam

namespace Runner

variable {cfg : Config} {s t : State} {os : Os} {blocks : List Block}
  {runs : Set Block} {parked : List Nat} {needed : Nat}

/-- A pass other than the last has looked at a run. -/
def Wasted (passes : List (List Nat)) : Prop :=
  ∃ pass ∈ passes.dropLast, pass ≠ []

theorem wasted_cons {pass : List Nat} {passes : List (List Nat)} :
    Wasted (pass :: passes) ↔ passes ≠ [] ∧ (pass ≠ [] ∨ Wasted passes) := by
  unfold Wasted
  cases passes with
  | nil => simp
  | cons next passes => simp [List.dropLast_cons_cons]

theorem not_wasted_nil : ¬ Wasted [] := by
  simp [Wasted]

/-- A further chunk is granted when nothing fits: the deferred first one, or one for
growth. -/
def MoreGranted (cfg : Config) (s : State) (os : Os) (needed : Nat) : Prop :=
  (∃ base length, FirstGranted cfg s os base length) ∨
    s.deferredBytes = 0 ∧ GrowthGranted cfg os s.chunks s.nextGrowth needed

/-- The first chunk is too small for the request, but of its bin, and growth is
granted. -/
def FirstWasted (cfg : Config) (s : State) (os : Os) (needed : Nat) : Prop :=
  ∃ base length, FirstGranted cfg s os base length ∧ length - 16 < needed ∧
    Misfit needed (length - 16) ∧
    GrowthGranted cfg os (ownedChunk base length :: s.chunks) length needed

/-- A call looks at a run in vain and then searches again: a free run of the
request's bin before a drain, a gap between the runs that are not parked before
a chunk is added, or the first chunk before growth. -/
inductive Rescans (cfg : Config) (s : State) (os : Os) (parked : List Nat)
    (needed : Nat) : Prop
  | drain {addr size : Nat} (full : s.NoFit needed) (waiting : parked ≠ [])
      (free : s.FreeRun addr size) (misfit : Misfit needed size)
  | chunk {addr size : Nat}
      (full : ∀ addr size, s.Gap {p | p ∈ parked} addr size → size < needed)
      (gap : s.Gap {p | p ∈ parked} addr size) (misfit : Misfit needed size)
      (more : MoreGranted cfg s os needed)
  | growth
      (full : ∀ addr size, s.Gap {p | p ∈ parked} addr size → size < needed)
      (wasted : FirstWasted cfg s os needed)

theorem withFirst_heap (heap : HeapOk cfg s blocks) (word : s.deferredBytes < 2 ^ 64)
    {base length : Nat} (granted : FirstGranted cfg s os base length) :
    HeapOk cfg (s.withFirst base length)
      ((ownedChunk base length).wholeRun :: (ownedChunk base length).epilogue ::
        blocks) :=
  (granted.2.heap heap word).congr rfl rfl rfl rfl

theorem withFirst_freeRun (heap : HeapOk cfg s blocks)
    (word : s.deferredBytes < 2 ^ 64) {base length : Nat}
    (granted : FirstGranted cfg s os base length) {addr size : Nat} :
    (s.withFirst base length).FreeRun addr size ↔
      addr = base ∧ size = length - 16 ∨ s.FreeRun addr size := by
  rw [(withFirst_heap heap word granted).freeRun_iff, heap.freeRun_iff]
  simp [freeRuns, ChunkNode.wholeRun, ChunkNode.epilogue, ownedChunk]

section Later

variable (ok : RunnerOk cfg s runs parked) (normalized : Normalized needed)
  (full : s.NoFit needed) {passes : List (List Nat)}
  (later : LaterPasses cfg s os needed passes)

include later

theorem laterPasses_ne_nil : passes ≠ [] ↔ MoreGranted cfg s os needed := by
  cases later with
  | none unavailable ungrown =>
      constructor
      · exact fun some => absurd rfl some
      · rintro (⟨base, length, granted⟩ | ⟨undeferred, growth⟩)
        · exact absurd granted (unavailable base length)
        · exact absurd growth (ungrown undeferred)
  | grown undeferred growth last => simp [MoreGranted, undeferred, growth]
  | first granted enough last =>
      exact ⟨fun _ => Or.inl ⟨_, _, granted⟩, fun _ => List.cons_ne_nil _ _⟩
  | both granted full' growth last =>
      exact ⟨fun _ => Or.inl ⟨_, _, granted⟩, fun _ => List.cons_ne_nil _ _⟩

include ok normalized full

theorem wasted_of_firstWasted (first : FirstWasted cfg s os needed) : Wasted passes := by
  obtain ⟨blocks, heap, _⟩ := ok.heap
  obtain ⟨base, length, granted, small, misfit, growth⟩ := first
  have firstFull : (s.withFirst base length).NoFit needed := by
    intro addr size free
    rcases (withFirst_freeRun heap ok.deferred granted).mp free with
      ⟨_, rfl⟩ | old
    · exact small
    · exact full addr size old
  cases later with
  | none unavailable ungrown => exact absurd granted (unavailable base length)
  | grown undeferred => exact absurd undeferred granted.1
  | first other enough last =>
      obtain ⟨rfl, rfl⟩ := granted.2.unique other.2
      exact absurd growth (enough firstFull)
  | both other full' growth last =>
      obtain ⟨rfl, rfl⟩ := granted.2.unique other.2
      rw [wasted_cons]
      refine ⟨List.cons_ne_nil _ _, Or.inl ?_⟩
      rw [scanned_ne_nil_iff (withFirst_heap heap ok.deferred granted) normalized
        firstFull]
      exact ⟨base, length - 16,
        (withFirst_freeRun heap ok.deferred granted).mpr (Or.inl ⟨rfl, rfl⟩), misfit⟩

omit full in
theorem firstWasted_of_wasted (wasted : Wasted passes) :
    FirstWasted cfg s os needed ∨
      ∃ addr size, s.FreeRun addr size ∧ Misfit needed size := by
  obtain ⟨blocks, heap, _⟩ := ok.heap
  cases later with
  | none => exact absurd wasted not_wasted_nil
  | grown => exact absurd rfl (wasted_cons.mp wasted).1
  | first => exact absurd rfl (wasted_cons.mp wasted).1
  | @both base length granted full' growth last =>
      rcases (wasted_cons.mp wasted).2 with looked | rest
      swap
      · exact absurd rfl (wasted_cons.mp rest).1
      obtain ⟨addr, size, free, misfit⟩ := (scanned_ne_nil_iff
        (withFirst_heap heap ok.deferred granted) normalized full').mp looked
      rcases (withFirst_freeRun heap ok.deferred granted).mp free with
        ⟨_, rfl⟩ | old
      · exact Or.inl ⟨base, length, granted, full' _ _ free, misfit, growth⟩
      · exact Or.inr ⟨addr, size, old, misfit⟩

end Later

theorem drainRemote_nextGrowth :
    (s.drainRemote cfg).1.nextGrowth = s.nextGrowth := by
  have sizing : (s.drainRemote cfg).1.sizing = s.sizing := drainRemote_sizing
  exact congrArg Prod.fst sizing

theorem drained_granted :
    (MoreGranted cfg (s.drainRemote cfg).1 os needed ↔
        MoreGranted cfg s os needed) ∧
      (FirstWasted cfg (s.drainRemote cfg).1 os needed ↔
        FirstWasted cfg s os needed) := by
  unfold MoreGranted FirstWasted FirstGranted
  rw [drainRemote_deferred, drainRemote_chunks, drainRemote_nextGrowth]
  exact ⟨Iff.rfl, Iff.rfl⟩

/-- A call looks at runs in vain exactly when it rescans. -/
theorem passes_wasted_iff (os : Os) (ok : RunnerOk cfg s runs parked)
    {bytes alignment : Nat} (word : bytes < 2 ^ 64) (small : alignment ≤ 16)
    (sized : normalizedRunBytesForPayload (if bytes = 0 then 1 else bytes) =
      some needed) :
    Wasted (s.passes cfg os bytes alignment) ↔ Rescans cfg s os parked needed := by
  obtain ⟨aligned, large, _, bounded⟩ :=
    normalizedRunBytesForPayload_spec (by split <;> omega) sized
  have normalized : Normalized needed := ⟨aligned, large, bounded⟩
  obtain ⟨_, _, drains⟩ := drainRemote_spec ok
  obtain ⟨blocks, heap, _⟩ := ok.heap
  obtain ⟨drainedBlocks, drainedHeap, _⟩ := drains.ok.heap
  obtain ⟨moreSame, firstSame⟩ := @drained_granted cfg s os needed
  have gaps := @RunnerOk.drained_noFit cfg s runs parked needed ok
  have kept : (s.drainRemote cfg).1.NoFit needed → s.NoFit needed :=
    ok.noFit_of_shrinks drains.ok (ok.shrinks drains withoutPayloads_subset)
      ((by decide : 16 ≤ 48).trans normalized.large)
  have vain : (s.drainRemote cfg).1.NoFit needed →
      (∃ addr size, (s.drainRemote cfg).1.FreeRun addr size ∧ Misfit needed size) →
      MoreGranted cfg s os needed → Rescans cfg s os parked needed := by
    rintro full ⟨addr, size, free, misfit⟩ more
    exact .chunk (gaps.mp full) (ok.drained_gap.mp free) misfit more
  have cases := passes_cases os ok word small sized
  generalize s.passes cfg os bytes alignment = passes at cases ⊢
  constructor
  · intro wasted
    cases cases with
    | first fits last => exact absurd rfl (wasted_cons.mp wasted).1
    | drained full waiting fits last =>
        rcases (wasted_cons.mp wasted).2 with looked | rest
        · obtain ⟨addr, size, free, misfit⟩ :=
            (scanned_ne_nil_iff heap normalized full).mp looked
          exact .drain full waiting free misfit
        · exact absurd rfl (wasted_cons.mp rest).1
    | emptied full waiting later =>
        have more := laterPasses_ne_nil later
        rw [moreSame] at more
        rcases (wasted_cons.mp wasted).2 with looked | rest
        · obtain ⟨addr, size, free, misfit⟩ :=
            (scanned_ne_nil_iff heap normalized (kept full)).mp looked
          exact .drain (kept full) waiting free misfit
        obtain ⟨some, looked | rest⟩ := wasted_cons.mp rest
        · exact vain full ((scanned_ne_nil_iff drainedHeap normalized full).mp looked)
            (more.mp some)
        · rcases firstWasted_of_wasted drains.ok normalized later rest with
            first | free
          · exact .growth (gaps.mp full) (firstSame.mp first)
          · exact vain full free (more.mp some)
    | idle full none later =>
        have more := laterPasses_ne_nil later
        rw [moreSame] at more
        obtain ⟨some, looked | rest⟩ := wasted_cons.mp wasted
        · subst none
          obtain ⟨addr, size, free, misfit⟩ :=
            (scanned_ne_nil_iff heap normalized (kept full)).mp looked
          have gap := heap.freeRun_iff_gap.mp free
          exact .chunk (gaps.mp full) (by simpa using gap) misfit (more.mp some)
        · rcases firstWasted_of_wasted drains.ok normalized later rest with
            first | free
          · exact .growth (gaps.mp full) (firstSame.mp first)
          · exact vain full free (more.mp some)
  · intro rescans
    cases cases with
    | first fits last =>
        cases rescans with
        | drain full => exact absurd full fits
        | chunk full => exact absurd (kept (gaps.mpr full)) fits
        | growth full => exact absurd (kept (gaps.mpr full)) fits
    | drained full waiting fits last =>
        cases rescans with
        | drain _ _ free misfit =>
            refine wasted_cons.mpr ⟨List.cons_ne_nil _ _, Or.inl ?_⟩
            exact (scanned_ne_nil_iff heap normalized full).mpr
              ⟨_, _, free, misfit⟩
        | chunk full => exact absurd (gaps.mpr full) fits
        | growth full => exact absurd (gaps.mpr full) fits
    | emptied full waiting later =>
        refine wasted_cons.mpr ⟨List.cons_ne_nil _ _, ?_⟩
        have more := laterPasses_ne_nil later
        rw [moreSame] at more
        cases rescans with
        | drain _ _ free misfit =>
            exact Or.inl ((scanned_ne_nil_iff heap normalized (kept full)).mpr
              ⟨_, _, free, misfit⟩)
        | chunk _ gap misfit granted =>
            refine Or.inr (wasted_cons.mpr ⟨more.mpr granted, Or.inl ?_⟩)
            exact (scanned_ne_nil_iff drainedHeap normalized full).mpr
              ⟨_, _, ok.drained_gap.mpr gap, misfit⟩
        | growth _ first =>
            have wasted := wasted_of_firstWasted drains.ok normalized full later
              (firstSame.mpr first)
            refine Or.inr (wasted_cons.mpr ⟨?_, Or.inr wasted⟩)
            rintro rfl
            exact not_wasted_nil wasted
    | idle full none later =>
        have more := laterPasses_ne_nil later
        rw [moreSame] at more
        subst none
        cases rescans with
        | drain _ waiting => exact absurd rfl waiting
        | chunk _ gap misfit granted =>
            refine wasted_cons.mpr ⟨more.mpr granted, Or.inl ?_⟩
            have free := heap.freeRun_iff_gap.mpr (by simpa using gap)
            exact (scanned_ne_nil_iff heap normalized (kept full)).mpr
              ⟨_, _, free, misfit⟩
        | growth _ first =>
            have wasted := wasted_of_firstWasted drains.ok normalized full later
              (firstSame.mpr first)
            refine wasted_cons.mpr ⟨?_, Or.inr wasted⟩
            rintro rfl
            exact not_wasted_nil wasted

theorem LaterPasses.bounded {passes : List (List Nat)}
    (later : LaterPasses cfg s os needed passes) (ok : RunnerOk cfg s runs parked)
    (normalized : Normalized needed) :
    passes.length ≤ 2 ∧ ∀ pass ∈ passes.dropLast, pass.length ≤ 2 ^ 60 := by
  obtain ⟨blocks, heap, _⟩ := ok.heap
  cases later with
  | none => simp
  | grown => simp
  | first => simp
  | both granted full growth last =>
      have bounded := scanned_length_le (withFirst_heap heap ok.deferred granted)
        normalized full
      simpa using bounded

theorem mem_dropLast_cons {α : Type} {head item : α} {tail : List α}
    (member : item ∈ (head :: tail).dropLast) : item = head ∨ item ∈ tail.dropLast := by
  cases tail with
  | nil => simp at member
  | cons next tail =>
      rw [List.dropLast_cons_cons] at member
      exact List.mem_cons.mp member

/-- There are at most four passes, and each but the last looks at no more than
`2 ^ 60` runs. -/
theorem passes_bounded (os : Os) (ok : RunnerOk cfg s runs parked)
    {bytes alignment : Nat} (word : bytes < 2 ^ 64) (small : alignment ≤ 16)
    (sized : normalizedRunBytesForPayload (if bytes = 0 then 1 else bytes) =
      some needed) :
    (s.passes cfg os bytes alignment).length ≤ 4 ∧
      ∀ pass ∈ (s.passes cfg os bytes alignment).dropLast, pass.length ≤ 2 ^ 60 := by
  obtain ⟨aligned, large, _, bounded⟩ :=
    normalizedRunBytesForPayload_spec (by split <;> omega) sized
  have normalized : Normalized needed := ⟨aligned, large, bounded⟩
  obtain ⟨_, _, drains⟩ := drainRemote_spec ok
  obtain ⟨blocks, heap, _⟩ := ok.heap
  obtain ⟨drainedBlocks, drainedHeap, _⟩ := drains.ok.heap
  have kept : (s.drainRemote cfg).1.NoFit needed → s.NoFit needed :=
    ok.noFit_of_shrinks drains.ok (ok.shrinks drains withoutPayloads_subset)
      ((by decide : 16 ≤ 48).trans normalized.large)
  have cases := passes_cases os ok word small sized
  generalize s.passes cfg os bytes alignment = passes at cases ⊢
  cases cases with
  | first => simp
  | drained full waiting fits last =>
      have first := scanned_length_le heap normalized full
      simpa using first
  | emptied full waiting later =>
      have first := scanned_length_le heap normalized (kept full)
      have second := scanned_length_le drainedHeap normalized full
      obtain ⟨few, rest⟩ := later.bounded drains.ok normalized
      constructor
      · rw [List.length_cons, List.length_cons]
        omega
      · intro pass member
        rcases mem_dropLast_cons member with rfl | later
        · exact first
        rcases mem_dropLast_cons later with rfl | later
        · exact second
        · exact rest pass later
  | idle full none later =>
      have first := scanned_length_le heap normalized (kept full)
      obtain ⟨few, rest⟩ := later.bounded drains.ok normalized
      constructor
      · rw [List.length_cons]
        omega
      · intro pass member
        rcases mem_dropLast_cons member with rfl | later
        · exact first
        · exact rest pass later

/-- `scanned_nodes` has grown by the number of runs the passes looked at. -/
def ScansExact (cfg : Config) (s : State) (os : Os) (bytes alignment : Nat) : Prop :=
  (s.allocateBytes cfg os bytes alignment).1.stats.scannedNodes ≡
    s.stats.scannedNodes + ((s.passes cfg os bytes alignment).map List.length).sum
    [MOD 2 ^ 64]

/-- The call is rejected at once or does not rescan. -/
def ScansCleanly (cfg : Config) (s : State) (os : Os) (bytes alignment : Nat) :
    Prop :=
  alignment ≤ runAlignment → ∀ needed,
    normalizedRunBytesForPayload (if bytes = 0 then 1 else bytes) = some needed →
      ∀ parked, IsStack s.mem s.remoteHead parked → ¬ Rescans cfg s os parked needed

theorem scansExact_iff_not_wasted (measured : cfg.collectStats = true) (os : Os)
    {bytes alignment : Nat} (few : (s.passes cfg os bytes alignment).length ≤ 4)
    (bounded : ∀ pass ∈ (s.passes cfg os bytes alignment).dropLast,
      pass.length ≤ 2 ^ 60) :
    ScansExact cfg s os bytes alignment ↔
      ¬ Wasted (s.passes cfg os bytes alignment) := by
  obtain ⟨after, counted⟩ := @allocateBytes_counts cfg s os measured bytes alignment
  unfold ScansExact
  generalize s.passes cfg os bytes alignment = passes at few bounded counted ⊢
  have nodes := counted.nodes
  rw [runningTotal_eq, Nat.zero_mul, Nat.zero_add] at nodes
  have excess : recounted (passes.map List.length) < 2 ^ 64 := by
    have le : recounted (passes.map List.length) ≤
        2 ^ 60 * ((passes.map List.length).length *
          ((passes.map List.length).length - 1)) := by
      apply recounted_le
      rw [← List.map_dropLast]
      intro count member
      obtain ⟨pass, listed, rfl⟩ := List.mem_map.mp member
      exact bounded pass listed
    rw [List.length_map] at le
    have product : passes.length * (passes.length - 1) ≤ 4 * 3 :=
      Nat.mul_le_mul few (by omega)
    omega
  have none : recounted (passes.map List.length) = 0 ↔ ¬ Wasted passes := by
    rw [recounted_eq_zero, ← List.map_dropLast]
    constructor
    · rintro all ⟨pass, listed, looked⟩
      exact looked (List.eq_nil_of_length_eq_zero
        (all _ (List.mem_map_of_mem listed)))
    · intro none count member
      obtain ⟨pass, listed, rfl⟩ := List.mem_map.mp member
      by_contra nonzero
      exact none ⟨pass, listed, fun empty => nonzero (by rw [empty]; rfl)⟩
  rw [← none]
  generalize (s.allocateBytes cfg os bytes alignment).1.stats.scannedNodes = new
    at nodes ⊢
  constructor
  · intro exact
    have same := nodes.symm.trans exact
    have zero := Nat.ModEq.add_left_cancel' _ same
    rw [Nat.add_comm] at zero
    have vanishes : recounted (passes.map List.length) ≡ 0 [MOD 2 ^ 64] :=
      Nat.ModEq.add_right_cancel' _ (zero.trans (by rw [Nat.zero_add]))
    exact vanishes.eq_of_lt_of_lt excess (by decide)
  · intro zero
    rw [zero] at nodes
    exact nodes

theorem scansExact_iff (measured : cfg.collectStats = true)
    (ok : RunnerOk cfg s runs parked) (os : Os) {bytes alignment : Nat}
    (word : bytes < 2 ^ 64) :
    ScansExact cfg s os bytes alignment ↔ ScansCleanly cfg s os bytes alignment := by
  by_cases small : alignment ≤ runAlignment
  swap
  · have none : s.passes cfg os bytes alignment = [] := by
      unfold State.passes
      exact if_pos (Nat.lt_of_not_le small)
    rw [scansExact_iff_not_wasted measured os (by simp [none]) (by simp [none]), none]
    exact ⟨fun _ accepted => absurd accepted small, fun _ => not_wasted_nil⟩
  cases sized : normalizedRunBytesForPayload (if bytes = 0 then 1 else bytes) with
  | none =>
      have none : s.passes cfg os bytes alignment = [] := by
        unfold State.passes
        dsimp only
        rw [if_neg (Nat.not_lt.mpr small), sized]
      rw [scansExact_iff_not_wasted measured os (by simp [none]) (by simp [none]),
        none]
      constructor
      · intro _ _ needed impossible
        rw [sized] at impossible
        cases impossible
      · exact fun _ => not_wasted_nil
  | some needed =>
      obtain ⟨few, bounded⟩ := passes_bounded os ok word small sized
      rw [scansExact_iff_not_wasted measured os few bounded,
        passes_wasted_iff os ok word small sized]
      constructor
      · intro clean _ other sized' parked' stack
        rw [sized] at sized'
        obtain rfl := Option.some.inj sized'
        obtain rfl := stack.unique ok.stack
        exact clean
      · exact fun clean => clean small needed sized parked ok.stack

def Operation.passes (cfg : Config) (s : State) : Operation → List (List Nat)
  | .allocateBytes os bytes alignment => s.passes cfg os bytes alignment
  | _ => []

def Operation.Clean (cfg : Config) (s : State) : Operation → Prop
  | .allocateBytes os bytes alignment => ScansCleanly cfg s os bytes alignment
  | _ => True

/-- A session with the number of runs looked at so far and of passes. -/
structure ScanLedger extends Session where
  looked : Nat
  passes : Nat

def ScanLedger.call (cfg : Config) (ledger : ScanLedger) (operation : Operation) : ScanLedger :=
  { ledger.perform cfg operation with
    looked := ledger.looked + ((operation.passes cfg ledger.state).map List.length).sum
    passes := ledger.passes + (operation.passes cfg ledger.state).length }

/-- A step of a session that keeps the ledger; its passes are clean. -/
inductive CleanMoves (cfg : Config) : ScanLedger → ScanLedger → Prop
  | call {ledger : ScanLedger} (operation : Operation)
      (allowed : ledger.Allows operation)
      (clean : operation.Clean cfg ledger.state) :
      CleanMoves cfg ledger (ledger.call cfg operation)
  | store {ledger : ScanLedger} (word value : Nat) (writable : ledger.Writable word) :
      CleanMoves cfg ledger { ledger with state := ledger.state.write word value }

def cleanSessions (cfg : Config) : TransitionSystem ScanLedger where
  start ledger := Starts cfg ledger.toSession ∧ ledger.looked = 0 ∧ ledger.passes = 0
  step := CleanMoves cfg

/-- The statistics agree with the ledger. -/
structure Recorded (ledger : ScanLedger) : Prop where
  calls : ledger.state.stats.findFitCalls ≡ ledger.passes [MOD 2 ^ 64]
  nodes : ledger.state.stats.scannedNodes ≡ ledger.looked [MOD 2 ^ 64]

theorem Recorded.of_scans {ledger ledger' : ScanLedger} (recorded : Recorded ledger)
    (scans : ledger'.state.stats.scans = ledger.state.stats.scans)
    (looked : ledger'.looked = ledger.looked)
    (passes : ledger'.passes = ledger.passes) : Recorded ledger' where
  calls := by
    rw [passes, show ledger'.state.stats.findFitCalls =
      ledger.state.stats.findFitCalls from congrArg Prod.fst scans]
    exact recorded.calls
  nodes := by
    rw [looked, show ledger'.state.stats.scannedNodes =
      ledger.state.stats.scannedNodes from congrArg Prod.snd scans]
    exact recorded.nodes

theorem perform_allocate {session : Session} (os : Os) (bytes alignment : Nat) :
    (session.perform cfg (.allocateBytes os bytes alignment)).state =
      (session.state.allocateBytes cfg os bytes alignment).1 := by
  unfold Session.perform
  dsimp only
  generalize session.state.allocateBytes cfg os bytes alignment = outcome
  obtain ⟨t, exn | payload⟩ := outcome <;> rfl

/-- The statistics of a measured runner agree with the ledger while all calls are
clean. -/
theorem recorded_inductive (measured : cfg.collectStats = true) :
    (cleanSessions cfg).Inductive fun ledger =>
      SessionOk cfg ledger.toSession ∧ Recorded ledger where
  start := by
    rintro ledger ⟨starts, looked, passes⟩
    refine ⟨(sessionOk_inductive cfg).start _ starts, ?_, ?_⟩
    · rw [starts.stats, passes]
    · rw [starts.stats, looked]
  step := by
    rintro ledger ledger' ⟨ok, recorded⟩ moves
    cases moves with
    | store word value writable =>
        exact ⟨(sessionOk_inductive cfg).step _ _ ok (Moves.store word value writable),
          recorded.of_scans rfl rfl rfl⟩
    | call operation allowed clean =>
        refine ⟨(sessionOk_inductive cfg).step _ _ ok (Moves.call operation allowed),
          ?_⟩
        cases operation with
        | allocateBytes os bytes alignment =>
            obtain ⟨runs, parked, runner, _⟩ := ok
            obtain ⟨after, counted⟩ :=
              @allocateBytes_counts cfg ledger.state os measured bytes alignment
            have exact : ScansExact cfg ledger.state os bytes alignment :=
              (scansExact_iff measured runner os allowed).mpr clean
            unfold ScanLedger.call
            constructor
            · dsimp only
              rw [perform_allocate]
              have calls := counted.calls
              rw [List.length_map] at calls
              exact calls.trans (recorded.calls.add_right _)
            · dsimp only
              rw [perform_allocate]
              exact exact.trans (recorded.nodes.add_right _)
        | deallocateBytes payload =>
            exact recorded.of_scans (deallocateBytes_scans payload) rfl rfl
        | expand payload minNewBytes =>
            exact recorded.of_scans (expand_scans payload minNewBytes) rfl rfl
        | remotePush payload => exact recorded.of_scans rfl rfl rfl

/-- `scanned_nodes` grows by the number of runs a call looks at exactly when it looks
at none in vain, and over a run of such calls the statistics are the number of
runs looked at and the number of passes. -/
theorem scans_exact (measured : cfg.collectStats = true) :
    (∀ w, (interleavings cfg).Reachable w → ∀ os, ∀ bytes < 2 ^ 64, ∀ alignment,
      ScansExact cfg w.state os bytes alignment ↔
        ScansCleanly cfg w.state os bytes alignment) ∧
    ∀ ledger, (cleanSessions cfg).Reachable ledger →
      ledger.state.stats.findFitCalls ≡ ledger.passes [MOD 2 ^ 64] ∧
        ledger.state.stats.scannedNodes ≡ ledger.looked [MOD 2 ^ 64] := by
  constructor
  · intro w reachable os bytes word alignment
    obtain ⟨runs, pending, inv⟩ := (worldOk_inductive cfg).reachable reachable
    exact scansExact_iff measured inv.ok os word
  · intro ledger reachable
    obtain ⟨_, recorded⟩ := (recorded_inductive measured).reachable reachable
    exact ⟨recorded.calls, recorded.nodes⟩

theorem cleanSessions_allocate (measured : cfg.collectStats = true) {ledger : ScanLedger}
    (reachable : (cleanSessions cfg).Reachable ledger) {os : Os} {bytes alignment : Nat}
    (word : bytes < 2 ^ 64) (exact : ScansExact cfg ledger.state os bytes alignment) :
    (cleanSessions cfg).Reachable (ledger.call cfg (.allocateBytes os bytes alignment)) := by
  obtain ⟨⟨runs, parked, runner, _⟩, _⟩ := (recorded_inductive measured).reachable reachable
  exact .step reachable (.call _ word ((scansExact_iff measured runner os word).mp exact))

/-- A runner of 32768 bytes. -/
def broadState : State :=
  match State.constructExternal (fun _ => 0) 4096 32768 with
  | .ok s => s
  | .error _ => State.blank (fun _ => 0) 0 0

/-- Two allocations have been made from it. -/
def pairedLedger : ScanLedger :=
  (ScanLedger.call sampleConfig ⟨⟨broadState, []⟩, 0, 0⟩
    (.allocateBytes refusing 5000 16)).call sampleConfig (.allocateBytes refusing 24 16)

/-- And two more. -/
def filledLedger : ScanLedger :=
  (pairedLedger.call sampleConfig (.allocateBytes refusing 4600 16)).call sampleConfig
    (.allocateBytes refusing 24 16)

/-- The two large ones have been freed, and are in one bin. -/
def freedLedger : ScanLedger :=
  (filledLedger.call sampleConfig (.deallocateBytes 4112)).call sampleConfig
    (.deallocateBytes 9184)

/-- A request has been served by the second run of that bin. -/
def servedLedger : ScanLedger :=
  freedLedger.call sampleConfig (.allocateBytes refusing 4900 16)

theorem freedLedger_scans :
    (ScansExact sampleConfig broadState refusing 5000 16 ∧
      ScansExact sampleConfig (ScanLedger.call sampleConfig ⟨⟨broadState, []⟩, 0, 0⟩
        (.allocateBytes refusing 5000 16)).state refusing 24 16 ∧
      ScansExact sampleConfig pairedLedger.state refusing 4600 16 ∧
      ScansExact sampleConfig (pairedLedger.call sampleConfig
        (.allocateBytes refusing 4600 16)).state refusing 24 16 ∧
      ScansExact sampleConfig freedLedger.state refusing 4900 16) ∧
    filledLedger.live.map Allocation.payload = [13808, 9184, 9136, 4112] ∧
    (filledLedger.call sampleConfig (.deallocateBytes 4112)).live.map Allocation.payload =
      [13808, 9184, 9136] ∧
    freedLedger.state.passes sampleConfig refusing 4900 16 = [[9168, 4096]] ∧
    servedLedger.passes = 5 ∧ servedLedger.looked = 6 := by
  unfold ScansExact
  decide +kernel

theorem servedLedger_reachable : (cleanSessions sampleConfig).Reachable servedLedger := by
  obtain ⟨⟨first, second, third, fourth, last⟩, live, live', _⟩ := freedLedger_scans
  have begins : Starts sampleConfig ⟨broadState, []⟩ :=
    .external (by decide : 0 < 4096) (by decide : 4096 + 32768 ≤ 2 ^ 64) rfl
  have start : (cleanSessions sampleConfig).Reachable ⟨⟨broadState, []⟩, 0, 0⟩ :=
    .start ⟨begins, rfl, rfl⟩
  have single := cleanSessions_allocate rfl start (by decide) first
  have paired : (cleanSessions sampleConfig).Reachable pairedLedger :=
    cleanSessions_allocate rfl single (by decide) second
  have tripled := cleanSessions_allocate rfl paired (by decide) third
  have filled : (cleanSessions sampleConfig).Reachable filledLedger :=
    cleanSessions_allocate rfl tripled (by decide) fourth
  have freed : (cleanSessions sampleConfig).Reachable freedLedger :=
    .step (.step filled (.call (.deallocateBytes 4112)
      (holds_of_payloads live (by decide)) trivial)) (.call (.deallocateBytes 9184)
        (holds_of_payloads live' (by decide)) trivial)
  exact cleanSessions_allocate rfl freed (by decide) last

/-- A runner of 8208 bytes. -/
def wideState : State :=
  match State.constructExternal (fun _ => 0) 4096 8208 with
  | .ok s => s
  | .error _ => State.blank (fun _ => 0) 0 0

def wideWorld : World where
  state := wideState
  live := []
  pushes := []
  owner := .idle
  journal := ⟨[], [], 0, wideState⟩

/-- One allocation, pushed by a foreign thread; 8144 bytes are free. -/
def rescannedWorld : World :=
  (((wideWorld.search sampleConfig refusing 24 16).load 4112).link [] [] 4112
    0).publish [] [] 4112

theorem rescannedWorld_reachable :
    (interleavings sampleConfig).Reachable rescannedWorld := by
  have begins : (interleavings sampleConfig).start wideWorld :=
    ⟨.external (by decide : 0 < 4096) (by decide : 4096 + 8208 ≤ 2 ^ 64) rfl,
      rfl, rfl, rfl, rfl, rfl⟩
  have allocated := TransitionSystem.Reachable.step (.start begins)
    (Interleaves.search refusing 24 16 rfl (by decide))
  have holds : (wideWorld.search sampleConfig refusing 24 16).Holds 4112 :=
    ⟨⟨4112, 24, 0⟩, by decide +kernel, rfl⟩
  have loaded := allocated.step (Interleaves.load holds)
  have pushing : ((wideWorld.search sampleConfig refusing 24 16).load
      4112).pushes = [] ++ ⟨4112, .loaded 0⟩ :: [] := by decide +kernel
  have linked := loaded.step (Interleaves.link pushing)
  exact linked.step (Interleaves.publish (by decide +kernel))

/-- The call after a remote free is exact; and where a pass has looked at two runs, the
statistics count one pass and two runs for it. -/
theorem servedLedger_counts :
    ScansCleanly sampleConfig rescannedWorld.state refusing 24 16 ∧
      freedLedger.state.passes sampleConfig refusing 4900 16 = [[9168, 4096]] ∧
      servedLedger.state.stats.findFitCalls ≡ 5 [MOD 2 ^ 64] ∧
      servedLedger.state.stats.scannedNodes ≡ 6 [MOD 2 ^ 64] := by
  have exact : ScansExact sampleConfig rescannedWorld.state refusing 24 16 := by
    unfold ScansExact
    decide +kernel
  obtain ⟨_, _, _, passes, calls, looked⟩ := freedLedger_scans
  obtain ⟨findFits, scanned⟩ := (@scans_exact sampleConfig rfl).2 _ servedLedger_reachable
  rw [calls] at findFits
  rw [looked] at scanned
  exact ⟨((scans_exact rfl).1 rescannedWorld rescannedWorld_reachable refusing 24
    (by decide) 16).mp exact, passes, findFits, scanned⟩

/-- The request for 8160 bytes looks at two runs and records three. -/
theorem rescannedWorld_recounts :
    (interleavings sampleConfig).Reachable rescannedWorld ∧
      rescannedWorld.state.stats.scannedNodes = 1 ∧
      rescannedWorld.state.passes sampleConfig refusing 8160 16 =
        [[4144], [4096]] ∧
      (rescannedWorld.state.allocateBytes sampleConfig refusing 8160
        16).1.stats.scannedNodes = 4 ∧
      ¬ ScansExact sampleConfig rescannedWorld.state refusing 8160 16 := by
  have before : rescannedWorld.state.stats.scannedNodes = 1 := by decide +kernel
  have passes : rescannedWorld.state.passes sampleConfig refusing 8160 16 =
      [[4144], [4096]] := by decide +kernel
  have after : (rescannedWorld.state.allocateBytes sampleConfig refusing 8160
      16).1.stats.scannedNodes = 4 := by decide +kernel
  refine ⟨rescannedWorld_reachable, before, passes, after, ?_⟩
  unfold ScansExact
  rw [before, passes, after]
  decide

end Runner

end Allocazam
