import Allocazam.RunnerGauges
import Mathlib.Algebra.BigOperators.Finprod
import Mathlib.Order.Interval.Finset.Nat

/-!
# The bytes of the allocated runs

The payload bytes of all runs marked allocated, those of parked runs included, and
how the gauge `live_bytes` follows them: each operation adjusts it by what the
runs have gained or lost.
-/

namespace Allocazam

namespace Runner

variable {cfg : Config} {s t : State} {os : Os} {runs : Set Block}
  {parked : List Nat} {needed : Nat}

def State.payloadTotal (s : State) : Nat :=
  (((s.chunks.flatMap s.runsIn).filter fun run => run.kind = .used).map
    fun run => run.size - headerBytes).sum

noncomputable def payloadSum (runs : Set Block) : Nat :=
  ∑ᶠ run ∈ runs, (run.size - 16)

theorem sum_sizes_le {blocks : Finset Block} {bound : Nat}
    (apart : ∀ one ∈ blocks, ∀ two ∈ blocks, one ≠ two → one.Apart two)
    (inside : ∀ block ∈ blocks, block.stop ≤ bound) :
    ∑ block ∈ blocks, block.size ≤ bound := by
  have disjoint : ∀ one ∈ blocks, ∀ two ∈ blocks, one ≠ two →
      Disjoint (Finset.Ico one.addr one.stop) (Finset.Ico two.addr two.stop) := by
    intro one oneMember two twoMember different
    rw [Finset.disjoint_left]
    intro addr inOne inTwo
    rw [Finset.mem_Ico] at inOne inTwo
    have clear := apart one oneMember two twoMember different
    unfold Block.Apart at clear
    omega
  have covered : blocks.biUnion (fun block => Finset.Ico block.addr block.stop) ⊆
      Finset.range bound := by
    intro addr member
    obtain ⟨block, listed, inBlock⟩ := Finset.mem_biUnion.mp member
    rw [Finset.mem_Ico] at inBlock
    have below := inside block listed
    exact Finset.mem_range.mpr (by omega)
  have counted := Finset.card_le_card covered
  rw [Finset.card_biUnion disjoint, Finset.card_range] at counted
  simpa [Block.stop] using counted

theorem payloadSum_insert {run : Block} (finite : runs.Finite)
    (fresh : run ∉ runs) :
    payloadSum (insert run runs) = run.size - 16 + payloadSum runs :=
  finsum_mem_insert _ fresh finite

theorem payloadSum_sdiff {run : Block} (finite : runs.Finite) (member : run ∈ runs) :
    payloadSum runs = run.size - 16 + payloadSum (runs \ {run}) := by
  rw [← payloadSum_insert (finite.sdiff) (by simp), Set.insert_sdiff_self_of_mem member]

theorem usedRuns_finite {blocks : List Block} : (usedRuns blocks).Finite :=
  (List.finite_toSet blocks).subset fun _ member => member.1

theorem runs_nodup {blocks : List Block} (heap : HeapOk cfg s blocks) :
    (s.chunks.flatMap s.runsIn).Nodup := by
  have large : ∀ chunk ∈ s.chunks, ∀ run ∈ s.runsIn chunk, 0 < run.size := by
    intro chunk member run inChunk
    have := ((heap.chunkView member).size_spec heap inChunk).2.2
    omega
  rw [List.nodup_flatMap]
  constructor
  · intro chunk member
    have apart := (heap.chunkView member).tiles.pairwise_apart
    apply apart.imp_of_mem
    rintro one two oneListed twoListed clear rfl
    have positive := large chunk member one oneListed
    unfold Block.Apart Block.stop at clear
    omega
  · apply heap.layout.chunksOk.apart.imp_of_mem
    intro one two oneMember twoMember clear run inOne inTwo
    have positive := large one oneMember run inOne
    have oneBounds := (heap.chunkView oneMember).tiles.bounds run inOne
    have twoBounds := (heap.chunkView twoMember).tiles.bounds run inTwo
    have oneLarge := heap.layout.chunksOk.large one oneMember
    have twoLarge := heap.layout.chunksOk.large two twoMember
    unfold Block.stop at oneBounds twoBounds
    omega

namespace RunnerOk

variable (ok : RunnerOk cfg s runs parked)

include ok

theorem finite : runs.Finite := by
  obtain ⟨blocks, heap, rfl⟩ := ok.heap
  exact usedRuns_finite

theorem runSize {run : Block} (member : run ∈ runs) : s.runSize run.addr = run.size := by
  obtain ⟨blocks, heap, rfl⟩ := ok.heap
  exact heap.runSize member.1 (by rw [member.2]; decide)

theorem size_lt {run : Block} (member : run ∈ runs) : run.size < 2 ^ 64 := by
  obtain ⟨blocks, heap, rfl⟩ := ok.heap
  exact heap.layout.size_lt member.1

theorem payloadSum_lt : payloadSum runs < 2 ^ 64 := by
  have finite := ok.finite
  obtain ⟨blocks, heap, rfl⟩ := ok.heap
  have listed : ∀ run ∈ finite.toFinset, run ∈ usedRuns blocks :=
    fun run member => finite.mem_toFinset.mp member
  have filled : ∑ run ∈ finite.toFinset, run.size ≤ 2 ^ 64 - 16 := by
    apply sum_sizes_le
    · intro one oneMember two twoMember different
      exact heap.layout.apart (listed one oneMember).1 (listed two twoMember).1 different
    · intro run member
      obtain ⟨chunk, inChunks, _, _, upper⟩ :=
        heap.layout.mem_chunk (listed run member).1
      have stop := upper (by rw [(listed run member).2]; decide)
      have bounded := heap.layout.chunksOk.bounded chunk inChunks
      omega
  have total : payloadSum (usedRuns blocks) =
      ∑ run ∈ finite.toFinset, (run.size - 16) :=
    finsum_mem_eq_finite_toFinset_sum _ finite
  have smaller : ∑ run ∈ finite.toFinset, (run.size - 16) ≤
      ∑ run ∈ finite.toFinset, run.size :=
    Finset.sum_le_sum fun run _ => Nat.sub_le _ _
  omega

/-- The payload bytes found in the chunks are those of the allocated runs. -/
theorem payloadTotal_eq : s.payloadTotal = payloadSum runs := by
  obtain ⟨blocks, heap, rfl⟩ := ok.heap
  have nodup := runs_nodup heap
  unfold State.payloadTotal
  generalize listEq : (s.chunks.flatMap s.runsIn).filter
    (fun run => decide (run.kind = .used)) = used
  have members : ∀ run, run ∈ used ↔ run ∈ usedRuns blocks := by
    intro run
    rw [← listEq, List.mem_filter, List.mem_flatMap, decide_eq_true_iff, mem_usedRuns]
    apply and_congr_left
    intro kind
    rw [heap.mem_iff (by rw [kind]; decide)]
  have usedNodup : used.Nodup := by
    rw [← listEq]
    exact nodup.filter _
  have coincide : (usedRuns blocks) = ↑used.toFinset := by
    ext run
    rw [List.coe_toFinset]
    exact (members run).symm
  unfold payloadSum
  rw [coincide, finsum_mem_coe_finset, List.sum_toFinset _ usedNodup]

end RunnerOk

/-- `live_bytes` is the payload bytes of the allocated runs, and the peak is as
given. -/
structure Gauge (s : State) (peak : Nat) : Prop where
  current : s.stats.liveBytes = s.payloadTotal
  highest : s.stats.peakLiveBytes = peak
  bounded : s.stats.liveBytes ≤ peak

namespace Gauge

variable {peak : Nat} (gauge : Gauge s peak)

include gauge

theorem steady (total : t.payloadTotal = s.payloadTotal)
    (same : t.stats.live = s.stats.live) : Gauge t peak := by
  have live : t.stats.liveBytes = s.stats.liveBytes := congrArg Prod.fst same
  have highest : t.stats.peakLiveBytes = s.stats.peakLiveBytes :=
    congrArg Prod.snd same
  constructor
  · rw [live, gauge.current, total]
  · rw [highest, gauge.highest]
  · rw [live]
    exact gauge.bounded

/-- A step that keeps the runs and the gauge. -/
theorem kept {parked' : List Nat} (ok : RunnerOk cfg s runs parked)
    (after : RunnerOk cfg t runs parked') (same : t.stats.live = s.stats.live) :
    Gauge t peak := by
  apply gauge.steady _ same
  rw [after.payloadTotal_eq, ok.payloadTotal_eq]

/-- An allocated run has no more bytes than the gauge. -/
theorem covers (ok : RunnerOk cfg s runs parked) {run : Block} (member : run ∈ runs) :
    run.size - 16 ≤ s.stats.liveBytes := by
  rw [gauge.current, ok.payloadTotal_eq, payloadSum_sdiff ok.finite member]
  omega

/-- A deallocation takes the run off the gauge, without a wrap. -/
theorem deallocateBytes (measured : cfg.collectStats = true)
    (ok : RunnerOk cfg s runs parked) {run : Block} (member : run ∈ runs)
    (notParked : run.addr + 16 ∉ parked) :
    Gauge (s.deallocateBytes cfg (run.addr + 16)) peak := by
  have covered := gauge.covers ok member
  have freed := (deallocateBytes_step ok member notParked).ok
  have total := payloadSum_sdiff ok.finite member
  have word := ok.payloadSum_lt
  have live := gauge.current
  rw [ok.payloadTotal_eq] at live
  have large := ok.large member
  have stats := @deallocateBytes_live cfg s measured (run.addr + 16) (by omega)
  rw [Nat.add_sub_cancel, ok.runSize member, wrapSub_eq (by omega) (ok.size_lt member),
    wrapSub_eq covered (by omega)] at stats
  have liveAfter := congrArg Prod.fst stats
  have peakAfter := congrArg Prod.snd stats
  dsimp only [Stats.live] at liveAfter peakAfter
  constructor
  · rw [liveAfter, freed.payloadTotal_eq]
    omega
  · rw [peakAfter, gauge.highest]
  · rw [liveAfter]
    have below := gauge.bounded
    omega

/-- A drain takes the parked runs off the gauge, one after the other. -/
theorem deallocateAll (measured : cfg.collectStats = true)
    (ok : RunnerOk cfg s runs []) {payloads : List Nat} (nodup : payloads.Nodup)
    (listed : ∀ p ∈ payloads, ∃ run ∈ runs, run.addr + 16 = p) :
    Gauge (s.deallocateAll cfg payloads) peak := by
  induction payloads generalizing s runs with
  | nil => exact gauge
  | cons p payloads ih =>
      obtain ⟨run, member, rfl⟩ := listed p List.mem_cons_self
      obtain ⟨fresh, rest⟩ := List.nodup_cons.mp nodup
      have freed := gauge.deallocateBytes measured ok member (by simp)
      refine ih freed (deallocateBytes_step ok member (by simp)).ok rest
        fun q later => ?_
      obtain ⟨other, otherMember, rfl⟩ := listed q (List.mem_cons_of_mem _ later)
      refine ⟨other, ⟨otherMember, ?_⟩, rfl⟩
      rintro rfl
      exact fresh later

omit gauge in
theorem raise (gauge : Gauge s peak) {runs' : Set Block} {parked' : List Nat}
    {bytes : Nat} (ok : RunnerOk cfg s runs parked) (after : RunnerOk cfg t runs' parked')
    (stats : t.stats.live = s.stats.raised bytes)
    (grows : payloadSum runs' = payloadSum runs + bytes) :
    Gauge t (max peak t.stats.liveBytes) := by
  have word := after.payloadSum_lt
  have live := gauge.current
  rw [ok.payloadTotal_eq] at live
  unfold Stats.raised at stats
  rw [wrapAdd_eq (by omega)] at stats
  have liveAfter : t.stats.liveBytes = s.stats.liveBytes + bytes :=
    congrArg Prod.fst stats
  have peakAfter : t.stats.peakLiveBytes =
      max s.stats.peakLiveBytes (s.stats.liveBytes + bytes) := congrArg Prod.snd stats
  constructor
  · rw [liveAfter, after.payloadTotal_eq]
    omega
  · rw [peakAfter, gauge.highest, liveAfter]
  · exact le_max_right _ _

/-- A step that keeps the gauge leaves the peak at its maximum. -/
theorem peaked : Gauge s (max peak s.stats.liveBytes) := by
  rw [max_eq_left gauge.bounded]
  exact gauge

theorem finishAllocate (measured : cfg.collectStats = true)
    (ok : RunnerOk cfg s runs parked) {h : Nat}
    (candidate : Candidate cfg s runs needed h) (normalized : Normalized needed) :
    Gauge (s.finishAllocate cfg h needed).1
      (max peak (s.finishAllocate cfg h needed).1.stats.liveBytes) := by
  have outcome := finishAllocate_outcome ok candidate normalized
    (Nat.sub_add_cancel ((by decide : 16 ≤ 48).trans normalized.large)).le
  unfold State.finishAllocate at outcome ⊢
  by_cases null : h = 0
  · rw [if_pos null] at outcome ⊢
    unfold State.failAllocate at outcome ⊢
    cases outcome with
    | null step => exact (gauge.kept ok step.ok (record_kept Stats.live _ rfl)).peaked
  rw [if_neg null] at outcome ⊢
  have raised := @allocateFromFreeRun_live cfg s measured h needed
  have pointer : (s.allocateFromFreeRun cfg h needed).2 = h + 16 := rfl
  dsimp only at outcome ⊢
  rw [pointer] at outcome ⊢
  generalize s.allocateFromFreeRun cfg h needed = carved at raised outcome ⊢
  generalize finalEq : carved.1.record cfg (fun stats =>
    { stats with
      allocateSuccess := wrapAdd stats.allocateSuccess 1
      grantedBytes := wrapAdd stats.grantedBytes (wrapSub (carved.1.runSize
        (headerFromPayload (h + 16))) headerBytes) }) = final at outcome ⊢
  have kept : final.stats.live = carved.1.stats.live := by
    rw [← finalEq, record_kept Stats.live]
    exact live_counters _ _ _
  have mem : final.mem = carved.1.mem := by
    rw [← finalEq]
    simp
  cases outcome with
  | @run _ granted nonnull covers fresh step =>
      have size : carved.1.runSize h = granted := by
        unfold State.runSize
        rw [← mem]
        exact step.ok.runSize (Set.mem_insert _ _)
      have bounded := step.ok.size_lt (Set.mem_insert _ _)
      have large := step.ok.large (Set.mem_insert _ _)
      dsimp only at bounded large
      have header : headerBytes = 16 := rfl
      rw [size, header, wrapSub_eq (by omega) bounded] at raised
      apply gauge.raise ok step.ok (kept.trans raised)
      rw [payloadSum_insert ok.finite fun member => fresh _ member rfl, Nat.add_comm]

omit gauge in
/-- An allocation, from the last search before a chunk is added, adds the bytes it
grants and nothing else. -/
theorem resumeAllocate (measured : cfg.collectStats = true)
    {found : State × Nat × Nat} (gauge : Gauge found.1 peak)
    (ok : RunnerOk cfg found.1 runs parked)
    (candidate : Candidate cfg found.1 runs needed found.2.1)
    (normalized : Normalized needed) :
    Gauge (State.resumeAllocate cfg os needed found).1
      (max peak (State.resumeAllocate cfg os needed found).1.stats.liveBytes) := by
  obtain ⟨deferred, again⟩ :=
    @findOrDefer_step cfg runs parked needed os found ok candidate normalized
  have deferredLive := @findOrDefer_live cfg os needed found
  unfold State.resumeAllocate
  generalize State.findOrDefer cfg os needed found = first at *
  obtain ⟨t, exn | ⟨h, scanCount⟩⟩ := first
  · exact (gauge.kept ok deferred.ok deferredLive).peaked
  have gauged := gauge.kept ok deferred.ok deferredLive
  obtain ⟨grown, last⟩ := @findOrGrow_step cfg t runs parked needed scanCount h os
    deferred.ok (again h scanCount rfl) normalized
  have grownLive := @findOrGrow_live cfg t os needed h scanCount
  dsimp only at grown last grownLive gauged ⊢
  generalize t.findOrGrow cfg os needed h scanCount = second at *
  obtain ⟨u, exn | h'⟩ := second
  · exact (gauged.kept deferred.ok grown.ok grownLive).peaked
  · exact (gauged.kept deferred.ok grown.ok grownLive).finishAllocate measured
      grown.ok (last h' rfl) normalized

/-- An expansion adds the bytes the run has gained. -/
theorem expand (measured : cfg.collectStats = true) (ok : RunnerOk cfg s runs parked)
    {run : Block} (member : run ∈ runs) {minNewBytes : Nat}
    (word : minNewBytes < 2 ^ 64) :
    Gauge (s.expand cfg (run.addr + 16) minNewBytes).1
      (max peak (s.expand cfg (run.addr + 16) minNewBytes).1.stats.liveBytes) := by
  obtain ⟨granted, grows, reported, step⟩ := expand_step ok member word
  have large := ok.large member
  have size := ok.size_lt member
  generalize resultEq : s.expand cfg (run.addr + 16) minNewBytes = result at *
  obtain ⟨t, bytes⟩ := result
  have live := expand_live measured (by omega) resultEq
  dsimp only at reported step ⊢
  have fresh : (⟨run.addr, granted, .used⟩ : Block) ∉ runs \ {run} := by
    rintro ⟨old, different⟩
    exact different (ok.eq_of_addr_eq old member rfl)
  have grantedSize := step.ok.size_lt (Set.mem_insert _ _)
  have before := payloadSum_sdiff ok.finite member
  have after := payloadSum_insert ok.finite.sdiff fresh
  dsimp only at grantedSize after
  rw [Nat.add_sub_cancel, ok.runSize member, wrapSub_eq (by omega) size, reported]
    at live
  split at live
  · rw [wrapSub_eq (by omega) (by omega)] at live
    exact gauge.raise ok step.ok live (by omega)
  · have total : payloadSum runs = payloadSum
        (insert ⟨run.addr, granted, .used⟩ (runs \ {run})) := by omega
    have same : t.payloadTotal = s.payloadTotal := by
      rw [step.ok.payloadTotal_eq, ok.payloadTotal_eq, total]
    exact (gauge.steady same live).peaked

end Gauge

end Runner

end Allocazam
