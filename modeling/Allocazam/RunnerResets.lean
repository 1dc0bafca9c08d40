import Allocazam.RunnerLiveBytes

/-!
# The live bytes over a run

The interleavings of a runner whose owner may also call `reset_stats`, with the
highest `live_bytes` since construction or the last reset on record.  The gauge
is exact in every run in which the resets find no run marked allocated.
-/

namespace Allocazam

namespace Runner

variable {cfg : Config} {s t : State} {os : Os} {w w' : World} {runs : Set Block}
  {pending : List Nat} {peak : Nat}

def State.resetStats (s : State) : State :=
  { s with stats := {} }

def World.resetStats (w : World) : World :=
  { w with state := w.state.resetStats }

theorem settle_state {call : Call} {found : State × Nat × Nat} :
    (w.settle cfg os call found).state =
      (State.resumeAllocate cfg os call.needed found).1 := by
  unfold World.settle
  generalize State.resumeAllocate cfg os call.needed found = result
  obtain ⟨t, exn | payload⟩ := result <;> rfl

theorem searchFirst_live (bytes alignment : Nat) :
    (s.searchFirst cfg bytes alignment).1.stats.live = s.stats.live := by
  unfold State.searchFirst
  by_cases overAligned : alignment > runAlignment
  · simp only [if_pos overAligned]
  simp only [if_neg overAligned]
  cases normalizedRunBytesForPayload (if bytes = 0 then 1 else bytes) with
  | none =>
      exact (record_kept Stats.live _ rfl).trans (record_kept Stats.live _ rfl)
  | some needed => exact (findFit_live needed 0).trans (record_kept Stats.live _ rfl)

namespace Gauge

variable (measured : cfg.collectStats = true) (gauge : Gauge w.state peak)

include measured gauge

theorem settle {call : Call} {found : State × Nat × Nat}
    (ok : RunnerOk cfg w.state runs w.journal.stack)
    (reached : RunnerStep cfg w.state found.1 runs runs w.journal.stack)
    (live : found.1.stats.live = w.state.stats.live)
    (candidate : Candidate cfg found.1 runs call.needed found.2.1)
    (normalized : Normalized call.needed) :
    Gauge (w.settle cfg os call found).state
      (max peak (w.settle cfg os call found).state.stats.liveBytes) := by
  rw [settle_state]
  exact (gauge.kept ok reached.ok live).resumeAllocate measured reached.ok candidate
    normalized

theorem search {bytes alignment : Nat} (inv : WorldOk cfg w runs [])
    (word : bytes < 2 ^ 64) :
    Gauge (w.search cfg os bytes alignment).state
      (max peak (w.search cfg os bytes alignment).state.stats.liveBytes) := by
  obtain ⟨searched, outcome⟩ :=
    @searchFirst_step cfg w.state runs _ bytes alignment inv.ok word
  have live := @searchFirst_live cfg w.state bytes alignment
  unfold World.search
  generalize w.state.searchFirst cfg bytes alignment = result at *
  obtain ⟨u, _ | ⟨needed, h, scanCount⟩⟩ := result
  · exact (gauge.kept inv.ok searched.ok live).peaked
  · obtain ⟨normalized, covers, candidate⟩ := outcome needed h scanCount rfl
    dsimp only at candidate live ⊢
    by_cases missing : h = 0
    · rw [if_pos missing]
      exact (gauge.kept inv.ok searched.ok live).peaked
    · rw [if_neg missing]
      exact gauge.settle measured inv.ok searched live candidate normalized

theorem call {operation : Operation} (inv : WorldOk cfg w runs [])
    (direct : (∃ payload, operation = .deallocateBytes payload) ∨
      ∃ payload minNewBytes, operation = .expand payload minNewBytes)
    (allowed : w.Allows operation) :
    Gauge (w.perform cfg operation).state
      (max peak (w.perform cfg operation).state.stats.liveBytes) := by
  rcases direct with ⟨payload, rfl⟩ | ⟨payload, minNewBytes, rfl⟩
  · obtain ⟨run, member, rfl, notWaiting⟩ := inv.held.run allowed
    have notStacked : run.addr + 16 ∉ w.journal.stack := fun onStack =>
      notWaiting (by simp [World.waiting, onStack])
    exact (gauge.deallocateBytes measured inv.ok member notStacked).peaked
  · obtain ⟨holds, word⟩ := allowed
    obtain ⟨run, member, rfl, notWaiting⟩ := inv.held.run holds
    exact gauge.expand measured inv.ok member word

theorem interleaves (inv : WorldOk cfg w runs pending) (step : Interleaves cfg w w') :
    Gauge w'.state (max peak w'.state.stats.liveBytes) := by
  cases step with
  | search os bytes alignment idle word =>
      obtain rfl := inv.pending_nil (by rw [idle]; exact id)
      exact gauge.search measured inv word
  | call operation idle direct allowed =>
      obtain rfl := inv.pending_nil (by rw [idle]; exact id)
      exact gauge.call measured inv direct allowed
  | @exchange call phase =>
      obtain rfl := inv.pending_nil (by rw [phase]; exact id)
      exact (gauge.kept inv.ok (inv.exchange phase).ok rfl).peaked
  | readLink phase more => exact gauge.peaked
  | @replay call head next phase =>
      obtain ⟨run, rest, rfl, rfl, member, inv'⟩ := inv.replay phase
      have apart := List.disjoint_of_nodup_append
        (List.Nodup.of_append_right inv.nodup)
      have notStacked : run.addr + 16 ∉ w.journal.stack :=
        apart List.mem_cons_self
      exact (gauge.deallocateBytes measured inv.ok member notStacked).peaked
  | @searchAgain call os phase =>
      have batch := inv.batch
      have covers := inv.covers
      rw [phase] at batch covers
      obtain rfl := batch.eq_nil_iff.mpr rfl
      obtain ⟨searched, candidate⟩ := findFit_step inv.ok covers.1
      exact gauge.settle measured inv.ok searched (findFit_live _ _) candidate covers.1
  | @resume call os phase =>
      obtain rfl := inv.pending_nil (by rw [phase]; exact id)
      have covers := inv.covers
      rw [phase] at covers
      have same : RunnerStep cfg w.state w.state runs runs w.journal.stack :=
        inv.ok.same rfl rfl rfl rfl
      exact @settle cfg os w runs peak measured gauge call (w.state, 0, call.scanCount)
        inv.ok same rfl (Or.inl rfl) covers.1
  | load holds => exact gauge.peaked
  | link listed =>
      exact (gauge.kept inv.ok (inv.link listed).ok rfl).peaked
  | publish listed =>
      exact (gauge.kept inv.ok (inv.publish listed).1.ok rfl).peaked
  | retry listed => exact gauge.peaked
  | store word value writable =>
      obtain ⟨allocation, member, lower, upper⟩ := writable
      obtain ⟨run, runMember, addrEq, notWaiting, large, bytes⟩ :=
        inv.held.run_spec inv.ok ⟨allocation, member, rfl⟩
      rw [bytes, ← addrEq] at upper
      rw [← addrEq] at lower notWaiting
      have notStacked : run.addr + 16 ∉ w.journal.stack := fun onStack =>
        notWaiting (by simp [World.waiting, onStack])
      have written := write_step inv.ok runMember notStacked value lower
        (by unfold Block.stop; omega)
      exact (gauge.kept inv.ok written.ok rfl).peaked

end Gauge

/-- An interleaving and the highest `live_bytes` since construction or the last
`reset_stats`, which no step reads. -/
structure GaugedWorld extends World where
  peak : Nat

def GaugedWorld.reset (w : GaugedWorld) : GaugedWorld :=
  ⟨w.toWorld.resetStats, w.toWorld.resetStats.state.stats.liveBytes⟩

/-- A step of the interleavings, or a `reset_stats` of the owner in a world that
permits it. -/
inductive GaugedSteps (cfg : Config) (permits : World → Prop) :
    GaugedWorld → GaugedWorld → Prop
  | step {w : GaugedWorld} {w' : World} (moves : Interleaves cfg w.toWorld w') :
      GaugedSteps cfg permits w ⟨w', max w.peak w'.state.stats.liveBytes⟩
  | reset {w : GaugedWorld} (idle : w.owner = .idle) (permitted : permits w.toWorld) :
      GaugedSteps cfg permits w w.reset

/-- The runs of one runner whose statistics are reset where `permits` says. -/
def gaugedRuns (cfg : Config) (permits : World → Prop) :
    TransitionSystem GaugedWorld where
  start w := (interleavings cfg).start w.toWorld ∧ w.peak = w.state.stats.liveBytes
  step := GaugedSteps cfg permits

def World.Empty (w : World) : Prop :=
  w.state.payloadTotal = 0

/-- The statistics say what they are for: `live_bytes` is the payload bytes of the
allocated runs, a deallocation of any of these does not wrap, and
`peak_live_bytes` is the highest `live_bytes` was. -/
structure GaugedWorld.Exact (w : GaugedWorld) : Prop where
  live : w.state.stats.liveBytes = w.state.payloadTotal
  covered : ∀ addr size, w.state.Allocated addr size →
    headerBytes ≤ size ∧ size - headerBytes ≤ w.state.stats.liveBytes
  peak : w.state.stats.peakLiveBytes = w.peak

theorem WorldOk.resetStats (inv : WorldOk cfg w runs pending) (idle : w.owner = .idle) :
    WorldOk cfg w.resetStats runs [] := by
  have quiet : ¬ w.owner.Draining := by rw [idle]; exact id
  obtain rfl := inv.pending_nil quiet
  have step := inv.ok.same (t := w.state.resetStats) rfl rfl rfl rfl
  exact inv.advance w.owner step (fun run member _ => ⟨member, run, member, rfl⟩)
    inv.held quiet inv.covers

theorem WorldOk.payloadTotal_reset (inv : WorldOk cfg w runs pending)
    (idle : w.owner = .idle) :
    w.resetStats.state.payloadTotal = w.state.payloadTotal := by
  rw [(inv.resetStats idle).ok.payloadTotal_eq, inv.ok.payloadTotal_eq]

theorem WorldOk.gauge_exact {w : GaugedWorld} (inv : WorldOk cfg w.toWorld runs pending)
    (gauge : Gauge w.state w.peak) : w.Exact where
  live := gauge.current
  covered addr size allocated := by
    have member := inv.allocated_iff.mp allocated
    have large := inv.ok.large member
    have covered := gauge.covers inv.ok member
    have header : headerBytes = 16 := rfl
    dsimp only at large covered
    omega
  peak := gauge.highest

theorem gauged_inductive (measured : cfg.collectStats = true) :
    (gaugedRuns cfg World.Empty).Inductive fun w =>
      ∃ runs pending, WorldOk cfg w.toWorld runs pending ∧ Gauge w.state w.peak where
  start := by
    rintro w ⟨begins, peak⟩
    have inv := worldOk_start begins
    have blank := begins.1.stats
    have total : w.state.payloadTotal = 0 := by
      rw [inv.ok.payloadTotal_eq]
      exact finsum_mem_empty
    refine ⟨∅, [], inv, ?_, ?_, ?_⟩
    · rw [total, blank]
    · rw [peak, blank]
    · rw [peak]
  step := by
    rintro w w' ⟨runs, pending, inv, gauge⟩ moves
    cases moves with
    | step moves =>
        obtain ⟨runs', pending', inv', _⟩ := interleaves_step inv moves
        exact ⟨runs', pending', inv', gauge.interleaves measured inv moves⟩
    | reset idle empty =>
        have inv' := inv.resetStats idle
        have total := inv.payloadTotal_reset idle
        exact ⟨runs, [], inv', (total.trans empty).symm, rfl, le_rfl⟩

/-- In every run in which each `reset_stats` finds no run marked allocated,
`live_bytes` is the payload bytes of the allocated runs, no deallocation wraps,
and `peak_live_bytes` is the highest `live_bytes` was.  A reset that finds one
breaks this. -/
theorem live_bytes_exact (measured : cfg.collectStats = true) :
    ∀ w, (gaugedRuns cfg World.Empty).Reachable w → w.Exact ∧
      (w.owner = .idle → (w.reset.Exact ↔ w.toWorld.Empty)) := by
  intro w reachable
  obtain ⟨runs, pending, inv, gauge⟩ := (gauged_inductive measured).reachable reachable
  refine ⟨inv.gauge_exact gauge, fun idle => ⟨fun exact => ?_, fun empty => ?_⟩⟩
  · exact (inv.payloadTotal_reset idle).symm.trans exact.live.symm
  · have after := reachable.step (GaugedSteps.reset idle empty)
    obtain ⟨runs', pending', inv', gauge'⟩ :=
      (gauged_inductive measured).reachable after
    exact inv'.gauge_exact gauge'

def gaugedSample : GaugedWorld :=
  ⟨sampleWorld, 0⟩

/-- After an allocation of 32 bytes. -/
def gaugedAllocation : GaugedWorld :=
  ⟨sampleWorld.search sampleConfig refusing 24 16, 32⟩

/-- The deallocation that follows a reset. -/
def gaugedWrap : GaugedWorld :=
  ⟨{ gaugedAllocation.reset.toWorld with
      toSession := gaugedAllocation.reset.perform sampleConfig (.deallocateBytes 4112) },
    2 ^ 64 - 32⟩

theorem gaugedAllocation_reachable (permits : World → Prop) :
    (gaugedRuns sampleConfig permits).Reachable gaugedAllocation := by
  have begins : (gaugedRuns sampleConfig permits).start gaugedSample :=
    ⟨⟨.external (by decide : 0 < 4096) (by decide : 4096 + 1024 ≤ 2 ^ 64) rfl,
      rfl, rfl, rfl, rfl, rfl⟩, by decide +kernel⟩
  have moves : Interleaves sampleConfig gaugedSample.toWorld
      (sampleWorld.search sampleConfig refusing 24 16) :=
    .search refusing 24 16 rfl (by decide)
  have peak : max gaugedSample.peak
      (sampleWorld.search sampleConfig refusing 24 16).state.stats.liveBytes = 32 := by
    decide +kernel
  have allocated := TransitionSystem.Reachable.step (.start begins)
    (@GaugedSteps.step sampleConfig permits _ _ moves)
  rw [peak] at allocated
  exact allocated

/-- The allocation has been freed. -/
def gaugedFree : GaugedWorld :=
  ⟨{ gaugedAllocation.toWorld with
      toSession := gaugedAllocation.perform sampleConfig (.deallocateBytes 4112) }, 32⟩

/-- After the statistics were reset, 48 bytes have been allocated. -/
def gaugedAnew : GaugedWorld :=
  ⟨gaugedFree.reset.toWorld.search sampleConfig refusing 40 16, 48⟩

theorem gaugedFree_empty : gaugedFree.toWorld.Empty ∧ gaugedFree.reset.owner = .idle ∧
    max gaugedAllocation.peak gaugedFree.state.stats.liveBytes = 32 ∧
    max gaugedFree.reset.peak gaugedAnew.state.stats.liveBytes = 48 ∧
    gaugedAnew.state.stats.liveBytes = 48 := by
  unfold World.Empty
  decide +kernel

theorem gaugedAnew_reachable : (gaugedRuns sampleConfig World.Empty).Reachable gaugedAnew := by
  obtain ⟨empty, idle, freedPeak, peak, _⟩ := gaugedFree_empty
  have holds : gaugedAllocation.Holds 4112 := ⟨⟨4112, 24, 0⟩, by decide +kernel, rfl⟩
  have frees : Interleaves sampleConfig gaugedAllocation.toWorld gaugedFree.toWorld :=
    .call (.deallocateBytes 4112) idle (.inl ⟨4112, rfl⟩) holds
  have freed : (gaugedRuns sampleConfig World.Empty).Reachable gaugedFree := by
    have after := (gaugedAllocation_reachable World.Empty).step (.step frees)
    rw [freedPeak] at after
    exact after
  have reset := freed.step (.reset idle empty)
  have allocates : Interleaves sampleConfig gaugedFree.reset.toWorld gaugedAnew.toWorld :=
    .search refusing 40 16 idle (by decide)
  have allocated := reset.step (.step allocates)
  rw [peak] at allocated
  exact allocated

/-- The peak is the one since the reset. -/
theorem gaugedAnew_exact : gaugedAnew.Exact ∧ gaugedAnew.state.stats.liveBytes = 48 ∧
    gaugedAnew.state.stats.peakLiveBytes = 48 := by
  have exact := (live_bytes_exact rfl gaugedAnew gaugedAnew_reachable).1
  exact ⟨exact, gaugedFree_empty.2.2.2.2, exact.peak⟩

/-- A reset after an allocation of 32 bytes leaves `live_bytes` at zero, and the
deallocation wraps it. -/
theorem gaugedWrap_wraps :
    (gaugedRuns sampleConfig fun _ => True).Reachable gaugedAllocation.reset ∧
      gaugedAllocation.reset.state.stats.liveBytes = 0 ∧
      gaugedAllocation.reset.state.payloadTotal = 32 ∧
      ¬ gaugedAllocation.reset.Exact ∧
      (gaugedRuns sampleConfig fun _ => True).Reachable gaugedWrap ∧
      gaugedWrap.state.stats.liveBytes = 2 ^ 64 - 32 ∧
      gaugedWrap.state.payloadTotal = 0 := by
  have idle : gaugedAllocation.owner = .idle := by decide +kernel
  have reset := (gaugedAllocation_reachable fun _ => True).step
    (GaugedSteps.reset idle trivial)
  have total : gaugedAllocation.reset.state.payloadTotal = 32 := by decide +kernel
  have holds : gaugedAllocation.reset.Holds 4112 :=
    ⟨⟨4112, 24, 0⟩, by decide +kernel, rfl⟩
  have moves : Interleaves sampleConfig gaugedAllocation.reset.toWorld
      gaugedWrap.toWorld := .call (.deallocateBytes 4112) idle (.inl ⟨4112, rfl⟩) holds
  have peak : max gaugedAllocation.reset.peak gaugedWrap.state.stats.liveBytes =
      2 ^ 64 - 32 := by decide +kernel
  have freed := reset.step (@GaugedSteps.step sampleConfig (fun _ => True) _ _ moves)
  rw [peak] at freed
  refine ⟨reset, rfl, total, fun exact => ?_, freed, by decide +kernel, by decide +kernel⟩
  have live := exact.live
  rw [total] at live
  exact absurd live (by decide)

end Runner

end Allocazam
