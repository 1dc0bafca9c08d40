import Allocazam.RunnerAllocationSafety
import Allocazam.RunnerDelayedFree

/-!
# What remote parking does

In every interleaving a payload given to `remote_push` keeps its run until the
drain after its compare-exchange replays it, once and in stack order; the walk
of a drain ends; and it leaves the runner that direct frees would have left.
-/

namespace Allocazam

namespace Runner

variable {cfg : Config} {w w' : World} {runs : Set Block} {pending : List Nat}

/-- The payload was given to `remote_push` and has not been replayed. -/
def World.Parked (w : World) (p : Nat) : Prop :=
  p ∈ w.inFlight ∨ p ∈ w.journal.stack ∨
    p ∈ w.journal.takenBy w.journal.exchanges ∧
      p ∉ w.journal.replayedIn w.journal.exchanges

/-- How many steps the walk of a drain has left at most. -/
def World.remaining (w : World) : Nat :=
  2 * ((w.journal.takenBy w.journal.exchanges).length -
    (w.journal.replayedIn w.journal.exchanges).length) +
    match w.owner with
    | .walk _ _ => 1
    | _ => 0

def State.allocatedWords (s : State) : Set Nat :=
  {word | ∃ addr size, s.Allocated addr size ∧ addr + 16 ≤ word ∧
    word < addr + size}

theorem World.settle_owner {os : Os} {call : Call}
    {found : State × Nat × Nat} :
    (w.settle cfg os call found).owner = .idle := by
  unfold World.settle
  split <;> rfl

namespace WorldOk

theorem parked_iff (inv : WorldOk cfg w runs pending) {p : Nat} :
    w.Parked p ↔ p ∈ w.waiting pending := by
  have nodup := inv.records.nodup w.journal.exchanges
  have current := inv.records.current
  rw [current] at nodup
  have apart := List.disjoint_of_nodup_append nodup
  unfold World.Parked World.waiting
  rw [current, List.mem_append, List.mem_append, List.mem_append]
  constructor
  · rintro (inFlight | onStack | ⟨replayed | inBatch, notReplayed⟩)
    · exact Or.inl inFlight
    · exact Or.inr (Or.inr onStack)
    · exact absurd replayed notReplayed
    · exact Or.inr (Or.inl inBatch)
  · rintro (inFlight | inBatch | onStack)
    · exact Or.inl inFlight
    · exact Or.inr (Or.inr ⟨Or.inr inBatch, fun replayed =>
        apart replayed inBatch⟩)
    · exact Or.inr (Or.inl onStack)

theorem allocated_iff (inv : WorldOk cfg w runs pending) {addr size : Nat} :
    w.state.Allocated addr size ↔ (⟨addr, size, .used⟩ : Block) ∈ runs := by
  obtain ⟨blocks, heap, rfl⟩ := inv.ok.heap
  exact heap.allocated_iff

theorem kind_eq (inv : WorldOk cfg w runs pending) {run : Block}
    (member : run ∈ runs) : (⟨run.addr, run.size, .used⟩ : Block) = run := by
  obtain ⟨blocks, heap, rfl⟩ := inv.ok.heap
  rw [← member.2]

theorem remaining_eq (inv : WorldOk cfg w runs pending) :
    w.remaining = 2 * pending.length + match w.owner with
      | .walk _ _ => 1
      | _ => 0 := by
  unfold World.remaining
  rw [inv.records.current, List.length_append]
  congr 2
  omega

theorem parked_kept (inv : WorldOk cfg w runs pending) {p : Nat}
    (parked : w.Parked p) :
    ¬ w.Holds p ∧ (∃ size, w.state.Allocated (p - 16) size) ∧
      ∀ w', Interleaves cfg w w' →
        (w'.Parked p ∧ ∀ size, w.state.Allocated (p - 16) size →
          w'.state.Allocated (p - 16) size) ∨
        w'.journal.replayed =
          ⟨p, w.journal.exchanges⟩ :: w.journal.replayed := by
  have waits := inv.parked_iff.mp parked
  obtain ⟨run, member, rfl⟩ := inv.listed p waits
  rw [Nat.add_sub_cancel]
  refine ⟨fun holds => ?_, ⟨run.size, inv.allocated_iff.mpr (by rwa [inv.kind_eq member])⟩,
    fun w' step => ?_⟩
  · obtain ⟨_, _, _, notWaiting⟩ := inv.held.run holds
    exact notWaiting waits
  obtain ⟨runs', pending', inv', stays⟩ := interleaves_step inv step
  rcases stays run member waits with ⟨member', waits'⟩ | replayed
  · refine Or.inl ⟨inv'.parked_iff.mpr waits', fun size allocated => ?_⟩
    have same := inv.ok.eq_of_addr_eq (inv.allocated_iff.mp allocated) member rfl
    apply inv'.allocated_iff.mpr
    rwa [same]
  · exact Or.inr replayed

theorem remaining_step (inv : WorldOk cfg w runs pending)
    (draining : w.owner.Draining) (step : Interleaves cfg w w') :
    w'.owner = w.owner ∧ w'.remaining = w.remaining ∨
      w'.owner.Draining ∧ w'.remaining < w.remaining ∨ w'.owner = .idle := by
  have before := inv.remaining_eq
  cases step with
  | search os bytes alignment idle word =>
      exact absurd draining (by rw [idle]; exact id)
  | call operation idle direct allowed =>
      exact absurd draining (by rw [idle]; exact id)
  | exchange phase => exact absurd draining (by rw [phase]; exact id)
  | resume os phase => exact absurd draining (by rw [phase]; exact id)
  | readLink phase more =>
      refine Or.inr (Or.inl ⟨trivial, ?_⟩)
      rw [(inv.readLink phase more).remaining_eq, before, phase]
      simp [World.readLink]
  | replay phase =>
      refine Or.inr (Or.inl ⟨trivial, ?_⟩)
      obtain ⟨run, rest, rfl, same, member, inv'⟩ := inv.replay phase
      rw [inv'.remaining_eq, before, phase]
      simp only [World.replay, List.length_cons]
      omega
  | searchAgain os phase => exact Or.inr (Or.inr World.settle_owner)
  | load holds => exact Or.inl ⟨rfl, rfl⟩
  | link listed => exact Or.inl ⟨rfl, rfl⟩
  | publish listed =>
      refine Or.inl ⟨rfl, ?_⟩
      rw [(inv.publish listed).1.remaining_eq, before]
      rfl
  | retry listed => exact Or.inl ⟨rfl, rfl⟩
  | store word value writable => exact Or.inl ⟨rfl, rfl⟩

theorem walk_progress (draining : w.owner.Draining) :
    ∃ w', Interleaves cfg w w' ∧ w'.owner ≠ w.owner := by
  cases phase : w.owner with
  | walk call head =>
      by_cases last : head = 0
      · subst last
        refine ⟨_, .searchAgain refusing phase, ?_⟩
        rw [World.searchAgain, World.settle_owner]
        simp
      · exact ⟨_, .readLink phase last, by simp [World.readLink]⟩
  | replay call head next =>
      exact ⟨_, .replay phase, by simp [World.replay]⟩
  | idle => exact absurd draining (by rw [phase]; exact id)
  | exchange call => exact absurd draining (by rw [phase]; exact id)
  | resume call => exact absurd draining (by rw [phase]; exact id)

end WorldOk

/-- Remote parking is a delayed free: of a reachable state, what it says about
parked payloads, about the journal of replays, about the walk in progress and
about the runner at its end. -/
theorem parking_delays_free (reachable : (interleavings cfg).Reachable w) :
    (∀ p, w.Parked p →
      ¬ w.Holds p ∧ (∃ size, w.state.Allocated (p - 16) size) ∧
        ∀ w', Interleaves cfg w w' →
          (w'.Parked p ∧ ∀ size, w.state.Allocated (p - 16) size →
            w'.state.Allocated (p - 16) size) ∨
          w'.journal.replayed =
            ⟨p, w.journal.exchanges⟩ :: w.journal.replayed) ∧
    (∀ drain, (w.journal.takenBy drain).Nodup ∧
      w.journal.replayedIn drain <+: w.journal.takenBy drain ∧
      (drain < w.journal.exchanges ∨
          drain = w.journal.exchanges ∧ ¬ w.owner.Draining →
        w.journal.replayedIn drain = w.journal.takenBy drain)) ∧
    (w.owner.Draining →
      (∃ w', Interleaves cfg w w' ∧ w'.owner ≠ w.owner) ∧
      ∀ w', Interleaves cfg w w' →
        w'.owner = w.owner ∧ w'.remaining = w.remaining ∨
        w'.owner.Draining ∧ w'.remaining < w.remaining ∨ w'.owner = .idle) ∧
    (∀ call head next, w.owner = .replay call head next →
      ∃ rest, IsStack w.state.mem next rest ∧
        w.journal.takenBy w.journal.exchanges =
          w.journal.replayedIn w.journal.exchanges ++ head :: rest) ∧
    ∀ call head, w.owner = .walk call head →
      (∃ rest, IsStack w.state.mem head rest ∧
        w.journal.takenBy w.journal.exchanges =
          w.journal.replayedIn w.journal.exchanges ++ rest) ∧
      (head = 0 → Agree w.state.allocatedWords w.state
        (w.journal.atExchange.deallocateAll cfg
          (w.journal.takenBy w.journal.exchanges))) := by
  obtain ⟨runs, pending, inv⟩ := (worldOk_inductive cfg).reachable reachable
  refine ⟨fun p parked => inv.parked_kept parked, fun drain =>
    ⟨inv.records.nodup drain, ?_, ?_⟩, fun draining =>
    ⟨WorldOk.walk_progress draining, fun w' step =>
      inv.remaining_step draining step⟩, fun call head next phase => ?_,
    fun call head phase => ?_⟩
  · rcases Nat.lt_trichotomy drain w.journal.exchanges with
      before | rfl | after
    · have past := inv.records.past drain before
      exact past ▸ List.prefix_rfl
    · exact ⟨pending, inv.records.current.symm⟩
    · have none := replayedIn_eq_nil fun replay listed =>
        (inv.records.drains replay listed).trans_lt after
      exact none ▸ List.nil_prefix
  · rintro (before | ⟨rfl, quiet⟩)
    · exact inv.records.past drain before
    · have current := inv.records.current
      rw [inv.pending_nil quiet, List.append_nil] at current
      exact current.symm
  · have batch := inv.batch
    rw [phase] at batch
    obtain ⟨rest, rfl, chain⟩ := batch
    exact ⟨rest, chain, inv.records.current⟩
  · have batch := inv.batch
    have shadow := inv.shadow
    rw [phase] at batch shadow
    refine ⟨⟨pending, batch, inv.records.current⟩, ?_⟩
    rintro rfl
    obtain rfl := batch.eq_nil_iff.mpr rfl
    have current := inv.records.current
    rw [List.append_nil] at current
    have agree := shadow trivial
    rw [withoutPayloads_nil] at agree
    rw [current]
    apply agree.mono
    rintro word ⟨run, member, lower, upper⟩
    exact ⟨run.addr, run.size, inv.allocated_iff.mpr
      (by rwa [inv.kind_eq member]), lower, upper⟩

def sampleWorld : World where
  state := sampleState
  live := []
  pushes := []
  owner := .idle
  journal := ⟨[], [], 0, sampleState⟩

/-- One allocation, pushed by a foreign thread. -/
def parkedWorld : World :=
  (((sampleWorld.search sampleConfig refusing 24 16).load 4112).link [] [] 4112
    0).publish [] [] 4112

/-- The owner asks for more than there is and drains. -/
def drainedWorld : World :=
  (((parkedWorld.search sampleConfig refusing 5000 16).exchange
    ⟨5000, 5024, 0⟩).readLink ⟨5000, 5024, 0⟩ 4112).replay sampleConfig
      ⟨5000, 5024, 0⟩ 4112 0

theorem parkedWorld_reachable :
    (interleavings sampleConfig).Reachable parkedWorld := by
  have begins : (interleavings sampleConfig).start sampleWorld :=
    ⟨.external (by decide : 0 < 4096) (by decide : 4096 + 1024 ≤ 2 ^ 64) rfl,
      rfl, rfl, rfl, rfl, rfl⟩
  have allocated := TransitionSystem.Reachable.step (.start begins)
    (Interleaves.search refusing 24 16 rfl (by decide))
  have holds : (sampleWorld.search sampleConfig refusing 24 16).Holds 4112 :=
    ⟨⟨4112, 24, 0⟩, by decide +kernel, rfl⟩
  have loaded := allocated.step (Interleaves.load holds)
  have pushing : ((sampleWorld.search sampleConfig refusing 24 16).load
      4112).pushes = [] ++ ⟨4112, .loaded 0⟩ :: [] := by decide +kernel
  have linked := loaded.step (Interleaves.link pushing)
  exact linked.step (Interleaves.publish (by decide +kernel))

theorem drainedWorld_reachable :
    (interleavings sampleConfig).Reachable drainedWorld := by
  have searched := parkedWorld_reachable.step
    (Interleaves.search refusing 5000 16 rfl (by decide))
  have exchanging : (parkedWorld.search sampleConfig refusing 5000 16).owner =
      .exchange ⟨5000, 5024, 0⟩ := by decide +kernel
  have exchanged := searched.step (Interleaves.exchange exchanging)
  have walking : ((parkedWorld.search sampleConfig refusing 5000 16).exchange
      ⟨5000, 5024, 0⟩).owner = .walk ⟨5000, 5024, 0⟩ 4112 := by decide +kernel
  have read := exchanged.step (Interleaves.readLink walking (by decide))
  exact read.step (Interleaves.replay (by decide +kernel))

theorem drainedWorld_freed :
    drainedWorld.journal.replayedIn 1 = [4112] ∧
      Agree drainedWorld.state.allocatedWords drainedWorld.state
        (drainedWorld.journal.atExchange.deallocateAll sampleConfig
          (drainedWorld.journal.takenBy 1)) :=
  ⟨by decide +kernel, ((parking_delays_free drainedWorld_reachable).2.2.2.2
    ⟨5000, 5024, 0⟩ 0 (by decide +kernel)).2 rfl⟩

end Runner

end Allocazam
