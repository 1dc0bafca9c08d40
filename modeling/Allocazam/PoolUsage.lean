import Allocazam.PoolRefinement
import Allocazam.SlotUsage

/-!
# The use of a pool

How large a pool becomes depends on how many nodes its users hold at once and on how many of
its allocations throw, and on nothing else.
-/

namespace Allocazam

namespace Pool

variable {cfg : Config} {slots : Nat} {deferred : Bool} {session : Session}

/-- A session, the most nodes that its users held at once, and the number of allocations
that threw. -/
structure Metered where
  session : Session
  peak : Nat
  thrown : Nat

def Operation.thrown (cfg : Config) (session : Session) : Operation → Nat
  | .allocate heap => failures (session.state.allocate cfg heap).2
  | .deallocate _ => 0
  | .remotePush _ => 0

namespace Metered

variable (cfg) (m : Metered)

def call (operation : Operation) : Metered where
  session := m.session.perform cfg operation
  peak := max m.peak (m.session.perform cfg operation).live.length
  thrown := m.thrown + operation.thrown cfg m.session

omit cfg in
def store (addr value : Nat) : Metered :=
  { m with session := { m.session with state := m.session.state.write addr value } }

end Metered

inductive Meters (cfg : Config) : Metered → Metered → Prop
  | call {m : Metered} (operation : Operation)
      (allowed : m.session.Allows cfg operation) : Meters cfg m (m.call cfg operation)
  | store {m : Metered} {n addr : Nat} (value : Nat) (holds : n ∈ m.session.live)
      (inNode : addr ∈ cfg.nodeRange n) : Meters cfg m (m.store addr value)

def metered (cfg : Config) (slots : Nat) (deferred : Bool) : TransitionSystem Metered where
  start m := Starts cfg slots deferred m.session ∧ m.peak = 0 ∧ m.thrown = 0
  step := Meters cfg

/-- Every session can be metered. -/
theorem metered_of_reachable (reachable : (sessions cfg slots deferred).Reachable session) :
    ∃ peak thrown, (metered cfg slots deferred).Reachable ⟨session, peak, thrown⟩ := by
  induction reachable with
  | start begins => exact ⟨0, 0, .start ⟨begins, rfl, rfl⟩⟩
  | step _ moves ih =>
      obtain ⟨peak, thrown, run⟩ := ih
      cases moves with
      | call operation allowed => exact ⟨_, _, .step run (.call operation allowed)⟩
      | store value holds inNode => exact ⟨_, _, .step run (.store value holds inNode)⟩

namespace Represents

variable {ledger : Slots} {peak thrown : Nat} (represents : Represents cfg session ledger)
  (frugal : ledger.Frugal slots peak thrown)

include represents frugal

theorem call_frugal {operation : Operation} (allowed : session.Allows cfg operation) :
    ∃ next, Represents cfg (session.perform cfg operation) next ∧
      next.Frugal slots (max peak (session.perform cfg operation).live.length)
        (thrown + operation.thrown cfg session) := by
  cases operation with
  | allocate heap =>
      obtain ⟨next, answered⟩ := represents.allocate allowed
      have after := frugal.allocate cfg.policy (cfg.supply heap)
      rw [← next.length_live] at after
      refine ⟨_, next, ?_⟩
      show Slots.Frugal slots _ (thrown + failures (session.state.allocate cfg heap).2) _
      rw [answered]
      unfold Members.answer
      rw [failures_map]
      exact after
  | deallocate n =>
      obtain ⟨slot, held, _, next⟩ := represents.mirrors.deallocate n allowed
      exact ⟨_, next, (frugal.release held).mono (le_max_left _ _) le_rfl⟩
  | remotePush n =>
      obtain ⟨slot, held, _, next⟩ := represents.mirrors.remotePush allowed.1 n allowed.2
      exact ⟨_, next, (frugal.park held).mono (le_max_left _ _) le_rfl⟩

end Represents

theorem metered_inductive : (metered cfg slots deferred).Inductive fun m =>
    ∃ ledger, Represents cfg m.session ledger ∧ ledger.Frugal slots m.peak m.thrown where
  start m begins := by
    obtain ⟨session, peak, thrown⟩ := m
    obtain ⟨starts, rfl, rfl⟩ := begins
    refine ⟨_, starts_represents starts, .start ?_⟩
    unfold Config.firstSlots
    cases starts with
    | eager => exact .inr ⟨rfl, by dsimp only; split <;> omega⟩
    | deferred mem heapBacked => exact .inl ⟨rfl, if_pos heapBacked⟩
    | external => exact .inr ⟨rfl, by dsimp only; split <;> omega⟩
  step m next := by
    rintro ⟨ledger, represents, frugal⟩ meters
    cases meters with
    | call operation allowed => exact represents.call_frugal frugal allowed
    | store value holds inNode =>
        exact ⟨ledger, represents.store value holds inNode, frugal⟩

/-- A pool has at most twice as many nodes as its users held at once, apart from those it
was to have at first, as long as no allocation throws; each one that throws may double
that. -/
theorem capacity_frugal {m : Metered}
    (reachable : (metered cfg slots deferred).Reachable m) :
    m.session.state.capacity ≤ (m.peak - 1) + (m.peak - 1 + slots) * 2 ^ m.thrown := by
  obtain ⟨ledger, represents, frugal⟩ := metered_inductive.reachable reachable
  rw [represents.count]
  exact frugal.bound

/-- The calls that lead to `headerSession`, metered. -/
def headerMetered : Metered :=
  [.allocate onePage, .allocate exhausted, .allocate exhausted, .allocate nextPage,
    .allocate exhausted, .remotePush 65632, .deallocate 131488].foldl
      (Metered.call headerPool) ⟨⟨State.blank headerPool (fun _ => 0) 2, []⟩, 0, 0⟩

theorem headerMetered_reachable : (metered headerPool 2 true).Reachable headerMetered := by
  have filled : (metered headerPool 2 true).Reachable
      ([.allocate onePage, .allocate exhausted, .allocate exhausted].foldl
        (Metered.call headerPool) ⟨⟨State.blank headerPool (fun _ => 0) 2, []⟩, 0, 0⟩) := by
    refine .step (.step (.step (.start ⟨headerStart, rfl, rfl⟩) (.call _ headerStart_inUse))
      (.call _ ?_)) (.call _ ?_)
    · exact fun _ _ => trivial
    · exact fun _ _ => trivial
  have pushed : 65632 ∈ grownPool.live := by
    rw [grownPool_state.1]
    decide
  have freed : 131488 ∈ grownPool.live.erase 65632 := by
    rw [grownPool_state.1]
    decide
  exact .step (.step (.step (.step filled (.call _ filledPool_inUse))
    (.call (.allocate exhausted) fun _ _ => trivial)) (.call (.remotePush 65632) ⟨rfl, pushed⟩))
      (.call (.deallocate 131488) freed)

/-- Four nodes were in use at once, and one allocation threw. -/
theorem headerMetered_frugal :
    headerMetered.peak = 4 ∧ headerMetered.thrown = 1 ∧
      headerMetered.session.state.capacity ≤ (4 - 1) + (4 - 1 + 2) * 2 ^ 1 := by
  have counted : headerMetered.peak = 4 ∧ headerMetered.thrown = 1 := by
    decide +kernel
  have bounded := capacity_frugal headerMetered_reachable
  rw [counted.1, counted.2] at bounded
  exact ⟨counted.1, counted.2, bounded⟩

end Pool

end Allocazam
