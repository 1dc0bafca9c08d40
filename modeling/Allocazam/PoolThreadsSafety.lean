import Allocazam.PoolGranules
import Allocazam.PoolThreadsSteps

/-!
# No thread loses a node

However the threads interleave, every node of every pool is free, in use, on its way,
parked or in the batch that its owner splices, and only one of these.
-/

namespace Allocazam

namespace Pool

variable {Thread : Type} {crew : Crew Thread} {w : World Thread}

/-- Where a node of a pool can be. -/
inductive Place (Thread : Type) where
  | free
  | held
  | pushed (thread : Thread)
  | parked
  | spliced
  deriving DecidableEq, Repr

/-- The node is on the list that begins with the given head. -/
def OnList (mem : Nat → Nat) (head n : Nat) : Prop :=
  ∃ nodes, IsStack mem head nodes ∧ n ∈ nodes

theorem IsStack.onList_iff {mem : Nat → Nat} {head n : Nat} {nodes : List Nat}
    (stack : IsStack mem head nodes) : OnList mem head n ↔ n ∈ nodes := by
  constructor
  · rintro ⟨others, other, member⟩
    rwa [stack.unique other]
  · exact fun member => ⟨nodes, stack, member⟩

/-- The node is in the given place of the pool of `owner`. -/
def World.At (w : World Thread) (owner : Thread) (n : Nat) : Place Thread → Prop
  | .free => OnList w.mem (w.pools owner).freeHead n
  | .held => n ∈ w.held
  | .pushed thread => (w.phases thread).Pushes owner n
  | .parked => OnList w.mem (w.pools owner).remoteHead n
  | .spliced => OnList w.mem (w.phases owner).walk n

namespace WorldOk

variable {shares : Thread → Share} {owner other : Thread} {n : Nat}
  {place : Place Thread} (ok : WorldOk crew w shares)

include ok

theorem at_free : w.At owner n .free ↔ n ∈ (shares owner).free :=
  IsStack.onList_iff (ok.fits owner).stack

theorem at_parked : w.At owner n .parked ↔ n ∈ (shares owner).parked :=
  IsStack.onList_iff (ok.fits owner).remote

theorem at_spliced : w.At owner n .spliced ↔ n ∈ (shares owner).batch :=
  IsStack.onList_iff (ok.fits owner).chain

theorem out_of_held (node : n ∈ (w.pools owner).nodes (crew.cfg owner))
    (holds : n ∈ w.held) : n ∈ (shares owner).out := by
  obtain ⟨other, isOut⟩ := ok.custody.owned n holds
  obtain rfl := ok.owner_unique (ok.node_footprint node)
    (ok.node_footprint (ok.out_node isOut))
  exact isOut

theorem node_of_at (placed : w.At owner n place) (notHeld : place ≠ .held) :
    n ∈ (w.pools owner).nodes (crew.cfg owner) := by
  apply (ok.fits owner).mem_nodes_iff.mpr
  cases place with
  | free => exact Or.inl (ok.at_free.mp placed)
  | held => exact absurd rfl notHeld
  | pushed thread =>
      exact Or.inr (Or.inr (Or.inr (ok.custody.pushed thread owner n placed).1))
  | parked => exact Or.inr (Or.inl (ok.at_parked.mp placed))
  | spliced => exact Or.inr (Or.inr (Or.inl (ok.at_spliced.mp placed)))

theorem exists_place (node : n ∈ (w.pools owner).nodes (crew.cfg owner)) :
    ∃ place, w.At owner n place := by
  rcases (ok.fits owner).mem_nodes_iff.mp node with isFree | isParked | inBatch | isOut
  · exact ⟨.free, ok.at_free.mpr isFree⟩
  · exact ⟨.parked, ok.at_parked.mpr isParked⟩
  · exact ⟨.spliced, ok.at_spliced.mpr inBatch⟩
  · rcases ok.custody.covered owner n isOut with holds | ⟨thread, pushes⟩
    · exact ⟨.held, holds⟩
    · exact ⟨.pushed thread, pushes⟩

theorem place_unique {place' : Place Thread}
    (node : n ∈ (w.pools owner).nodes (crew.cfg owner))
    (placed : w.At owner n place) (placed' : w.At owner n place') : place = place' := by
  have nodup := (ok.fits owner).nodup
  have outApart : n ∈ (shares owner).out → _ := (ok.fits owner).out_apart
  have batchApart : n ∈ (shares owner).batch → _ := (ok.fits owner).batch_apart
  have parkedApart : n ∈ (shares owner).parked → n ∉ (shares owner).free := by
    intro isParked isFree
    exact (List.nodup_append.mp (List.nodup_append.mp
      (List.nodup_append.mp nodup).1).1).2.2 n isFree n isParked rfl
  have freeIff := @at_free _ _ _ _ owner n ok
  have parkedIff := @at_parked _ _ _ _ owner n ok
  have splicedIff := @at_spliced _ _ _ _ owner n ok
  have heldOut : w.At owner n .held → n ∈ (shares owner).out := ok.out_of_held node
  have pushedOut : ∀ thread, w.At owner n (.pushed thread) →
      n ∈ (shares owner).out ∧ ¬ w.At owner n .held :=
    fun thread => ok.custody.pushed thread owner n
  have single : ∀ one other, w.At owner n (.pushed one) → w.At owner n (.pushed other) →
      one = other := fun one other => ok.custody.single one other owner owner n
  cases place <;> cases place' <;> grind

theorem deallocate_routes [DecidableEq Thread]
    (node : n ∈ (w.pools owner).nodes (crew.cfg owner)) (thread : Thread) :
    w.deallocate crew thread n =
      if thread = owner then
        { w with held := w.held.erase n }.setPool owner ((w.pool owner).deallocate n)
      else
        { w with held := w.held.erase n }.setPhase thread (.loading owner n) := by
  have created : w.created owner = true := by
    by_contra none
    rw [(ok.created owner (by simpa using none)).1] at node
    cases node
  unfold World.deallocate
  dsimp only
  rw [ok.header node, crew.poolOf_poolAt]
  by_cases same : thread = owner
  · subst same
    rw [if_pos ⟨created, rfl⟩, if_pos rfl]
    rfl
  · rw [if_neg same, if_neg]
    rintro ⟨_, address⟩
    apply same
    have owners := congrArg crew.poolOf address
    rw [crew.poolOf_poolAt, crew.poolOf_poolAt] at owners
    exact owners.symm

end WorldOk

/-- In every state of the threads each node of each pool is in exactly one place, and
in no place of another pool; no node is in use twice; the size of a pool is its
capacity less the length of its free list; and a free on any thread leads to the pool
that the node came from. -/
theorem threads_conserve [DecidableEq Thread]
    (reachable : (threads crew).Reachable w) :
    (∀ owner, ∀ n ∈ (w.pools owner).nodes (crew.cfg owner),
      ∃! place, w.At owner n place) ∧
    (∀ owner other n place, n ∈ (w.pools owner).nodes (crew.cfg owner) →
      w.At other n place → place ≠ .held → other = owner) ∧
    (w.held.Nodup ∧
      ∀ n ∈ w.held, ∃ owner, n ∈ (w.pools owner).nodes (crew.cfg owner)) ∧
    (∀ owner, ∃ free, IsStack w.mem (w.pools owner).freeHead free ∧
      (w.pools owner).size = (w.pools owner).capacity - free.length ∧
      free.length ≤ (w.pools owner).capacity ∧
      (w.pools owner).capacity =
        ((w.pools owner).nodes (crew.cfg owner)).length) ∧
    ∀ thread owner, ∀ n ∈ (w.pools owner).nodes (crew.cfg owner), n ∈ w.held →
      w.deallocate crew thread n =
        if thread = owner then
          { w with held := w.held.erase n }.setPool owner
            ((w.pool owner).deallocate n)
        else
          { w with held := w.held.erase n }.setPhase thread (.loading owner n) := by
  obtain ⟨shares, ok⟩ := threads_inductive.reachable reachable
  refine ⟨fun owner n node => ?_, fun owner other n place node placed notHeld => ?_,
    ⟨ok.custody.nodup, fun n holds => ?_⟩, fun owner => ?_,
    fun thread owner n node _ => ok.deallocate_routes node thread⟩
  · obtain ⟨place, placed⟩ := ok.exists_place node
    exact ⟨place, placed, fun other placed' => ok.place_unique node placed' placed⟩
  · exact ok.owner_unique (ok.node_footprint (ok.node_of_at placed notHeld))
      (ok.node_footprint node)
  · obtain ⟨owner, isOut⟩ := ok.custody.owned n holds
    exact ⟨owner, ok.out_node isOut⟩
  · have size : (w.pools owner).size + (shares owner).free.length =
        (w.pools owner).capacity := (ok.fits owner).size
    exact ⟨(shares owner).free, (ok.fits owner).stack, by omega, by omega,
      (ok.fits owner).capacity⟩

/-- Two threads with pools of three nodes. -/
def sampleCrew : Crew Bool where
  base := headerPool
  headers := rfl
  slots := 3
  positive := by decide
  poolAt thread := if thread then 64 else 128
  poolOf ptr := decide (ptr = 64)
  poolOf_poolAt := by decide

/-- A thread whose first allocation is about to grow its pool. -/
def drainedWorld : World Bool :=
  ((World.initial sampleCrew fun _ => 0).pop false).exchange false

/-- The other thread is about to push the first node. -/
def pushedWorld : World Bool :=
  (drainedWorld.grow sampleCrew false onePage).deallocate sampleCrew true 65696

theorem pushedWorld_reachable : (threads sampleCrew).Reachable pushedWorld := by
  have start : (threads sampleCrew).Reachable (World.initial sampleCrew fun _ => 0) :=
    .start ⟨_, rfl⟩
  have drained : (threads sampleCrew).Reachable drainedWorld :=
    (start.step (.pop false rfl)).step (.exchange false rfl)
  have grown := drained.step (.grow false onePage rfl ?_)
  · exact grown.step (.deallocate true rfl (by decide +kernel))
  · have empty : ∀ thread, (drainedWorld.pools thread).chunks = [] := by decide
    rintro addr ⟨thread, chunk, member, _⟩
    rw [empty] at member
    cases member

theorem pushedWorld_conserved :
    pushedWorld.phases true = .loading false 65696 ∧
      ∃! place, pushedWorld.At false 65696 place := by
  refine ⟨by decide +kernel, ?_⟩
  exact (threads_conserve pushedWorld_reachable).1 false 65696 (by decide +kernel)

end Pool

end Allocazam
