import Allocazam.PoolConservation
import Allocazam.TransitionSystem

/-!
# The pools of several threads

Every thread has a pool of its own for its nodes, constructed without a chunk, and
nodes may be freed on any thread.  The header of its granule leads a node back to
its pool: the owner frees it directly, all others park it on the remote stack.

A `remote_push` is the load of the stack's head, the write of the node's link and a
compare-exchange that may fail for no reason.  An `allocate` that finds the free list
empty is the exchange of the stack's head and the rest of the call, which splices what
was taken and grows the pool if nothing was.  Threads take these steps in any order.
-/

namespace Allocazam

namespace Pool

variable {Thread : Type}

/-- The pools of all threads.  They differ in their addresses only; `slots` is the
argument of their constructor, 4096 in the default states. -/
structure Crew (Thread : Type) where
  base : Config
  headers : base.ownerHeaders = true
  slots : Nat
  positive : 0 < slots
  poolAt : Thread → Nat
  poolOf : Nat → Thread
  poolOf_poolAt : ∀ thread, poolOf (poolAt thread) = thread

namespace Crew

variable (crew : Crew Thread)

def cfg (thread : Thread) : Config :=
  { crew.base with self := crew.poolAt thread }

/-- The address of the header of the granule that an address lies in. -/
def headerOf (ptr : Nat) : Nat :=
  ptr &&& wordNot (crew.base.granule - 1)

end Crew

/-- What a thread does next: take a new call, go on with a `remote_push` of the node
`n` to the pool of `owner`, or go on with an `allocate` that found its free list
empty. -/
inductive Phase (Thread : Type) where
  | idle
  | loading (owner : Thread) (n : Nat)
  | linking (owner : Thread) (n head : Nat)
  | exchanging (owner : Thread) (n head : Nat)
  | draining
  | splicing (head : Nat)
  | growing
  deriving DecidableEq, Repr

namespace Phase

/-- The thread is pushing the node `n` to the remote stack of `owner`. -/
def Pushes : Phase Thread → Thread → Nat → Prop
  | .loading owner n, other, m => owner = other ∧ n = m
  | .linking owner n _, other, m => owner = other ∧ n = m
  | .exchanging owner n _, other, m => owner = other ∧ n = m
  | _, _, _ => False

/-- The thread is in the middle of an `allocate`. -/
def Allocates : Phase Thread → Prop
  | .draining => True
  | .splicing _ => True
  | .growing => True
  | _ => False

def walk : Phase Thread → Nat
  | .splicing head => head
  | _ => 0

end Phase

/-- The pools, the thread states created so far, what the threads do next, and the
nodes that are in use. -/
structure World (Thread : Type) where
  mem : Nat → Nat
  pools : Thread → Members
  created : Thread → Bool
  phases : Thread → Phase Thread
  held : List Nat

namespace World

variable [DecidableEq Thread] (crew : Crew Thread) (w : World Thread)

def initial (mem : Nat → Nat) : World Thread where
  mem := mem
  pools thread := (State.blank (crew.cfg thread) mem crew.slots).toMembers
  created _ := false
  phases _ := .idle
  held := []

def InUse (addr : Nat) : Prop :=
  ∃ thread, addr ∈ (w.pools thread).footprint (crew.cfg thread)

variable (thread : Thread)

def pool : State :=
  { w.pools thread with mem := w.mem }

def setPool (s : State) : World Thread :=
  { w with
    mem := s.mem
    pools := Function.update w.pools thread s.toMembers }

def setPhase (phase : Phase Thread) : World Thread :=
  { w with phases := Function.update w.phases thread phase }

def finish (outcome : State × Except Exn Nat) : World Thread :=
  { (w.setPool thread outcome.1).setPhase thread .idle with
    held := handedOut outcome.2 ++ w.held }

/-- The first pop, on the state of the thread, which is created if need be. -/
def pop : World Thread :=
  let w := { w with created := Function.update w.created thread true }
  let (s, n) := (w.pool thread).popFreeNode
  if n = 0 then w.setPhase thread .draining else w.finish thread (s.handOut n)

def exchange : World Thread :=
  let head := (w.pools thread).remoteHead
  let w := w.setPool thread { w.pool thread with remoteHead := 0 }
  w.setPhase thread (if head = 0 then .growing else .splicing head)

/-- The splice of the batch at `head`, and the rest of the call. -/
def splice (heap : Heap) (head : Nat) : World Thread :=
  let s := State.spliceWalk (w.pools thread).capacity head (w.pool thread)
  w.finish thread (s.provide (crew.cfg thread) heap)

/-- The rest of the call when the remote stack was empty. -/
def grow (heap : Heap) : World Thread :=
  w.finish thread ((w.pool thread).resumeAllocate (crew.cfg thread) heap 0)

/-- `_free_node_routed` up to the `remote_push`, if there is one. -/
def deallocate (n : Nat) : World Thread :=
  let owner := w.mem (crew.headerOf n)
  let w := { w with held := w.held.erase n }
  if w.created thread ∧ owner = crew.poolAt thread then
    w.setPool thread ((w.pool thread).deallocate n)
  else w.setPhase thread (.loading (crew.poolOf owner) n)

/-- The load of the head, at first or by a compare-exchange that fails. -/
def load (owner : Thread) (n : Nat) : World Thread :=
  w.setPhase thread (.linking owner n (w.pools owner).remoteHead)

def link (owner : Thread) (n head : Nat) : World Thread :=
  (w.setPool owner ((w.pool owner).write n head)).setPhase thread
    (.exchanging owner n head)

def publish (owner : Thread) (n : Nat) : World Thread :=
  (w.setPool owner { w.pool owner with remoteHead := n }).setPhase thread .idle

end World

variable [DecidableEq Thread] (crew : Crew Thread)

/-- A step of some thread, a holder writing to a node, or somebody writing to memory
that no pool owns. -/
inductive ThreadStep : World Thread → World Thread → Prop
  | pop {w : World Thread} (thread : Thread) (idle : w.phases thread = .idle) :
      ThreadStep w (w.pop thread)
  | exchange {w : World Thread} (thread : Thread)
      (phase : w.phases thread = .draining) : ThreadStep w (w.exchange thread)
  | splice {w : World Thread} {head : Nat} (thread : Thread) (heap : Heap)
      (phase : w.phases thread = .splicing head)
      (avoids : ∀ addr, w.InUse crew addr → heap.inUse addr) :
      ThreadStep w (w.splice crew thread heap head)
  | grow {w : World Thread} (thread : Thread) (heap : Heap)
      (phase : w.phases thread = .growing)
      (avoids : ∀ addr, w.InUse crew addr → heap.inUse addr) :
      ThreadStep w (w.grow crew thread heap)
  | deallocate {w : World Thread} {n : Nat} (thread : Thread)
      (idle : w.phases thread = .idle) (holds : n ∈ w.held) :
      ThreadStep w (w.deallocate crew thread n)
  | load {w : World Thread} {owner : Thread} {n : Nat} (thread : Thread)
      (phase : w.phases thread = .loading owner n) :
      ThreadStep w (w.load thread owner n)
  | link {w : World Thread} {owner : Thread} {n head : Nat} (thread : Thread)
      (phase : w.phases thread = .linking owner n head) :
      ThreadStep w (w.link thread owner n head)
  | publish {w : World Thread} {owner : Thread} {n : Nat} (thread : Thread)
      (phase : w.phases thread =
        .exchanging owner n (w.pools owner).remoteHead) :
      ThreadStep w (w.publish thread owner n)
  | retry {w : World Thread} {owner : Thread} {n head : Nat} (thread : Thread)
      (phase : w.phases thread = .exchanging owner n head) :
      ThreadStep w (w.load thread owner n)
  | store {w : World Thread} {n addr : Nat} (value : Nat) (holds : n ∈ w.held)
      (inNode : addr ∈ crew.base.nodeRange n) :
      ThreadStep w { w with mem := Function.update w.mem addr value }
  | elsewhere {w : World Thread} {addr : Nat} (value : Nat)
      (unused : ¬ w.InUse crew addr) :
      ThreadStep w { w with mem := Function.update w.mem addr value }

def threads : TransitionSystem (World Thread) where
  start w := ∃ mem, w = World.initial crew mem
  step := ThreadStep crew

namespace State

variable {cfg : Config} (s : State)

/-- The exchange, the splice and the rest of the call make up `allocate`. -/
theorem allocate_eq (headers : cfg.ownerHeaders = true) (heap : Heap) :
    s.allocate cfg heap =
      if s.freeHead = 0 then
        if s.remoteHead = 0 then
          { s with remoteHead := 0 }.resumeAllocate cfg heap 0
        else
          (State.spliceWalk s.capacity s.remoteHead
            { s with remoteHead := 0 }).provide cfg heap
      else s.popFreeNode.1.handOut s.popFreeNode.2 := by
  unfold allocate popFreeNode
  by_cases empty : s.freeHead = 0
  · simp only [if_pos empty, headers, and_self, ↓reduceIte]
    unfold drainRemote
    dsimp only
    by_cases none : s.remoteHead = 0
    · rw [if_pos none, if_pos none]
    · rw [if_neg none, if_neg none]
  · simp only [empty, false_and, ↓reduceIte]
    unfold resumeAllocate
    rw [if_neg empty]

end State

theorem World.remotePush_eq (w : World Thread) (thread owner : Thread) (n : Nat) :
    ((w.load thread owner n).link thread owner n
        (w.pools owner).remoteHead).publish thread owner n =
      (w.setPool owner ((w.pool owner).remotePush n)).setPhase thread .idle := by
  unfold publish link load setPool setPhase pool State.remotePush State.write
  simp only [Function.update_idem, Function.update_self]

end Pool

end Allocazam
