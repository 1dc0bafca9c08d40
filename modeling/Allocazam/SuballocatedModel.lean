import Allocazam.PoolModel
import Allocazam.RunnerOperations

/-!
# The suballocated standard allocator

`allocazam_std_allocator<T, Mode, suballocated, Huge>` for all value types of a
program: the allocator states, each a node pool with a run allocator, the
thread states that default allocators resolve to, and the run cache of each
thread.

State objects lie outside the modelled memory; a pointer to a pool or to a
runner is the address of the object, and `poolOf` and `runsOf` follow it.
-/

namespace Allocazam

namespace Suballocated

/-- The allocator states of a program: the state a thread creates for a value
type, or a state that the user constructs. -/
inductive Site (Value Thread Bound : Type) where
  | thread (value : Value) (thread : Thread)
  | bound (state : Bound)
  deriving DecidableEq

/-- `Mode` and `Huge`, the page size, the value types of the program, the value
types of the states that the user constructs, and where the pool and the runner
of each state lie. -/
structure Family (Value Thread Bound : Type) where
  mode : MemoryMode
  huge : Bool
  pageSize : Nat
  sizeOf : Value → Nat
  alignOf : Value → Nat
  boundValue : Bound → Value
  poolAt : Site Value Thread Bound → Nat
  runsAt : Site Value Thread Bound → Nat
  poolOf : Nat → Site Value Thread Bound
  runsOf : Nat → Site Value Thread Bound
  pageBits : ∃ bits, 4 ≤ bits ∧ bits < 64 ∧ pageSize = 2 ^ bits
  sizePositive : ∀ value, 0 < sizeOf value
  alignBits : ∀ value, ∃ bits, alignOf value = 2 ^ bits
  nodeBound : ∀ value,
    Pool.nodeBytes (sizeOf value) (alignOf value) +
      Pool.headerOffset (alignOf value) ≤ 2 ^ 63
  poolOf_poolAt : ∀ site, poolOf (poolAt site) = site
  runsOf_runsAt : ∀ site, runsOf (runsAt site) = site
  runsNonnull : ∀ site, runsAt site ≠ 0

namespace Family

variable {Value Thread Bound : Type} (fam : Family Value Thread Bound)

def valueOf : Site Value Thread Bound → Value
  | .thread value _ => value
  | .bound state => fam.boundValue state

/-- `heap_backed_mode`. -/
def heapBacked : Bool :=
  fam.mode != .noheap

/-- The requirement of the default constructor. -/
def stateless : Bool :=
  fam.heapBacked && !fam.huge

theorem pageSize_dvd : 16 ∣ fam.pageSize := by
  obtain ⟨bits, large, _, same⟩ := fam.pageBits
  rw [same]
  exact pow_dvd_pow 2 large

theorem pageSize_lt : fam.pageSize < 2 ^ 64 := by
  obtain ⟨bits, _, bounded, same⟩ := fam.pageBits
  rw [same]
  exact Nat.pow_lt_pow_right (by decide) bounded

/-- `pool` of a state: pools on the heap have owner headers. -/
def poolConfig (site : Site Value Thread Bound) : Pool.Config where
  sizeT := fam.sizeOf (fam.valueOf site)
  alignT := fam.alignOf (fam.valueOf site)
  mode := fam.mode
  ownerHeaders := fam.heapBacked
  pageSize := fam.pageSize
  self := fam.poolAt site
  sizePositive := fam.sizePositive _
  alignBits := fam.alignBits _
  pageBits := by
    obtain ⟨bits, _, bounded⟩ := fam.pageBits
    exact ⟨bits, bounded⟩
  nodeBound := fam.nodeBound _
  headersHeap := by simp [heapBacked]

/-- `runs` of a state. -/
def runsConfig (site : Site Value Thread Bound) : Runner.Config where
  canGrow := fam.mode == .dynamic
  collectStats := false
  huge := fam.huge
  pageSize := fam.pageSize
  self := fam.runsAt site
  pageAligned := fam.pageSize_dvd
  pageBound := fam.pageSize_lt
  selfNonnull := fam.runsNonnull site

def maxSize (value : Value) : Nat :=
  (2 ^ 64 - 1) / fam.sizeOf value

end Family

/-- The members of `allocazam_std_state`. -/
structure StdState where
  pool : Pool.Members
  runs : Runner.Allocator

/-- `tls_run_class`. -/
structure RunClass where
  head : Nat
  count : Nat
  deriving DecidableEq, Repr

/-- The memory, the allocator states with those that exist, and the class lists
of the run cache of each value type and thread. -/
structure World (Value Thread Bound : Type) where
  mem : Nat → Nat
  states : Site Value Thread Bound → StdState
  created : Site Value Thread Bound → Bool
  classes : Value → Thread → Nat → RunClass

abbrev tlsRunQuantum : Nat := 16
abbrev tlsRunCutoff : Nat := 4096
abbrev tlsRunClassCount : Nat := tlsRunCutoff / tlsRunQuantum
abbrev tlsRefillBatch : Nat := 4
abbrev tlsHighWatermark : Nat := 32
abbrev tlsDrainLowWatermark : Nat := 16

def tlsClassIndexFor (bytes : Nat) : Nat :=
  decrement (Runner.alignUpPow2 bytes tlsRunQuantum / tlsRunQuantum)

def tlsClassBytes (idx : Nat) : Nat :=
  (idx + 1) * tlsRunQuantum

namespace World

variable {Value Thread Bound : Type} (w : World Value Thread Bound)
  (site : Site Value Thread Bound)

def pool : Pool.State :=
  ⟨(w.states site).pool, w.mem⟩

def runs : Runner.State :=
  ⟨(w.states site).runs, w.mem⟩

variable [DecidableEq Value] [DecidableEq Thread] [DecidableEq Bound]

def setPool (s : Pool.State) : World Value Thread Bound :=
  { w with
    mem := s.mem
    states := Function.update w.states site
      { w.states site with pool := s.toMembers } }

def setRuns (s : Runner.State) : World Value Thread Bound :=
  { w with
    mem := s.mem
    states := Function.update w.states site
      { w.states site with runs := s.toAllocator } }

def setClass (value : Value) (thread : Thread) (idx : Nat) (cls : RunClass) :
    World Value Thread Bound :=
  { w with
    classes := Function.update w.classes value
      (Function.update (w.classes value) thread
        (Function.update (w.classes value thread) idx cls)) }

def write (addr value : Nat) : World Value Thread Bound :=
  { w with mem := Function.update w.mem addr value }

end World

inductive ResourceMode where
  | defaultState
  | explicitState
  | runsOverride
  deriving DecidableEq, Repr

/-- An allocator for values of one type, as its constructors leave it. -/
inductive Handle {Value Thread Bound : Type} (fam : Family Value Thread Bound)
    (value : Value) where
  | defaultState (stateless : fam.stateless = true)
  | explicitState (state : Site Value Thread Bound)
      (typed : fam.valueOf state = value)
  | runsOverride (runs : Site Value Thread Bound)
  deriving DecidableEq

namespace Handle

variable {Value Thread Bound : Type} {fam : Family Value Thread Bound}
  {value other : Value}

def mode : Handle fam value → ResourceMode
  | .defaultState _ => .defaultState
  | .explicitState _ _ => .explicitState
  | .runsOverride _ => .runsOverride

def state : Handle fam value → Option (Site Value Thread Bound)
  | .defaultState _ => none
  | .explicitState state _ => some state
  | .runsOverride _ => none

/-- `_runs_override`: the state whose runner it points to. -/
def override : Handle fam value → Option (Site Value Thread Bound)
  | .defaultState _ => none
  | .explicitState _ _ => none
  | .runsOverride runs => some runs

/-- The converting constructor. -/
def rebind : Handle fam value → Handle fam other
  | .defaultState stateless => .defaultState stateless
  | .explicitState state _ => .runsOverride state
  | .runsOverride runs => .runsOverride runs

/-- `operator==`. -/
def Equal (a b : Handle fam value) : Prop :=
  a.state = b.state ∧ a.override = b.override

def canUseTlsRunCache (a : Handle fam value) (bytes : Nat) : Bool :=
  fam.heapBacked && (fam.sizeOf value == 1) &&
    (a.mode == .defaultState && decide (bytes ≤ tlsRunCutoff))

end Handle

end Suballocated

end Allocazam
