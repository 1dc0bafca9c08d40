import Allocazam.SuballocatedModel

/-!
# Operations of the suballocated allocator

Resolution of states, the run cache with its refills, drains and its
destructor, and the member functions `allocate`, `allocate_at_least`,
`deallocate` and `expand`.
-/

namespace Allocazam

namespace Suballocated

/-- What the system provides in the course of one call: whether a state object
can be had, the arrays of `::operator new[]`, and the OS at each of the runner's
allocations. -/
structure Environment where
  room : Bool
  heap : Pool.Heap
  os : Nat → Runner.Os

/-- The state that `lazy_init` constructs.  Its pool size is a power of two. -/
def Family.lazyState {Value Thread Bound : Type}
    (fam : Family Value Thread Bound) (mem : Nat → Nat)
    (site : Site Value Thread Bound) : StdState where
  pool := (Pool.State.blank (fam.poolConfig site) mem 4096).toMembers
  runs :=
    let runnerBytes :=
      if fam.mode = MemoryMode.dynamic then 65536
      else max (4096 * fam.sizeOf (fam.valueOf site) % 2 ^ 64) 4096
    (Runner.State.constructLazy mem runnerBytes).toAllocator

namespace World

variable {Value Thread Bound : Type} [DecidableEq Value] [DecidableEq Thread]
  [DecidableEq Bound] (fam : Family Value Thread Bound)
  (w : World Value Thread Bound)

def allocateBytes (site : Site Value Thread Bound) (os : Runner.Os)
    (bytes alignment : Nat) : World Value Thread Bound × Except Exn Nat :=
  let (s, result) :=
    (w.runs site).allocateBytes (fam.runsConfig site) os bytes alignment
  (w.setRuns site s, result)

def deallocateBytes (site : Site Value Thread Bound) (p : Nat) :
    World Value Thread Bound :=
  w.setRuns site ((w.runs site).deallocateBytes (fam.runsConfig site) p)

def remotePush (site : Site Value Thread Bound) (p : Nat) :
    World Value Thread Bound :=
  w.setRuns site ((w.runs site).remotePush p)

/-- `runs_type::owner_of`. -/
def ownerOf (p : Nat) : Nat :=
  w.mem (p - 8)

/-- `_thread_state`: the calling thread's state, created on first use. -/
def threadState (value : Value) (thread : Thread) (room : Bool) :
    World Value Thread Bound × Except Exn (Site Value Thread Bound) :=
  let site := .thread value thread
  if w.created site then (w, .ok site)
  else if room then
    ({ w with
      states := Function.update w.states site (fam.lazyState w.mem site)
      created := Function.update w.created site true }, .ok site)
  else (w, .error .refused)

/-- `_local_runs_or_null` of a default allocator. -/
def localRunsOrNull (value : Value) (thread : Thread) : Nat :=
  if w.created (.thread value thread) then fam.runsAt (.thread value thread)
  else 0

def runsPtr {value : Value} (a : Handle fam value) (thread : Thread)
    (room : Bool) :
    World Value Thread Bound × Except Exn (Site Value Thread Bound) :=
  match a with
  | .defaultState _ => w.threadState fam value thread room
  | .explicitState site _ => (w, .ok site)
  | .runsOverride site => (w, .ok site)

def allocState {value : Value} (a : Handle fam value) (thread : Thread)
    (room : Bool) :
    World Value Thread Bound × Except Exn (Option (Site Value Thread Bound)) :=
  match a with
  | .defaultState _ =>
      match w.threadState fam value thread room with
      | (w, .error exn) => (w, .error exn)
      | (w, .ok site) => (w, .ok (some site))
  | .explicitState site _ => (w, .ok (some site))
  | .runsOverride _ => (w, .ok none)

def tlsPush (value : Value) (thread : Thread) (idx p owner : Nat) :
    World Value Thread Bound :=
  let cls := w.classes value thread idx
  ((w.write p cls.head).write (p + 8) owner).setClass value thread idx
    ⟨p, wrapAdd cls.count 1⟩

/-- The loop of `_tls_pop_for_owner`, at `node` with the entry `prev` in front,
for at most `fuel` entries. -/
def tlsPopWalk (value : Value) (thread : Thread) (idx owner : Nat) :
    Nat → Nat → Nat → World Value Thread Bound × Nat
  | 0, _, _ => (w, 0)
  | fuel + 1, prev, node =>
      if node = 0 then (w, 0)
      else if w.mem (node + 8) ≠ owner then
        tlsPopWalk value thread idx owner fuel node (w.mem node)
      else
        let cls := w.classes value thread idx
        if prev = 0 then
          (w.setClass value thread idx ⟨w.mem node, decrement cls.count⟩, node)
        else
          ((w.write prev (w.mem node)).setClass value thread idx
            ⟨cls.head, decrement cls.count⟩, node)

def tlsPopForOwner (value : Value) (thread : Thread) (idx owner : Nat) :
    World Value Thread Bound × Nat :=
  let cls := w.classes value thread idx
  w.tlsPopWalk value thread idx owner cls.count 0 cls.head

def tlsPopAny (value : Value) (thread : Thread) (idx : Nat) :
    World Value Thread Bound × Nat :=
  let cls := w.classes value thread idx
  if cls.head = 0 then (w, 0)
  else
    (w.setClass value thread idx ⟨w.mem cls.head, decrement cls.count⟩, cls.head)

/-- Return a run to the given owner: the calling thread frees its own runs and
parks others. -/
def returnRun (value : Value) (thread : Thread) (p owner : Nat) :
    World Value Thread Bound :=
  if owner = w.localRunsOrNull fam value thread then
    w.deallocateBytes fam (fam.runsOf owner) p
  else w.remotePush (fam.runsOf owner) p

/-- The loop of `_tls_drain_class`, for at most `fuel` entries. -/
def tlsDrainWalk (value : Value) (thread : Thread) (idx keepCount : Nat) :
    Nat → World Value Thread Bound → World Value Thread Bound
  | 0, w => w
  | fuel + 1, w =>
      if (w.classes value thread idx).count > keepCount then
        match w.tlsPopAny value thread idx with
        | (w, node) =>
            if node = 0 then w
            else tlsDrainWalk value thread idx keepCount fuel
              (w.returnRun fam value thread node (w.mem (node + 8)))
      else w

def tlsDrainClass (value : Value) (thread : Thread) (idx keepCount : Nat) :
    World Value Thread Bound :=
  tlsDrainWalk fam value thread idx keepCount
    (w.classes value thread idx).count w

def tlsDrainAll (value : Value) (thread : Thread) :
    World Value Thread Bound :=
  (List.range tlsRunClassCount).foldl
    (fun w idx => w.tlsDrainClass fam value thread idx 0) w

/-- The refill loop of `_allocate_from_tls_run_cache` with the given number of
rounds left. -/
def refill (value : Value) (thread : Thread) (site : Site Value Thread Bound)
    (os : Nat → Runner.Os) (idx : Nat) :
    Nat → World Value Thread Bound → World Value Thread Bound × Except Exn Unit
  | 0, w => (w, .ok ())
  | rounds + 1, w =>
      match w.allocateBytes fam site (os (rounds + 2)) (tlsClassBytes idx)
        (fam.alignOf value) with
      | (w, .error exn) => (w, .error exn)
      | (w, .ok extra) =>
          if extra = 0 then (w, .ok ())
          else refill value thread site os idx rounds
            (w.tlsPush value thread idx extra (fam.runsAt site))

/-- The end of `_allocate_from_tls_run_cache`, with the run for the request. -/
def refillAndHandOut (value : Value) (thread : Thread)
    (site : Site Value Thread Bound) (os : Nat → Runner.Os) (idx raw : Nat) :
    World Value Thread Bound × Except Exn Nat :=
  if fam.mode = MemoryMode.dynamic then
    match refill fam value thread site os idx (tlsRefillBatch - 1) w with
    | (w, .error exn) => (w, .error exn)
    | (w, .ok ()) => (w, .ok raw)
  else (w, .ok raw)

/-- `_allocate_from_tls_run_cache` once no cached run was found. -/
def allocateForCache (value : Value) (thread : Thread)
    (site : Site Value Thread Bound) (os : Nat → Runner.Os) (idx : Nat) :
    World Value Thread Bound × Except Exn Nat :=
  match w.allocateBytes fam site (os 0) (tlsClassBytes idx)
    (fam.alignOf value) with
  | (w, .error exn) => (w, .error exn)
  | (w, .ok raw) =>
      if raw = 0 then
        match (w.tlsDrainAll fam value thread).allocateBytes fam site (os 1)
          (tlsClassBytes idx) (fam.alignOf value) with
        | (w, .error exn) => (w, .error exn)
        | (w, .ok raw) =>
            if raw = 0 then (w, .ok 0)
            else w.refillAndHandOut fam value thread site os idx raw
      else w.refillAndHandOut fam value thread site os idx raw

def allocateFromTlsRunCache {value : Value} (a : Handle fam value)
    (thread : Thread) (env : Environment) (bytes : Nat) :
    World Value Thread Bound × Except Exn Nat :=
  let idx := tlsClassIndexFor bytes
  match w.runsPtr fam a thread env.room with
  | (w, .error exn) => (w, .error exn)
  | (w, .ok site) =>
      match w.tlsPopForOwner value thread idx (fam.runsAt site) with
      | (w, node) =>
          if node ≠ 0 then (w, .ok node)
          else w.allocateForCache fam value thread site env.os idx

def deallocateToTlsRunCache (value : Value) (thread : Thread) (p bytes : Nat) :
    World Value Thread Bound :=
  let idx := tlsClassIndexFor bytes
  let w :=
    if (w.classes value thread idx).count ≥ tlsHighWatermark then
      w.tlsDrainClass fam value thread idx tlsDrainLowWatermark
    else w
  w.tlsPush value thread idx p (w.ownerOf p)

/-- The walk of the destructor of the run cache over one class list, for at most
`fuel` entries. -/
def destroyWalk (value : Value) (thread : Thread) :
    Nat → Nat → World Value Thread Bound → World Value Thread Bound
  | 0, _, w => w
  | fuel + 1, node, w =>
      if node = 0 then w
      else
        let next := w.mem node
        let owner := w.mem (node + 8)
        destroyWalk value thread fuel next
          (if owner ≠ 0 then w.returnRun fam value thread node owner else w)

def destroyClass (value : Value) (thread : Thread) (idx : Nat) :
    World Value Thread Bound :=
  let cls := w.classes value thread idx
  (destroyWalk fam value thread cls.count cls.head w).setClass value thread idx
    ⟨0, 0⟩

/-- `~tls_run_cache`. -/
def destroyCache (value : Value) (thread : Thread) :
    World Value Thread Bound :=
  (List.range tlsRunClassCount).foldl
    (fun w idx => w.destroyClass fam value thread idx) w

/-- The calls of `allocate` to `_runs().allocate_bytes`. -/
def allocateRun {value : Value} (a : Handle fam value) (thread : Thread)
    (room : Bool) (os : Runner.Os) (bytes : Nat) :
    World Value Thread Bound × Except Exn Nat :=
  match w.runsPtr fam a thread room with
  | (w, .error exn) => (w, .error exn)
  | (w, .ok site) =>
      match w.allocateBytes fam site os bytes (fam.alignOf value) with
      | (w, .error exn) => (w, .error exn)
      | (w, .ok raw) =>
          if raw = 0 then (w, .error .badAlloc) else (w, .ok raw)

/-- `allocate(1)`. -/
def allocateNode {value : Value} (a : Handle fam value) (thread : Thread)
    (env : Environment) : World Value Thread Bound × Except Exn Nat :=
  match w.allocState fam a thread env.room with
  | (w, .error exn) => (w, .error exn)
  | (w, .ok (some site)) =>
      match (w.pool site).allocate (fam.poolConfig site) env.heap with
      | (s, .error exn) => (w.setPool site s, .error exn)
      | (s, .ok p) =>
          if p = 0 then (w.setPool site s, .error .badAlloc)
          else (w.setPool site s, .ok p)
  | (w, .ok none) =>
      w.allocateRun fam a thread env.room (env.os 0) (fam.sizeOf value)

/-- `allocate` from the point where the run cache has been tried. -/
def allocateRest {value : Value} (a : Handle fam value) (thread : Thread)
    (env : Environment) (bytes p : Nat) :
    World Value Thread Bound × Except Exn Nat :=
  if p ≠ 0 then (w, .ok p)
  else w.allocateRun fam a thread env.room (env.os 5) bytes

/-- `allocate`: a pointer, or an exception. -/
def allocate {value : Value} (a : Handle fam value) (thread : Thread)
    (env : Environment) (n : Nat) : World Value Thread Bound × Except Exn Nat :=
  if n = 0 then (w, .ok 0)
  else if n > fam.maxSize value then (w, .error .badArrayNewLength)
  else if n = 1 then w.allocateNode fam a thread env
  else
    match checkedMul n (fam.sizeOf value) with
    | none => (w, .error .badArrayNewLength)
    | some bytes =>
        if a.canUseTlsRunCache bytes then
          match w.allocateFromTlsRunCache fam a thread env bytes with
          | (w, .error exn) => (w, .error exn)
          | (w, .ok p) => w.allocateRest fam a thread env bytes p
        else w.allocateRest fam a thread env bytes 0

/-- The count that `allocate_at_least` asks `allocate` for. -/
def growthCount (value : Value) (n : Nat) : Nat :=
  if fam.mode = MemoryMode.dynamic ∧ n > 1 then
    let extra := n / 2
    if n > wrapSub (fam.maxSize value) extra then fam.maxSize value
    else wrapAdd n extra
  else n

/-- `allocate_at_least`: a pointer and a count, or an exception. -/
def allocateAtLeast {value : Value} (a : Handle fam value) (thread : Thread)
    (env : Environment) (n : Nat) :
    World Value Thread Bound × Except Exn (Nat × Nat) :=
  if n = 0 then (w, .ok (0, 0))
  else
    let count := growthCount fam value n
    match w.allocate fam a thread env count with
    | (w, .error exn) => (w, .error exn)
    | (w, .ok p) => (w, .ok (p, count))

def freeNodeRouted {value : Value} (a : Handle fam value) (thread : Thread)
    (p : Nat) : World Value Thread Bound :=
  match a with
  | .defaultState _ =>
      let site := .thread value thread
      let granule := (fam.poolConfig site).granule
      let owner := w.mem (p &&& wordNot (granule - 1))
      if w.created site ∧ owner = fam.poolAt site then
        w.setPool site ((w.pool site).deallocate p)
      else w.setPool (fam.poolOf owner) ((w.pool (fam.poolOf owner)).remotePush p)
  | .explicitState site _ => w.setPool site ((w.pool site).deallocate p)
  | .runsOverride _ => w

def freeRunRouted {value : Value} (a : Handle fam value) (thread : Thread)
    (p : Nat) : World Value Thread Bound :=
  match a with
  | .defaultState _ => w.returnRun fam value thread p (w.ownerOf p)
  | .explicitState site _ => w.deallocateBytes fam site p
  | .runsOverride site => w.deallocateBytes fam site p

def deallocate {value : Value} (a : Handle fam value) (thread : Thread)
    (p n : Nat) : World Value Thread Bound :=
  if p = 0 ∨ n = 0 then w
  else if n = 1 then
    if a.mode = .defaultState ∨ a.state ≠ none then w.freeNodeRouted fam a thread p
    else w.freeRunRouted fam a thread p
  else
    match checkedMul n (fam.sizeOf value) with
    | none => w.freeRunRouted fam a thread p
    | some bytes =>
        if a.canUseTlsRunCache bytes then
          w.deallocateToTlsRunCache fam value thread p bytes
        else w.freeRunRouted fam a thread p

/-- `expand` on a runner. -/
def expandRun (site : Site Value Thread Bound) (p minNewBytes : Nat) :
    World Value Thread Bound × Nat :=
  let (s, reported) :=
    (w.runs site).expand (fam.runsConfig site) p minNewBytes
  (w.setRuns site s, reported)

/-- `expand`: the world and the size reported. -/
def expand {value : Value} (a : Handle fam value) (thread : Thread)
    (p minNewBytes : Nat) : World Value Thread Bound × Nat :=
  if p = 0 then (w, 0)
  else
    match a with
    | .defaultState _ =>
        let site := .thread value thread
        if w.created site then
          if (w.pool site).owns (fam.poolConfig site) p then
            (w, fam.sizeOf value)
          else if w.ownerOf p = fam.runsAt site ∧ (w.runs site).ownsRun p then
            w.expandRun fam site p minNewBytes
          else (w, 0)
        else (w, 0)
    | .explicitState site _ =>
        if (w.pool site).owns (fam.poolConfig site) p then
          (w, fam.sizeOf value)
        else w.expandRun fam site p minNewBytes
    | .runsOverride site => w.expandRun fam site p minNewBytes

end World

end Suballocated

end Allocazam
