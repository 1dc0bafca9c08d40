import Allocazam.RunnerSession

/-!
# One runner shared with foreign threads

The atomic steps of a runner in use by several threads.  A `remote_push` of a
foreign thread is the load of the stack's head, the write of payload word 0 and
a compare-exchange that may fail for no reason.  An `allocate_bytes` of the
owner whose search fails is the exchange of the stack's head, then for each
entry taken the read of its link and its deallocation, then the rest of the
call.  Foreign threads may take their steps between any two of these.
-/

namespace Allocazam

namespace Runner

namespace State

variable (cfg : Config) (s : State)

/-- `allocate_bytes` up to the result of its first search: null at once, or the
normalized size with the run found and the scan count. -/
def searchFirst (bytes alignment : Nat) : State × Option (Nat × Nat × Nat) :=
  let bytes := if bytes = 0 then 1 else bytes
  if alignment > runAlignment then (s, none)
  else
    let s := s.record cfg fun stats =>
      { stats with
        allocateCalls := wrapAdd stats.allocateCalls 1
        requestedBytes := wrapAdd stats.requestedBytes bytes }
    match normalizedRunBytesForPayload bytes with
    | none => ((s.failAllocate cfg).1, none)
    | some needed =>
        let (s, h, scanCount) := s.findFit cfg needed 0
        (s, some (needed, h, scanCount))

/-- Without interference the first search, the drain and the rest of the call
make up `allocate_bytes`. -/
theorem allocateBytes_eq (os : Os) (bytes alignment : Nat) :
    s.allocateBytes cfg os bytes alignment =
      match s.searchFirst cfg bytes alignment with
      | (s, none) => (s, .ok 0)
      | (s, some (needed, h, scanCount)) =>
          if h = 0 then
            match s.drainRemote cfg with
            | (s, true) =>
                resumeAllocate cfg os needed (s.findFit cfg needed scanCount)
            | (s, false) => resumeAllocate cfg os needed (s, 0, scanCount)
          else resumeAllocate cfg os needed (s, h, scanCount) := by
  unfold allocateBytes searchFirst
  by_cases overAligned : alignment > runAlignment
  · simp only [if_pos overAligned]
  simp only [if_neg overAligned]
  cases normalizedRunBytesForPayload (if bytes = 0 then 1 else bytes) with
  | none => rfl
  | some needed =>
      unfold findOrDrain
      dsimp only
      generalize findFit cfg _ needed 0 = found
      obtain ⟨u, h, scanCount⟩ := found
      by_cases missing : h = 0
      · rw [if_pos missing, if_pos missing, missing]
        generalize u.drainRemote cfg = drained
        obtain ⟨v, _ | _⟩ := drained <;> rfl
      · rw [if_neg missing, if_neg missing]

end State

/-- Where a `remote_push` stands: before its write of payload word 0, or before
its compare-exchange, with the head it loaded last. -/
inductive PushPhase where
  | loaded (head : Nat)
  | linked (head : Nat)
  deriving DecidableEq, Repr

/-- A `remote_push` in progress on some foreign thread. -/
structure Push where
  payload : Nat
  phase : PushPhase
  deriving DecidableEq, Repr

/-- An `allocate_bytes` whose first search found nothing. -/
structure Call where
  bytes : Nat
  needed : Nat
  scanCount : Nat
  deriving DecidableEq, Repr

/-- What the owner does next: take a new call, exchange the head of the stack,
test the loop variable of the drain, deallocate `head`, or go on with an
allocation that found the stack empty. -/
inductive OwnerPhase where
  | idle
  | exchange (call : Call)
  | walk (call : Call) (head : Nat)
  | replay (call : Call) (head next : Nat)
  | resume (call : Call)
  deriving DecidableEq, Repr

/-- A payload put on the remote stack after `epoch` exchanges. -/
structure Parking where
  payload : Nat
  epoch : Nat
  deriving DecidableEq, Repr

/-- A payload deallocated by the walk that follows exchange number `drain`. -/
structure Replay where
  payload : Nat
  drain : Nat
  deriving DecidableEq, Repr

/-- A record of the run, newest entries first.  No step reads it. -/
structure Journal where
  pushed : List Parking
  replayed : List Replay
  exchanges : Nat
  /-- The runner right after the last exchange. -/
  atExchange : State

namespace Journal

variable (journal : Journal)

/-- The payloads pushed between exchange `drain - 1` and exchange `drain`, the
last one first: those the latter takes. -/
def takenBy (drain : Nat) : List Nat :=
  (journal.pushed.filter fun parking => parking.epoch + 1 = drain).map
    Parking.payload

/-- The payloads deallocated after exchange `drain`, in this order. -/
def replayedIn (drain : Nat) : List Nat :=
  ((journal.replayed.filter fun replay => replay.drain = drain).map
    Replay.payload).reverse

def stack : List Nat :=
  journal.takenBy (journal.exchanges + 1)

end Journal

/-- A session together with the calls in progress. -/
structure World extends Session where
  pushes : List Push
  owner : OwnerPhase
  journal : Journal

namespace World

variable (cfg : Config) (w : World)

/-- The end of an allocation, from the last search before a chunk is added. -/
def settle (os : Os) (call : Call) (found : State × Nat × Nat) : World :=
  match State.resumeAllocate cfg os call.needed found with
  | (s, .ok payload) =>
      { w with
        state := s
        live := if payload = 0 then w.live
          else ⟨payload, call.bytes, 0⟩ :: w.live
        owner := .idle }
  | (s, .error _) => { w with state := s, owner := .idle }

def search (os : Os) (bytes alignment : Nat) : World :=
  match w.state.searchFirst cfg bytes alignment with
  | (s, none) => { w with state := s }
  | (s, some (needed, h, scanCount)) =>
      let call : Call := ⟨bytes, needed, scanCount⟩
      if h = 0 then { w with state := s, owner := .exchange call }
      else w.settle cfg os call (s, h, scanCount)

def exchange (call : Call) : World :=
  let head := w.state.remoteHead
  let s := { w.state with remoteHead := 0 }
  { w with
    state := s
    owner := if head = 0 then .resume call else .walk call head
    journal := { w.journal with
      exchanges := w.journal.exchanges + 1
      atExchange := s } }

/-- Read the link of the entry at `head`. -/
def readLink (call : Call) (head : Nat) : World :=
  { w with owner := .replay call head (w.state.mem head) }

def replay (call : Call) (head next : Nat) : World :=
  { w with
    state := w.state.deallocateBytes cfg head
    owner := .walk call next
    journal := { w.journal with
      replayed := ⟨head, w.journal.exchanges⟩ :: w.journal.replayed } }

/-- The search after a drain that reclaimed something, and the rest. -/
def searchAgain (os : Os) (call : Call) : World :=
  w.settle cfg os call (w.state.findFit cfg call.needed call.scanCount)

def resume (os : Os) (call : Call) : World :=
  w.settle cfg os call (w.state, 0, call.scanCount)

def load (payload : Nat) : World :=
  { w with
    live := w.release payload
    pushes := ⟨payload, .loaded w.state.remoteHead⟩ :: w.pushes }

def link (front back : List Push) (payload head : Nat) : World :=
  { w with
    state := w.state.write payload head
    pushes := front ++ ⟨payload, .linked head⟩ :: back }

def publish (front back : List Push) (payload : Nat) : World :=
  { w with
    state := { w.state with remoteHead := payload }
    pushes := front ++ back
    journal := { w.journal with
      pushed := ⟨payload, w.journal.exchanges⟩ :: w.journal.pushed } }

/-- A compare-exchange that fails and loads the head again. -/
def retry (front back : List Push) (payload : Nat) : World :=
  { w with
    pushes := front ++ ⟨payload, .loaded w.state.remoteHead⟩ :: back }

end World

/-- A step of the owner, of a foreign thread, or of a holder writing to a
payload. -/
inductive Interleaves (cfg : Config) : World → World → Prop
  | search {w : World} (os : Os) (bytes alignment : Nat)
      (idle : w.owner = .idle) (word : bytes < 2 ^ 64) :
      Interleaves cfg w (w.search cfg os bytes alignment)
  | call {w : World} (operation : Operation) (idle : w.owner = .idle)
      (direct : (∃ payload, operation = .deallocateBytes payload) ∨
        ∃ payload minNewBytes, operation = .expand payload minNewBytes)
      (allowed : w.Allows operation) :
      Interleaves cfg w { w with toSession := w.perform cfg operation }
  | exchange {w : World} {call : Call} (phase : w.owner = .exchange call) :
      Interleaves cfg w (w.exchange call)
  | readLink {w : World} {call : Call} {head : Nat}
      (phase : w.owner = .walk call head) (more : head ≠ 0) :
      Interleaves cfg w (w.readLink call head)
  | replay {w : World} {call : Call} {head next : Nat}
      (phase : w.owner = .replay call head next) :
      Interleaves cfg w (w.replay cfg call head next)
  | searchAgain {w : World} {call : Call} (os : Os)
      (phase : w.owner = .walk call 0) :
      Interleaves cfg w (w.searchAgain cfg os call)
  | resume {w : World} {call : Call} (os : Os)
      (phase : w.owner = .resume call) :
      Interleaves cfg w (w.resume cfg os call)
  | load {w : World} {payload : Nat} (holds : w.Holds payload) :
      Interleaves cfg w (w.load payload)
  | link {w : World} {front back : List Push} {payload head : Nat}
      (listed : w.pushes = front ++ ⟨payload, .loaded head⟩ :: back) :
      Interleaves cfg w (w.link front back payload head)
  | publish {w : World} {front back : List Push} {payload : Nat}
      (listed : w.pushes =
        front ++ ⟨payload, .linked w.state.remoteHead⟩ :: back) :
      Interleaves cfg w (w.publish front back payload)
  | retry {w : World} {front back : List Push} {payload head : Nat}
      (listed : w.pushes = front ++ ⟨payload, .linked head⟩ :: back) :
      Interleaves cfg w (w.retry front back payload)
  | store {w : World} (word value : Nat) (writable : w.Writable word) :
      Interleaves cfg w { w with state := w.state.write word value }

/-- The interleavings of one runner, from any of its constructors on. -/
def interleavings (cfg : Config) : TransitionSystem World where
  start w := Starts cfg w.toSession ∧ w.pushes = [] ∧ w.owner = .idle ∧
    w.journal.pushed = [] ∧ w.journal.replayed = [] ∧ w.journal.exchanges = 0
  step := Interleaves cfg

end Runner

end Allocazam
