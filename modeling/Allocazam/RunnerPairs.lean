import Allocazam.RunnerHoldings
import Allocazam.RunnerSession
import Allocazam.RunnerTwinStart

/-!
# Two runners side by side

The users of two runners make the same calls, told without addresses.  They get the same
results up to the addresses of the chunks, whether or not one of the runners has deferred
its first chunk, whatever addresses the OS chooses and whether statistics are collected.
-/

namespace Allocazam

namespace Runner

/-- A call of a public operation, told without addresses: a payload by its place among
the held allocations, the null pointer by a place where there is none. -/
inductive Request where
  | allocateBytes (bytes alignment : Nat)
  | deallocateBytes (place : Nat)
  | expand (place minNewBytes : Nat)
  | remotePush (place : Nat)

inductive Answer where
  | nothing
  | pointer (result : Except Exn Nat)
  | bytes (count : Nat)

/-- Whether a call gets as far as searching for a free run. -/
def Request.searches : Request → Bool
  | .allocateBytes bytes alignment =>
      decide (alignment ≤ runAlignment) &&
        (normalizedRunBytesForPayload (if bytes = 0 then 1 else bytes)).isSome
  | _ => false

namespace Session

variable (cfg : Config) (session : Session)

def payloadAt (place : Nat) : Nat :=
  (session.live[place]?.map Allocation.payload).getD 0

def operation (os : Os) : Request → Operation
  | .allocateBytes bytes alignment => .allocateBytes os bytes alignment
  | .deallocateBytes place => .deallocateBytes (session.payloadAt place)
  | .expand place minNewBytes => .expand (session.payloadAt place) minNewBytes
  | .remotePush place => .remotePush (session.payloadAt place)

def answer : Operation → Answer
  | .allocateBytes os bytes alignment =>
      .pointer (session.state.allocateBytes cfg os bytes alignment).2
  | .deallocateBytes _ => .nothing
  | .expand payload minNewBytes => .bytes (session.state.expand cfg payload minNewBytes).2
  | .remotePush _ => .nothing

/-- Null is deallocated and expanded without effect; only a payload can be parked. -/
def Permits : Request → Prop
  | .allocateBytes bytes _ => bytes < 2 ^ 64
  | .deallocateBytes _ => True
  | .expand _ minNewBytes => minNewBytes < 2 ^ 64
  | .remotePush place => place < session.live.length

end Session

/-- Two sessions, and whether the two runners are to agree from now on. -/
structure Pair where
  left : Session
  right : Session
  settled : Bool

namespace Pair

variable (cfg cfg' : Config) (pair : Pair)

def perform (os os' : Os) (request : Request) : Pair where
  left := pair.left.perform cfg (pair.left.operation os request)
  right := pair.right.perform cfg' (pair.right.operation os' request)
  settled := pair.settled || request.searches

/-- The OS refuses no chunk during the call, on either side. -/
def Granted (os os' : Os) (request : Request) : Prop :=
  pair.left.answer cfg (pair.left.operation os request) ≠ .pointer (.error .refused) ∧
    pair.right.answer cfg' (pair.right.operation os' request) ≠ .pointer (.error .refused)

/-- Writes at the same offset of the same payload, of any values. -/
def store (place offset value value' : Nat) : Pair where
  left := { pair.left with
    state := pair.left.state.write (pair.left.payloadAt place + offset) value }
  right := { pair.right with
    state := pair.right.state.write (pair.right.payloadAt place + offset) value' }
  settled := pair.settled

end Pair

/-- A step of a pair: the same call, or the same store of the users. -/
inductive Advances (cfg cfg' : Config) : Pair → Pair → Prop
  | request {pair : Pair} (os os' : Os) (request : Request) (permitted : pair.left.Permits request)
      (granted : pair.Granted cfg cfg' os os' request) :
      Advances cfg cfg' pair (pair.perform cfg cfg' os os' request)
  | store {pair : Pair} (place offset value value' : Nat)
      (held : place < pair.left.live.length)
      (inside : offset < pair.left.state.payloadBytes (pair.left.payloadAt place)) :
      Advances cfg cfg' pair (pair.store place offset value value')

/-- A lazily and an eagerly constructed runner of one initial size. -/
inductive Deferral (cfg cfg' : Config) : Pair → Prop
  | mk {os : Os} {mem mem' : Nat → Nat} {initialBytes : Nat} {t : State}
      (word : initialBytes < 2 ^ 64)
      (built : State.construct cfg' os mem' initialBytes = .ok t) :
      Deferral cfg cfg' ⟨⟨State.constructLazy mem initialBytes, []⟩, ⟨t, []⟩, false⟩

/-- Two runners constructed in one way, on whatever memory: eagerly, lazily, or on spans
of one length that lie alike to the alignment. -/
inductive Alikened (cfg cfg' : Config) : Pair → Prop
  | eager {os os' : Os} {mem mem' : Nat → Nat} {initialBytes : Nat} {s t : State}
      (word : initialBytes < 2 ^ 64)
      (built : State.construct cfg os mem initialBytes = .ok s)
      (built' : State.construct cfg' os' mem' initialBytes = .ok t) :
      Alikened cfg cfg' ⟨⟨s, []⟩, ⟨t, []⟩, true⟩
  | deferred {mem mem' : Nat → Nat} {initialBytes : Nat} (word : initialBytes < 2 ^ 64) :
      Alikened cfg cfg' ⟨⟨State.constructLazy mem initialBytes, []⟩,
        ⟨State.constructLazy mem' initialBytes, []⟩, true⟩
  | external {mem mem' : Nat → Nat} {data data' size : Nat} {s t : State}
      (nonnull : 0 < data) (bounded : data + size ≤ 2 ^ 64)
      (nonnull' : 0 < data') (bounded' : data' + size ≤ 2 ^ 64)
      (placed : data % runAlignment = data' % runAlignment)
      (built : State.constructExternal mem data size = .ok s)
      (built' : State.constructExternal mem' data' size = .ok t) :
      Alikened cfg cfg' ⟨⟨s, []⟩, ⟨t, []⟩, true⟩

def pairs (cfg cfg' : Config) (begins : Pair → Prop) : TransitionSystem Pair where
  start := begins
  step := Advances cfg cfg'

/-- Answers that agree up to the addresses of the chunks. -/
inductive AnswerAlike (chunks chunks' : List ChunkNode) : Answer → Answer → Prop
  | nothing : AnswerAlike chunks chunks' .nothing .nothing
  | pointer {result result' : Except Exn Nat}
      (alike : ResultAlike chunks chunks' result result') :
      AnswerAlike chunks chunks' (.pointer result) (.pointer result')
  | bytes (count : Nat) : AnswerAlike chunks chunks' (.bytes count) (.bytes count)

structure AllocationAlike (chunks chunks' : List ChunkNode)
    (allocation allocation' : Allocation) : Prop where
  payload : Alike chunks chunks' allocation.payload allocation'.payload
  requested : allocation'.requested = allocation.requested
  reported : allocation'.reported = allocation.reported

/-- The chunks, the runs in them, the bins, the mask and the sizes of the next chunks are
the same up to the addresses of the chunks. -/
structure Concur (s t : State) : Prop where
  chunks : SameLengths s.chunks t.chunks
  runs : ∀ addr addr', Alike s.chunks t.chunks addr addr' → ∀ size,
    (s.FreeRun addr size ↔ t.FreeRun addr' size) ∧
      (s.Allocated addr size ↔ t.Allocated addr' size)
  bins : ∀ idx < binCount,
    List.Forall₂ (Alike s.chunks t.chunks) (s.binRuns idx) (t.binRuns idx)
  mask : ∀ word < binWordCount, t.binNonemptyMask word = s.binNonemptyMask word
  nextGrowth : t.nextGrowth = s.nextGrowth
  deferred : t.deferredBytes = s.deferredBytes

section Sessions

variable {cfg cfg' : Config} {s t : State} {os os' : Os} {session : Session}
  {place : Nat}

namespace Session

theorem payloadAt_of_lt (listed : place < session.live.length) :
    session.payloadAt place = session.live[place].payload := by
  unfold payloadAt
  rw [List.getElem?_eq_getElem listed]
  rfl

theorem payloadAt_of_le (beyond : session.live.length ≤ place) :
    session.payloadAt place = 0 := by
  unfold payloadAt
  rw [List.getElem?_eq_none beyond]
  rfl

theorem holds_payloadAt (listed : place < session.live.length) :
    session.Holds (session.payloadAt place) :=
  ⟨session.live[place], List.getElem_mem listed, (payloadAt_of_lt listed).symm⟩

end Session

namespace SessionOk

variable (ok : SessionOk cfg session)

include ok

theorem payload_ne_zero : ∀ allocation ∈ session.live, allocation.payload ≠ 0 := by
  obtain ⟨runs, parked, _, held⟩ := ok
  intro allocation member
  obtain ⟨run, _, same, _⟩ := held.covered allocation member
  omega

theorem perform_null : session.perform cfg (.deallocateBytes 0) = session ∧
    ∀ minNewBytes, session.perform cfg (.expand 0 minNewBytes) = session := by
  have kept : session.release 0 = session.live := by
    refine List.filter_eq_self.mpr fun allocation member => ?_
    simpa using ok.payload_ne_zero allocation member
  have unreported : ∀ reported, session.report 0 reported = session.live := by
    intro reported
    refine (List.map_congr_left fun allocation member => ?_).trans (List.map_id' _)
    exact if_neg (ok.payload_ne_zero allocation member)
  refine ⟨?_, fun minNewBytes => ?_⟩
  · show Session.mk (session.state.deallocateBytes cfg 0) (session.release 0) = session
    rw [kept]
    rfl
  · show Session.mk (session.state.expand cfg 0 minNewBytes).1 (session.report 0 _) = session
    rw [unreported]
    rfl

theorem request {request : Request} (os : Os) (permitted : session.Permits request) :
    SessionOk cfg (session.perform cfg (session.operation os request)) := by
  have called : ∀ operation, session.Allows operation →
      SessionOk cfg (session.perform cfg operation) := fun operation allowed =>
    (sessionOk_inductive cfg).step _ _ ok (.call operation allowed)
  cases request with
  | allocateBytes bytes alignment => exact called _ permitted
  | deallocateBytes place =>
      by_cases listed : place < session.live.length
      · exact called _ (Session.holds_payloadAt listed)
      · show SessionOk cfg (session.perform cfg (.deallocateBytes (session.payloadAt place)))
        rw [Session.payloadAt_of_le (not_lt.mp listed), ok.perform_null.1]
        exact ok
  | expand place minNewBytes =>
      by_cases listed : place < session.live.length
      · exact called _ ⟨Session.holds_payloadAt listed, permitted⟩
      · show SessionOk cfg
          (session.perform cfg (.expand (session.payloadAt place) minNewBytes))
        rw [Session.payloadAt_of_le (not_lt.mp listed), ok.perform_null.2]
        exact ok
  | remotePush place => exact called _ (Session.holds_payloadAt permitted)

end SessionOk

end Sessions

end Runner

end Allocazam
