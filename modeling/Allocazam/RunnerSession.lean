import Allocazam.RunnerSteps
import Allocazam.TransitionSystem

/-!
# Sessions of one runner

A session is a runner together with the allocations its users hold.  Users call
the public operations on payloads they hold and write to these payloads as they
like; the session invariant ties the held allocations and the remote stack to
the allocated runs of the memory.
-/

namespace Allocazam

namespace Runner

/-- An allocation as its holder sees it: the bytes asked for and the size
`expand` reported last, zero before the first report. -/
structure Allocation where
  payload : Nat
  requested : Nat
  reported : Nat
  deriving DecidableEq, Repr

/-- A runner and the allocations that are neither deallocated nor parked. -/
structure Session where
  state : State
  live : List Allocation

/-- A call of a public operation. -/
inductive Operation where
  | allocateBytes (os : Os) (bytes alignment : Nat)
  | deallocateBytes (payload : Nat)
  | expand (payload minNewBytes : Nat)
  | remotePush (payload : Nat)

def State.payloadBytes (s : State) (payload : Nat) : Nat :=
  s.runSize (headerFromPayload payload) - headerBytes

namespace Session

variable (cfg : Config) (session : Session)

def Holds (payload : Nat) : Prop :=
  ∃ allocation ∈ session.live, allocation.payload = payload

/-- Forget the allocation at `payload`. -/
def release (payload : Nat) : List Allocation :=
  session.live.filter fun allocation => allocation.payload ≠ payload

/-- Record what `expand` reported for `payload`. -/
def report (payload reported : Nat) : List Allocation :=
  session.live.map fun allocation =>
    if allocation.payload = payload then { allocation with reported }
    else allocation

/-- The arguments an operation may be called with. -/
def Allows : Operation → Prop
  | .allocateBytes _ bytes _ => bytes < 2 ^ 64
  | .deallocateBytes payload => session.Holds payload
  | .expand payload minNewBytes =>
      session.Holds payload ∧ minNewBytes < 2 ^ 64
  | .remotePush payload => session.Holds payload

def perform : Operation → Session
  | .allocateBytes os bytes alignment =>
      match session.state.allocateBytes cfg os bytes alignment with
      | (s, .ok payload) =>
          ⟨s, if payload = 0 then session.live
            else ⟨payload, bytes, 0⟩ :: session.live⟩
      | (s, .error _) => ⟨s, session.live⟩
  | .deallocateBytes payload =>
      ⟨session.state.deallocateBytes cfg payload, session.release payload⟩
  | .expand payload minNewBytes =>
      let (s, reported) := session.state.expand cfg payload minNewBytes
      ⟨s, session.report payload reported⟩
  | .remotePush payload =>
      ⟨session.state.remotePush payload, session.release payload⟩

/-- The word belongs to the payload of a held allocation. -/
def Writable (word : Nat) : Prop :=
  ∃ allocation ∈ session.live, allocation.payload ≤ word ∧
    word < allocation.payload + session.state.payloadBytes allocation.payload

end Session

/-- How a session begins: with the eager, the lazy or the external
constructor. -/
inductive Starts (cfg : Config) : Session → Prop
  | eager {os : Os} {mem : Nat → Nat} {initialBytes : Nat} {s : State}
      (word : initialBytes < 2 ^ 64)
      (built : State.construct cfg os mem initialBytes = .ok s) :
      Starts cfg ⟨s, []⟩
  | deferred {mem : Nat → Nat} {initialBytes : Nat}
      (word : initialBytes < 2 ^ 64) :
      Starts cfg ⟨State.constructLazy mem initialBytes, []⟩
  | external {mem : Nat → Nat} {data size : Nat} {s : State}
      (nonnull : 0 < data) (bounded : data + size ≤ 2 ^ 64)
      (built : State.constructExternal mem data size = .ok s) :
      Starts cfg ⟨s, []⟩

/-- A step of a session: a permitted call, or a user writing to a payload. -/
inductive Moves (cfg : Config) : Session → Session → Prop
  | call {session : Session} (operation : Operation)
      (allowed : session.Allows operation) :
      Moves cfg session (session.perform cfg operation)
  | store {session : Session} (word value : Nat)
      (writable : session.Writable word) :
      Moves cfg session { session with state := session.state.write word value }

/-- The sessions of one runner. -/
def sessions (cfg : Config) : TransitionSystem Session where
  start := Starts cfg
  step := Moves cfg

theorem reachable_call {cfg : Config} {session : Session}
    (before : (sessions cfg).Reachable session) (operation : Operation)
    (allowed : session.Allows operation) :
    (sessions cfg).Reachable (session.perform cfg operation) :=
  .step before (Moves.call operation allowed)

/-- The held allocations are the allocated runs that are not parked, each with
room for what was asked for and reported. -/
structure Held (live : List Allocation) (runs : Set Block)
    (parked : List Nat) : Prop where
  covered : ∀ allocation ∈ live, ∃ run ∈ runs,
    run.addr + 16 = allocation.payload ∧
      allocation.requested + 16 ≤ run.size ∧
      allocation.reported + 16 ≤ run.size
  unparked : ∀ allocation ∈ live, allocation.payload ∉ parked
  accounted : ∀ run ∈ runs, run.addr + 16 ∈ parked ∨
    ∃ allocation ∈ live, allocation.payload = run.addr + 16
  nodup : (live.map Allocation.payload).Nodup

/-- The session invariant. -/
def SessionOk (cfg : Config) (session : Session) : Prop :=
  ∃ runs parked, RunnerOk cfg session.state runs parked ∧
    Held session.live runs parked

section Held

variable {cfg : Config} {s t : State} {session : Session} {runs : Set Block}
  {parked : List Nat} {live : List Allocation}

theorem held_nil : Held [] ∅ [] where
  covered := by simp
  unparked := by simp
  accounted := by simp
  nodup := List.nodup_nil

theorem eq_of_payload_eq (nodup : (live.map Allocation.payload).Nodup)
    {one two : Allocation} (oneMember : one ∈ live) (twoMember : two ∈ live)
    (same : one.payload = two.payload) : one = two :=
  List.inj_on_of_nodup_map nodup oneMember twoMember same

theorem Held.run (held : Held live runs parked) {payload : Nat}
    (holds : ∃ allocation ∈ live, allocation.payload = payload) :
    ∃ run ∈ runs, run.addr + 16 = payload ∧ payload ∉ parked := by
  obtain ⟨allocation, member, rfl⟩ := holds
  obtain ⟨run, runMember, addrEq, _⟩ := held.covered allocation member
  exact ⟨run, runMember, addrEq, held.unparked allocation member⟩

theorem Held.drain (held : Held live runs parked) (drained : Bool) :
    Held live (survivors drained runs parked) (afterDrain drained parked) := by
  cases drained with
  | false => exact held
  | true =>
      refine ⟨fun allocation member => ?_, fun _ _ => List.not_mem_nil,
        fun run member => ?_, held.nodup⟩
      · obtain ⟨run, runMember, addrEq, room⟩ := held.covered allocation member
        refine ⟨run, ⟨runMember, ?_⟩, addrEq, room⟩
        rw [addrEq]
        exact held.unparked allocation member
      · exact Or.inr ((held.accounted run member.1).resolve_left member.2)

theorem Held.acquire (held : Held live runs parked) {addr granted bytes : Nat}
    (fresh : ∀ run ∈ runs, run.addr ≠ addr)
    (parkedRuns : ∀ p ∈ parked, ∃ run ∈ runs, run.addr + 16 = p)
    (covers : bytes + 16 ≤ granted) :
    Held (⟨addr + 16, bytes, 0⟩ :: live)
      (insert ⟨addr, granted, .used⟩ runs) parked where
  covered := by
    intro allocation member
    rcases List.mem_cons.mp member with rfl | later
    · exact ⟨_, Or.inl rfl, rfl, covers, by simp only; omega⟩
    · obtain ⟨run, runMember, room⟩ := held.covered allocation later
      exact ⟨run, Or.inr runMember, room⟩
  unparked := by
    intro allocation member
    rcases List.mem_cons.mp member with rfl | later
    · intro inParked
      obtain ⟨run, runMember, addrEq⟩ := parkedRuns _ inParked
      exact fresh run runMember (by simp only at addrEq; omega)
    · exact held.unparked allocation later
  accounted := by
    rintro run (rfl | member)
    · exact Or.inr ⟨_, List.mem_cons_self, rfl⟩
    · rcases held.accounted run member with inParked | ⟨allocation, later, same⟩
      · exact Or.inl inParked
      · exact Or.inr ⟨allocation, List.mem_cons_of_mem _ later, same⟩
  nodup := by
    refine List.nodup_cons.mpr ⟨fun again => ?_, held.nodup⟩
    obtain ⟨allocation, member, same⟩ := List.mem_map.mp again
    obtain ⟨run, runMember, addrEq, _⟩ := held.covered allocation member
    exact fresh run runMember (by simp only at same; omega)

/-- A deallocated allocation is no longer held and its run is gone. -/
theorem Held.release (held : Held session.live runs parked) {run : Block}
    (member : run ∈ runs)
    (injective : ∀ other ∈ runs, other.addr = run.addr → other = run) :
    Held (session.release (run.addr + 16)) (runs \ {run}) parked where
  covered := by
    intro allocation inLive
    obtain ⟨listed, different⟩ := List.mem_filter.mp inLive
    obtain ⟨other, otherMember, addrEq, room⟩ := held.covered allocation listed
    refine ⟨other, ⟨otherMember, ?_⟩, addrEq, room⟩
    rintro rfl
    simp [addrEq] at different
  unparked allocation inLive :=
    held.unparked allocation (List.mem_filter.mp inLive).1
  accounted := by
    rintro other ⟨otherMember, different⟩
    rcases held.accounted other otherMember with inParked |
      ⟨allocation, listed, same⟩
    · exact Or.inl inParked
    · refine Or.inr ⟨allocation, List.mem_filter.mpr ⟨listed, ?_⟩, same⟩
      have apart : other.addr ≠ run.addr := fun equal =>
        different (injective other otherMember equal)
      simp only [ne_eq, decide_not, Bool.not_eq_true', decide_eq_false_iff_not]
      omega
  nodup := held.nodup.sublist (List.filter_sublist.map _)

/-- A parked allocation is no longer held; its run stays allocated. -/
theorem Held.park (held : Held session.live runs parked) {payload : Nat} :
    Held (session.release payload) runs (payload :: parked) where
  covered allocation inLive :=
    held.covered allocation (List.mem_filter.mp inLive).1
  unparked := by
    intro allocation inLive inParked
    obtain ⟨listed, different⟩ := List.mem_filter.mp inLive
    rcases List.mem_cons.mp inParked with same | later
    · simp [same] at different
    · exact held.unparked allocation listed later
  accounted := by
    intro run member
    rcases held.accounted run member with inParked | ⟨allocation, listed, same⟩
    · exact Or.inl (List.mem_cons_of_mem _ inParked)
    · by_cases pushed : allocation.payload = payload
      · exact Or.inl (by rw [← same, pushed]; exact List.mem_cons_self)
      · exact Or.inr ⟨allocation,
          List.mem_filter.mpr ⟨listed, by simpa using pushed⟩, same⟩
  nodup := held.nodup.sublist (List.filter_sublist.map _)

theorem map_payload_report (session : Session) (payload reported : Nat) :
    (session.report payload reported).map Allocation.payload =
      session.live.map Allocation.payload := by
  unfold Session.report
  rw [List.map_map]
  refine List.map_congr_left fun allocation _ => ?_
  simp only [Function.comp_apply]
  split <;> rfl

/-- An expanded run has room for what is reported. -/
theorem Held.report (held : Held session.live runs parked) {run : Block}
    {granted : Nat} (member : run ∈ runs)
    (injective : ∀ other ∈ runs, other.addr = run.addr → other = run)
    (grows : run.size ≤ granted) (large : 16 ≤ granted) :
    Held (session.report (run.addr + 16) (granted - 16))
      (insert ⟨run.addr, granted, .used⟩ (runs \ {run})) parked where
  covered := by
    intro allocation inLive
    obtain ⟨before, listed, rfl⟩ := List.mem_map.mp inLive
    obtain ⟨other, otherMember, addrEq, requested, reported⟩ :=
      held.covered before listed
    by_cases same : before.payload = run.addr + 16
    · obtain rfl := injective other otherMember (by omega)
      rw [if_pos same]
      exact ⟨_, Or.inl rfl, same.symm, by simp only; omega, by simp only; omega⟩
    · rw [if_neg same]
      refine ⟨other, Or.inr ⟨otherMember, ?_⟩, addrEq, requested, reported⟩
      rintro rfl
      exact same addrEq.symm
  unparked := by
    intro allocation inLive
    obtain ⟨before, listed, rfl⟩ := List.mem_map.mp inLive
    have := held.unparked before listed
    split <;> exact this
  accounted := by
    have payloads : ∀ {p}, (∃ allocation ∈ session.live,
        allocation.payload = p) → ∃ allocation ∈ session.report (run.addr + 16)
          (granted - 16), allocation.payload = p := by
      rintro p ⟨allocation, listed, rfl⟩
      refine ⟨_, List.mem_map_of_mem listed, ?_⟩
      split <;> rfl
    rintro other (rfl | ⟨otherMember, _⟩)
    · exact (held.accounted run member).imp_right payloads
    · exact (held.accounted other otherMember).imp_right payloads
  nodup := by
    rw [map_payload_report]
    exact held.nodup

end Held

section Steps

variable {cfg : Config} {s t : State} {session : Session} {runs : Set Block}
  {parked : List Nat}

/-- The run of a held payload in a legal session. -/
theorem Held.run_spec {stacked : List Nat}
    (ok : RunnerOk cfg session.state runs stacked)
    (held : Held session.live runs parked) {payload : Nat}
    (holds : session.Holds payload) :
    ∃ run ∈ runs, run.addr + 16 = payload ∧ payload ∉ parked ∧
      48 ≤ run.size ∧ session.state.payloadBytes payload = run.size - 16 := by
  obtain ⟨run, member, rfl, notParked⟩ := held.run holds
  obtain ⟨blocks, heap, rfl⟩ := ok.heap
  have notFence : run.kind ≠ .fence := by rw [member.2]; decide
  refine ⟨run, member, rfl, notParked,
    (heap.layout.sizes run member.1 notFence).1, ?_⟩
  unfold State.payloadBytes
  rw [headerFromPayload_eq, Nat.add_sub_cancel, heap.runSize member.1 notFence]

/-- What a call does to a legal session: the runs kept and those allocated and
parked afterwards. -/
theorem perform_step (ok : RunnerOk cfg session.state runs parked)
    (held : Held session.live runs parked) {operation : Operation}
    (allowed : session.Allows operation) :
    ∃ kept runs' parked', RunnerStep cfg session.state
        (session.perform cfg operation).state kept runs' parked' ∧
      Held (session.perform cfg operation).live runs' parked' ∧
      ∀ run ∈ runs, run.addr + 16 ∉ parked →
        operation ≠ .deallocateBytes (run.addr + 16) →
        operation ≠ .remotePush (run.addr + 16) → run ∈ kept := by
  have injective : ∀ run ∈ runs, ∀ other ∈ runs, other.addr = run.addr →
      other = run := fun run member other otherMember same =>
    ok.eq_of_addr_eq otherMember member same
  cases operation with
  | allocateBytes os bytes alignment =>
      obtain ⟨drained, outcome⟩ := allocateBytes_outcome ok allowed
      have keeps : ∀ run ∈ runs, run.addr + 16 ∉ parked →
          run ∈ survivors drained runs parked := by
        intro run member notParked
        unfold survivors
        split
        · exact ⟨member, notParked⟩
        · exact member
      have drainedHeld := held.drain drained
      unfold Session.perform
      dsimp only
      generalize session.state.allocateBytes cfg os bytes alignment = result at *
      obtain ⟨u, result⟩ := result
      dsimp only at outcome
      cases outcome with
      | run nonnull covers fresh step =>
          refine ⟨_, _, _, step, ?_, fun run member notParked _ _ =>
            keeps run member notParked⟩
          dsimp only
          rw [if_neg (by omega)]
          exact drainedHeld.acquire fresh (survivors_parkedRuns ok) covers
      | null step =>
          exact ⟨_, _, _, step, drainedHeld, fun run member notParked _ _ =>
            keeps run member notParked⟩
      | throws step =>
          exact ⟨_, _, _, step, drainedHeld, fun run member notParked _ _ =>
            keeps run member notParked⟩
  | deallocateBytes payload =>
      obtain ⟨run, member, rfl, notParked, _⟩ := held.run_spec ok allowed
      refine ⟨_, _, _, deallocateBytes_step ok member notParked,
        held.release member (injective run member), ?_⟩
      rintro other otherMember _ notFreed _
      refine ⟨otherMember, ?_⟩
      rintro rfl
      exact notFreed rfl
  | expand payload minNewBytes =>
      obtain ⟨holds, word⟩ := allowed
      obtain ⟨run, member, rfl, notParked, large, _⟩ := held.run_spec ok holds
      obtain ⟨granted, grows, reported, step⟩ := expand_step ok member word
      refine ⟨_, _, _, step, ?_, fun other otherMember _ _ _ => otherMember⟩
      unfold Session.perform
      dsimp only
      rw [reported]
      exact held.report member (injective run member) grows (by omega)
  | remotePush payload =>
      obtain ⟨run, member, rfl, notParked, _⟩ := held.run_spec ok allowed
      refine ⟨_, _, _, remotePush_step ok member notParked, held.park, ?_⟩
      rintro other otherMember _ _ notPushed
      refine ⟨otherMember, ?_⟩
      rintro rfl
      exact notPushed rfl

theorem starts_ok (begins : Starts cfg session) :
    RunnerOk cfg session.state ∅ [] ∧ Held session.live ∅ [] := by
  cases begins with
  | eager word built => exact ⟨construct_ok word built, held_nil⟩
  | deferred word => exact ⟨constructLazy_ok word, held_nil⟩
  | external nonnull bounded built =>
      exact ⟨constructExternal_ok nonnull bounded built, held_nil⟩

theorem sessionOk_inductive (cfg : Config) :
    (sessions cfg).Inductive (SessionOk cfg) where
  start _ begins := ⟨∅, [], starts_ok begins⟩
  step := by
    rintro session _ ⟨runs, parked, ok, held⟩ (⟨operation, allowed⟩ |
      ⟨word, value, allocation, member, lower, upper⟩)
    · obtain ⟨_, runs', parked', step, held', _⟩ := perform_step ok held allowed
      exact ⟨runs', parked', step.ok, held'⟩
    · obtain ⟨run, runMember, addrEq, notParked, large, bytes⟩ :=
        held.run_spec ok ⟨allocation, member, rfl⟩
      rw [bytes, ← addrEq] at upper
      rw [← addrEq] at lower notParked
      have written := write_step ok runMember notParked value lower
        (by unfold Block.stop; omega)
      exact ⟨runs, parked, written.ok, held⟩

end Steps

end Runner

end Allocazam
