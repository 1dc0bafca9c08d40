import Allocazam.RunnerSession

/-!
# Safety of the held allocations

In every session the held payloads are disjoint, inside their chunks, aligned
and large enough, and no operation touches a payload it is not called to
release.
-/

namespace Allocazam

namespace Runner

def Session.stop (session : Session) (allocation : Allocation) : Nat :=
  allocation.payload + session.state.payloadBytes allocation.payload

def Operation.Releases (operation : Operation) (payload : Nat) : Prop :=
  operation = .deallocateBytes payload ∨ operation = .remotePush payload

variable {cfg : Config} {session : Session} {runs : Set Block}
  {parked : List Nat}

section SessionOk

variable (ok : RunnerOk cfg session.state runs parked)
  (held : Held session.live runs parked)

include ok held

theorem payloads_apart {one two : Allocation} (oneMember : one ∈ session.live)
    (twoMember : two ∈ session.live) (different : one ≠ two) :
    session.stop one ≤ two.payload ∨ session.stop two ≤ one.payload := by
  obtain ⟨run, runMember, runAddr, _, runLarge, runBytes⟩ :=
    held.run_spec ok ⟨one, oneMember, rfl⟩
  obtain ⟨other, otherMember, otherAddr, _, otherLarge, otherBytes⟩ :=
    held.run_spec ok ⟨two, twoMember, rfl⟩
  obtain ⟨blocks, heap, rfl⟩ := ok.heap
  have apartRuns : run ≠ other := by
    rintro rfl
    exact different (eq_of_payload_eq held.nodup oneMember twoMember
      (runAddr.symm.trans otherAddr))
  have apart := heap.layout.apart runMember.1 otherMember.1 apartRuns
  unfold Block.Apart Block.stop at apart
  unfold Session.stop
  rw [runBytes, otherBytes]
  omega

theorem payload_in_chunk {allocation : Allocation}
    (member : allocation ∈ session.live) :
    ∃ chunk ∈ session.state.chunks, chunk.first ≤ allocation.payload ∧
      session.stop allocation ≤ chunk.first + chunk.bytes - epilogueSize := by
  obtain ⟨run, runMember, runAddr, _, runLarge, runBytes⟩ :=
    held.run_spec ok ⟨allocation, member, rfl⟩
  obtain ⟨blocks, heap, rfl⟩ := ok.heap
  obtain ⟨chunk, chunkMember, lower, _, upper⟩ :=
    heap.layout.mem_chunk runMember.1
  have inside := upper (by rw [runMember.2]; decide)
  refine ⟨chunk, chunkMember, by omega, ?_⟩
  unfold Session.stop
  unfold Block.stop at inside
  rw [runBytes, epilogueSize_eq]
  omega

theorem payload_aligned {allocation : Allocation}
    (member : allocation ∈ session.live) : 16 ∣ allocation.payload := by
  obtain ⟨run, runMember, runAddr, _⟩ :=
    held.run_spec ok ⟨allocation, member, rfl⟩
  obtain ⟨blocks, heap, rfl⟩ := ok.heap
  have aligned := heap.layout.addr_dvd runMember.1
  omega

theorem payload_covers {allocation : Allocation}
    (member : allocation ∈ session.live) :
    allocation.requested ≤ session.state.payloadBytes allocation.payload ∧
      allocation.reported ≤ session.state.payloadBytes allocation.payload := by
  obtain ⟨run, runMember, runAddr, _, _, runBytes⟩ :=
    held.run_spec ok ⟨allocation, member, rfl⟩
  obtain ⟨other, otherMember, otherAddr, requested, reported⟩ :=
    held.covered allocation member
  obtain rfl := ok.eq_of_addr_eq runMember otherMember (by omega)
  rw [runBytes]
  omega

/-- A call leaves the owner word and the payload of every allocation it does not
release as they are. -/
theorem perform_keeps {operation : Operation}
    (allowed : session.Allows operation) {allocation : Allocation}
    (member : allocation ∈ session.live)
    (spared : ¬ operation.Releases allocation.payload) {word : Nat}
    (lower : allocation.payload - 8 ≤ word)
    (upper : word < session.stop allocation) :
    (session.perform cfg operation).state.mem word =
      session.state.mem word := by
  obtain ⟨run, runMember, runAddr, notParked, large, runBytes⟩ :=
    held.run_spec ok ⟨allocation, member, rfl⟩
  obtain ⟨kept, runs', parked', step, _, keeps⟩ := perform_step ok held allowed
  rw [← runAddr] at spared notParked
  unfold Session.stop at upper
  refine step.keeps run (keeps run runMember notParked
    (fun freed => spared (Or.inl freed)) fun pushed => spared (Or.inr pushed))
    word (by omega) ?_
  unfold Block.stop
  omega

end SessionOk

/-- The held payloads of a runner are safe in every session. -/
theorem allocations_safe (reachable : (sessions cfg).Reachable session) :
    session.live.Pairwise (fun one two =>
      session.stop one ≤ two.payload ∨ session.stop two ≤ one.payload) ∧
    (∀ allocation ∈ session.live,
      (∃ chunk ∈ session.state.chunks, chunk.first ≤ allocation.payload ∧
        session.stop allocation ≤ chunk.first + chunk.bytes - epilogueSize) ∧
      16 ∣ allocation.payload ∧
      allocation.requested ≤ session.state.payloadBytes allocation.payload ∧
      allocation.reported ≤ session.state.payloadBytes allocation.payload) ∧
    ∀ operation, session.Allows operation → ∀ allocation ∈ session.live,
      ¬ operation.Releases allocation.payload → ∀ word,
        allocation.payload - 8 ≤ word → word < session.stop allocation →
          (session.perform cfg operation).state.mem word =
            session.state.mem word := by
  obtain ⟨runs, parked, ok, held⟩ := (sessionOk_inductive cfg).reachable reachable
  have distinct : session.live.Pairwise (· ≠ ·) :=
    (List.pairwise_map.mp held.nodup).imp fun different same =>
      different (congrArg Allocation.payload same)
  refine ⟨distinct.imp_of_mem fun oneMember twoMember different =>
      payloads_apart ok held oneMember twoMember different,
    fun allocation member => ⟨payload_in_chunk ok held member,
      payload_aligned ok held member, payload_covers ok held member⟩, ?_⟩
  intro operation allowed allocation member spared word lower upper
  exact perform_keeps ok held allowed member spared lower upper

/-- An operating system that refuses every request. -/
def refusing : Os where
  grant _ _ := none
  sound := by simp

/-- What an OS grants whose memory is the MiB from `base` on. -/
def offered (base : Nat) (chunks : List ChunkNode) (bytes : Nat) : Option Nat :=
  if bytes ≤ 2 ^ 20 ∧ ∀ chunk ∈ chunks,
      base + bytes ≤ chunk.first ∨ chunk.first + chunk.bytes ≤ base then some base
  else none

theorem offered_sound {base found bytes : Nat} {chunks : List ChunkNode}
    (placed : 0 < base ∧ 16 ∣ base ∧ base + 2 ^ 20 ≤ 2 ^ 64)
    (granted : offered base chunks bytes = some found) :
    0 < found ∧ 16 ∣ found ∧ found + bytes ≤ 2 ^ 64 ∧
      ∀ chunk ∈ chunks, found + bytes ≤ chunk.first ∨ chunk.first + chunk.bytes ≤ found := by
  unfold offered at granted
  split at granted
  · rename_i fits
    obtain rfl := Option.some.inj granted
    exact ⟨placed.1, placed.2.1, by omega, fits.2⟩
  · cases granted

theorem low_placed : 0 < 4096 ∧ 16 ∣ 4096 ∧ 4096 + 2 ^ 20 ≤ 2 ^ 64 := by decide

theorem high_placed : 0 < 2 ^ 30 ∧ 16 ∣ 2 ^ 30 ∧ 2 ^ 30 + 2 ^ 20 ≤ 2 ^ 64 := by decide

def lowOs : Os where
  grant := offered 4096
  sound _ _ _ := offered_sound low_placed

def highOs : Os where
  grant := offered (2 ^ 30)
  sound _ _ _ := offered_sound high_placed

theorem far_placed : 0 < 2 ^ 40 ∧ 16 ∣ 2 ^ 40 ∧ 2 ^ 40 + 2 ^ 20 ≤ 2 ^ 64 := by decide

def farOs : Os where
  grant := offered (2 ^ 40)
  sound _ _ _ := offered_sound far_placed

def sampleConfig : Config where
  canGrow := false
  collectStats := true
  huge := false
  pageSize := 4096
  self := 64
  pageAligned := by decide
  pageBound := by decide
  selfNonnull := by decide

def sampleState : State :=
  match State.constructExternal (fun _ => 0) 4096 1024 with
  | .ok s => s
  | .error _ => State.blank (fun _ => 0) 0 0

theorem holds_of_payloads {session : Session} {payloads : List Nat} {payload : Nat}
    (live : session.live.map Allocation.payload = payloads) (listed : payload ∈ payloads) :
    session.Holds payload := by
  rw [← live] at listed
  exact List.mem_map.mp listed

/-- Two allocations, the second expanded in place. -/
def sampleSession : Session :=
  (((Session.mk sampleState []).perform sampleConfig
    (.allocateBytes refusing 24 16)).perform sampleConfig
      (.allocateBytes refusing 40 8)).perform sampleConfig (.expand 4160 200)

theorem sampleSession_reachable :
    (sessions sampleConfig).Reachable sampleSession := by
  have begins : Starts sampleConfig ⟨sampleState, []⟩ :=
    .external (by decide : 0 < 4096) (by decide : 4096 + 1024 ≤ 2 ^ 64) rfl
  have first := reachable_call (.start begins)
    (.allocateBytes refusing 24 16) (by decide : 24 < 2 ^ 64)
  have second := reachable_call first
    (.allocateBytes refusing 40 8) (by decide : 40 < 2 ^ 64)
  exact reachable_call second (.expand 4160 200)
    ⟨⟨⟨4160, 40, 0⟩, by decide +kernel, rfl⟩, by decide⟩

theorem sampleSession_safe :
    sampleSession.live = [⟨4160, 40, 208⟩, ⟨4112, 24, 0⟩] ∧
      sampleSession.live.Pairwise (fun one two =>
        sampleSession.stop one ≤ two.payload ∨
          sampleSession.stop two ≤ one.payload) :=
  ⟨rfl, (allocations_safe sampleSession_reachable).1⟩

end Runner

end Allocazam
