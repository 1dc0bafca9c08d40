import Allocazam.RunnerInterleaving
import Allocazam.RunnerLocality

/-!
# Remote parking is a delayed free

The invariant of the interleavings: which payloads are in flight, on the stack
or in the batch the owner walks, how the journal accounts for them, and that
the runner differs from one whose payloads were freed directly in the payloads
of other runs only.
-/

namespace Allocazam

namespace Runner

variable {cfg : Config} {s t : State} {w w' : World} {runs runs' : Set Block}
  {pending : List Nat}

section Journal

variable (journal : Journal)

theorem takenBy_pushed (payload epoch drain : Nat) :
    { journal with pushed := ⟨payload, epoch⟩ :: journal.pushed }.takenBy drain =
      if epoch + 1 = drain then payload :: journal.takenBy drain
      else journal.takenBy drain := by
  unfold Journal.takenBy
  by_cases same : epoch + 1 = drain <;> simp [same]

theorem replayedIn_replayed (payload drain drain' : Nat) :
    { journal with replayed := ⟨payload, drain⟩ :: journal.replayed }.replayedIn
        drain' =
      if drain = drain' then journal.replayedIn drain' ++ [payload]
      else journal.replayedIn drain' := by
  unfold Journal.replayedIn
  by_cases same : drain = drain' <;> simp [same]

variable {journal}

theorem takenBy_eq_nil {drain : Nat}
    (epochs : ∀ parking ∈ journal.pushed, parking.epoch + 1 < drain) :
    journal.takenBy drain = [] := by
  unfold Journal.takenBy
  rw [List.map_eq_nil_iff, List.filter_eq_nil_iff]
  intro parking listed
  have early := epochs parking listed
  simp only [decide_eq_true_eq]
  omega

theorem replayedIn_eq_nil {drain : Nat}
    (drains : ∀ replay ∈ journal.replayed, replay.drain < drain) :
    journal.replayedIn drain = [] := by
  unfold Journal.replayedIn
  rw [List.reverse_eq_nil_iff, List.map_eq_nil_iff, List.filter_eq_nil_iff]
  intro replay listed
  have early := drains replay listed
  simp only [decide_eq_true_eq]
  omega

/-- The drains before the last one have replayed what they took; the last one
still has `pending` to replay. -/
structure Records (journal : Journal) (pending : List Nat) : Prop where
  epochs : ∀ parking ∈ journal.pushed, parking.epoch ≤ journal.exchanges
  drains : ∀ replay ∈ journal.replayed, replay.drain ≤ journal.exchanges
  nodup : ∀ drain, (journal.takenBy drain).Nodup
  past : ∀ drain < journal.exchanges,
    journal.replayedIn drain = journal.takenBy drain
  current : journal.takenBy journal.exchanges =
    journal.replayedIn journal.exchanges ++ pending

namespace Records

theorem exchange (records : Records journal []) (s : State) :
    Records { journal with
      exchanges := journal.exchanges + 1
      atExchange := s } journal.stack where
  epochs parking listed := (records.epochs parking listed).trans (by simp)
  drains replay listed := (records.drains replay listed).trans (by simp)
  nodup := records.nodup
  past drain earlier := by
    rcases Nat.lt_succ_iff_lt_or_eq.mp earlier with before | rfl
    · exact records.past drain before
    · have complete := records.current
      rw [List.append_nil] at complete
      exact complete.symm
  current := by
    have fresh : journal.replayedIn (journal.exchanges + 1) = [] :=
      replayedIn_eq_nil fun replay listed =>
        Nat.lt_succ_of_le (records.drains replay listed)
    show journal.takenBy (journal.exchanges + 1) =
      journal.replayedIn (journal.exchanges + 1) ++ journal.stack
    rw [fresh]
    rfl

theorem replay {payload : Nat} (records : Records journal (payload :: pending)) :
    Records { journal with
      replayed := ⟨payload, journal.exchanges⟩ :: journal.replayed }
      pending where
  epochs := records.epochs
  drains replay listed := by
    rcases List.mem_cons.mp listed with rfl | later
    · exact le_rfl
    · exact records.drains replay later
  nodup := records.nodup
  past drain earlier := by
    rw [replayedIn_replayed, if_neg (by simp only at earlier; omega)]
    exact records.past drain earlier
  current := by
    rw [replayedIn_replayed, if_pos rfl, List.append_assoc]
    exact records.current

theorem publish {payload : Nat} (records : Records journal pending)
    (fresh : payload ∉ journal.stack) :
    Records { journal with
      pushed := ⟨payload, journal.exchanges⟩ :: journal.pushed } pending where
  epochs parking listed := by
    rcases List.mem_cons.mp listed with rfl | later
    · exact le_rfl
    · exact records.epochs parking later
  drains := records.drains
  nodup drain := by
    rw [takenBy_pushed]
    split
    · rename_i same
      refine List.nodup_cons.mpr ⟨?_, records.nodup drain⟩
      rw [← same]
      exact fresh
    · exact records.nodup drain
  past drain earlier := by
    rw [takenBy_pushed, if_neg (by simp only at earlier; omega)]
    exact records.past drain earlier
  current := by
    rw [takenBy_pushed, if_neg (by simp only; omega)]
    exact records.current

end Records

end Journal

def World.inFlight (w : World) : List Nat :=
  w.pushes.map Push.payload

/-- The payloads given up and not replayed, when `pending` is left of the
batch. -/
def World.waiting (w : World) (pending : List Nat) : List Nat :=
  w.inFlight ++ (pending ++ w.journal.stack)

def OwnerPhase.Draining : OwnerPhase → Prop
  | .walk _ _ => True
  | .replay _ _ _ => True
  | _ => False

/-- The owner's pointers lead through what is left of the batch. -/
def Batch (mem : Nat → Nat) (pending : List Nat) : OwnerPhase → Prop
  | .walk _ head => IsStack mem head pending
  | .replay _ head next =>
      ∃ rest, pending = head :: rest ∧ IsStack mem next rest
  | _ => pending = []

/-- The call in progress asks for a size that covers its bytes. -/
def OwnerPhase.Covers : OwnerPhase → Prop
  | .idle => True
  | .exchange call => Normalized call.needed ∧ call.bytes + 16 ≤ call.needed
  | .walk call _ => Normalized call.needed ∧ call.bytes + 16 ≤ call.needed
  | .replay call _ _ => Normalized call.needed ∧ call.bytes + 16 ≤ call.needed
  | .resume call => Normalized call.needed ∧ call.bytes + 16 ≤ call.needed

def payloadWords (runs : Set Block) : Set Nat :=
  {word | ∃ run ∈ runs, run.addr + 16 ≤ word ∧ word < run.stop}

/-- The runner as it would be had the payloads replayed since the last exchange
been freed directly. -/
def World.direct (cfg : Config) (w : World) : State :=
  w.journal.atExchange.deallocateAll cfg
    (w.journal.replayedIn w.journal.exchanges)

structure WorldOk (cfg : Config) (w : World) (runs : Set Block)
    (pending : List Nat) : Prop where
  ok : RunnerOk cfg w.state runs w.journal.stack
  held : Held w.live runs (w.waiting pending)
  nodup : (w.waiting pending).Nodup
  listed : ∀ p ∈ w.waiting pending, ∃ run ∈ runs, run.addr + 16 = p
  batch : Batch w.state.mem pending w.owner
  covers : w.owner.Covers
  links : ∀ push ∈ w.pushes, ∀ head, push.phase = .linked head →
    w.state.mem push.payload = head
  records : Records w.journal pending
  shadow : w.owner.Draining →
    Agree (payloadWords (withoutPayloads runs pending)) w.state (w.direct cfg)

/-- What happens to a payload that was given up: it is still waiting and its run
allocated, or it was just replayed. -/
def Stays (w w' : World) (runs runs' : Set Block) (waiting waiting' : List Nat) :
    Prop :=
  ∀ run ∈ runs, run.addr + 16 ∈ waiting →
    run ∈ runs' ∧ run.addr + 16 ∈ waiting' ∨
      w'.journal.replayed =
        ⟨run.addr + 16, w.journal.exchanges⟩ :: w.journal.replayed

theorem Held.congr {live : List Allocation} {parked parked' : List Nat}
    (held : Held live runs parked) (same : ∀ p, p ∈ parked' ↔ p ∈ parked) :
    Held live runs parked' where
  covered := held.covered
  unparked allocation member := by
    rw [same]
    exact held.unparked allocation member
  accounted run member := by
    rw [same]
    exact held.accounted run member
  nodup := held.nodup

theorem Held.discharge {live : List Allocation} {parked parked' : List Nat}
    (held : Held live runs parked) {run : Block}
    (inParked : run.addr + 16 ∈ parked)
    (same : ∀ p, p ∈ parked' ↔ p ∈ parked ∧ p ≠ run.addr + 16)
    (injective : ∀ other ∈ runs, other.addr = run.addr → other = run) :
    Held live (runs \ {run}) parked' where
  covered allocation member := by
    obtain ⟨other, otherMember, addrEq, room⟩ := held.covered allocation member
    refine ⟨other, ⟨otherMember, ?_⟩, addrEq, room⟩
    rintro rfl
    rw [addrEq] at inParked
    exact held.unparked allocation member inParked
  unparked allocation member := by
    rw [same]
    exact fun both => held.unparked allocation member both.1
  accounted := by
    rintro other ⟨otherMember, different⟩
    rw [same]
    rcases held.accounted other otherMember with waits | holds
    · refine Or.inl ⟨waits, fun equal => different ?_⟩
      exact injective other otherMember (by omega)
    · exact Or.inr holds
  nodup := held.nodup

theorem RunnerOk.chain_kept {parked nodes : List Nat} {head : Nat}
    {kept : Set Block} (ok : RunnerOk cfg s runs parked)
    (effect : Effect s t kept) (chain : IsStack s.mem head nodes)
    (inside : ∀ p ∈ nodes, ∃ run ∈ runs, run.addr + 16 = p ∧ run ∈ kept) :
    IsStack t.mem head nodes := by
  apply chain.congr
  intro p listed
  obtain ⟨run, member, rfl, inKept⟩ := inside p listed
  have large := ok.large member
  exact effect.keeps run inKept _ (by omega) (by unfold Block.stop; omega)

theorem Batch.kept {parked : List Nat} {owner : OwnerPhase} {kept : Set Block}
    (ok : RunnerOk cfg s runs parked) (effect : Effect s t kept)
    (batch : Batch s.mem pending owner)
    (inside : ∀ p ∈ pending, ∃ run ∈ runs, run.addr + 16 = p ∧ run ∈ kept) :
    Batch t.mem pending owner := by
  cases owner with
  | walk call head => exact ok.chain_kept effect batch inside
  | replay call head next =>
      obtain ⟨rest, rfl, chain⟩ := batch
      exact ⟨rest, rfl, ok.chain_kept effect chain fun p listed =>
        inside p (List.mem_cons_of_mem _ listed)⟩
  | idle => exact batch
  | exchange call => exact batch
  | resume call => exact batch

theorem searchFirst_step {parked : List Nat} {bytes alignment : Nat}
    (ok : RunnerOk cfg s runs parked) (word : bytes < 2 ^ 64) :
    RunnerStep cfg s (s.searchFirst cfg bytes alignment).1 runs runs parked ∧
      ∀ needed h scanCount, (s.searchFirst cfg bytes alignment).2 =
          some (needed, h, scanCount) →
        Normalized needed ∧ bytes + 16 ≤ needed ∧
          Candidate cfg (s.searchFirst cfg bytes alignment).1 runs needed h := by
  unfold State.searchFirst
  by_cases overAligned : alignment > runAlignment
  · simp only [if_pos overAligned]
    exact ⟨ok.same rfl rfl rfl rfl, by simp⟩
  simp only [if_neg overAligned]
  generalize requestEq : (if bytes = 0 then 1 else bytes) = request
  have requestBound : request < 2 ^ 64 ∧ bytes ≤ request := by
    rw [← requestEq]
    split <;> omega
  have recorded := ok.same (t := s.record cfg fun stats =>
    { stats with
      allocateCalls := wrapAdd stats.allocateCalls 1
      requestedBytes := wrapAdd stats.requestedBytes request })
    (by simp) (by simp) (by simp) (by simp)
  generalize s.record cfg (fun stats =>
    { stats with
      allocateCalls := wrapAdd stats.allocateCalls 1
      requestedBytes := wrapAdd stats.requestedBytes request }) = u at *
  cases sized : normalizedRunBytesForPayload request with
  | none =>
      have failed := recorded.ok.same (t := u.record cfg fun stats =>
        { stats with allocateFail := wrapAdd stats.allocateFail 1 })
        (by simp) (by simp) (by simp) (by simp)
      exact ⟨recorded.trans failed subset_rfl, by simp⟩
  | some needed =>
      obtain ⟨aligned, large, covers, needBound⟩ :=
        normalizedRunBytesForPayload_spec requestBound.1 sized
      have normalized : Normalized needed := ⟨aligned, large, needBound⟩
      obtain ⟨searched, candidate⟩ :=
        @findFit_step cfg u runs parked needed 0 recorded.ok normalized
      refine ⟨recorded.trans searched subset_rfl, fun needed' h count same => ?_⟩
      simp only [Option.some.injEq, Prod.mk.injEq] at same
      obtain ⟨rfl, rfl, rfl⟩ := same
      exact ⟨normalized, by omega, candidate⟩

namespace WorldOk

theorem links_kept (inv : WorldOk cfg w runs pending) {kept : Set Block}
    (effect : Effect w.state t kept)
    (keeps : ∀ run ∈ runs, run.addr + 16 ∈ w.inFlight → run ∈ kept) :
    ∀ push ∈ w.pushes, ∀ head, push.phase = .linked head →
      t.mem push.payload = head := by
  intro push member head linked
  have inFlight : push.payload ∈ w.inFlight := List.mem_map_of_mem member
  obtain ⟨run, runMember, same⟩ :=
    inv.listed push.payload (List.mem_append_left _ inFlight)
  rw [← same] at inFlight
  have large := inv.ok.large runMember
  have unchanged := effect.keeps run (keeps run runMember inFlight)
    (run.addr + 16) (by omega) (by unfold Block.stop; omega)
  rw [same] at unchanged
  rw [unchanged]
  exact inv.links push member head linked

/-- Replacing the runner and the held allocations when no batch is walked. -/
theorem advance (inv : WorldOk cfg w runs []) {kept : Set Block}
    {live' : List Allocation} (owner' : OwnerPhase)
    (step : RunnerStep cfg w.state t kept runs' w.journal.stack)
    (keeps : ∀ run ∈ runs, run.addr + 16 ∈ w.waiting [] →
      run ∈ kept ∧ ∃ run' ∈ runs', run'.addr = run.addr)
    (held : Held live' runs' (w.waiting []))
    (quiet : ¬ owner'.Draining) (covers : owner'.Covers) :
    WorldOk cfg ⟨⟨t, live'⟩, w.pushes, owner', w.journal⟩ runs' [] where
  ok := step.ok
  held := held
  nodup := inv.nodup
  listed p waits := by
    obtain ⟨run, member, rfl⟩ := inv.listed p waits
    obtain ⟨_, run', member', same⟩ := keeps run member waits
    exact ⟨run', member', by rw [same]⟩
  batch := by
    cases owner' with
    | walk call head => exact absurd trivial quiet
    | replay call head next => exact absurd trivial quiet
    | _ => rfl
  covers := covers
  links := inv.links_kept step.toEffect fun run member inFlight =>
    (keeps run member (List.mem_append_left _ inFlight)).1
  records := inv.records
  shadow draining := absurd draining quiet

theorem settle (inv : WorldOk cfg w runs []) {os : Os} {call : Call}
    {found : State × Nat × Nat}
    (reached : RunnerStep cfg w.state found.1 runs runs w.journal.stack)
    (candidate : Candidate cfg found.1 runs call.needed found.2.1)
    (normalized : Normalized call.needed)
    (covers : call.bytes + 16 ≤ call.needed) :
    ∃ runs', WorldOk cfg (w.settle cfg os call found) runs' [] ∧ runs ⊆ runs' ∧
      (w.settle cfg os call found).waiting [] = w.waiting [] := by
  have outcome : Outcome cfg w.state
      (State.resumeAllocate cfg os call.needed found).1 runs w.journal.stack
      call.bytes (State.resumeAllocate cfg os call.needed found).2 :=
    Outcome.after reached (resumeAllocate_outcome reached.ok candidate normalized
      covers)
  unfold World.settle
  generalize State.resumeAllocate cfg os call.needed found = result at *
  obtain ⟨u, result⟩ := result
  dsimp only at outcome
  cases outcome with
  | run nonnull covers fresh step =>
      refine ⟨_, inv.advance .idle step (fun run member _ =>
        ⟨member, run, Or.inr member, rfl⟩) ?_ id trivial,
        Set.subset_insert _ _, rfl⟩
      rw [if_neg (by omega)]
      exact inv.held.acquire fresh inv.listed covers
  | null step =>
      exact ⟨_, inv.advance .idle step (fun run member _ =>
        ⟨member, run, member, rfl⟩) inv.held id trivial, subset_rfl, rfl⟩
  | throws step =>
      exact ⟨_, inv.advance .idle step (fun run member _ =>
        ⟨member, run, member, rfl⟩) inv.held id trivial, subset_rfl, rfl⟩

theorem pending_nil (inv : WorldOk cfg w runs pending)
    (quiet : ¬ w.owner.Draining) : pending = [] := by
  have batch := inv.batch
  generalize w.owner = owner at batch quiet
  cases owner with
  | walk call head => exact absurd trivial quiet
  | replay call head next => exact absurd trivial quiet
  | _ => exact batch

theorem search {bytes alignment : Nat} (os : Os)
    (inv : WorldOk cfg w runs []) (word : bytes < 2 ^ 64)
    (idle : w.owner = .idle) :
    ∃ runs', WorldOk cfg (w.search cfg os bytes alignment) runs' [] ∧
      runs ⊆ runs' ∧
      (w.search cfg os bytes alignment).waiting [] = w.waiting [] := by
  obtain ⟨searched, outcome⟩ :=
    @searchFirst_step cfg w.state runs _ bytes alignment inv.ok word
  unfold World.search
  generalize w.state.searchFirst cfg bytes alignment = result at *
  obtain ⟨u, _ | ⟨needed, h, scanCount⟩⟩ := result
  · have kept := inv.advance .idle searched (fun run member _ =>
      ⟨member, run, member, rfl⟩) inv.held id trivial
    dsimp only at kept ⊢
    rw [← idle] at kept
    exact ⟨runs, kept, subset_rfl, rfl⟩
  · obtain ⟨normalized, covers, candidate⟩ := outcome needed h scanCount rfl
    dsimp only at candidate ⊢
    by_cases missing : h = 0
    · rw [if_pos missing]
      have kept := inv.advance (.exchange ⟨bytes, needed, scanCount⟩) searched
        (fun run member _ => ⟨member, run, member, rfl⟩) inv.held id
        ⟨normalized, covers⟩
      exact ⟨runs, kept, subset_rfl, rfl⟩
    · rw [if_neg missing]
      exact inv.settle searched candidate normalized covers

theorem call {operation : Operation} (inv : WorldOk cfg w runs [])
    (idle : w.owner = .idle)
    (direct : (∃ payload, operation = .deallocateBytes payload) ∨
      ∃ payload minNewBytes, operation = .expand payload minNewBytes)
    (allowed : w.Allows operation) :
    ∃ runs', WorldOk cfg { w with toSession := w.perform cfg operation } runs'
        [] ∧
      ∀ run ∈ runs, run.addr + 16 ∈ w.waiting [] → run ∈ runs' := by
  have injective : ∀ run ∈ runs, ∀ other ∈ runs, other.addr = run.addr →
      other = run := fun run member other otherMember same =>
    inv.ok.eq_of_addr_eq otherMember member same
  have quiet : ¬ w.owner.Draining := by rw [idle]; exact id
  have covers : w.owner.Covers := by rw [idle]; trivial
  rcases direct with ⟨payload, rfl⟩ | ⟨payload, minNewBytes, rfl⟩
  · obtain ⟨run, member, rfl, notWaiting⟩ := inv.held.run allowed
    have step := deallocateBytes_step inv.ok member fun onStack =>
      notWaiting (by simp [World.waiting, onStack])
    have others : ∀ other ∈ runs, other.addr + 16 ∈ w.waiting [] →
        other ∈ runs \ {run} := by
      rintro other otherMember waits
      refine ⟨otherMember, ?_⟩
      rintro rfl
      exact notWaiting waits
    exact ⟨_, inv.advance _ step (fun other otherMember waits =>
      ⟨others other otherMember waits, other, others other otherMember waits,
        rfl⟩) (inv.held.release member (injective run member)) quiet covers,
      others⟩
  · obtain ⟨holds, word⟩ := allowed
    obtain ⟨run, member, rfl, notWaiting⟩ := inv.held.run holds
    obtain ⟨granted, grows, reported, step⟩ := expand_step inv.ok member word
    have others : ∀ other ∈ runs, other.addr + 16 ∈ w.waiting [] →
        other ∈ insert ⟨run.addr, granted, .used⟩ (runs \ {run}) := by
      rintro other otherMember waits
      refine Or.inr ⟨otherMember, ?_⟩
      rintro rfl
      exact notWaiting waits
    have large := inv.ok.large member
    have held : Held (w.perform cfg (.expand (run.addr + 16) minNewBytes)).live
        (insert ⟨run.addr, granted, .used⟩ (runs \ {run})) (w.waiting []) := by
      unfold Session.perform
      dsimp only
      rw [reported]
      exact inv.held.report member (injective run member) grows (by omega)
    exact ⟨_, inv.advance _ step (fun other otherMember waits =>
      ⟨otherMember, other, others other otherMember waits, rfl⟩) held quiet covers,
      others⟩

/-- The exchange hands the whole stack over to the walk. -/
theorem exchange {call : Call} (inv : WorldOk cfg w runs [])
    (phase : w.owner = .exchange call) :
    WorldOk cfg (w.exchange call) runs w.journal.stack := by
  have later : (w.exchange call).journal.stack = [] :=
    takenBy_eq_nil fun parking listed =>
      Nat.lt_succ_of_le (Nat.succ_le_succ (inv.records.epochs parking listed))
  have waiting : (w.exchange call).waiting w.journal.stack = w.waiting [] := by
    unfold World.waiting
    rw [later, List.append_nil]
    rfl
  have covers := inv.covers
  rw [phase] at covers
  have owner : (w.exchange call).owner = if w.state.remoteHead = 0 then
      .resume call else .walk call w.state.remoteHead := rfl
  exact {
    ok := by
      rw [later]
      exact {
        heap := by
          obtain ⟨blocks, heap, used⟩ := inv.ok.heap
          exact ⟨blocks, heap.congr rfl rfl rfl rfl, used⟩
        stack := rfl
        parkedRuns := by simp
        growth := inv.ok.growth
        deferred := inv.ok.deferred }
    held := by
      rw [waiting]
      exact inv.held
    nodup := by
      rw [waiting]
      exact inv.nodup
    listed := by
      rw [waiting]
      exact inv.listed
    batch := by
      rw [owner]
      split
      · rename_i empty
        exact inv.ok.stack.eq_nil_iff.mpr empty
      · exact inv.ok.stack
    covers := by
      rw [owner]
      split <;> exact covers
    links := inv.links
    records := inv.records.exchange _
    shadow := by
      intro _
      have none : (w.exchange call).journal.replayedIn
          (w.exchange call).journal.exchanges = [] :=
        replayedIn_eq_nil fun replay listed =>
          Nat.lt_succ_of_le (inv.records.drains replay listed)
      unfold World.direct
      rw [none]
      exact Agree.refl }

theorem readLink {call : Call} {head : Nat} (inv : WorldOk cfg w runs pending)
    (phase : w.owner = .walk call head) (more : head ≠ 0) :
    WorldOk cfg (w.readLink call head) runs pending := by
  have batch := inv.batch
  have covers := inv.covers
  have shadow := inv.shadow
  rw [phase] at batch covers shadow
  exact {
    inv with
    batch := by
      cases pending with
      | nil => exact absurd batch more
      | cons first rest =>
          obtain ⟨rfl, _, chain⟩ := batch
          exact ⟨rest, rfl, chain⟩
    covers := covers
    shadow := fun _ => shadow trivial }

theorem replay {call : Call} {head next : Nat}
    (inv : WorldOk cfg w runs pending)
    (phase : w.owner = .replay call head next) :
    ∃ run rest, pending = head :: rest ∧ run.addr + 16 = head ∧ run ∈ runs ∧
      WorldOk cfg (w.replay cfg call head next) (runs \ {run}) rest := by
  have batch := inv.batch
  have covers := inv.covers
  have shadow := inv.shadow
  rw [phase] at batch covers shadow
  obtain ⟨rest, rfl, chain⟩ := batch
  have waits : head ∈ w.waiting (head :: rest) := by simp [World.waiting]
  obtain ⟨run, member, rfl⟩ := inv.listed head waits
  refine ⟨run, rest, rfl, rfl, member, ?_⟩
  have nodup := inv.nodup
  have split : w.waiting ((run.addr + 16) :: rest) =
      w.inFlight ++ (run.addr + 16) :: (rest ++ w.journal.stack) := rfl
  have waiting : (w.replay cfg call (run.addr + 16) next).waiting rest =
      w.inFlight ++ (rest ++ w.journal.stack) := rfl
  rw [split] at nodup
  obtain ⟨fresh, others⟩ := List.nodup_middle.mp nodup |> List.nodup_cons.mp
  have notStacked : run.addr + 16 ∉ w.journal.stack := fun onStack =>
    fresh (by simp [onStack])
  have injective : ∀ other ∈ runs, other.addr = run.addr → other = run :=
    fun other otherMember same => inv.ok.eq_of_addr_eq otherMember member same
  have step := deallocateBytes_step inv.ok member notStacked
  have remaining : ∀ p ∈ w.inFlight ++ (rest ++ w.journal.stack),
      ∃ other ∈ runs \ {run}, other.addr + 16 = p := by
    intro p listed
    have earlier : p ∈ w.waiting ((run.addr + 16) :: rest) := by
      rw [split]
      simp only [List.mem_append, List.mem_cons] at listed ⊢
      tauto
    obtain ⟨other, otherMember, rfl⟩ := inv.listed p earlier
    refine ⟨other, ⟨otherMember, ?_⟩, rfl⟩
    rintro rfl
    exact fresh listed
  exact {
    ok := step.ok
    held := by
      rw [waiting]
      refine inv.held.discharge waits (fun p => ?_) injective
      rw [split]
      simp only [List.mem_append, List.mem_cons] at fresh ⊢
      constructor
      · intro listed
        refine ⟨by tauto, ?_⟩
        rintro rfl
        exact fresh listed
      · tauto
    nodup := by
      rw [waiting]
      exact others
    listed := by
      rw [waiting]
      exact remaining
    batch := by
      apply inv.ok.chain_kept step.toEffect chain
      intro p listed
      obtain ⟨other, otherMember, same⟩ := remaining p (by simp [listed])
      exact ⟨other, otherMember.1, same, otherMember⟩
    covers := covers
    links := inv.links_kept step.toEffect fun other otherMember inFlight => by
      refine ⟨otherMember, ?_⟩
      rintro rfl
      exact fresh (by simp [inFlight])
    records := inv.records.replay
    shadow := by
      intro _
      have unfolded : (w.replay cfg call (run.addr + 16) next).direct cfg =
          (w.direct cfg).deallocateBytes cfg (run.addr + 16) := by
        unfold World.direct World.replay
        dsimp only
        rw [replayedIn_replayed, if_pos rfl]
        exact List.foldl_append ..
      have words : withoutPayloads (runs \ {run}) rest =
          withoutPayloads runs ((run.addr + 16) :: rest) :=
        withoutPayloads_sdiff injective
      rw [unfolded, words]
      obtain ⟨blocks, heap, used⟩ := inv.ok.heap
      rw [← used] at member
      apply deallocateBytes_agree heap member _ (shadow trivial)
      rintro word ⟨other, ⟨otherMember, _⟩, lower, upper⟩
      rw [← used] at otherMember
      exact heap.not_privateWord otherMember (by omega) upper }

/-- A write to the payload of a run that is neither on the stack nor in the
batch; pushes in progress on other payloads keep their links. -/
theorem written (inv : WorldOk cfg w runs pending) {run : Block}
    (member : run ∈ runs) (notStacked : run.addr + 16 ∉ w.journal.stack)
    (notPending : run.addr + 16 ∉ pending) {word value : Nat}
    (lower : run.addr + 16 ≤ word) (upper : word < run.stop)
    {pushes' : List Push} (inFlight : pushes'.map Push.payload = w.inFlight)
    (links : ∀ push ∈ pushes', ∀ head, push.phase = .linked head →
      (w.state.write word value).mem push.payload = head) :
    WorldOk cfg
      { w with state := w.state.write word value, pushes := pushes' } runs
      pending := by
  have step := write_step inv.ok member notStacked value lower upper
  have waiting : World.waiting
      { w with state := w.state.write word value, pushes := pushes' } pending =
      w.waiting pending := by
    unfold World.waiting World.inFlight
    dsimp only
    rw [inFlight]
    rfl
  exact {
    ok := step.ok
    held := by
      rw [waiting]
      exact inv.held
    nodup := by
      rw [waiting]
      exact inv.nodup
    listed := by
      rw [waiting]
      exact inv.listed
    batch := by
      apply Batch.kept inv.ok step.toEffect inv.batch
      intro p inBatch
      obtain ⟨other, otherMember, rfl⟩ :=
        inv.listed p (by simp [World.waiting, inBatch])
      refine ⟨other, otherMember, rfl, otherMember, ?_⟩
      rintro rfl
      exact notPending inBatch
    covers := inv.covers
    links := links
    records := inv.records
    shadow := fun draining => ((inv.shadow draining).symm.write_right
      ⟨run, ⟨member, notPending⟩, lower, upper⟩).symm }

theorem load {payload : Nat} (inv : WorldOk cfg w runs pending)
    (holds : w.Holds payload) : WorldOk cfg (w.load payload) runs pending := by
  obtain ⟨run, member, same, notWaiting⟩ := inv.held.run holds
  have waiting : (w.load payload).waiting pending =
      payload :: w.waiting pending := rfl
  exact {
    inv with
    held := by
      rw [waiting]
      exact inv.held.park
    nodup := by
      rw [waiting]
      exact List.nodup_cons.mpr ⟨notWaiting, inv.nodup⟩
    listed := by
      rw [waiting]
      intro p listed
      rcases List.mem_cons.mp listed with rfl | earlier
      · exact ⟨run, member, same⟩
      · exact inv.listed p earlier
    links := by
      intro push inPushes head linked
      rcases List.mem_cons.mp inPushes with rfl | earlier
      · cases linked
      · exact inv.links push earlier head linked }

section Pushes

variable {front back : List Push} {payload head : Nat} {phase : PushPhase}
  (inv : WorldOk cfg w runs pending)
  (listed : w.pushes = front ++ ⟨payload, phase⟩ :: back)

include inv listed

theorem pushed_run : ∃ run ∈ runs, run.addr + 16 = payload ∧
    payload ∉ front.map Push.payload ++ back.map Push.payload ∧
    payload ∉ pending ∧ payload ∉ w.journal.stack := by
  have split : w.waiting pending = front.map Push.payload ++ payload ::
      (back.map Push.payload ++ (pending ++ w.journal.stack)) := by
    simp [World.waiting, World.inFlight, listed]
  have nodup := inv.nodup
  rw [split] at nodup
  obtain ⟨fresh, _⟩ := List.nodup_cons.mp (List.nodup_middle.mp nodup)
  obtain ⟨run, member, same⟩ := inv.listed payload (by rw [split]; simp)
  simp only [List.mem_append, not_or] at fresh
  refine ⟨run, member, same, ?_, fresh.2.2.1, fresh.2.2.2⟩
  rw [List.mem_append, not_or]
  exact ⟨fresh.1, fresh.2.1⟩

theorem link : WorldOk cfg (w.link front back payload head) runs pending := by
  obtain ⟨run, member, rfl, apart, notPending, notStacked⟩ :=
    inv.pushed_run listed
  have large := inv.ok.large member
  apply inv.written member notStacked notPending le_rfl
    (by unfold Block.stop; omega)
  · simp [World.inFlight, listed]
  · intro push inPushes loaded linked
    rw [List.mem_append, List.mem_cons] at inPushes
    have other : ∀ push ∈ front ++ back, push.phase = .linked loaded →
        (w.state.write (run.addr + 16) head).mem push.payload = loaded := by
      intro push inRest linked
      have different : push.payload ≠ run.addr + 16 := fun same => by
        rw [← same, ← List.map_append] at apart
        exact apart (List.mem_map_of_mem inRest)
      rw [State.write_mem, Function.update_of_ne different]
      refine inv.links push ?_ loaded linked
      rw [listed]
      simp only [List.mem_append, List.mem_cons] at inRest ⊢
      tauto
    rcases inPushes with inFront | rfl | inBack
    · exact other push (List.mem_append_left _ inFront) linked
    · cases linked
      exact Function.update_self _ _ _
    · exact other push (List.mem_append_right _ inBack) linked

theorem retry : WorldOk cfg (w.retry front back payload) runs pending := by
  have waiting : (w.retry front back payload).waiting pending =
      w.waiting pending := by
    simp [World.waiting, World.inFlight, World.retry, listed]
  exact {
    inv with
    held := by
      rw [waiting]
      exact inv.held
    nodup := by
      rw [waiting]
      exact inv.nodup
    listed := by
      rw [waiting]
      exact inv.listed
    links := by
      intro push inPushes loaded linked
      rw [World.retry, List.mem_append, List.mem_cons] at inPushes
      rcases inPushes with inFront | rfl | inBack
      · exact inv.links push (by simp [listed, inFront]) loaded linked
      · cases linked
      · exact inv.links push (by simp [listed, inBack]) loaded linked }

end Pushes

/-- A successful compare-exchange puts the payload on the stack. -/
theorem publish {front back : List Push} {payload : Nat}
    (inv : WorldOk cfg w runs pending)
    (listed : w.pushes =
      front ++ ⟨payload, .linked w.state.remoteHead⟩ :: back) :
    WorldOk cfg (w.publish front back payload) runs pending ∧
      ∀ p, p ∈ (w.publish front back payload).waiting pending ↔
        p ∈ w.waiting pending := by
  obtain ⟨run, member, rfl, apart, notPending, notStacked⟩ :=
    inv.pushed_run listed
  have stack : (w.publish front back (run.addr + 16)).journal.stack =
      (run.addr + 16) :: w.journal.stack := by
    unfold Journal.stack World.publish
    dsimp only
    rw [takenBy_pushed, if_pos rfl]
  have waiting : ((w.publish front back (run.addr + 16)).waiting pending).Perm
      (w.waiting pending) := by
    unfold World.waiting World.inFlight
    rw [stack, listed]
    simp only [World.publish, List.map_append, List.map_cons, List.append_assoc,
      List.cons_append]
    refine List.Perm.append_left _ ?_
    exact (List.perm_middle.append_left _).trans List.perm_middle
  have word := inv.links ⟨run.addr + 16, .linked w.state.remoteHead⟩
    (by simp [listed]) _ rfl
  refine ⟨?_, fun p => waiting.mem_iff⟩
  exact {
    ok := by
      rw [stack]
      exact {
        heap := by
          obtain ⟨blocks, heap, used⟩ := inv.ok.heap
          exact ⟨blocks, heap.congr rfl rfl rfl rfl, used⟩
        stack := by
          refine ⟨rfl, by omega, ?_⟩
          show IsStack w.state.mem (w.state.mem (run.addr + 16)) _
          rw [word]
          exact inv.ok.stack
        parkedRuns := by
          intro p inStack
          rcases List.mem_cons.mp inStack with rfl | earlier
          · exact ⟨run, member, rfl⟩
          · exact inv.ok.parkedRuns p earlier
        growth := inv.ok.growth
        deferred := inv.ok.deferred }
    held := inv.held.congr fun p => waiting.mem_iff
    nodup := waiting.nodup_iff.mpr inv.nodup
    listed := fun p waits => inv.listed p (waiting.mem_iff.mp waits)
    batch := inv.batch
    covers := inv.covers
    links := fun push inPushes => inv.links push (by
      simp only [World.publish, List.mem_append] at inPushes
      rw [listed, List.mem_append, List.mem_cons]
      tauto)
    records := inv.records.publish notStacked
    shadow := fun draining =>
      ((inv.shadow draining).symm.remoteHead_right _).symm }

end WorldOk

theorem stays_of_subset {waiting waiting' : List Nat} (subset : runs ⊆ runs')
    (same : ∀ p ∈ waiting, p ∈ waiting') :
    Stays w w' runs runs' waiting waiting' :=
  fun _ member waits => Or.inl ⟨subset member, same _ waits⟩

/-- Every step keeps the invariant and every payload that waits, except for the
one it replays. -/
theorem interleaves_step (inv : WorldOk cfg w runs pending)
    (step : Interleaves cfg w w') :
    ∃ runs' pending', WorldOk cfg w' runs' pending' ∧
      Stays w w' runs runs' (w.waiting pending) (w'.waiting pending') := by
  cases step with
  | search os bytes alignment idle word =>
      obtain rfl := inv.pending_nil (by rw [idle]; exact id)
      obtain ⟨runs', inv', subset, waiting⟩ := inv.search os word idle
      exact ⟨runs', [], inv', stays_of_subset subset fun p => by
        rw [waiting]; exact id⟩
  | call operation idle direct allowed =>
      obtain rfl := inv.pending_nil (by rw [idle]; exact id)
      obtain ⟨runs', inv', subset⟩ := inv.call idle direct allowed
      exact ⟨runs', [], inv', fun run member waits =>
        Or.inl ⟨subset run member waits, waits⟩⟩
  | @exchange call phase =>
      obtain rfl := inv.pending_nil (by rw [phase]; exact id)
      refine ⟨runs, _, inv.exchange phase, stays_of_subset subset_rfl ?_⟩
      intro p waits
      simp only [World.waiting, World.inFlight, List.nil_append,
        List.mem_append] at waits ⊢
      exact waits.imp_right Or.inl
  | readLink phase more =>
      exact ⟨runs, pending, inv.readLink phase more,
        stays_of_subset subset_rfl fun p waits => waits⟩
  | @replay call head next phase =>
      obtain ⟨run, rest, rfl, rfl, member, inv'⟩ := inv.replay phase
      refine ⟨_, rest, inv', fun other otherMember waits => ?_⟩
      by_cases same : other = run
      · exact Or.inr (by rw [same]; rfl)
      · refine Or.inl ⟨⟨otherMember, same⟩, ?_⟩
        have different : other.addr ≠ run.addr := fun equal =>
          same (inv.ok.eq_of_addr_eq otherMember member equal)
        simp only [World.waiting, World.inFlight, List.cons_append,
          List.mem_append, List.mem_cons] at waits ⊢
        rcases waits with inFlight | equal | inRest
        · exact Or.inl inFlight
        · omega
        · exact Or.inr inRest
  | @searchAgain call os phase =>
      have batch := inv.batch
      have covers := inv.covers
      rw [phase] at batch covers
      obtain rfl := batch.eq_nil_iff.mpr rfl
      obtain ⟨searched, candidate⟩ := findFit_step inv.ok covers.1
      obtain ⟨runs', inv', subset, waiting⟩ :=
        inv.settle searched candidate covers.1 covers.2
      exact ⟨runs', [], inv', stays_of_subset subset fun p => by
        rw [World.searchAgain, waiting]; exact id⟩
  | @resume call os phase =>
      obtain rfl := inv.pending_nil (by rw [phase]; exact id)
      have covers := inv.covers
      rw [phase] at covers
      obtain ⟨runs', inv', subset, waiting⟩ :
          ∃ runs', WorldOk cfg (w.resume cfg os call) runs' [] ∧ runs ⊆ runs' ∧
            (w.resume cfg os call).waiting [] = w.waiting [] :=
        inv.settle (inv.ok.same rfl rfl rfl rfl) (Or.inl rfl) covers.1 covers.2
      exact ⟨runs', [], inv', stays_of_subset subset fun p => by
        rw [waiting]; exact id⟩
  | load holds =>
      exact ⟨runs, pending, inv.load holds, stays_of_subset subset_rfl
        fun p waits => List.mem_cons_of_mem _ waits⟩
  | link listed =>
      refine ⟨runs, pending, inv.link listed, stays_of_subset subset_rfl ?_⟩
      intro p waits
      simpa [World.waiting, World.inFlight, World.link, listed] using waits
  | publish listed =>
      obtain ⟨inv', same⟩ := inv.publish listed
      exact ⟨runs, pending, inv', stays_of_subset subset_rfl fun p =>
        (same p).mpr⟩
  | retry listed =>
      refine ⟨runs, pending, inv.retry listed, stays_of_subset subset_rfl ?_⟩
      intro p waits
      simpa [World.waiting, World.inFlight, World.retry, listed] using waits
  | store word value writable =>
      obtain ⟨allocation, member, lower, upper⟩ := writable
      obtain ⟨run, runMember, addrEq, notWaiting, large, bytes⟩ :=
        inv.held.run_spec inv.ok ⟨allocation, member, rfl⟩
      rw [bytes, ← addrEq] at upper
      rw [← addrEq] at lower notWaiting
      have apart : run.addr + 16 ∉ w.inFlight ∧ run.addr + 16 ∉ pending ∧
          run.addr + 16 ∉ w.journal.stack := by
        simpa [World.waiting] using notWaiting
      have inside : word < run.stop := by
        unfold Block.stop
        omega
      refine ⟨runs, pending, inv.written runMember apart.2.2 apart.2.1 lower inside
        rfl fun push inPushes head linked => ?_,
        stays_of_subset subset_rfl fun p waits => waits⟩
      have step := write_step inv.ok runMember apart.2.2 value lower inside
      apply inv.links_kept step.toEffect _ push inPushes head linked
      intro other otherMember inFlight
      refine ⟨otherMember, ?_⟩
      rintro rfl
      exact apart.1 inFlight

theorem worldOk_start (begins : (interleavings cfg).start w) :
    WorldOk cfg w ∅ [] := by
  obtain ⟨session, pushes, idle, pushed, replayed, exchanges⟩ := begins
  obtain ⟨ok, held⟩ := starts_ok session
  have taken : ∀ drain, w.journal.takenBy drain = [] := by
    intro drain
    simp [Journal.takenBy, pushed]
  have replays : ∀ drain, w.journal.replayedIn drain = [] := by
    intro drain
    simp [Journal.replayedIn, replayed]
  have waiting : w.waiting [] = [] := by
    simp [World.waiting, World.inFlight, pushes, Journal.stack, taken]
  exact {
    ok := by
      unfold Journal.stack
      rw [taken]
      exact ok
    held := by
      rw [waiting]
      exact held
    nodup := by
      rw [waiting]
      exact List.nodup_nil
    listed := by simp [waiting]
    batch := by
      rw [idle]
      rfl
    covers := by
      rw [idle]
      trivial
    links := by simp [pushes]
    records := {
      epochs := by simp [pushed]
      drains := by simp [replayed]
      nodup := by simp [taken]
      past := by simp [exchanges]
      current := by rw [taken, replays]; rfl }
    shadow := by simp [idle, OwnerPhase.Draining] }

theorem worldOk_inductive (cfg : Config) :
    (interleavings cfg).Inductive fun w => ∃ runs pending,
      WorldOk cfg w runs pending where
  start _ begins := ⟨∅, [], worldOk_start begins⟩
  step := by
    rintro w w' ⟨runs, pending, inv⟩ step
    obtain ⟨runs', pending', inv', _⟩ := interleaves_step inv step
    exact ⟨runs', pending', inv'⟩

end Runner

end Allocazam
