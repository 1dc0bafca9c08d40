import Allocazam.PoolSafety
import Allocazam.RunnerAllocationSafety
import Allocazam.SuballocatedSafety

/-!
# Discretion of the suballocated allocator

A thread that serves a request works on one state.  Of all other states it moves the
heads of the remote stacks only, of their memory it writes the first words of blocks that
are in its own hands, and it leaves alone what users and other threads' caches hold.
-/

namespace Allocazam

namespace Runner

theorem payload_grows {cfg : Config} {session : Session} {runs : Set Block}
    {parked : List Nat} (ok : RunnerOk cfg session.state runs parked)
    (held : Held session.live runs parked) {operation : Operation}
    (allowed : session.Allows operation) {allocation : Allocation}
    (member : allocation ∈ session.live)
    (spared : ¬ operation.Releases allocation.payload) :
    session.state.payloadBytes allocation.payload ≤
      (session.perform cfg operation).state.payloadBytes allocation.payload := by
  obtain ⟨run, inRuns, atRun, notParked, _, before⟩ :=
    held.run_spec ok ⟨allocation, member, rfl⟩
  -- The run is still there, perhaps longer.
  suffices still : ∃ runs' parked', RunnerOk cfg (session.perform cfg operation).state runs'
      parked' ∧ ∃ later ∈ runs', later.addr = run.addr ∧ run.size ≤ later.size by
    obtain ⟨runs', parked', after, later, inRuns', same, grown⟩ := still
    obtain ⟨blocks, heap, rfl⟩ := after.heap
    have size := heap.runSize inRuns'.1 (by rw [inRuns'.2]; decide)
    rw [before]
    unfold State.payloadBytes
    rw [headerFromPayload_eq, ← atRun, Nat.add_sub_cancel, ← same, size]
    exact Nat.sub_le_sub_right grown 16
  cases operation with
  | allocateBytes os bytes alignment =>
      obtain ⟨drained, outcome⟩ := allocateBytes_outcome ok allowed
      have survives : run ∈ survivors drained runs parked := by
        unfold survivors
        split
        · exact ⟨inRuns, by rwa [atRun]⟩
        · exact inRuns
      unfold Session.perform
      dsimp only
      generalize session.state.allocateBytes cfg os bytes alignment = result at *
      obtain ⟨u, result⟩ := result
      dsimp only at outcome
      cases outcome with
      | run _ _ _ step => exact ⟨_, _, step.ok, run, .inr survives, rfl, le_rfl⟩
      | null step => exact ⟨_, _, step.ok, run, survives, rfl, le_rfl⟩
      | throws step => exact ⟨_, _, step.ok, run, survives, rfl, le_rfl⟩
  | deallocateBytes payload =>
      obtain ⟨freed, inFreed, rfl, freedNotParked, _⟩ := held.run_spec ok allowed
      refine ⟨_, _, (deallocateBytes_step ok inFreed freedNotParked).ok, run,
        ⟨inRuns, ?_⟩, rfl, le_rfl⟩
      rintro rfl
      exact spared (.inl (by rw [atRun]))
  | expand payload minNewBytes =>
      obtain ⟨holds, word⟩ := allowed
      obtain ⟨target, inTarget, rfl, _⟩ := held.run_spec ok holds
      obtain ⟨granted, grows, _, step⟩ := expand_step ok inTarget word
      refine ⟨_, _, step.ok, ?_⟩
      by_cases same : run = target
      · subst same
        exact ⟨_, .inl rfl, rfl, grows⟩
      · exact ⟨run, .inr ⟨inRuns, same⟩, rfl, le_rfl⟩
  | remotePush payload =>
      obtain ⟨pushed, inPushed, rfl, pushedNotParked, _⟩ := held.run_spec ok allowed
      exact ⟨_, _, (remotePush_step ok inPushed pushedNotParked).ok, run, inRuns, rfl, le_rfl⟩

/-- The header of an allocation lies in no payload. -/
theorem header_not_payload {cfg : Config} {session : Session} {runs : Set Block}
    {parked : List Nat} (ok : RunnerOk cfg session.state runs parked)
    (held : Held session.live runs parked) {one two : Allocation}
    (oneMember : one ∈ session.live) (twoMember : two ∈ session.live) {addr : Nat}
    (header : one.payload - 16 = addr) (lower : two.payload ≤ addr)
    (upper : addr < session.stop two) : False := by
  obtain ⟨run, inRuns, atRun, _, large, _⟩ := held.run_spec ok ⟨one, oneMember, rfl⟩
  obtain ⟨other, inOther, atOther, _, otherLarge, bytes⟩ :=
    held.run_spec ok ⟨two, twoMember, rfl⟩
  obtain ⟨blocks, heap, rfl⟩ := ok.heap
  unfold Session.stop at upper
  rw [bytes] at upper
  by_cases same : run = other
  · subst same
    omega
  · have apart := heap.layout.apart inRuns.1 inOther.1 same
    unfold Block.Apart Block.stop at apart
    omega

end Runner

namespace Suballocated

variable {Value Thread Bound : Type} {fam : Family Value Thread Bound}
  {w w' : World Value Thread Bound} {live : List (Item fam)}
  {ledger middle next : Ledger Value Thread Bound}
  {site other : Site Value Thread Bound} {value : Value} {thread : Thread} {p : Nat}

/-- Not in the hands of a thread that serves a request for a value type. -/
def Place.Elsewhere (value : Value) (thread : Thread) (place : Place Value Thread) : Prop :=
  place ≠ .adrift ∧ ∀ idx, place ≠ .cached value thread idx

def Ledger.Sheltered (ledger : Ledger Value Thread Bound) (value : Value) (thread : Thread)
    (p : Nat) : Prop :=
  ∃ place, ledger.place p = some place ∧ place.Elsewhere value thread

theorem Ledger.not_sheltered_of_adrift (adrift : ledger.place p = some .adrift) :
    ¬ ledger.Sheltered value thread p := by
  rintro ⟨x, here, elsewhere⟩
  rw [adrift] at here
  exact elsewhere.1 (Option.some.inj here).symm

theorem Ledger.not_sheltered_of_cached
    {idx : Nat} (cached : ledger.place p = some (.cached value thread idx)) :
    ¬ ledger.Sheltered value thread p := by
  rintro ⟨x, here, elsewhere⟩
  rw [cached] at here
  exact elsewhere.2 idx (Option.some.inj here).symm

/-- The node or the run at the pointer stays given out, with its contents. -/
structure Leaves (fam : Family Value Thread Bound) (w : World Value Thread Bound)
    (ledger : Ledger Value Thread Bound) (w' : World Value Thread Bound)
    (next : Ledger Value Thread Bound) (p : Nat) : Prop where
  node : ∀ site, p ∈ ledger.nodes site → p ∈ next.nodes site ∧
    ∀ addr ∈ (fam.poolConfig site).nodeRange p, w'.mem addr = w.mem addr
  run : ∀ site, ledger.HasRun site p → next.HasRun site p ∧
    w.payloadBytes p ≤ w'.payloadBytes p ∧
    ∀ addr, p ≤ addr → addr < p + w.payloadBytes p → w'.mem addr = w.mem addr

/-- The first words of a node or a run given out by a state. -/
def Ledger.FirstWord (ledger : Ledger Value Thread Bound) (site : Site Value Thread Bound)
    (p addr : Nat) : Prop :=
  p ∈ ledger.nodes site ∧ addr = p ∨
    ledger.HasRun site p ∧ (addr = p ∨ addr = p + 8)

/-- What a thread does that serves a request for a value type by the state `site`. -/
structure Discreet (fam : Family Value Thread Bound) (value : Value) (thread : Thread)
    (site : Site Value Thread Bound) (w : World Value Thread Bound)
    (ledger : Ledger Value Thread Bound) (w' : World Value Thread Bound)
    (next : Ledger Value Thread Bound) : Prop where
  pool : ∀ other ≠ site, ∃ head, (w'.states other).pool =
    { (w.states other).pool with remoteHead := head }
  runs : ∀ other ≠ site, ∃ head, (w'.states other).runs =
    { (w.states other).runs with remoteHead := head }
  created : ∀ other ≠ site, w'.created other = w.created other
  classes : ∀ value' thread', ¬ (value' = value ∧ thread' = thread) →
    w'.classes value' thread' = w.classes value' thread'
  places : ∀ q place, place.Elsewhere value thread →
    (next.place q = some place ↔ ledger.place q = some place)
  leaves : ∀ q, ledger.Sheltered value thread q → Leaves fam w ledger w' next q
  /-- No other state gives out anything. -/
  gives : ∀ other ≠ site, (∀ q ∈ next.nodes other, q ∈ ledger.nodes other) ∧
    ∀ q, next.HasRun other q → ledger.HasRun other q
  writes : ∀ other ≠ site, ∀ addr,
    addr ∈ w.territory fam (.pool other) ∨ addr ∈ w.territory fam (.runs other) →
      w'.mem addr = w.mem addr ∨
        ∃ q, ledger.FirstWord other q addr ∧ ¬ ledger.Sheltered value thread q

theorem Leaves.refl (p : Nat) : Leaves fam w ledger w ledger p :=
  ⟨fun _ node => ⟨node, fun _ _ => rfl⟩,
    fun _ run => ⟨run, le_rfl, fun _ _ _ => rfl⟩⟩

theorem Leaves.trans {w'' : World Value Thread Bound}
    (first : Leaves fam w ledger w' middle p) (second : Leaves fam w' middle w'' next p) :
    Leaves fam w ledger w'' next p where
  node site node := by
    obtain ⟨still, same⟩ := first.node site node
    obtain ⟨after, again⟩ := second.node site still
    exact ⟨after, fun addr inNode => (again addr inNode).trans (same addr inNode)⟩
  run site run := by
    obtain ⟨still, grown, same⟩ := first.run site run
    obtain ⟨after, more, again⟩ := second.run site still
    refine ⟨after, grown.trans more, fun addr lower upper => ?_⟩
    exact (again addr lower (by omega)).trans (same addr lower upper)

namespace Discreet

theorem refl (w : World Value Thread Bound) (ledger : Ledger Value Thread Bound) :
    Discreet fam value thread site w ledger w ledger where
  pool _ _ := ⟨_, rfl⟩
  runs _ _ := ⟨_, rfl⟩
  created _ _ := rfl
  classes _ _ _ := rfl
  places _ _ _ := Iff.rfl
  leaves q _ := .refl q
  gives _ _ := ⟨fun _ node => node, fun _ run => run⟩
  writes _ _ _ _ := .inl rfl

theorem sheltered (first : Discreet fam value thread site w ledger w' middle) :
    middle.Sheltered value thread p ↔ ledger.Sheltered value thread p := by
  unfold Ledger.Sheltered
  refine exists_congr fun place => and_congr_left fun elsewhere => ?_
  exact first.places p place elsewhere

theorem territory (first : Discreet fam value thread site w ledger w' middle)
    (distinct : other ≠ site) :
    w'.territory fam (.pool other) = w.territory fam (.pool other) ∧
      w'.territory fam (.runs other) = w.territory fam (.runs other) := by
  obtain ⟨_, pool⟩ := first.pool other distinct
  obtain ⟨_, runs⟩ := first.runs other distinct
  unfold World.territory
  dsimp only
  rw [pool, runs]
  exact ⟨rfl, rfl⟩

theorem trans {w'' : World Value Thread Bound}
    (first : Discreet fam value thread site w ledger w' middle)
    (second : Discreet fam value thread site w' middle w'' next) :
    Discreet fam value thread site w ledger w'' next where
  pool other distinct := by
    obtain ⟨_, same⟩ := first.pool other distinct
    obtain ⟨head, again⟩ := second.pool other distinct
    exact ⟨head, by rw [again, same]⟩
  runs other distinct := by
    obtain ⟨_, same⟩ := first.runs other distinct
    obtain ⟨head, again⟩ := second.runs other distinct
    exact ⟨head, by rw [again, same]⟩
  created other distinct :=
    (second.created other distinct).trans (first.created other distinct)
  classes value' thread' apart :=
    (second.classes value' thread' apart).trans (first.classes value' thread' apart)
  places q place elsewhere :=
    (second.places q place elsewhere).trans (first.places q place elsewhere)
  leaves q sheltered :=
    (first.leaves q sheltered).trans (second.leaves q (first.sheltered.mpr sheltered))
  gives other distinct := by
    obtain ⟨nodes, runs⟩ := first.gives other distinct
    obtain ⟨laterNodes, laterRuns⟩ := second.gives other distinct
    exact ⟨fun q node => nodes q (laterNodes q node), fun q run => runs q (laterRuns q run)⟩
  writes other distinct addr owned := by
    obtain ⟨pool, runs⟩ := first.territory distinct
    obtain ⟨nodes, given⟩ := first.gives other distinct
    rcases second.writes other distinct addr (by rwa [pool, runs]) with same | written
    · rcases first.writes other distinct addr owned with old | written
      · exact .inl (same.trans old)
      · exact .inr written
    · obtain ⟨q, word, loose⟩ := written
      refine .inr ⟨q, ?_, fun sheltered => loose (first.sheltered.mpr sheltered)⟩
      rcases word with ⟨node, atNode⟩ | ⟨run, atRun⟩
      · exact .inl ⟨nodes q node, atNode⟩
      · exact .inr ⟨given q run, atRun⟩

end Discreet

section Calls

variable [DecidableEq Value] [DecidableEq Thread] [DecidableEq Bound]
  (ok : WorldOk fam w live ledger)

include ok

omit [DecidableEq Value] [DecidableEq Thread] [DecidableEq Bound] in
/-- The storage of a node is memory of its pool. -/
theorem WorldOk.nodeRange_territory (node : p ∈ ledger.nodes site) :
    (fam.poolConfig site).nodeRange p ⊆ w.territory fam (.pool site) := by
  obtain ⟨_, _, _, _, pool⟩ := ok.node_pool node
  exact fun addr inNode => pool.balanced.laid.nodeRange_subset (pool.live_node node) inNode

omit [DecidableEq Value] [DecidableEq Thread] [DecidableEq Bound] in
/-- The payload of a run is memory of its runner. -/
theorem WorldOk.payload_territory (run : ledger.HasRun site p) {addr : Nat}
    (lower : p - 16 ≤ addr) (upper : addr < p + w.payloadBytes p) :
    addr ∈ w.territory fam (.runs site) := by
  obtain ⟨allocation, member, rfl⟩ := run
  obtain ⟨_, _, _, _, _, inside⟩ := (ok.runsOk site).payload_spec member
  exact inside addr lower upper

omit [DecidableEq Value] [DecidableEq Thread] [DecidableEq Bound] in
/-- A run keeps its length and its contents when nobody writes to memory of its runner. -/
theorem WorldOk.run_contents (run : ledger.HasRun site p)
    (kept : ∀ addr ∈ w.territory fam (.runs site), w'.mem addr = w.mem addr) :
    w.payloadBytes p ≤ w'.payloadBytes p ∧
      ∀ addr, p ≤ addr → addr < p + w.payloadBytes p → w'.mem addr = w.mem addr := by
  have inside : ∀ addr, p - 16 ≤ addr → addr < p + w.payloadBytes p →
      w'.mem addr = w.mem addr :=
    fun addr lower upper => kept addr (ok.payload_territory run lower upper)
  have header : w'.mem (p - 16) = w.mem (p - 16) := by
    obtain ⟨allocation, member, rfl⟩ := run
    exact inside _ le_rfl (by have := (ok.payload_large member).1; omega)
  refine ⟨?_, fun addr lower upper => inside addr (by omega) upper⟩
  unfold World.payloadBytes
  rw [header]

theorem WorldOk.call_elsewhere {operation : Runner.Operation}
    (callable : Callable fam w ledger other operation)
    {tenant : Tenant Value Thread Bound} (distinct : tenant ≠ .runs other) {addr : Nat}
    (owned : addr ∈ w.territory fam tenant) :
    (w.callRuns fam ledger other operation).state.mem addr = w.mem addr :=
  have member : addr ∈ (w.tenancy fam ledger).owns tenant := owned
  ok.tenants.kept (ok.call_moves callable ledger.place) distinct member

theorem WorldOk.callPool_elsewhere {operation : Pool.Operation}
    (callable : NodeCallable fam w ledger other operation)
    {tenant : Tenant Value Thread Bound} (distinct : tenant ≠ .pool other) {addr : Nat}
    (owned : addr ∈ w.territory fam tenant) :
    (w.callPool fam ledger other operation).state.mem addr = w.mem addr :=
  have member : addr ∈ (w.tenancy fam ledger).owns tenant := owned
  ok.tenants.kept (ok.callPool_moves callable ledger.place) distinct member

/-- A call of the runner of the state, or a push to that of another one. -/
theorem Discreet.call {operation : Runner.Operation}
    (callable : Callable fam w ledger other operation)
    (homely : other = site ∨ ∃ q, operation = .remotePush q)
    (place : Nat → Option (Place Value Thread))
    (settled : ∀ q x, x ≠ Place.adrift → (place q = some x ↔ ledger.place q = some x)) :
    Discreet fam value thread site w ledger
      (w.setRuns other (w.callRuns fam ledger other operation).state)
      (ledger.setRuns other (w.callRuns fam ledger other operation).live place) where
  pool owner _ := by
    rw [World.setRuns_pool]
    exact ⟨_, rfl⟩
  runs owner distinct := by
    by_cases called : owner = other
    · subst called
      rcases homely with same | ⟨q, rfl⟩
      · exact absurd same distinct
      · rw [World.setRuns_runs_self]
        exact ⟨q, rfl⟩
    · rw [World.setRuns_runs_of_ne _ called]
      exact ⟨_, rfl⟩
  created _ _ := rfl
  classes _ _ _ := rfl
  places q x elsewhere := settled q x elsewhere.1
  leaves q sheltered := by
    obtain ⟨x, here, elsewhere⟩ := sheltered
    have loose : ledger.place q ≠ some .adrift := by
      rw [here]
      simpa using elsewhere.1
    refine ⟨fun owner node => ⟨node, fun addr inNode => ?_⟩, fun owner run => ?_⟩
    · exact ok.call_elsewhere callable (by simp) (ok.nodeRange_territory node inNode)
    · obtain ⟨allocation, member, rfl⟩ := run
      obtain ⟨⟨kept, keptMember, same, _⟩, _⟩ := ok.call_kept callable place member loose
      refine ⟨⟨kept, keptMember, same⟩, ?_⟩
      by_cases called : owner = other
      · subst called
        have spared : ¬ operation.Releases allocation.payload := fun releases =>
          loose (callable.adrift _ releases)
        obtain ⟨_, contents⟩ := (ok.runsOk owner).perform_kept callable.allows member spared
        obtain ⟨runs, parked, runner, held⟩ := ok.runsOk owner
        exact ⟨Runner.payload_grows runner held callable.allows member spared,
          fun addr lower upper => contents addr (by omega) upper⟩
      · exact ok.run_contents ⟨allocation, member, rfl⟩ fun addr owned =>
          ok.call_elsewhere callable (by simpa using called) owned
  gives owner distinct := by
    refine ⟨fun q node => node, fun q run => ?_⟩
    by_cases called : owner = other
    · subst called
      rcases homely with same | ⟨pushed, rfl⟩
      · exact absurd same distinct
      · obtain ⟨allocation, member, rfl⟩ := run
        rw [Ledger.setRuns_self] at member
        exact ⟨allocation, (List.mem_filter.mp member).1, rfl⟩
    · obtain ⟨allocation, member, rfl⟩ := run
      rw [Ledger.setRuns_of_ne _ _ called] at member
      exact ⟨allocation, member, rfl⟩
  writes owner distinct addr owned := by
    rcases owned with owned | owned
    · exact .inl (ok.call_elsewhere callable (by simp) owned)
    · by_cases called : owner = other
      · subst called
        rcases homely with same | ⟨pushed, rfl⟩
        · exact absurd same distinct
        · by_cases here : addr = pushed
          · exact .inr ⟨pushed, .inr ⟨callable.allows, .inl here⟩,
              Ledger.not_sheltered_of_adrift (callable.adrift pushed (.inr rfl))⟩
          · exact .inl (Function.update_of_ne here _ _)
      · exact .inl (ok.call_elsewhere callable (by simpa using called) owned)

/-- A call of the pool of the state, or a push to that of another one. -/
theorem Discreet.callPool {operation : Pool.Operation}
    (callable : WorldOk.NodeCallable fam w ledger other operation)
    (homely : other = site ∨ ∃ q, operation = .remotePush q)
    (place : Nat → Option (Place Value Thread))
    (settled : ∀ q x, x ≠ Place.adrift → (place q = some x ↔ ledger.place q = some x)) :
    Discreet fam value thread site w ledger
      (w.setPool other (w.callPool fam ledger other operation).state)
      (ledger.setNodes other (w.callPool fam ledger other operation).live place) where
  pool owner distinct := by
    by_cases called : owner = other
    · subst called
      rcases homely with same | ⟨q, rfl⟩
      · exact absurd same distinct
      · rw [World.setPool_pool_self]
        exact ⟨q, rfl⟩
    · rw [World.setPool_pool_of_ne _ called]
      exact ⟨_, rfl⟩
  runs owner _ := by
    rw [World.setPool_runs]
    exact ⟨_, rfl⟩
  created _ _ := rfl
  classes _ _ _ := rfl
  places q x elsewhere := settled q x elsewhere.1
  leaves q sheltered := by
    obtain ⟨x, here, elsewhere⟩ := sheltered
    have loose : ledger.place q ≠ some .adrift := by
      rw [here]
      simpa using elsewhere.1
    refine ⟨fun owner node => ⟨WorldOk.callPool_kept callable place node loose, ?_⟩,
      fun owner run => ⟨run, ok.run_contents run fun addr owned =>
        ok.callPool_elsewhere callable (by simp) owned⟩⟩
    intro addr inNode
    by_cases called : owner = other
    · subst called
      obtain ⟨_, _, _, _, pool⟩ := ok.node_pool node
      exact pool.frame callable.allows node
        (fun given => loose (callable.adrift q given)) inNode
    · exact ok.callPool_elsewhere callable (by simpa using called)
        (ok.nodeRange_territory node inNode)
  gives owner distinct := by
    refine ⟨fun q node => ?_, fun q run => run⟩
    by_cases called : owner = other
    · subst called
      rcases homely with same | ⟨pushed, rfl⟩
      · exact absurd same distinct
      · rw [Ledger.setNodes_self] at node
        exact List.mem_of_mem_erase node
    · rwa [Ledger.setNodes_of_ne _ _ called] at node
  writes owner distinct addr owned := by
    rcases owned with owned | owned
    · by_cases called : owner = other
      · subst called
        rcases homely with same | ⟨pushed, rfl⟩
        · exact absurd same distinct
        · by_cases here : addr = pushed
          · exact .inr ⟨pushed, .inl ⟨callable.allows.2, here⟩,
              Ledger.not_sheltered_of_adrift (callable.adrift pushed rfl)⟩
          · exact .inl (Function.update_of_ne here _ _)
      · exact .inl (ok.callPool_elsewhere callable (by simpa using called) owned)
    · exact .inl (ok.callPool_elsewhere callable (by simp) owned)

theorem Discreet.allocateBytes {os : Runner.Os} {bytes : Nat} (alignment : Nat)
    (created : w.created site = true) (avoids : os.Avoids (w.others fam (.runs site)))
    (word : bytes < 2 ^ 64) :
    Discreet fam value thread site w ledger (w.allocateBytes fam site os bytes alignment).1
      (ledger.afterAllocation site bytes
        (w.allocateBytes fam site os bytes alignment).2) := by
  have callable : Callable fam w ledger site (.allocateBytes os bytes alignment) :=
    { created := created
      allows := word
      avoids := avoids
      adrift := by rintro p (⟨⟨⟩⟩ | ⟨⟨⟩⟩) }
  have fresh := (ok.allocateBytes alignment created avoids word).2
  have called : ∀ place, (∀ q x, x ≠ Place.adrift →
      (place q = some x ↔ ledger.place q = some x)) →
      Discreet fam value thread site w ledger (w.setRuns site
        (w.callRuns fam ledger site (.allocateBytes os bytes alignment)).state)
        (ledger.setRuns site
          (w.callRuns fam ledger site (.allocateBytes os bytes alignment)).live place) :=
    fun place => Discreet.call ok callable (.inl rfl) place
  unfold World.callRuns Runner.Session.perform World.runsSession at called
  unfold World.allocateBytes at fresh ⊢
  dsimp only at called fresh ⊢
  generalize (w.runs site).allocateBytes (fam.runsConfig site) os bytes alignment =
    outcome at called fresh ⊢
  obtain ⟨s, exn | p⟩ := outcome
  · have same := called ledger.place fun _ _ _ => Iff.rfl
    rwa [Ledger.setRuns_same] at same
  · unfold Ledger.afterAllocation
    dsimp only at called fresh ⊢
    by_cases null : p = 0
    · rw [if_pos null] at called ⊢
      have same := called ledger.place fun _ _ _ => Iff.rfl
      rwa [Ledger.setRuns_same] at same
    · rw [if_neg null] at called ⊢
      exact called _ (Ledger.update_settled (by simp [fresh p rfl null]) (by simp))

section Release

variable (run : ledger.HasRun other p) (adrift : ledger.place p = some .adrift)

include run adrift

theorem Discreet.deallocateBytes (own : other = site) :
    Discreet fam value thread site w ledger (w.deallocateBytes fam other p)
      (ledger.giveBack other p) :=
  Discreet.call ok (ok.callable_deallocateBytes run adrift) (.inl own) _
    (Ledger.update_settled (by simp [adrift]) (by simp))

theorem Discreet.remotePush :
    Discreet fam value thread site w ledger (w.remotePush other p)
      (ledger.giveBack other p) :=
  Discreet.call ok (ok.callable_remotePush run adrift) (.inr ⟨p, rfl⟩) _
    (Ledger.update_settled (by simp [adrift]) (by simp))

end Release

/-- A run that is with nobody goes back to its owner. -/
theorem Discreet.returnRun {owner : Thread} (run : ledger.HasRun (.thread value owner) p)
    (adrift : ledger.place p = some .adrift) :
    Discreet fam value thread (.thread value thread) w ledger
      (w.returnRun fam value thread p (fam.runsAt (.thread value owner)))
      (ledger.giveBack (.thread value owner) p) := by
  unfold World.returnRun
  rw [fam.runsOf_runsAt]
  split
  · rename_i own
    unfold World.localRunsOrNull at own
    split at own
    · exact Discreet.deallocateBytes ok run adrift (Family.owner_of_stamp own)
    · exact absurd own (fam.runsNonnull _)
  · exact Discreet.remotePush ok run adrift

theorem Discreet.allocateNode {heap : Pool.Heap} (created : w.created site = true)
    (avoids : ∀ addr ∈ w.inUse fam, heap.inUse addr) :
    Discreet fam value thread site w ledger
      (w.setPool site ((w.pool site).allocate (fam.poolConfig site) heap).1)
      (ledger.afterNode site ((w.pool site).allocate (fam.poolConfig site) heap).2) := by
  have callable : WorldOk.NodeCallable fam w ledger site (.allocate heap) :=
    { created := created
      allows := fun addr owned => avoids addr ⟨.pool site, owned⟩
      avoids := avoids
      adrift := fun p given => by cases given }
  have performed : w.callPool fam ledger site (.allocate heap) =
      ⟨((w.pool site).allocate (fam.poolConfig site) heap).1,
        Pool.handedOut ((w.pool site).allocate (fam.poolConfig site) heap).2 ++
          ledger.nodes site⟩ :=
    Pool.Session.perform_allocate heap
  have fresh := (ok.allocateNode created avoids).2
  have called : ∀ place, (∀ q x, x ≠ Place.adrift →
      (place q = some x ↔ ledger.place q = some x)) →
      Discreet fam value thread site w ledger (w.setPool site
        (w.callPool fam ledger site (.allocate heap)).state)
        (ledger.setNodes site (w.callPool fam ledger site (.allocate heap)).live place) :=
    fun place => Discreet.callPool ok callable (.inl rfl) place
  rw [performed] at called
  dsimp only at called
  generalize ((w.pool site).allocate (fam.poolConfig site) heap).2 = outcome at called fresh ⊢
  cases outcome with
  | error exn =>
      have same := called ledger.place fun _ _ _ => Iff.rfl
      rwa [show Pool.handedOut (.error exn) = [] from rfl, List.nil_append,
        Ledger.setNodes_same] at same
  | ok p =>
      unfold Ledger.afterNode
      dsimp only
      by_cases null : p = 0
      · rw [if_pos null]
        have same := called ledger.place fun _ _ _ => Iff.rfl
        rwa [show Pool.handedOut (.ok p) = [] from if_pos null, List.nil_append,
          Ledger.setNodes_same] at same
      · rw [if_neg null]
        rw [show Pool.handedOut (.ok p) = [p] from if_neg null,
          List.singleton_append] at called
        exact called _ (Ledger.update_settled (by simp [fresh p rfl null]) (by simp))

section ReleaseNode

variable (node : p ∈ ledger.nodes other) (adrift : ledger.place p = some .adrift)

include node adrift

theorem Discreet.deallocateNode (own : other = site) :
    Discreet fam value thread site w ledger
      (w.setPool other ((w.pool other).deallocate p)) (ledger.giveBackNode other p) :=
  have callable : WorldOk.NodeCallable fam w ledger other (.deallocate p) :=
    { created := ok.created_of_node node
      allows := node
      avoids := trivial
      adrift := by rintro q ⟨⟩; exact adrift }
  Discreet.callPool ok callable (.inl own) _
    (Ledger.update_settled (by simp [adrift]) (by simp))

theorem Discreet.parkNode (headers : fam.heapBacked = true) :
    Discreet fam value thread site w ledger
      (w.setPool other ((w.pool other).remotePush p)) (ledger.giveBackNode other p) :=
  have callable : WorldOk.NodeCallable fam w ledger other (.remotePush p) :=
    { created := ok.created_of_node node
      allows := ⟨headers, node⟩
      avoids := trivial
      adrift := by rintro q ⟨⟩; exact adrift }
  Discreet.callPool ok callable (.inr ⟨p, rfl⟩) _
    (Ledger.update_settled (by simp [adrift]) (by simp))

end ReleaseNode

end Calls

section Classes

variable [DecidableEq Value] [DecidableEq Thread] {idx : Nat}

theorem World.setClass_elsewhere (cls : RunClass) {value' : Value} {thread' : Thread}
    (apart : ¬ (value' = value ∧ thread' = thread)) :
    (w.setClass value thread idx cls).classes value' thread' = w.classes value' thread' := by
  funext idx'
  exact World.setClass_of_ne cls fun same => apart ⟨same.1, same.2.1⟩

omit [DecidableEq Value] [DecidableEq Thread] in
/-- Something changes its place in the hands of the thread, which writes to the first
words of what it has. -/
theorem Discreet.reclass (ok : WorldOk fam w live ledger) {x : Place Value Thread}
    (states : w'.states = w.states) (created : w'.created = w.created)
    (classes : ∀ value' thread', ¬ (value' = value ∧ thread' = thread) →
      w'.classes value' thread' = w.classes value' thread')
    (before : ¬ ledger.Sheltered value thread p) (after : ¬ x.Elsewhere value thread)
    (words : ∀ addr, w'.mem addr = w.mem addr ∨ ∃ owner q, ledger.HasRun owner q ∧
      (addr = q ∨ addr = q + 8) ∧ ¬ ledger.Sheltered value thread q) :
    Discreet fam value thread site w ledger w' (ledger.settle p x) where
  pool other _ := by
    rw [states]
    exact ⟨_, rfl⟩
  runs other _ := by
    rw [states]
    exact ⟨_, rfl⟩
  created other _ := by rw [created]
  classes := classes
  places q y elsewhere := by
    by_cases moved : q = p
    · subst moved
      rw [Ledger.settle_self]
      refine iff_of_false (fun same => ?_) fun here => before ⟨y, here, elsewhere⟩
      rw [Option.some.inj same] at after
      exact after elsewhere
    · rw [Ledger.settle_of_ne _ moved]
  leaves q sheltered := by
    -- What is written belongs to runs, and to others than the run at `q`.
    have kept : ∀ owner, ledger.HasRun owner q → ∀ addr, q - 16 = addr ∨
        q ≤ addr ∧ addr < q + w.payloadBytes q → w'.mem addr = w.mem addr := by
      rintro owner ⟨allocation, member, rfl⟩ addr place
      rcases words addr with same | ⟨other, _, ⟨taken, takenMember, rfl⟩, word, loose⟩
      · exact same
      · exfalso
        have distinct : taken.payload ≠ allocation.payload := by
          intro same
          rw [same] at loose
          exact loose sheltered
        have large := (ok.payload_large takenMember).1
        rcases place with header | ⟨lower, upper⟩
        · have inTaken : addr ∈ w.territory fam (.runs other) :=
            ok.payload_territory ⟨taken, takenMember, rfl⟩ (by omega) (by omega)
          have inRun : addr ∈ w.territory fam (.runs owner) :=
            ok.payload_territory ⟨allocation, member, rfl⟩ (by omega)
              (by have := (ok.payload_large member).1; omega)
          obtain ⟨rfl⟩ : Tenant.runs other = .runs owner := ok.tenant_unique inTaken inRun
          obtain ⟨runs, parked, runner, held⟩ := ok.runsOk owner
          have lower : taken.payload ≤ addr := by omega
          have upper : addr < taken.payload + w.payloadBytes taken.payload := by omega
          exact Runner.header_not_payload runner held member takenMember header lower upper
        · exact ok.payload_apart member takenMember distinct.symm lower upper
            ⟨by omega, by omega⟩
    refine ⟨fun owner node => ⟨node, fun addr inNode => ?_⟩,
      fun owner run => ⟨run, ?_, fun addr lower upper => kept owner run addr
        (.inr ⟨lower, upper⟩)⟩⟩
    · rcases words addr with same | ⟨other, _, ⟨taken, takenMember, rfl⟩, word, _⟩
      · exact same
      · have large := (ok.payload_large takenMember).1
        have inTaken : addr ∈ w.territory fam (.runs other) :=
          ok.payload_territory ⟨taken, takenMember, rfl⟩ (by omega) (by omega)
        cases ok.tenant_unique inTaken (ok.nodeRange_territory node inNode)
    · unfold World.payloadBytes
      rw [kept owner run _ (.inl rfl)]
  gives _ _ := ⟨fun _ node => node, fun _ run => run⟩
  writes other distinct addr owned := by
    rcases words addr with same | ⟨owner, q, run, word, loose⟩
    · exact .inl same
    · have inTaken : addr ∈ w.territory fam (.runs owner) := by
        obtain ⟨allocation, member, rfl⟩ := run
        have large := (ok.payload_large member).1
        exact ok.payload_territory ⟨allocation, member, rfl⟩ (by omega) (by omega)
      rcases owned with owned | owned
      · cases ok.tenant_unique inTaken owned
      · cases ok.tenant_unique inTaken owned
        exact .inr ⟨q, .inr ⟨run, word⟩, loose⟩

end Classes

end Suballocated

end Allocazam
