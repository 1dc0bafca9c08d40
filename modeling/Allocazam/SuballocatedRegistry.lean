import Allocazam.PublishedList
import Allocazam.SuballocatedClassifier

/-!
# The registry of the thread states

A thread that touches a default allocator for the first time creates its state,
pushes it onto the registry of all states of the value type and keeps a pointer to
it.  The threads take the atomic steps of their pushes in any order, between the
calls of other threads and while others walk the registry.
-/

namespace Allocazam

namespace Suballocated

variable {Value Thread Bound Reader : Type} [DecidableEq Value]
  [DecidableEq Thread] [DecidableEq Bound] [DecidableEq Reader]
  {fam : Family Value Thread Bound}

namespace World

variable {w : World Value Thread Bound} {site : Site Value Thread Bound}
  {value : Value} {thread : Thread} {idx : Nat}

omit [DecidableEq Bound] in
theorem tlsPopWalk_created (owner fuel prev node : Nat) :
    (w.tlsPopWalk value thread idx owner fuel prev node).1.created = w.created := by
  induction fuel generalizing prev node with
  | zero => rfl
  | succ fuel ih =>
      unfold tlsPopWalk
      split
      · rfl
      split
      · exact ih node (w.mem node)
      · dsimp only
        split <;> rfl

theorem returnRun_created (p owner : Nat) :
    (w.returnRun fam value thread p owner).created = w.created := by
  unfold returnRun
  split <;> rfl

theorem tlsDrainWalk_created (keepCount fuel : Nat) (w : World Value Thread Bound) :
    (tlsDrainWalk fam value thread idx keepCount fuel w).created = w.created := by
  induction fuel generalizing w with
  | zero => rfl
  | succ fuel ih =>
      unfold tlsDrainWalk tlsPopAny
      split
      · dsimp only
        split
        · rfl
        · rw [ih, returnRun_created]
          rfl
      · rfl

theorem destroyCache_created :
    (w.destroyCache fam value thread).created = w.created := by
  have walks : ∀ fuel node (w : World Value Thread Bound),
      (destroyWalk fam value thread fuel node w).created = w.created := by
    intro fuel
    induction fuel with
    | zero => exact fun _ _ => rfl
    | succ fuel ih =>
        intro node w
        unfold destroyWalk
        split
        · rfl
        · dsimp only
          rw [ih]
          split
          · exact returnRun_created _ _
          · rfl
  unfold destroyCache
  induction List.range tlsRunClassCount generalizing w with
  | nil => rfl
  | cons idx indices ih =>
      rw [List.foldl_cons, ih]
      exact walks _ _ w

variable {a : Handle fam value}

theorem deallocate_created (p n : Nat) :
    (w.deallocate fam a thread p n).created = w.created := by
  have node : (w.freeNodeRouted fam a thread p).created = w.created := by
    unfold freeNodeRouted
    cases a with
    | defaultState stateless =>
        dsimp only
        split <;> rfl
    | explicitState state typed => rfl
    | runsOverride runs => rfl
  have run : (w.freeRunRouted fam a thread p).created = w.created := by
    unfold freeRunRouted
    cases a with
    | defaultState stateless => exact returnRun_created _ _
    | explicitState state typed => rfl
    | runsOverride runs => rfl
  unfold deallocate
  split
  · rfl
  split
  · split
    · exact node
    · exact run
  cases checkedMul n (fam.sizeOf value) with
  | none => exact run
  | some bytes =>
      dsimp only
      split
      · unfold deallocateToTlsRunCache
        dsimp only
        split
        · exact tlsDrainWalk_created _ _ w
        · rfl
      · exact run

theorem expand_created (p minNewBytes : Nat) :
    (w.expand fam a thread p minNewBytes).1.created = w.created := by
  unfold expand
  split
  · rfl
  cases a with
  | defaultState stateless =>
      dsimp only
      split
      · split
        · rfl
        split <;> rfl
      · rfl
  | explicitState state typed =>
      dsimp only
      split <;> rfl
  | runsOverride runs => rfl

theorem allocateForCache_created {target : Site Value Thread Bound}
    (os : Nat → Runner.Os) :
    (w.allocateForCache fam value thread target os idx).1.created = w.created := by
  have obtained : Confined fam target w
      (w.obtain fam value thread target os idx).1 := obtain_confined
  have same := obtained.created
  rw [allocateForCache_eq]
  generalize w.obtain fam value thread target os idx = outcome at same ⊢
  obtain ⟨w₁, exn | raw⟩ := outcome
  · exact same
  · dsimp only at same ⊢
    split
    · exact same
    unfold refillAndHandOut
    split
    · have refilled : (refill fam value thread target os idx
          (tlsRefillBatch - 1) w₁).1.created = w₁.created :=
        refill_created os _ w₁
      generalize refill fam value thread target os idx (tlsRefillBatch - 1) w₁ =
        result at refilled ⊢
      obtain ⟨w₂, exn | done⟩ := result <;> exact refilled.trans same
    · exact same

section Settled

variable (settled : a.mode = .defaultState →
  site = .thread value thread → w.created site = true)

include settled

theorem runsPtr_settled (room : Bool) :
    (w.runsPtr fam a thread room).1.created site = w.created site := by
  unfold runsPtr
  cases a with
  | defaultState stateless =>
      dsimp only
      unfold threadState
      dsimp only
      split
      · rfl
      rename_i missing
      split
      · apply Function.update_of_ne
        rintro rfl
        exact missing (settled rfl rfl)
      · rfl
  | explicitState state typed => rfl
  | runsOverride runs => rfl

theorem allocState_settled (room : Bool) :
    (w.allocState fam a thread room).1.created site = w.created site := by
  have resolves := runsPtr_settled settled room
  unfold runsPtr at resolves
  unfold allocState
  cases a with
  | defaultState stateless =>
      dsimp only at resolves ⊢
      generalize w.threadState fam value thread room = outcome at resolves ⊢
      obtain ⟨w₁, exn | target⟩ := outcome <;> exact resolves
  | explicitState state typed => rfl
  | runsOverride runs => rfl

theorem allocateRun_settled (room : Bool) (os : Runner.Os) (bytes : Nat) :
    (w.allocateRun fam a thread room os bytes).1.created site = w.created site := by
  have resolves := runsPtr_settled settled room
  unfold allocateRun
  generalize w.runsPtr fam a thread room = outcome at resolves ⊢
  obtain ⟨w₁, exn | target⟩ := outcome
  · exact resolves
  · dsimp only at resolves ⊢
    have called : (w₁.allocateBytes fam target os bytes
        (fam.alignOf value)).1.created = w₁.created := rfl
    generalize w₁.allocateBytes fam target os bytes (fam.alignOf value) = result
      at called ⊢
    obtain ⟨w₂, exn | raw⟩ := result
    · exact (congrFun called site).trans resolves
    · dsimp only at called ⊢
      split <;> exact (congrFun called site).trans resolves

variable {env : Environment}

theorem allocateNode_settled :
    (w.allocateNode fam a thread env).1.created site = w.created site := by
  have resolves := allocState_settled settled env.room
  unfold allocateNode
  generalize w.allocState fam a thread env.room = outcome at resolves ⊢
  obtain ⟨w₁, exn | none | target⟩ := outcome
  · exact resolves
  · dsimp only at resolves ⊢
    have still : a.mode = .defaultState → site = .thread value thread →
        w₁.created site = true := fun mode same =>
      resolves.trans (settled mode same)
    exact (allocateRun_settled still _ _ _).trans resolves
  · dsimp only at resolves ⊢
    generalize (w₁.pool target).allocate (fam.poolConfig target) env.heap = result
    obtain ⟨s, exn | p⟩ := result
    · exact resolves
    · dsimp only
      split <;> exact resolves

theorem allocateFromTlsRunCache_settled (bytes : Nat) :
    (w.allocateFromTlsRunCache fam a thread env bytes).1.created site =
      w.created site := by
  have resolves := runsPtr_settled settled env.room
  unfold allocateFromTlsRunCache
  generalize w.runsPtr fam a thread env.room = outcome at resolves ⊢
  obtain ⟨w₁, exn | target⟩ := outcome
  · exact resolves
  · dsimp only at resolves ⊢
    have popped : (w₁.tlsPopForOwner value thread (tlsClassIndexFor bytes)
        (fam.runsAt target)).1.created = w₁.created := tlsPopWalk_created _ _ _ _
    generalize w₁.tlsPopForOwner value thread (tlsClassIndexFor bytes)
      (fam.runsAt target) = result at popped ⊢
    obtain ⟨w₂, node⟩ := result
    dsimp only at popped ⊢
    split
    · exact (congrFun popped site).trans resolves
    · rw [allocateForCache_created, popped]
      exact resolves

theorem allocate_settled (n : Nat) :
    (w.allocate fam a thread env n).1.created site = w.created site := by
  unfold allocate
  split
  · rfl
  split
  · rfl
  split
  · exact allocateNode_settled settled
  cases checkedMul n (fam.sizeOf value) with
  | none => rfl
  | some bytes =>
      have rest : ∀ p (w' : World Value Thread Bound),
          w'.created site = w.created site →
            (w'.allocateRest fam a thread env bytes p).1.created site =
              w.created site := by
        intro p w' same
        unfold allocateRest
        split
        · exact same
        · have still : a.mode = .defaultState → site = .thread value thread →
              w'.created site = true := fun mode here =>
            same.trans (settled mode here)
          exact (allocateRun_settled still _ _ _).trans same
      dsimp only
      split
      · have cached : (w.allocateFromTlsRunCache fam a thread env
            bytes).1.created site = w.created site :=
          allocateFromTlsRunCache_settled settled bytes
        generalize w.allocateFromTlsRunCache fam a thread env bytes = outcome
          at cached ⊢
        obtain ⟨w₁, exn | p⟩ := outcome
        · exact cached
        · exact rest p w₁ cached
      · exact rest 0 w rfl

end Settled

omit [DecidableEq Reader] in
theorem construct_created (state : Bound) (heap : Pool.Heap) (os : Runner.Os)
    (arguments : Arguments) :
    (w.construct fam (.bound state) heap os arguments).1.created
        (.thread value thread) = w.created (.thread value thread) := by
  have apart : (Site.thread value thread : Site Value Thread Bound) ≠
      .bound state := by simp
  cases arguments with
  | sized poolSize runnerBytes =>
      unfold construct constructSized
      dsimp only
      generalize Pool.State.construct (fam.poolConfig (.bound state)) heap w.mem
        poolSize = pool
      obtain exn | pool := pool
      · rfl
      dsimp only
      generalize Runner.State.construct (fam.runsConfig (.bound state)) os pool.mem
        _ = runs
      obtain exn | runs := runs
      · rfl
      · exact Function.update_of_ne apart true w.created
  | deferred => exact Function.update_of_ne apart true w.created
  | backed nodeData nodeSize runData runSize =>
      unfold construct constructBacked
      dsimp only
      generalize Pool.State.constructExternal (fam.poolConfig (.bound state)) w.mem
        nodeData nodeSize = pool
      obtain exn | pool := pool
      · rfl
      dsimp only
      generalize Runner.State.constructExternal pool.mem runData runSize = runs
      obtain exn | runs := runs
      · rfl
      · exact Function.update_of_ne apart true w.created

end World

/-- An allocation of this many values draws from the state of the calling
thread. -/
def Handle.Touches {value : Value} (a : Handle fam value) (n : Nat) : Prop :=
  a.mode = .defaultState ∧ n ≠ 0 ∧ n ≤ fam.maxSize value

/-- The thread needs its state for the value type in the call. -/
def Operation.Touches (value : Value) (thread : Thread) : Operation fam → Prop
  | @Operation.allocate _ _ _ _ value' a thread' _ n =>
      value' = value ∧ thread' = thread ∧ a.Touches n
  | @Operation.allocateAtLeast _ _ _ _ value' a thread' _ n =>
      value' = value ∧ thread' = thread ∧ n ≠ 0 ∧
        a.Touches (World.growthCount fam value' n)
  | _ => False

/-- `_state_registry` with the threads that push onto it or walk it, and
`_tls_state` of each thread. -/
structure Registry (Thread Reader : Type) where
  list : Publication.Board Thread Reader
  tlsState : Thread → Nat

namespace Registry

variable (registry : Registry Thread Reader) (thread : Thread)

def Creates (node : Nat) : Prop :=
  node ≠ 0 ∧ registry.tlsState thread = node ∨
    (registry.list.phase thread).Holds node

def Pushed (node : Nat) : Prop :=
  node ≠ 0 ∧ registry.tlsState thread = node ∨
    registry.list.phase thread = .published node

/-- The end of `_thread_state`: the thread keeps the pointer. -/
def keep (node : Nat) : Registry Thread Reader :=
  ⟨registry.list.finish thread,
    Function.update registry.tlsState thread node⟩

/-- An atomic step of `_thread_state` before its end, or of a walk. -/
inductive Step : Registry Thread Reader → Registry Thread Reader → Prop
  /-- `_tls_state` is null, and a state is created where no other lies. -/
  | create {registry : Registry Thread Reader} (thread : Thread) (node : Nat)
      (idle : registry.list.phase thread = .idle)
      (missing : registry.tlsState thread = 0) (nonnull : node ≠ 0)
      (fresh : ∀ other, ¬ registry.Creates other node) :
      Step registry { registry with list := registry.list.create thread node }
  | push {registry : Registry Thread Reader}
      {list : Publication.Board Thread Reader}
      (moves : Publication.Step registry.list list) :
      Step registry { registry with list }

end Registry

/-- A session, and the registry of each value type. -/
structure Registration (fam : Family Value Thread Bound) (Reader : Type) where
  session : Session fam
  registry : Value → Registry Thread Reader

namespace Registration

variable (registration : Registration fam Reader)

def setRegistry (value : Value) (registry : Registry Thread Reader) :
    Registration fam Reader :=
  { registration with
    registry := Function.update registration.registry value registry }

def setWorld (w : World Value Thread Bound) : Registration fam Reader :=
  { registration with session := { registration.session with world := w } }

/-- A thread keeps the pointer to its state, which is its own from here on. -/
def keep (value : Value) (thread : Thread) (node : Nat) :
    Registration fam Reader :=
  (registration.setWorld
    (registration.session.world.threadState fam value thread true).1).setRegistry
    value ((registration.registry value).keep thread node)

end Registration

/-- An atomic step of `_thread_state` or of a walk, a call of a thread that has the
states it needs, or a write by a user. -/
inductive Registers (fam : Family Value Thread Bound) :
    Registration fam Reader → Registration fam Reader → Prop
  | push {registration : Registration fam Reader} (value : Value)
      {registry : Registry Thread Reader} (stateless : fam.stateless = true)
      (moves : Registry.Step (registration.registry value) registry) :
      Registers fam registration (registration.setRegistry value registry)
  | keep {registration : Registration fam Reader} (value : Value)
      (thread : Thread) {node : Nat} (stateless : fam.stateless = true)
      (published :
        (registration.registry value).list.phase thread = .published node) :
      Registers fam registration (registration.keep value thread node)
  | call {registration : Registration fam Reader} (operation : Operation fam)
      (allowed : registration.session.Allows operation)
      (ready : ∀ value thread, operation.Touches value thread →
        (registration.registry value).tlsState thread ≠ 0) :
      Registers fam registration
        { registration with session := registration.session.perform operation }
  | store {registration : Registration fam Reader} (addr written : Nat)
      (writable : registration.session.Writable addr) :
      Registers fam registration
        (registration.setWorld (registration.session.world.write addr written))
  | elsewhere {registration : Registration fam Reader} (addr written : Nat)
      (unused : addr ∉ registration.session.world.inUse fam) :
      Registers fam registration
        (registration.setWorld (registration.session.world.write addr written))

/-- The runs of a program whose threads meet while they create their states. -/
def registrations (fam : Family Value Thread Bound) (Reader : Type)
    [DecidableEq Reader] : TransitionSystem (Registration fam Reader) where
  start registration := ∃ mem, registration =
    ⟨⟨World.initial fam mem, [], fun _ _ => false⟩, fun _ => ⟨.empty, fun _ => 0⟩⟩
  step := Registers fam

/-- The states on the list are those whose push has completed, and no two threads
have created one state. -/
structure RegistryOk (registry : Registry Thread Reader) : Prop where
  list : Publication.Ok registry.list
  idle : ∀ thread, registry.tlsState thread ≠ 0 →
    registry.list.phase thread = .idle
  pushed : ∀ node, node ∈ registry.list.completed ↔
    ∃ thread, registry.Pushed thread node
  own : ∀ one two node, registry.Creates one node → registry.Creates two node →
    one = two

namespace RegistryOk

variable {registry registry' : Registry Thread Reader} {thread other : Thread}
  {node : Nat}

omit [DecidableEq Thread] [DecidableEq Reader] in
theorem empty_ok : RegistryOk (⟨.empty, fun _ => 0⟩ : Registry Thread Reader) where
  list := Publication.empty_ok
  idle _ made := absurd rfl made
  pushed node := by
    refine iff_of_false (by simp [Publication.Board.empty]) ?_
    rintro ⟨thread, ⟨nonnull, same⟩ | ⟨⟨⟩⟩⟩
    exact nonnull same.symm
  own one two node := by
    rintro (⟨nonnull, same⟩ | ⟨⟨⟩⟩)
    exact absurd same.symm nonnull

omit [DecidableEq Thread] [DecidableEq Reader] in
theorem creates_of_pushed (pushed : registry.Pushed thread node) :
    registry.Creates thread node := by
  rcases pushed with kept | published
  · exact Or.inl kept
  · refine Or.inr ?_
    rw [published]
    rfl

variable (ok : RegistryOk registry)

include ok

omit [DecidableEq Thread] [DecidableEq Reader] in
/-- A thread creates one state. -/
theorem creates_unique {one two : Nat} (first : registry.Creates thread one)
    (second : registry.Creates thread two) : one = two := by
  have idle : registry.tlsState thread ≠ 0 → ∀ held,
      ¬ (registry.list.phase thread).Holds held := by
    intro made held
    rw [ok.idle thread made]
    exact id
  rcases first with ⟨some, rfl⟩ | firstHolds <;>
    rcases second with ⟨someToo, rfl⟩ | secondHolds
  · rfl
  · exact absurd secondHolds (idle some two)
  · exact absurd firstHolds (idle someToo one)
  · exact firstHolds.unique secondHolds

omit [DecidableEq Reader] in
theorem create (idle : registry.list.phase thread = .idle)
    (missing : registry.tlsState thread = 0) (nonnull : node ≠ 0)
    (fresh : ∀ other, ¬ registry.Creates other node) :
    RegistryOk { registry with list := registry.list.create thread node } := by
  have outside : node ∉ registry.list.completed := by
    intro member
    obtain ⟨other, pushed⟩ := (ok.pushed node).mp member
    exact fresh other (creates_of_pushed pushed)
  have holder : ∀ other held,
      Registry.Creates { registry with list := registry.list.create thread node }
        other held → other = thread ∧ held = node ∨ registry.Creates other held := by
    rintro other held (kept | holds)
    · exact Or.inr (Or.inl kept)
    · rcases Publication.Board.setPhase_holds holds with ⟨rfl, ⟨⟩⟩ | ⟨_, before⟩
      · exact Or.inl ⟨rfl, rfl⟩
      · exact Or.inr (Or.inr before)
  exact
    { list := ok.list.create nonnull
        (fun other holds => fresh other (Or.inr holds)) outside
      idle := by
        intro other made
        have apart : other ≠ thread := by
          rintro rfl
          exact made missing
        exact (Publication.Board.setPhase_of_ne apart).trans (ok.idle other made)
      pushed := by
        intro held
        show held ∈ registry.list.completed ↔ _
        rw [ok.pushed held]
        refine exists_congr fun other => or_congr_right ?_
        show _ ↔ (registry.list.setPhase thread (.loading node)).phase other = _
        by_cases moved : other = thread
        · subst moved
          rw [idle, Publication.Board.setPhase_self]
          simp
        · rw [Publication.Board.setPhase_of_ne moved]
      own := by
        intro one two held first second
        rcases holder one held first with ⟨rfl, rfl⟩ | firstBefore <;>
          rcases holder two held second with ⟨rfl, same⟩ | secondBefore
        · rfl
        · exact absurd secondBefore (fresh two)
        · rw [same] at firstBefore
          exact absurd firstBefore (fresh one)
        · exact ok.own one two held firstBefore secondBefore }

theorem push {list : Publication.Board Thread Reader}
    (moves : Publication.Step registry.list list) :
    RegistryOk { registry with list } where
  list := ok.list.step moves
  idle other made := by
    have before := ok.idle other made
    have none : ∀ held, ¬ (list.phase other).Holds held := by
      intro held
      rw [moves.holds_iff, before]
      exact id
    cases now : list.phase other with
    | idle => rfl
    | loading held => exact absurd rfl (now ▸ none held)
    | linking held expected => exact absurd rfl (now ▸ none held)
    | exchanging held expected => exact absurd rfl (now ▸ none held)
    | published held => exact absurd rfl (now ▸ none held)
  pushed held := by
    constructor
    · intro member
      rcases moves.listed member with older | ⟨other, published⟩
      · obtain ⟨other, kept | published⟩ := (ok.pushed held).mp older
        · exact ⟨other, Or.inl kept⟩
        · exact ⟨other, Or.inr (moves.published published)⟩
      · exact ⟨other, Or.inr published⟩
    · rintro ⟨other, kept | published⟩
      · exact moves.completed_suffix.subset
          ((ok.pushed held).mpr ⟨other, Or.inl kept⟩)
      · exact (ok.list.step moves).listed other held published
  own one two held first second := by
    have before : ∀ other, Registry.Creates { registry with list } other held →
        registry.Creates other held := by
      rintro other (kept | holds)
      · exact Or.inl kept
      · exact Or.inr (moves.holds_iff.mp holds)
    exact ok.own one two held (before one first) (before two second)

theorem step (moves : Registry.Step registry registry') : RegistryOk registry' := by
  cases moves with
  | create thread node idle missing nonnull fresh =>
      exact ok.create idle missing nonnull fresh
  | push moves => exact ok.push moves

omit [DecidableEq Reader] in
/-- A thread whose push has completed keeps its state. -/
theorem keep (published : registry.list.phase thread = .published node) :
    RegistryOk (registry.keep thread node) := by
  have holds : (registry.list.phase thread).Holds node := by
    rw [published]
    rfl
  have nonnull : node ≠ 0 := ok.list.nonnull thread node holds
  have missing : registry.tlsState thread = 0 := by
    by_contra made
    rw [ok.idle thread made] at published
    cases published
  have idle : (registry.keep thread node).list.phase thread = .idle :=
    Publication.Board.setPhase_self
  have kept : (registry.keep thread node).tlsState thread = node :=
    Function.update_self _ _ _
  have idle_of_ne : ∀ other ≠ thread,
      (registry.keep thread node).list.phase other = registry.list.phase other :=
    fun other apart => Publication.Board.setPhase_of_ne apart
  have kept_of_ne : ∀ other ≠ thread,
      (registry.keep thread node).tlsState other = registry.tlsState other :=
    fun other apart => Function.update_of_ne apart _ _
  have pushed : ∀ other held, (registry.keep thread node).Pushed other held ↔
      registry.Pushed other held := by
    intro other held
    unfold Registry.Pushed
    by_cases moved : other = thread
    · subst moved
      rw [idle, kept, missing, published]
      simp only [Publication.Phase.published.injEq, reduceCtorEq, or_false]
      constructor
      · exact fun same => Or.inr same.2
      · rintro (⟨some, null⟩ | same)
        · exact absurd null.symm some
        · exact ⟨same ▸ nonnull, same⟩
    · rw [idle_of_ne other moved, kept_of_ne other moved]
  have creates : ∀ other held, (registry.keep thread node).Creates other held →
      registry.Creates other held := by
    intro other held
    unfold Registry.Creates
    by_cases moved : other = thread
    · subst moved
      rw [idle, kept]
      rintro (⟨_, rfl⟩ | ⟨⟨⟩⟩)
      exact Or.inr holds
    · rw [idle_of_ne other moved, kept_of_ne other moved]
      exact id
  exact
    { list := ok.list.finish
      idle := by
        intro other made
        by_cases moved : other = thread
        · subst moved
          exact idle
        · rw [kept_of_ne other moved] at made
          exact (idle_of_ne other moved).trans (ok.idle other made)
      pushed := by
        intro held
        exact (ok.pushed held).trans
          (exists_congr fun other => (pushed other held).symm)
      own := fun one two held first second =>
        ok.own one two held (creates one held first) (creates two held second) }

end RegistryOk

/-- A later registry: every thread has the state it had, and the list has only
grown at its head. -/
structure Registry.Extends (later registry : Registry Thread Reader) : Prop where
  tlsState : ∀ thread, registry.tlsState thread ≠ 0 →
    later.tlsState thread = registry.tlsState thread
  creates : ∀ thread node, registry.Creates thread node → later.Creates thread node
  completed : registry.list.completed <:+ later.list.completed

namespace Registry

variable {registry later last : Registry Thread Reader} {thread : Thread}
  {node : Nat}

omit [DecidableEq Thread] [DecidableEq Reader] in
theorem Extends.refl (registry : Registry Thread Reader) :
    registry.Extends registry :=
  ⟨fun _ _ => rfl, fun _ _ => id, List.suffix_rfl⟩

omit [DecidableEq Thread] [DecidableEq Reader] in
theorem Extends.trans (further : last.Extends later)
    (extended : later.Extends registry) : last.Extends registry where
  tlsState thread made := by
    have same := extended.tlsState thread made
    rw [← same] at made
    exact (further.tlsState thread made).trans same
  creates thread node creates :=
    further.creates thread node (extended.creates thread node creates)
  completed := extended.completed.trans further.completed

theorem Step.extends (moves : Step registry later) : later.Extends registry where
  tlsState thread made := by
    cases moves <;> rfl
  creates thread node := by
    rintro (kept | holds)
    · cases moves <;> exact Or.inl kept
    refine Or.inr ?_
    cases moves with
    | create other fresh idle missing nonnull unused =>
        have apart : thread ≠ other := by
          rintro rfl
          rw [idle] at holds
          cases holds
        show ((registry.list.setPhase other _).phase thread).Holds node
        rwa [Publication.Board.setPhase_of_ne apart]
    | push moves => exact moves.holds_iff.mpr holds
  completed := by
    cases moves with
    | create => exact List.suffix_rfl
    | push moves => exact moves.completed_suffix

omit [DecidableEq Reader] in
theorem keep_extends (ok : RegistryOk registry)
    (published : registry.list.phase thread = .published node) :
    (registry.keep thread node).Extends registry where
  tlsState other made := by
    apply Function.update_of_ne
    rintro rfl
    rw [ok.idle other made] at published
    cases published
  creates other held := by
    by_cases moved : other = thread
    · subst moved
      rintro (⟨nonnull, same⟩ | holds)
      · subst same
        rw [ok.idle other nonnull] at published
        cases published
      · refine Or.inl ⟨ok.list.nonnull other held holds, ?_⟩
        rw [published] at holds
        exact (Function.update_self _ _ _).trans holds
    · unfold Creates
      rw [show (registry.keep thread node).list.phase other =
          registry.list.phase other from Publication.Board.setPhase_of_ne moved,
        show (registry.keep thread node).tlsState other = registry.tlsState other
          from Function.update_of_ne moved _ _]
      exact id
  completed := List.suffix_rfl

end Registry

section Calls

variable {session : Session fam} {value value' : Value} {thread thread' : Thread}
  {a : Handle fam value'} {env : Environment}

/-- An allocation creates no state but the one it touches. -/
theorem World.allocate_created {w : World Value Thread Bound} {n : Nat}
    (ready : value' = value → thread' = thread → a.Touches n →
      w.created (.thread value thread) = true) :
    (w.allocate fam a thread' env n).1.created (.thread value thread) =
      w.created (.thread value thread) := by
  by_cases none : n = 0
  · unfold World.allocate
    rw [if_pos none]
  by_cases large : n > fam.maxSize value'
  · unfold World.allocate
    rw [if_neg none, if_pos large]
  · apply World.allocate_settled
    rintro mode ⟨⟩
    exact ready rfl rfl ⟨mode, none, by omega⟩

omit [DecidableEq Reader] in
theorem Session.perform_created {operation : Operation fam}
    (ready : operation.Touches value thread →
      session.world.created (.thread value thread) = true) :
    (session.perform operation).world.created (.thread value thread) =
      session.world.created (.thread value thread) := by
  cases operation with
  | construct state heap os arguments =>
      exact World.construct_created state heap os arguments
  | allocate a thread' env n =>
      rw [Session.perform_allocate, Session.finish_world]
      apply World.allocate_created
      exact fun sameValue sameThread touches =>
        ready ⟨sameValue, sameThread, touches⟩
  | allocateAtLeast a thread' env n =>
      by_cases none : n = 0
      · subst none
        rfl
      rw [Session.perform_allocateAtLeast none, Session.finish_world]
      apply World.allocate_created
      exact fun sameValue sameThread touches =>
        ready ⟨sameValue, sameThread, none, touches⟩
  | deallocate item b thread' m =>
      exact congrFun (World.deallocate_created item.ptr m) _
  | expand item b thread' minNewBytes =>
      exact congrFun (World.expand_created item.ptr minNewBytes) _
  | exit value' thread' =>
      rw [Session.perform_exit]
      have same : (session.world.destroyCache fam value' thread').created =
          session.world.created := World.destroyCache_created
      generalize session.world.destroyCache fam value' thread' = w at same ⊢
      exact congrFun same _

end Calls

/-- The invariant of the runs: a thread has a state of the session when it keeps a
pointer to it. -/
structure RegistrationOk (registration : Registration fam Reader) : Prop where
  session : ∃ ledger, SessionOk registration.session ledger
  registry : ∀ value, RegistryOk (registration.registry value)
  created : ∀ value thread,
    registration.session.world.created (.thread value thread) = true ↔
      (registration.registry value).tlsState thread ≠ 0

def Registration.Extends (later registration : Registration fam Reader) : Prop :=
  ∀ value, (later.registry value).Extends (registration.registry value)

namespace Registration

variable {registration later : Registration fam Reader} {value : Value}
  {thread : Thread} {node : Nat}

omit [DecidableEq Thread] [DecidableEq Bound] [DecidableEq Reader] in
theorem setRegistry_self (registry : Registry Thread Reader) :
    (registration.setRegistry value registry).registry value = registry :=
  Function.update_self _ _ _

omit [DecidableEq Thread] [DecidableEq Bound] [DecidableEq Reader] in
theorem setRegistry_of_ne {other : Value} (apart : other ≠ value)
    (registry : Registry Thread Reader) :
    (registration.setRegistry value registry).registry other =
      registration.registry other :=
  Function.update_of_ne apart _ _

omit [DecidableEq Thread] [DecidableEq Bound] [DecidableEq Reader] in
theorem setRegistry_extends {registry : Registry Thread Reader}
    (extended : registry.Extends (registration.registry value)) :
    (registration.setRegistry value registry).Extends registration := by
  intro other
  by_cases moved : other = value
  · subst moved
    rw [setRegistry_self]
    exact extended
  · rw [setRegistry_of_ne moved]
    exact .refl _

end Registration

namespace RegistrationOk

variable {registration later : Registration fam Reader} {value : Value}
  {thread : Thread} {node : Nat}
variable (ok : RegistrationOk registration)

include ok

omit [DecidableEq Thread] [DecidableEq Bound] [DecidableEq Reader] in
theorem setRegistry_ok {registry : Registry Thread Reader}
    (registryOk : RegistryOk registry) (other : Value) :
    RegistryOk ((registration.setRegistry value registry).registry other) := by
  by_cases moved : other = value
  · subst moved
    rw [Registration.setRegistry_self]
    exact registryOk
  · rw [Registration.setRegistry_of_ne moved]
    exact ok.registry other

omit [DecidableEq Bound] in
theorem push {registry : Registry Thread Reader}
    (moves : Registry.Step (registration.registry value) registry) :
    RegistrationOk (registration.setRegistry value registry) where
  session := ok.session
  registry := ok.setRegistry_ok ((ok.registry value).step moves)
  created other thread := by
    have same : ((registration.setRegistry value registry).registry
        other).tlsState = (registration.registry other).tlsState := by
      by_cases moved : other = value
      · subst moved
        rw [Registration.setRegistry_self]
        cases moves <;> rfl
      · rw [Registration.setRegistry_of_ne moved]
    rw [same]
    exact ok.created other thread

omit [DecidableEq Reader] in
/-- The state that a thread keeps is the one the session creates for it. -/
theorem keep (stateless : fam.stateless = true)
    (published :
      (registration.registry value).list.phase thread = .published node) :
    RegistrationOk (registration.keep value thread node) where
  session := by
    obtain ⟨ledger, session⟩ := ok.session
    exact ⟨ledger, (session.world.threadState value thread true stateless).1,
      session.cached⟩
  registry := ok.setRegistry_ok ((ok.registry value).keep published)
  created other thread' := by
    have made : ∀ site, (registration.session.world.threadState fam value thread
        true).1.created site =
          if site = .thread value thread then true
          else registration.session.world.created site := by
      intro site
      unfold World.threadState
      dsimp only
      split
      · rename_i before
        split
        · rename_i same
          rw [same, before]
        · rfl
      · rw [if_pos rfl]
        dsimp only
        rw [Function.update_apply]
    have nonnull : node ≠ 0 := by
      apply (ok.registry value).list.nonnull thread node
      rw [published]
      rfl
    show (registration.session.world.threadState fam value thread
      true).1.created (.thread other thread') = true ↔ _
    rw [made]
    by_cases moved : other = value
    · subst moved
      rw [show (registration.keep other thread node).registry other =
        (registration.registry other).keep thread node from
          Registration.setRegistry_self _]
      show _ ↔ Function.update (registration.registry other).tlsState thread node
        thread' ≠ 0
      by_cases own : thread' = thread
      · subst own
        rw [if_pos rfl, Function.update_self]
        exact iff_of_true rfl nonnull
      · rw [if_neg (by simpa using own), Function.update_of_ne own]
        exact ok.created other thread'
    · rw [if_neg (by simp [moved]),
        show (registration.keep value thread node).registry other =
          registration.registry other from
            Registration.setRegistry_of_ne moved _]
      exact ok.created other thread'

theorem step (moves : Registers fam registration later) :
    RegistrationOk later := by
  obtain ⟨ledger, session⟩ := ok.session
  cases moves with
  | push value stateless moves => exact ok.push moves
  | keep value thread stateless published => exact ok.keep stateless published
  | call operation allowed ready =>
      obtain ⟨next, after, _⟩ := session.call allowed
      refine ⟨⟨next, after⟩, ok.registry, fun value thread => ?_⟩
      rw [← ok.created value thread]
      apply Eq.congr_left
      apply Session.perform_created
      exact fun touches => (ok.created value thread).mpr (ready _ _ touches)
  | store addr written writable =>
      exact ⟨⟨ledger, session.store written writable⟩, ok.registry, ok.created⟩
  | elsewhere addr written unused =>
      exact ⟨⟨ledger, session.elsewhere written unused⟩, ok.registry, ok.created⟩

theorem step_extends (moves : Registers fam registration later) :
    later.Extends registration := by
  cases moves with
  | push value stateless moves =>
      exact Registration.setRegistry_extends moves.extends
  | keep value thread stateless published =>
      exact Registration.setRegistry_extends
        (Registry.keep_extends (ok.registry value) published)
  | _ => exact fun value => .refl _

end RegistrationOk

/-- The invariant holds in every run. -/
theorem registrations_inductive :
    (registrations fam Reader).Inductive RegistrationOk where
  start registration starts := by
    obtain ⟨mem, rfl⟩ := starts
    refine ⟨?_, fun _ => .empty_ok, fun _ _ => ?_⟩
    · exact sessions_inductive.start _ ⟨mem, rfl⟩
    · exact iff_of_false Bool.false_ne_true (absurd rfl)
  step _ _ ok moves := ok.step moves

theorem run_extends {registration later : Registration fam Reader}
    (ok : RegistrationOk registration)
    (run : Relation.ReflTransGen (Registers fam) registration later) :
    RegistrationOk later ∧ later.Extends registration := by
  induction run with
  | refl => exact ⟨ok, fun value => .refl _⟩
  | tail _ moves ih =>
      obtain ⟨before, extended⟩ := ih
      exact ⟨before.step moves,
        fun value => (before.step_extends moves value).trans (extended value)⟩

theorem push_reachable {registration : Registration fam Reader} {value : Value}
    {registry : Registry Thread Reader} (stateless : fam.stateless = true)
    (reachable : (registrations fam Reader).Reachable registration)
    (run : Relation.ReflTransGen Registry.Step (registration.registry value)
      registry) :
    (registrations fam Reader).Reachable
      (registration.setRegistry value registry) := by
  induction run with
  | refl =>
      unfold Registration.setRegistry
      rw [Function.update_eq_self]
      exact reachable
  | @tail before after _ moves ih =>
      have same : registration.setRegistry value after =
          (registration.setRegistry value before).setRegistry value after := by
        unfold Registration.setRegistry
        rw [Function.update_idem]
      rw [same]
      refine .step ih (.push value stateless ?_)
      rwa [Registration.setRegistry_self]

/-- Each list from a registry head is acyclic and consists of the states whose push
has completed, walks see what was on it when they began, no two threads have one
state and no thread has two, and all of this lasts.  Neither `deallocate` nor
`expand` creates a state. -/
theorem registry_sound {registration : Registration fam Reader}
    (reachable : (registrations fam Reader).Reachable registration) :
    (∀ value, IsStack (registration.registry value).list.next
        (registration.registry value).list.head
        (registration.registry value).list.completed ∧
      (registration.registry value).list.completed.Nodup ∧
      (∀ node, node ∈ (registration.registry value).list.completed ↔
        ∃ thread, (registration.registry value).Pushed thread node) ∧
      ∀ reader walk, (registration.registry value).list.walks reader = some walk →
        Publication.WalkOk (registration.registry value).list walk) ∧
    (∀ value one two node, (registration.registry value).Creates one node →
      (registration.registry value).Creates two node → one = two) ∧
    (∀ value thread one two, (registration.registry value).Creates thread one →
      (registration.registry value).Creates thread two → one = two) ∧
    (∀ later, Relation.ReflTransGen (Registers fam) registration later →
      ∀ value, (registration.registry value).list.completed <:+
          (later.registry value).list.completed ∧
        (∀ thread node, (registration.registry value).Creates thread node →
          (later.registry value).Creates thread node) ∧
        ∀ thread, (registration.registry value).tlsState thread ≠ 0 →
          (later.registry value).tlsState thread =
              (registration.registry value).tlsState thread ∧
            ∀ room, later.session.world.threadState fam value thread room =
              (later.session.world, .ok (.thread value thread))) ∧
    ∀ (w : World Value Thread Bound) (value : Value) (a : Handle fam value)
      (thread : Thread) (p n : Nat),
      (w.deallocate fam a thread p n).created = w.created ∧
        (w.expand fam a thread p n).1.created = w.created := by
  have ok := registrations_inductive.reachable reachable
  refine ⟨fun value => ?_, fun value => (ok.registry value).own,
    fun value thread one two => (ok.registry value).creates_unique, ?_, ?_⟩
  · have list := (ok.registry value).list
    exact ⟨list.chain, list.chain.nodup, (ok.registry value).pushed, list.walks⟩
  · intro later run value
    obtain ⟨okLater, extended⟩ := run_extends ok run
    refine ⟨(extended value).completed, (extended value).creates,
      fun thread made => ?_⟩
    have same := (extended value).tlsState thread made
    refine ⟨same, fun room => ?_⟩
    rw [← same] at made
    unfold World.threadState
    exact if_pos ((okLater.created value thread).mpr made)
  · exact fun w value a thread p n =>
      ⟨World.deallocate_created p n, World.expand_created p n⟩

/-- Two threads create their states at once. -/
def sampleRegistration : Registration fixedFamily Unit :=
  ⟨sampleStart fixedFamily, fun _ => ⟨.empty, fun _ => 0⟩⟩

/-- Both threads have created a state. -/
def createdList : Publication.Board Bool Unit :=
  (Publication.Board.empty.create false 64).create true 128

/-- Both load the null head, and the exchange of the second thread fails. -/
def racedList : Publication.Board Bool Unit :=
  (((((((createdList.load false 64).load true 128).link false 64 0).link true 128
    0).exchange false 64).load true 128).link true 128 64).exchange true 128

theorem racedList_reached :
    Relation.ReflTransGen Publication.Step createdList racedList :=
  .head (.load false rfl) <| .head (.load true rfl) <| .head (.link false rfl) <|
    .head (.link true rfl) <| .head (.exchange false rfl) <|
    .head (.retry true rfl) <| .head (.link true rfl) <|
    .head (.exchange true rfl) .refl

theorem racedRegistry_reached :
    Relation.ReflTransGen Registry.Step
      (⟨.empty, fun _ => 0⟩ : Registry Bool Unit) ⟨racedList, fun _ => 0⟩ := by
  have fresh : ∀ (list : Publication.Board Bool Unit) node, node ≠ 0 →
      (∀ other, ¬ (list.phase other).Holds node) →
        ∀ other, ¬ (⟨list, fun _ => 0⟩ : Registry Bool Unit).Creates other node := by
    rintro list node nonnull unheld other (⟨_, same⟩ | holds)
    · exact nonnull same.symm
    · exact unheld other holds
  refine .head (.create false 64 rfl rfl (by decide)
    (fresh _ _ (by decide) (by decide))) ?_
  refine .head (.create true 128 rfl rfl (by decide)
    (fresh _ _ (by decide) (by decide))) ?_
  exact racedList_reached.lift (fun list => (⟨list, fun _ => 0⟩ : Registry Bool Unit))
    fun _ _ moves => .push moves

/-- The second thread keeps its state before the first one does. -/
def racedRegistration : Registration fixedFamily Unit :=
  (sampleRegistration.setRegistry false ⟨racedList, fun _ => 0⟩).keep false true 128

theorem racedRegistration_reachable :
    (registrations fixedFamily Unit).Reachable racedRegistration := by
  have raced : (registrations fixedFamily Unit).Reachable
      (sampleRegistration.setRegistry false ⟨racedList, fun _ => 0⟩) :=
    push_reachable rfl (.start ⟨_, rfl⟩) racedRegistry_reached
  exact .step raced (.keep false true rfl rfl)

/-- The list holds both states, and the second thread goes on with its own. -/
theorem racedRegistration_sound :
    (racedRegistration.registry false).list.completed = [128, 64] ∧
      (racedRegistration.registry false).tlsState true = 128 ∧
      racedRegistration.session.world.threadState fixedFamily false true false =
        (racedRegistration.session.world, .ok (.thread false true)) :=
  ⟨rfl, rfl, (((registry_sound racedRegistration_reachable).2.2.2.1
    racedRegistration .refl false).2.2 true (by decide)).2 false⟩

end Suballocated

end Allocazam
