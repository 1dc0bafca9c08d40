import Allocazam.ExclusiveOwned
import Allocazam.PoolLoans
import Allocazam.RunnerLoans
import Allocazam.RunnerProvision

/-!
# The memory of a process

Pools, runners and exclusive states come and go in one process.  Whatever their users do,
right or wrong, what is on loan from the OS is at any time exactly what the living objects
own, so that everything goes back once and the way it came.
-/

namespace Allocazam

/-- An object that may own memory.  A call leaves the nodes or payloads that its users hold
beside it, which make no difference here. -/
inductive Owner where
  | runner (cfg : Runner.Config) (session : Runner.Session)
  | pool (cfg : Pool.Config) (session : Pool.Session)
  | exclusive (huge : Bool) (state : Exclusive.FixedState) (live : List Nat)

namespace Owner

def loans : Owner → List Loan
  | .runner cfg session => Runner.chunkLoans cfg session.state.chunks
  | .pool cfg session => Pool.chunkLoans cfg session.state.chunks
  | .exclusive huge state _ => [⟨huge, state.backing⟩]

def destroy : Owner → List Loan → Option (List Loan)
  | .runner cfg session => Runner.releaseOwnedChunks cfg session.state.chunks
  | .pool cfg session =>
      let s := if cfg.ownerHeaders then session.state.drainRemote.1 else session.state
      Pool.releaseChunks cfg s.chunks
  | .exclusive huge state _ => state.destroy huge

def Ok : Owner → Prop
  | .pool cfg session => Pool.Replaceable cfg session.state.toMembers
  | _ => True

end Owner

/-- The objects of a process and what is on loan, unless undefined behavior has occurred. -/
structure Process where
  owners : List Owner
  loans : Option (List Loan)

def constructed {State : Type} (owner : State → Owner) : Except Exn State → List Owner
  | .ok s => [owner s]
  | .error _ => []

/-- A step of a process: an object is constructed or destroyed, called with whatever
arguments or moved, or somebody writes to its memory.  The OS never lends twice. -/
inductive Lives : Process → Process → Prop
  | constructRunner {owners : List Owner} {loans : List Loan} (cfg : Runner.Config)
      (os : Runner.Os) (mem : Nat → Nat) (initialBytes : Nat) (spares : os.Spares loans) :
      Lives ⟨owners, some loans⟩
        ⟨constructed (fun s => .runner cfg ⟨s, []⟩)
            (Runner.State.construct cfg os mem initialBytes) ++ owners,
          some (Runner.borrow cfg (Runner.State.obtainedFirst cfg os mem initialBytes) loans)⟩
  | constructLazyRunner {process : Process} (cfg : Runner.Config) (mem : Nat → Nat)
      (initialBytes : Nat) :
      Lives process
        ⟨.runner cfg ⟨Runner.State.constructLazy mem initialBytes, []⟩ :: process.owners,
          process.loans⟩
  | constructExternalRunner {process : Process} (cfg : Runner.Config) (mem : Nat → Nat)
      (data size : Nat) :
      Lives process
        ⟨constructed (fun s => .runner cfg ⟨s, []⟩)
            (Runner.State.constructExternal mem data size) ++ process.owners, process.loans⟩
  | constructPool {owners : List Owner} {loans : List Loan} (cfg : Pool.Config)
      (heap : Pool.Heap) (mem : Nat → Nat) (poolSize : Nat) (heapBacked : cfg.heapBacked = true)
      (spares : heap.Spares loans) :
      Lives ⟨owners, some loans⟩
        ⟨constructed (fun s => .pool cfg ⟨s, []⟩)
            (Pool.State.construct cfg heap mem poolSize) ++ owners,
          Pool.borrow cfg (Pool.State.blank cfg mem poolSize).chunks
            (Pool.State.obtainedFirst cfg heap poolSize) loans⟩
  | constructLazyPool {process : Process} (cfg : Pool.Config) (mem : Nat → Nat)
      (poolSize : Nat) :
      Lives process
        ⟨constructed (fun s => .pool cfg ⟨s, []⟩)
            (Pool.State.constructLazy cfg mem poolSize) ++ process.owners, process.loans⟩
  | constructExternalPool {process : Process} (cfg : Pool.Config) (mem : Nat → Nat)
      (data size : Nat) (raw : cfg.heapBacked = false) :
      Lives process
        ⟨constructed (fun s => .pool cfg ⟨s, []⟩)
            (Pool.State.constructExternal cfg mem data size) ++ process.owners, process.loans⟩
  | constructExclusive {owners : List Owner} {loans : List Loan} (T : Exclusive.ValueType)
      (huge : Bool) (supply : Supply) (elementCapacity : Nat) (sound : supply.Sound loans) :
      Lives ⟨owners, some loans⟩
        ⟨constructed (fun state => .exclusive huge state [])
            (T.constructFixed huge supply elementCapacity loans).2 ++ owners,
          (T.constructFixed huge supply elementCapacity loans).1⟩
  | callRunner {owners others : List Owner} {loans : List Loan} {cfg : Runner.Config}
      {session : Runner.Session} (present : owners.Perm (.runner cfg session :: others))
      (operation : Runner.Operation) (spares : operation.Spares loans) :
      Lives ⟨owners, some loans⟩
        ⟨.runner cfg (session.perform cfg operation) :: others,
          some (Runner.borrow cfg (session.obtained cfg operation) loans)⟩
  | callPool {owners others : List Owner} {loans : List Loan} {cfg : Pool.Config}
      {session : Pool.Session} (present : owners.Perm (.pool cfg session :: others))
      (operation : Pool.Operation) (spares : operation.Spares loans) :
      Lives ⟨owners, some loans⟩
        ⟨.pool cfg (session.perform cfg operation) :: others,
          Pool.borrow cfg session.state.chunks (session.obtained cfg operation) loans⟩
  | callExclusive {process : Process} {others : List Owner} {huge : Bool}
      {state : Exclusive.FixedState} {live : List Nat}
      (present : process.owners.Perm (.exclusive huge state live :: others))
      (T : Exclusive.ValueType) (call : Exclusive.HandleCall) :
      Lives process
        ⟨.exclusive huge
            { state with
              resource := (Exclusive.Shared.perform ⟨state.resource, live⟩ T call).resource }
            (Exclusive.Shared.perform ⟨state.resource, live⟩ T call).live :: others,
          process.loans⟩
  | writeRunner {process : Process} {others : List Owner} {cfg : Runner.Config}
      {session : Runner.Session} (present : process.owners.Perm (.runner cfg session :: others))
      (mem : Nat → Nat) :
      Lives process
        ⟨.runner cfg { session with state := { session.state with mem } } :: others,
          process.loans⟩
  | writePool {process : Process} {others : List Owner} {cfg : Pool.Config}
      {session : Pool.Session} (present : process.owners.Perm (.pool cfg session :: others))
      (mem : Nat → Nat) :
      Lives process
        ⟨.pool cfg { session with state := { session.state with mem } } :: others,
          process.loans⟩
  | moveConstruct {process : Process} {others : List Owner} {cfg : Pool.Config}
      {source : Pool.Session} (present : process.owners.Perm (.pool cfg source :: others))
      (raw : cfg.ownerHeaders = false) :
      Lives process
        ⟨.pool cfg ⟨⟨(source.state.moveConstruct cfg).1, source.state.mem⟩, source.live⟩ ::
            .pool cfg ⟨⟨(source.state.moveConstruct cfg).2, source.state.mem⟩, []⟩ :: others,
          process.loans⟩
  | moveAssign {owners others : List Owner} {loans : List Loan} {cfg : Pool.Config}
      {target source : Pool.Session}
      (present : owners.Perm (.pool cfg target :: .pool cfg source :: others))
      (raw : cfg.ownerHeaders = false) :
      Lives ⟨owners, some loans⟩
        ⟨.pool cfg ⟨⟨(target.state.moveAssign cfg source.state.toMembers).1, source.state.mem⟩,
              source.live⟩ ::
            .pool cfg ⟨⟨(target.state.moveAssign cfg source.state.toMembers).2,
              source.state.mem⟩, []⟩ :: others,
          Pool.releaseChunks cfg target.state.chunks loans⟩
  | destroy {owners others : List Owner} {loans : List Loan} {owner : Owner}
      (present : owners.Perm (owner :: others)) :
      Lives ⟨owners, some loans⟩ ⟨others, owner.destroy loans⟩

/-- The runs of a process that begins without any of these objects. -/
def processes : TransitionSystem Process where
  start process := process = ⟨[], some []⟩
  step := Lives

/-- What is on loan is what the objects own. -/
structure Accounts (owners : List Owner) (loans : List Loan) : Prop where
  separate : Separate loans
  owned : loans.Perm (owners.flatMap Owner.loans)
  ok : ∀ owner ∈ owners, owner.Ok

namespace Accounts

variable {owners others : List Owner} {owner fresh : Owner} {loans left : List Loan}

theorem perm (accounts : Accounts owners loans) (same : owners.Perm others) :
    Accounts others loans where
  separate := accounts.separate
  owned := accounts.owned.trans (same.flatMap_right Owner.loans)
  ok owner member := accounts.ok owner (same.mem_iff.mpr member)

theorem cons (ok : ∀ owner ∈ others, owner.Ok) (fresh : owner.Ok) (separate : Separate loans)
    (owned : loans.Perm (owner.loans ++ others.flatMap Owner.loans)) :
    Accounts (owner :: others) loans where
  separate := separate
  owned := by rwa [List.flatMap_cons]
  ok := List.forall_mem_cons.mpr ⟨fresh, ok⟩

theorem head (accounts : Accounts (owner :: others) loans) :
    loans.Perm (owner.loans ++ others.flatMap Owner.loans) := by
  have owned := accounts.owned
  rwa [List.flatMap_cons] at owned

theorem tail (accounts : Accounts (owner :: others) loans) : ∀ other ∈ others, other.Ok :=
  fun other member => accounts.ok other (List.mem_cons_of_mem _ member)

theorem add (accounts : Accounts owners loans) (ok : fresh.Ok) (nothing : fresh.loans = []) :
    Accounts (fresh :: owners) loans :=
  .cons accounts.ok ok accounts.separate (by rw [nothing]; exact accounts.owned)

/-- An object changes without a change of its loans. -/
theorem exchange (accounts : Accounts (owner :: others) loans) (ok : fresh.Ok)
    (same : fresh.loans = owner.loans) : Accounts (fresh :: others) loans :=
  .cons accounts.tail ok accounts.separate (by rw [same]; exact accounts.head)

theorem remains (accounts : Accounts (owner :: others) loans)
    (remains : left.Perm (others.flatMap Owner.loans)) : Accounts others left where
  separate := ((accounts.separate.perm accounts.head).append_right).perm remains.symm
  owned := remains
  ok := accounts.tail

theorem destroy_chunks {cfg : Pool.Config} {session : Pool.Session}
    (accounts : Accounts (.pool cfg session :: others) loans) :
    ∃ left, Pool.releaseChunks cfg session.state.chunks loans = some left ∧
      Accounts others left := by
  obtain ⟨left, released, remains⟩ := Pool.releaseChunks_spec accounts.separate accounts.head
  exact ⟨left, released, accounts.remains remains⟩

/-- A destructor gives back exactly what the object owns. -/
theorem destroy (accounts : Accounts (owner :: others) loans) :
    ∃ left, owner.destroy loans = some left ∧ Accounts others left := by
  cases owner with
  | runner cfg session =>
      obtain ⟨left, released, remains⟩ :=
        Runner.releaseOwnedChunks_spec accounts.separate accounts.head
      exact ⟨left, released, accounts.remains remains⟩
  | pool cfg session =>
      unfold Owner.destroy
      dsimp only
      split
      · rw [(Pool.drainRemote_members session.state).1]
        exact accounts.destroy_chunks
      · exact accounts.destroy_chunks
  | exclusive huge state live =>
      obtain ⟨left, released, remains⟩ := accounts.separate.releaseOwnedMemory accounts.head
      exact ⟨left, released, accounts.remains remains⟩

theorem destroyAll (accounts : Accounts owners loans) :
    owners.foldl (fun held owner => held.bind owner.destroy) (some loans) = some [] := by
  induction owners generalizing loans with
  | nil => rw [List.perm_nil.mp accounts.owned]; rfl
  | cons owner others ih =>
      obtain ⟨left, released, remain⟩ := accounts.destroy
      rw [List.foldl_cons, Option.bind_some, released]
      exact ih remain

variable {process next : Process}

theorem runner_joins (accounts : Accounts owners loans) {cfg : Runner.Config} {os : Runner.Os}
    {mem : Nat → Nat} {initialBytes : Nat} (spares : os.Spares loans) :
    Accounts
      (constructed (fun s => .runner cfg ⟨s, []⟩)
          (Runner.State.construct cfg os mem initialBytes) ++ owners)
      (Runner.borrow cfg (Runner.State.obtainedFirst cfg os mem initialBytes) loans) := by
  obtain ⟨apart, borrowed⟩ :=
    @Runner.construct_loans cfg os loans mem initialBytes spares accounts.separate
  generalize Runner.State.obtainedFirst cfg os mem initialBytes = pieces at apart borrowed ⊢
  cases built : Runner.State.construct cfg os mem initialBytes with
  | error exn =>
      rw [built] at borrowed
      obtain rfl := borrowed
      exact accounts
  | ok s =>
      rw [built] at borrowed
      refine .cons accounts.ok trivial apart ?_
      have owned : (Owner.runner cfg ⟨s, []⟩).loans = Runner.borrow cfg pieces [] := borrowed
      rw [owned]
      unfold Runner.borrow
      rw [List.append_nil]
      exact accounts.owned.append_left _

theorem runner_borrows {cfg : Runner.Config} {session : Runner.Session}
    (accounts : Accounts (.runner cfg session :: others) loans) {operation : Runner.Operation}
    (spares : operation.Spares loans) :
    Accounts (.runner cfg (session.perform cfg operation) :: others)
      (Runner.borrow cfg (session.obtained cfg operation) loans) := by
  obtain ⟨apart, owned⟩ :=
    @Runner.perform_loans cfg loans session operation spares accounts.separate
  refine .cons accounts.tail trivial apart ?_
  show (Runner.borrow cfg (session.obtained cfg operation) loans).Perm
    (Runner.chunkLoans cfg (session.perform cfg operation).state.chunks ++ _)
  rw [owned]
  unfold Runner.borrow
  rw [List.append_assoc]
  exact accounts.head.append_left _

theorem pool_joins (accounts : Accounts owners loans) {cfg : Pool.Config} {heap : Pool.Heap}
    {mem : Nat → Nat} {poolSize : Nat} (heapBacked : cfg.heapBacked = true)
    (spares : heap.Spares loans) :
    ∃ left, Pool.borrow cfg (Pool.State.blank cfg mem poolSize).chunks
        (Pool.State.obtainedFirst cfg heap poolSize) loans = some left ∧
      Accounts
        (constructed (fun s => .pool cfg ⟨s, []⟩)
            (Pool.State.construct cfg heap mem poolSize) ++ owners) left := by
  have settles := @Pool.construct_settles cfg heap loans mem poolSize heapBacked spares
    accounts.separate
  cases built : Pool.State.construct cfg heap mem poolSize with
  | error exn =>
      rw [built] at settles
      have nothing : Pool.State.obtainedFirst cfg heap poolSize = [] := settles
      rw [nothing, Pool.borrow_nil]
      exact ⟨loans, rfl, accounts⟩
  | ok s =>
      rw [built] at settles
      obtain ⟨left, borrowed, settled⟩ := settles
      exact ⟨left, borrowed, .cons accounts.ok settled.replaceable settled.separate
        (settled.lent.trans (accounts.owned.append_left _))⟩

theorem pool_borrows {cfg : Pool.Config} {session : Pool.Session}
    (accounts : Accounts (.pool cfg session :: others) loans) {operation : Pool.Operation}
    (spares : operation.Spares loans) :
    ∃ left, Pool.borrow cfg session.state.chunks (session.obtained cfg operation) loans =
        some left ∧
      Accounts (.pool cfg (session.perform cfg operation) :: others) left := by
  have settled : Pool.Settled cfg session.state.toMembers (others.flatMap Owner.loans) loans :=
    ⟨accounts.separate, accounts.head, accounts.ok _ List.mem_cons_self⟩
  obtain ⟨left, borrowed, settled⟩ := Pool.perform_settles session spares settled
  exact ⟨left, borrowed,
    .cons accounts.tail settled.replaceable settled.separate settled.lent⟩

theorem pool_moves {cfg : Pool.Config} {source : Pool.Session}
    (accounts : Accounts (.pool cfg source :: others) loans) :
    Accounts
      (.pool cfg ⟨⟨(source.state.moveConstruct cfg).1, source.state.mem⟩, source.live⟩ ::
        .pool cfg ⟨⟨(source.state.moveConstruct cfg).2, source.state.mem⟩, []⟩ :: others)
      loans := by
  obtain ⟨nothing, replaceable⟩ :=
    @Pool.moveConstruct_source cfg source.state.toMembers
  have moved : Accounts
      (.pool cfg ⟨⟨(source.state.moveConstruct cfg).1, source.state.mem⟩, source.live⟩ :: others)
      loans := accounts.exchange (accounts.ok _ List.mem_cons_self) rfl
  let remnant : Owner :=
    .pool cfg ⟨⟨(source.state.moveConstruct cfg).2, source.state.mem⟩, []⟩
  have ok : remnant.Ok := replaceable
  exact (moved.add ok nothing).perm (.swap _ _ _)

theorem exclusive_joins (accounts : Accounts owners loans) (T : Exclusive.ValueType)
    (huge : Bool) {supply : Supply} (elementCapacity : Nat) (sound : supply.Sound loans) :
    ∃ left, (T.constructFixed huge supply elementCapacity loans).1 = some left ∧
      Accounts
        (constructed (fun state => .exclusive huge state [])
          (T.constructFixed huge supply elementCapacity loans).2 ++ owners) left := by
  have ends := @Exclusive.ValueType.constructFixed_ends T huge supply loans sound
    elementCapacity
  generalize T.constructFixed huge supply elementCapacity loans = outcome at ends ⊢
  cases ends with
  | zero => exact ⟨loans, rfl, accounts⟩
  | large => exact ⟨loans, rfl, accounts⟩
  | refused => exact ⟨loans, rfl, accounts⟩
  | @occupied state positive occupies =>
      have covers := occupies.covers
      have usable : 0 < state.capacityBytes := by
        rw [occupies.bytes]
        exact Nat.mul_pos positive T.sizePositive
      exact ⟨_, rfl, .cons accounts.ok trivial
        (accounts.separate.cons covers.nonnull.ne' (usable.trans_le covers.room) covers.apart)
        (accounts.owned.cons _)⟩

end Accounts

def Process.Accounted (process : Process) : Prop :=
  ∃ loans, process.loans = some loans ∧ Accounts process.owners loans

theorem lives_accounted {process next : Process} (accounted : process.Accounted)
    (lives : Lives process next) : next.Accounted := by
  obtain ⟨held, holds, accounts⟩ := accounted
  cases lives with
  | constructRunner cfg os mem initialBytes spares =>
      obtain rfl := Option.some.inj holds
      exact ⟨_, rfl, accounts.runner_joins spares⟩
  | constructLazyRunner cfg mem initialBytes =>
      exact ⟨held, holds, accounts.add trivial rfl⟩
  | constructExternalRunner cfg mem data size =>
      refine ⟨held, holds, ?_⟩
      cases built : Runner.State.constructExternal mem data size with
      | error exn => exact accounts
      | ok s => exact accounts.add trivial (Runner.constructExternal_loans built)
  | constructPool cfg heap mem poolSize heapBacked spares =>
      obtain rfl := Option.some.inj holds
      obtain ⟨left, borrowed, remain⟩ := accounts.pool_joins heapBacked spares
      exact ⟨left, borrowed, remain⟩
  | constructLazyPool cfg mem poolSize =>
      refine ⟨held, holds, ?_⟩
      unfold Pool.State.constructLazy
      split
      · exact accounts
      · exact accounts.add (Pool.blank_replaceable mem poolSize) (Pool.blank_loans mem poolSize)
  | constructExternalPool cfg mem data size raw =>
      refine ⟨held, holds, ?_⟩
      cases Pool.State.constructExternal cfg mem data size with
      | error exn => exact accounts
      | ok s =>
          obtain ⟨nothing, replaceable⟩ := Pool.raw_unowned raw s.toMembers
          exact accounts.add replaceable nothing
  | constructExclusive T huge supply elementCapacity sound =>
      obtain rfl := Option.some.inj holds
      exact accounts.exclusive_joins T huge elementCapacity sound
  | callRunner present operation spares =>
      obtain rfl := Option.some.inj holds
      exact ⟨_, rfl, (accounts.perm present).runner_borrows spares⟩
  | callPool present operation spares =>
      obtain rfl := Option.some.inj holds
      obtain ⟨left, borrowed, remain⟩ := (accounts.perm present).pool_borrows spares
      exact ⟨left, borrowed, remain⟩
  | callExclusive present T call =>
      exact ⟨held, holds, (accounts.perm present).exchange trivial rfl⟩
  | writeRunner present mem =>
      exact ⟨held, holds, (accounts.perm present).exchange trivial rfl⟩
  | writePool present mem =>
      have listed := accounts.perm present
      have ok := listed.ok _ List.mem_cons_self
      exact ⟨held, holds, listed.exchange ok rfl⟩
  | moveConstruct present raw =>
      exact ⟨held, holds, (accounts.perm present).pool_moves⟩
  | moveAssign present raw =>
      obtain rfl := Option.some.inj holds
      obtain ⟨left, released, remain⟩ := (accounts.perm present).destroy_chunks
      exact ⟨left, released, remain.pool_moves⟩
  | destroy present =>
      obtain rfl := Option.some.inj holds
      obtain ⟨left, released, remain⟩ := (accounts.perm present).destroy
      exact ⟨left, released, remain⟩

/-- In every process what is on loan is exactly what its objects own, each loan apart from
the others, and the destructors give all of it back, whatever their order. -/
theorem memory_accounted {process : Process} (reachable : processes.Reachable process) :
    ∃ loans, process.loans = some loans ∧ Separate loans ∧
      loans.Perm (process.owners.flatMap Owner.loans) ∧
      ∀ order : List Owner, order.Perm process.owners →
        order.foldl (fun held owner => held.bind owner.destroy) (some loans) = some [] := by
  have invariant : processes.Inductive Process.Accounted :=
    { start := fun process begins => by
        obtain rfl := begins
        exact ⟨[], rfl, .nil, .refl [], by simp⟩
      step := fun process next accounted lives => lives_accounted accounted lives }
  obtain ⟨loans, holds, accounts⟩ := invariant.reachable reachable
  exact ⟨loans, holds, accounts.separate, accounts.owned,
    fun order same => (accounts.perm same.symm).destroyAll⟩

/-- A runner that has served a request beside a fixed state in huge pages. -/
def sampleProcess : Process :=
  let session : Runner.Session := ⟨Runner.State.constructLazy (fun _ => 0) 5000, []⟩
  let operation : Runner.Operation := .allocateBytes Runner.lowOs 24 16
  ⟨[.runner Runner.growingConfig (session.perform Runner.growingConfig operation),
      .exclusive true Exclusive.sampleFixedState []],
    some (Runner.borrow Runner.growingConfig (session.obtained Runner.growingConfig operation)
      [⟨true, Exclusive.sampleFixedState.backing⟩])⟩

theorem lowOs_spares : Runner.lowOs.Spares [⟨true, Exclusive.sampleFixedState.backing⟩] := by
  intro chunks bytes base granted loan member
  obtain rfl := List.mem_singleton.mp member
  have offered : Runner.offered 4096 chunks bytes = some base := granted
  unfold Runner.offered at offered
  split at offered
  · rename_i fits
    obtain rfl := Option.some.inj offered
    left
    show 4096 + bytes ≤ 2 ^ 30
    omega
  · cases offered

theorem sampleProcess_reachable : processes.Reachable sampleProcess := by
  have first : Lives ⟨[], some []⟩ ⟨[.exclusive true Exclusive.sampleFixedState []],
      some [⟨true, Exclusive.sampleFixedState.backing⟩]⟩ := by
    have lives := @Lives.constructExclusive [] [] Exclusive.sampleInts true
      Exclusive.sampleSupply 100 Exclusive.sampleSupply_sound
    have built : Exclusive.sampleInts.constructFixed true Exclusive.sampleSupply 100 [] =
        (some [⟨true, Exclusive.sampleFixedState.backing⟩],
          .ok Exclusive.sampleFixedState) := by
      decide +kernel
    rw [built] at lives
    exact lives
  exact .step (.step (.step (.start rfl) first)
    (.constructLazyRunner Runner.growingConfig (fun _ => 0) 5000))
      (.callRunner (.refl _) (.allocateBytes Runner.lowOs 24 16) lowOs_spares)

theorem sampleProcess_accounted :
    sampleProcess.loans = some [⟨false, 4096, 8192, 16⟩, ⟨true, 2 ^ 30, 2 ^ 21, 2 ^ 21⟩] ∧
      sampleProcess.owners.foldl (fun held owner => held.bind owner.destroy)
        sampleProcess.loans = some [] := by
  obtain ⟨loans, holds, _, _, destroyed⟩ := memory_accounted sampleProcess_reachable
  refine ⟨by decide +kernel, ?_⟩
  rw [holds]
  exact destroyed _ (.refl _)

end Allocazam
