import Allocazam.SuballocatedSteps

/-!
# Calls of the pools

Allocating a node, freeing it and parking it keep the invariant.
-/

namespace Allocazam

namespace Suballocated

variable {Value Thread Bound : Type} [DecidableEq Value] [DecidableEq Thread]
  [DecidableEq Bound] {fam : Family Value Thread Bound}
  {w : World Value Thread Bound} {live : List (Item fam)}
  {ledger : Ledger Value Thread Bound} {site other : Site Value Thread Bound}
  {p : Nat}

def World.callPool (fam : Family Value Thread Bound)
    (w : World Value Thread Bound) (ledger : Ledger Value Thread Bound)
    (site : Site Value Thread Bound) (operation : Pool.Operation) :
    Pool.Session :=
  (w.poolSession ledger site).perform (fam.poolConfig site) operation

namespace Ledger

def setNodes (ledger : Ledger Value Thread Bound)
    (site : Site Value Thread Bound) (nodes : List Nat)
    (place : Nat → Option (Place Value Thread)) : Ledger Value Thread Bound :=
  { ledger with nodes := Function.update ledger.nodes site nodes, place }

theorem setNodes_self (nodes : List Nat)
    (place : Nat → Option (Place Value Thread)) :
    (ledger.setNodes site nodes place).nodes site = nodes :=
  Function.update_self _ _ _

theorem setNodes_of_ne (nodes : List Nat)
    (place : Nat → Option (Place Value Thread)) (distinct : other ≠ site) :
    (ledger.setNodes site nodes place).nodes other = ledger.nodes other :=
  Function.update_of_ne distinct _ _

theorem setNodes_same (ledger : Ledger Value Thread Bound)
    (site : Site Value Thread Bound) :
    ledger.setNodes site (ledger.nodes site) ledger.place = ledger := by
  unfold setNodes
  rw [Function.update_eq_self]

/-- The pool of the state gives out the node `p`. -/
def acquireNode (ledger : Ledger Value Thread Bound)
    (site : Site Value Thread Bound) (p : Nat) : Ledger Value Thread Bound :=
  ledger.setNodes site (p :: ledger.nodes site)
    (Function.update ledger.place p (some .adrift))

/-- The node `p` goes back to the pool of the state. -/
def giveBackNode (ledger : Ledger Value Thread Bound)
    (site : Site Value Thread Bound) (p : Nat) : Ledger Value Thread Bound :=
  ledger.setNodes site ((ledger.nodes site).erase p)
    (Function.update ledger.place p none)

/-- The ledger after `allocate` of a pool. -/
def afterNode (ledger : Ledger Value Thread Bound)
    (site : Site Value Thread Bound) :
    Except Exn Nat → Ledger Value Thread Bound
  | .ok p => if p = 0 then ledger else ledger.acquireNode site p
  | .error _ => ledger

theorem acquireNode_placed
    (placed : ∀ q, ledger.place q ≠ none ↔ ledger.Out q) (q : Nat) :
    (ledger.acquireNode site p).place q ≠ none ↔
      (ledger.acquireNode site p).Out q := by
  have nodes : ∀ owner, q ∈ (ledger.acquireNode site p).nodes owner ↔
      owner = site ∧ p = q ∨ q ∈ ledger.nodes owner := by
    intro owner
    unfold acquireNode
    by_cases own : owner = site
    · subst own
      rw [setNodes_self, List.mem_cons]
      simp [eq_comm]
    · rw [setNodes_of_ne _ _ own]
      simp [own]
  have places : (ledger.acquireNode site p).place q ≠ none ↔
      p = q ∨ ledger.place q ≠ none := by
    unfold acquireNode setNodes
    dsimp only
    by_cases same : q = p
    · subst same
      simp
    · rw [Function.update_of_ne same]
      simp [Ne.symm same]
  rw [places, placed q]
  unfold Out
  simp only [nodes]
  constructor
  · rintro (same | ⟨owner, node⟩ | run)
    · exact Or.inl ⟨site, Or.inl ⟨rfl, same⟩⟩
    · exact Or.inl ⟨owner, Or.inr node⟩
    · exact Or.inr run
  · rintro (⟨owner, ⟨_, same⟩ | node⟩ | run)
    · exact Or.inl same
    · exact Or.inr (Or.inl ⟨owner, node⟩)
    · exact Or.inr (Or.inr run)

theorem giveBackNode_placed
    (placed : ∀ q, ledger.place q ≠ none ↔ ledger.Out q)
    (nodup : (ledger.nodes site).Nodup)
    (unique : ∀ owner, p ∈ ledger.nodes owner → owner = site)
    (notRun : ∀ owner, ¬ ledger.HasRun owner p) (q : Nat) :
    (ledger.giveBackNode site p).place q ≠ none ↔
      (ledger.giveBackNode site p).Out q := by
  have nodes : ∀ owner, q ∈ (ledger.giveBackNode site p).nodes owner ↔
      q ∈ ledger.nodes owner ∧ q ≠ p := by
    intro owner
    unfold giveBackNode
    by_cases own : owner = site
    · subst own
      rw [setNodes_self, nodup.mem_erase_iff, and_comm]
    · rw [setNodes_of_ne _ _ own]
      refine ⟨fun node => ⟨node, ?_⟩, And.left⟩
      rintro rfl
      exact own (unique owner node)
  have places : (ledger.giveBackNode site p).place q ≠ none ↔
      ledger.place q ≠ none ∧ q ≠ p := by
    unfold giveBackNode setNodes
    dsimp only
    by_cases same : q = p
    · subst same
      simp
    · rw [Function.update_of_ne same]
      simp [same]
  rw [places, placed q]
  unfold Out
  simp only [nodes]
  constructor
  · rintro ⟨⟨owner, node⟩ | run, distinct⟩
    · exact Or.inl ⟨owner, node, distinct⟩
    · exact Or.inr run
  · rintro (⟨owner, node, distinct⟩ | ⟨owner, run⟩)
    · exact ⟨Or.inl ⟨owner, node⟩, distinct⟩
    · refine ⟨Or.inr ⟨owner, run⟩, ?_⟩
      rintro rfl
      exact notRun owner run

end Ledger

namespace WorldOk

variable {operation : Pool.Operation}

structure NodeCallable (fam : Family Value Thread Bound)
    (w : World Value Thread Bound) (ledger : Ledger Value Thread Bound)
    (site : Site Value Thread Bound) (operation : Pool.Operation) : Prop where
  created : w.created site = true
  allows : (w.poolSession ledger site).Allows (fam.poolConfig site) operation
  avoids : operation.Avoids (w.inUse fam)
  /-- What is given back is with nobody. -/
  adrift : ∀ p, operation.argument = some p → ledger.place p = some .adrift

section Call

variable (ok : WorldOk fam w live ledger)
  (callable : NodeCallable fam w ledger site operation)
  (place : Nat → Option (Place Value Thread))

include ok callable

theorem callPool_moves :
    (w.tenancy fam ledger).Moves
      ((w.setPool site (w.callPool fam ledger site operation).state).tenancy fam
        (ledger.setNodes site (w.callPool fam ledger site operation).live place))
      (.pool site) w.mem (w.callPool fam ledger site operation).state.mem where
  owns := by
    rintro (other | other) distinct
    · show Pool.Members.footprint _ _ = Pool.Members.footprint _ _
      rw [World.setPool_pool_of_ne _ fun same => distinct (by rw [same])]
    · show Runner.Allocator.footprint _ = Runner.Allocator.footprint _
      rw [World.setPool_runs]
  holds := by
    rintro (other | other) distinct mem holds
    · have apart : other ≠ site := fun same => distinct (by rw [same])
      intro created
      obtain ⟨slots, deferred, free, parked, pool⟩ := holds created
      refine ⟨slots, deferred, free, parked, ?_⟩
      unfold World.poolSession World.pool at pool ⊢
      rw [World.setPool_pool_of_ne _ apart, Ledger.setNodes_of_ne _ _ apart]
      exact pool
    · show Runner.SessionOk _ _
      have runs : Runner.SessionOk _ _ := holds
      unfold World.runsSession World.runs at *
      rw [World.setPool_runs]
      exact runs
  acquires := by
    intro addr owned
    obtain ⟨_, _, _, _, pool⟩ := ok.poolOk callable.created
    have footprint : addr ∈ (w.callPool fam ledger site
        operation).state.footprint (fam.poolConfig site) := by
      have member : addr ∈ Pool.Members.footprint _ _ := owned
      rw [World.setPool_pool_self] at member
      exact member
    exact pool.perform_footprint callable.allows callable.avoids footprint
  writes := by
    intro addr foreign
    obtain ⟨_, _, _, _, pool⟩ := ok.poolOk callable.created
    apply pool.perform_writes callable.allows
    intro footprint
    apply foreign
    show addr ∈ Pool.Members.footprint _ _
    rw [World.setPool_pool_self]
    exact footprint

theorem callPool_tenants :
    ((w.setPool site (w.callPool fam ledger site operation).state).tenancy fam
      (ledger.setNodes site (w.callPool fam ledger site operation).live place)).Ok
        (w.callPool fam ledger site operation).state.mem := by
  apply ok.tenants.moved (ok.callPool_moves callable place)
  obtain ⟨slots, deferred, free, parked, pool⟩ := ok.poolOk callable.created
  obtain ⟨free', parked', called⟩ := Pool.sessions_inductive.step _ _
    ⟨free, parked, pool⟩ (.call operation callable.allows)
  intro _
  refine ⟨slots, deferred, free', parked', ?_⟩
  unfold World.poolSession World.pool
  rw [World.setPool_pool_self, Ledger.setNodes_self]
  exact called

omit ok in
/-- A call takes back no node but its argument. -/
theorem callPool_kept {q : Nat} {owner} (node : q ∈ ledger.nodes owner)
    (settled : ledger.place q ≠ some .adrift) :
    q ∈ (ledger.setNodes site (w.callPool fam ledger site operation).live
      place).nodes owner := by
  by_cases own : owner = site
  · subst own
    rw [Ledger.setNodes_self]
    have spared : operation.argument ≠ some q := fun given =>
      settled (callable.adrift q given)
    unfold World.callPool
    cases operation with
    | allocate heap =>
        rw [Pool.Session.perform_allocate]
        exact List.mem_append_right _ node
    | deallocate n =>
        refine (List.mem_erase_of_ne ?_).mpr node
        rintro rfl
        exact spared rfl
    | remotePush n =>
        refine (List.mem_erase_of_ne ?_).mpr node
        rintro rfl
        exact spared rfl
  · rw [Ledger.setNodes_of_ne _ _ own]
    exact node

/-- A call of a pool keeps the invariant, if the new places account for the
nodes given out now and agree with the old ones on what is with a user or in a
cache. -/
theorem callPool
    (placed : ∀ p, place p ≠ none ↔ (ledger.setNodes site
      (w.callPool fam ledger site operation).live place).Out p)
    (settled : ∀ p x, x ≠ Place.adrift →
      (place p = some x ↔ ledger.place p = some x)) :
    WorldOk fam (w.setPool site (w.callPool fam ledger site operation).state)
      live
      (ledger.setNodes site (w.callPool fam ledger site operation).live place)
      where
  tenants := ok.callPool_tenants callable place
  unborn other missing := by
    have distinct : other ≠ site := by
      rintro rfl
      exact absurd (callable.created.symm.trans missing) (by decide)
    have unborn := ok.unborn other missing
    exact
      { pool := by
          rw [World.setPool_pool_of_ne _ distinct]
          exact unborn.pool
        chunks := by
          rw [World.setPool_runs]
          exact unborn.chunks
        nodes := by
          rw [Ledger.setNodes_of_ne _ _ distinct]
          exact unborn.nodes
        runs := unborn.runs }
  placed := placed
  nodes other q node value thread idx cached := by
    have old : ledger.place q = some (.cached value thread idx) :=
      (settled q _ (by simp)).mp cached
    obtain ⟨owner, run⟩ := ok.run_of_cached old
    have inRuns := ok.run_territory run
    have foreign := ok.tenants.foreign
      (ok.callPool_moves callable ledger.place)
      (j := .runs owner) (by simp) inRuns
    by_cases own : other = site
    · subst own
      apply foreign
      obtain ⟨_, _, _, _, pool⟩ :=
        (ok.callPool_tenants callable place).holds (.pool other)
          callable.created
      have member := pool.mem_footprint (pool.live_node node)
      exact member
    · rw [Ledger.setNodes_of_ne _ _ own] at node
      exact ok.node_not_run node run
  held q := (settled q _ (by simp)).trans (ok.held q)
  distinct := ok.distinct
  items item member := by
    have item_ok := ok.items item member
    have isHeld := (ok.held item.ptr).mpr ⟨item, member, rfl⟩
    exact
      { item_ok with
        node := by
          intro isNode
          obtain ⟨owner, node, draws⟩ := item_ok.node isNode
          exact ⟨owner, callPool_kept callable place node (by rw [isHeld]; simp),
            draws⟩
        run := item_ok.run }
  classes value thread idx := by
    obtain ⟨entries, cls⟩ := ok.classes value thread idx
    have entryKept : ∀ q ∈ entries, ∀ word, q ≤ word → word < q + 32 →
        (w.callPool fam ledger site operation).state.mem word = w.mem word := by
      intro q listed word lower upper
      obtain ⟨owner, allocation, member, rfl, _⟩ := cls.entry q listed
      obtain ⟨large, _, _, _, _, inside⟩ := (ok.runsOk _).payload_spec member
      apply ok.tenants.kept (ok.callPool_moves callable ledger.place)
        (j := .runs (.thread value owner)) (by simp)
      apply inside
      · omega
      · unfold Runner.Session.stop
        omega
    exact ⟨entries,
      { chain := cls.chain.congr fun q listed =>
          entryKept q listed q le_rfl (by omega)
        count := cls.count
        entry := by
          intro q listed
          obtain ⟨owner, allocation, member, rfl, enough, stamp⟩ :=
            cls.entry q listed
          refine ⟨owner, allocation, member, rfl, enough, ?_⟩
          rw [← stamp]
          exact entryKept _ listed _ (by omega) (by omega)
        place := fun q => (cls.place q).trans (settled q _ (by simp)).symm }⟩

/-- What a pool gives out after a call and had been given out before, the pool
had given out itself. -/
theorem callPool_out {q : Nat} (out : ledger.Out q)
    (node : q ∈ (w.callPool fam ledger site operation).live) :
    q ∈ ledger.nodes site := by
  have owned : q ∈ ((w.setPool site
      (w.callPool fam ledger site operation).state).tenancy fam
        (ledger.setNodes site (w.callPool fam ledger site operation).live
          ledger.place)).owns (.pool site) := by
    obtain ⟨_, _, _, _, pool⟩ :=
      (ok.callPool_tenants callable ledger.place).holds (.pool site)
        callable.created
    apply pool.mem_footprint
    apply pool.live_node
    unfold World.poolSession
    rw [Ledger.setNodes_self]
    exact node
  have foreign : ∀ tenant, q ∈ w.territory fam tenant →
      tenant = .pool site := by
    intro tenant old
    by_contra distinct
    exact ok.tenants.foreign (ok.callPool_moves callable ledger.place)
      distinct old owned
  rcases out with ⟨owner, old⟩ | ⟨owner, run⟩
  · cases foreign _ (ok.node_territory old)
    exact old
  · cases foreign _ (ok.run_territory run)

end Call

variable (ok : WorldOk fam w live ledger)

include ok

theorem allocateNode {heap : Pool.Heap} (created : w.created site = true)
    (avoids : ∀ addr ∈ w.inUse fam, heap.inUse addr) :
    WorldOk fam
        (w.setPool site ((w.pool site).allocate (fam.poolConfig site) heap).1)
        live
        (ledger.afterNode site
          ((w.pool site).allocate (fam.poolConfig site) heap).2) ∧
      ∀ p, ((w.pool site).allocate (fam.poolConfig site) heap).2 = .ok p →
        p ≠ 0 → ledger.place p = none := by
  have callable : NodeCallable fam w ledger site (.allocate heap) :=
    { created := created
      allows := fun addr owned => avoids addr ⟨.pool site, owned⟩
      avoids := avoids
      adrift := fun p given => by cases given }
  have performed : w.callPool fam ledger site (.allocate heap) =
      ⟨((w.pool site).allocate (fam.poolConfig site) heap).1,
        Pool.handedOut ((w.pool site).allocate (fam.poolConfig site) heap).2 ++
          ledger.nodes site⟩ :=
    Pool.Session.perform_allocate heap
  have called := fun place => ok.callPool callable place
  have outOld := fun q => ok.callPool_out callable (q := q)
  have tenants := ok.callPool_tenants callable ledger.place
  rw [performed] at called outOld tenants
  dsimp only at called outOld tenants
  have unchanged : Pool.handedOut
      ((w.pool site).allocate (fam.poolConfig site) heap).2 = [] →
      WorldOk fam
        (w.setPool site ((w.pool site).allocate (fam.poolConfig site) heap).1)
        live ledger := by
    intro none
    have done := called ledger.place
    rw [none, List.nil_append, Ledger.setNodes_same] at done
    exact done ok.placed fun _ _ _ => Iff.rfl
  generalize ((w.pool site).allocate (fam.poolConfig site) heap).2 = outcome at *
  cases outcome with
  | error exn => exact ⟨unchanged rfl, by simp⟩
  | ok p =>
      unfold Ledger.afterNode
      dsimp only
      by_cases null : p = 0
      · rw [if_pos null]
        refine ⟨unchanged (if_pos null), ?_⟩
        rintro q same nonnull
        exact absurd ((Except.ok.inj same).symm.trans null) nonnull
      have handed : Pool.handedOut (.ok p) = [p] := if_neg null
      rw [handed, List.singleton_append] at called outOld tenants
      rw [if_neg null]
      have fresh : ledger.place p = none := by
        by_contra placed
        have old := outOld p ((ok.placed p).mp placed) (List.mem_cons_self)
        obtain ⟨_, _, _, _, pool⟩ := tenants.holds (.pool site) created
        have nodup : (p :: ledger.nodes site).Nodup := by
          have listed := (List.nodup_append.mp pool.balanced.nodup).2.1
          unfold World.poolSession at listed
          rw [Ledger.setNodes_self] at listed
          exact listed
        exact (List.nodup_cons.mp nodup).1 old
      refine ⟨called _ (Ledger.acquireNode_placed ok.placed)
        (Ledger.update_settled (by simp [fresh]) (by simp)), ?_⟩
      rintro q same _
      rw [← Except.ok.inj same]
      exact fresh

section Release

variable (node : p ∈ ledger.nodes site) (adrift : ledger.place p = some .adrift)

include node adrift

theorem releasedNode (operation : Pool.Operation)
    (allows : (w.poolSession ledger site).Allows (fam.poolConfig site) operation)
    (avoids : operation.Avoids (w.inUse fam))
    (argument : ∀ q, operation.argument = some q → q = p)
    (nodes : (w.callPool fam ledger site operation).live =
      (ledger.nodes site).erase p) :
    WorldOk fam (w.setPool site (w.callPool fam ledger site operation).state)
      live (ledger.giveBackNode site p) := by
  have callable : NodeCallable fam w ledger site operation :=
    { created := ok.created_of_node node
      allows := allows
      avoids := avoids
      adrift := fun q given => by rw [argument q given, adrift] }
  have called := ok.callPool callable
    (Function.update ledger.place p none)
    (by
      rw [nodes]
      exact Ledger.giveBackNode_placed ok.placed (ok.nodes_nodup site)
        (fun owner again => ok.node_unique again node)
        fun owner => ok.node_not_run node)
    (Ledger.update_settled (by simp [adrift]) (by simp))
  rw [nodes] at called
  exact called

theorem deallocateNode :
    WorldOk fam (w.setPool site ((w.pool site).deallocate p)) live
      (ledger.giveBackNode site p) :=
  ok.releasedNode node adrift (.deallocate p) node trivial
    (by rintro q ⟨⟩; rfl) rfl

theorem parkNode (headers : fam.heapBacked = true) :
    WorldOk fam (w.setPool site ((w.pool site).remotePush p)) live
      (ledger.giveBackNode site p) :=
  ok.releasedNode node adrift (.remotePush p) ⟨headers, node⟩
    trivial (by rintro q ⟨⟩; rfl) rfl

end Release

end WorldOk

end Suballocated

end Allocazam
