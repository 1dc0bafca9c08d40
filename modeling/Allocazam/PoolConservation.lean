import Allocazam.PoolOperations

/-!
# Conservation of nodes

Every node of a pool is free, parked on the remote stack, in the batch a drain
is splicing, or out of the pool's hands.  Each operation moves nodes between
these places and loses none.
-/

namespace Allocazam

namespace Pool

/-- The nodes of a pool are distributed over its free list, its remote stack,
the batch whose splice stands at `walk`, and those that are out. -/
structure Balanced (cfg : Config) (s : State) (walk : Nat)
    (free parked batch out : List Nat) : Prop extends Ok cfg s free where
  remote : IsStack s.mem s.remoteHead parked
  chain : IsStack s.mem walk batch
  growing : cfg.heapBacked = true → 0 < s.nextGrowth
  perm : (free ++ parked ++ batch ++ out).Perm (s.nodes cfg)

namespace Balanced

variable {cfg : Config} {s t : State} {walk n : Nat}
  {free parked batch out : List Nat}

theorem nodup (inv : Balanced cfg s walk free parked batch out) :
    (free ++ parked ++ batch ++ out).Nodup :=
  inv.perm.nodup_iff.mpr inv.laid.nodes_nodup

theorem mem_nodes_iff (inv : Balanced cfg s walk free parked batch out) :
    n ∈ s.nodes cfg ↔ n ∈ free ∨ n ∈ parked ∨ n ∈ batch ∨ n ∈ out := by
  rw [← inv.perm.mem_iff]
  simp only [List.mem_append, or_assoc]

theorem out_apart (inv : Balanced cfg s walk free parked batch out)
    (isOut : n ∈ out) : n ∉ free ∧ n ∉ parked ∧ n ∉ batch := by
  have apart := (List.nodup_append.mp inv.nodup).2.2
  refine ⟨fun listed => ?_, fun listed => ?_, fun listed => ?_⟩
  · exact apart n (by simp [listed]) n isOut rfl
  · exact apart n (by simp [listed]) n isOut rfl
  · exact apart n (by simp [listed]) n isOut rfl

theorem batch_apart (inv : Balanced cfg s walk free parked batch out)
    (listed : n ∈ batch) : n ∉ free ∧ n ∉ parked := by
  have apart := (List.nodup_append.mp (List.nodup_append.mp inv.nodup).1).2.2
  exact ⟨fun other => apart n (by simp [other]) n listed rfl,
    fun other => apart n (by simp [other]) n listed rfl⟩

/-- No other node reaches into a node that is out. -/
theorem range_apart (inv : Balanced cfg s walk free parked batch out)
    (isOut : n ∈ out) {m : Nat} (listed : m ∈ free ∨ m ∈ parked ∨ m ∈ batch) :
    m ∉ cfg.nodeRange n := by
  intro inNode
  obtain ⟨notFree, notParked, notBatch⟩ := inv.out_apart isOut
  have distinct : n ≠ m := by
    rintro rfl
    tauto
  have node := inv.mem_nodes_iff.mpr (Or.inr (Or.inr (Or.inr isOut)))
  have other : m ∈ s.nodes cfg := inv.mem_nodes_iff.mpr (by tauto)
  exact Set.disjoint_left.mp (inv.laid.nodes_apart node other distinct) inNode
    (cfg.self_mem_nodeRange m)

theorem capacity_eq (inv : Balanced cfg s walk free parked batch out) :
    s.capacity =
      free.length + parked.length + batch.length + out.length := by
  rw [inv.capacity, ← inv.perm.length_eq]
  simp only [List.length_append]

/-- Parked nodes and those being spliced count as taken. -/
theorem size_eq (inv : Balanced cfg s walk free parked batch out) :
    s.size = parked.length + batch.length + out.length := by
  have counted := inv.size
  have total := inv.capacity_eq
  omega

/-- Memory outside the lists and headers does not matter. -/
theorem congr (inv : Balanced cfg s walk free parked batch out)
    (members : t.toMembers = s.toMembers)
    (agrees : ∀ addr, s.ReadBy cfg free addr ∨ addr ∈ parked ∨ addr ∈ batch →
      t.mem addr = s.mem addr) :
    Balanced cfg t walk free parked batch out where
  toOk := inv.toOk.congr members fun addr read => agrees addr (Or.inl read)
  remote := by
    rw [members]
    exact inv.remote.congr fun m listed => agrees m (Or.inr (Or.inl listed))
  chain := inv.chain.congr fun m listed => agrees m (Or.inr (Or.inr listed))
  growing := by
    rw [members]
    exact inv.growing
  perm := by
    rw [members]
    exact inv.perm

/-- What happens outside a pool's chunks does not concern it. -/
theorem frame (inv : Balanced cfg s walk free parked batch out)
    {mem : Nat → Nat}
    (agrees : ∀ addr ∈ s.footprint cfg, mem addr = s.mem addr) :
    Balanced cfg { s with mem } walk free parked batch out := by
  apply inv.congr (t := { s with mem }) rfl
  have listed : ∀ m ∈ s.nodes cfg, m ∈ s.footprint cfg := fun m node =>
    inv.laid.nodeRange_subset node (cfg.self_mem_nodeRange m)
  rintro addr (read | isParked | inBatch)
  · exact agrees addr (inv.readBy_footprint read)
  · exact agrees addr (listed addr (inv.mem_nodes_iff.mpr (by simp [isParked])))
  · exact agrees addr (listed addr (inv.mem_nodes_iff.mpr (by simp [inBatch])))

/-- A node that is out may be written to. -/
theorem store (inv : Balanced cfg s walk free parked batch out)
    (isOut : n ∈ out) {addr : Nat} (inNode : addr ∈ cfg.nodeRange n)
    (value : Nat) :
    Balanced cfg (s.write addr value) walk free parked batch out := by
  have node := inv.mem_nodes_iff.mpr (Or.inr (Or.inr (Or.inr isOut)))
  have notFree := (inv.out_apart isOut).1
  refine inv.congr (t := s.write addr value) rfl fun word read => ?_
  apply Function.update_of_ne
  rintro rfl
  rcases read with read | listed
  · exact inv.not_readBy node notFree inNode read
  · exact inv.range_apart isOut (Or.inr listed) inNode

/-- The order in which the nodes that are out are listed does not matter. -/
theorem reorder (inv : Balanced cfg s walk free parked batch out)
    {out' : List Nat} (same : out.Perm out') :
    Balanced cfg s walk free parked batch out' :=
  { inv with perm := (same.append_left _).symm.trans inv.perm }

theorem withGrowth (inv : Balanced cfg s walk free parked batch out)
    {nextGrowth : Nat} (positive : cfg.heapBacked = true → 0 < nextGrowth) :
    Balanced cfg { s with nextGrowth } walk free parked batch out where
  toOk := inv.toOk.withMembers nextGrowth s.remoteHead
  remote := inv.remote
  chain := inv.chain
  growing := positive
  perm := inv.perm

theorem handed (inv : Balanced cfg s walk (n :: free) parked batch out) :
    Balanced cfg (s.handed n) walk free parked batch (n :: out) where
  toOk := inv.toOk.handed
  remote := inv.remote
  chain := inv.chain
  growing := inv.growing
  perm := by
    refine List.Perm.trans ?_ inv.perm
    apply List.perm_iff_count.mpr
    intro m
    simp only [List.count_append, List.count_cons]
    omega

/-- A new chunk whose last node is handed out at once. -/
theorem grown {heap : Heap} {slots nextGrowth : Nat} {chunk : Chunk}
    (inv : Balanced cfg s walk [] parked batch out)
    (inUse : ∀ addr ∈ s.footprint cfg, heap.inUse addr)
    (grows : Grown cfg heap slots chunk { s with nextGrowth } t [])
    (positive : 0 < nextGrowth)
    (nodes : (chunk.list cfg).reverse = n :: free) :
    Balanced cfg (t.handed n) walk free parked batch (n :: out) := by
  have outside : ∀ m ∈ s.nodes cfg, m ∉ chunk.range cfg := fun m member inChunk =>
    grows.fresh.unused m inChunk (inUse m
      (inv.laid.nodeRange_subset member (cfg.self_mem_nodeRange m)))
  obtain ⟨_, growth, remote⟩ := grows.members
  exact
    { toOk := grows.handed nodes
      remote := by
        show IsStack t.mem t.remoteHead parked
        rw [remote]
        refine inv.remote.congr fun m listed => grows.kept m (outside m ?_)
        exact inv.mem_nodes_iff.mpr (by simp [listed])
      chain := by
        refine inv.chain.congr fun m listed => grows.kept m (outside m ?_)
        exact inv.mem_nodes_iff.mpr (by simp [listed])
      growing := fun _ => by
        show 0 < t.nextGrowth
        rw [growth]
        exact positive
      perm := by
        show List.Perm _ (t.nodes cfg)
        rw [grows.nodes]
        apply List.perm_iff_count.mpr
        intro m
        have old := inv.perm.count_eq m
        have new : (chunk.list cfg).count m = (n :: free).count m := by
          rw [← nodes, List.count_reverse]
        simp only [List.nil_append, List.count_append, List.count_cons] at *
        show _ = (s.nodes cfg).count m + _
        omega }

theorem freed (inv : Balanced cfg s walk free parked batch (n :: out)) :
    Balanced cfg (s.spliceNode n) walk (n :: free) parked batch out := by
  have node := inv.mem_nodes_iff.mpr
    (Or.inr (Or.inr (Or.inr (List.mem_cons_self (a := n)))))
  obtain ⟨notFree, notParked, notBatch⟩ := inv.out_apart (n := n) (by simp)
  have kept : ∀ m ≠ n, (s.spliceNode n).mem m = s.mem m := fun m distinct =>
    Function.update_of_ne distinct _ _
  exact
    { toOk := inv.toOk.give node notFree
      remote := by
        refine inv.remote.congr fun m listed => kept m ?_
        rintro rfl
        exact notParked listed
      chain := by
        refine inv.chain.congr fun m listed => kept m ?_
        rintro rfl
        exact notBatch listed
      growing := inv.growing
      perm := by
        rw [State.spliceNode_nodes]
        refine List.Perm.trans ?_ inv.perm
        apply List.perm_iff_count.mpr
        intro m
        simp only [List.count_append, List.count_cons]
        omega }

/-- One node of a batch enters the free list. -/
theorem spliced (inv : Balanced cfg s n free parked (n :: batch) out) :
    Balanced cfg (s.spliceNode n) (s.mem n) (n :: free) parked batch out := by
  have node := inv.mem_nodes_iff.mpr
    (Or.inr (Or.inr (Or.inl (List.mem_cons_self (a := n)))))
  obtain ⟨notFree, notParked⟩ := inv.batch_apart (n := n) (by simp)
  have notLater := (List.nodup_cons.mp inv.chain.nodup).1
  have kept : ∀ m ≠ n, (s.spliceNode n).mem m = s.mem m := fun m distinct =>
    Function.update_of_ne distinct _ _
  exact
    { toOk := inv.toOk.give node notFree
      remote := by
        refine inv.remote.congr fun m listed => kept m ?_
        rintro rfl
        exact notParked listed
      chain := by
        refine inv.chain.2.2.congr fun m listed => kept m ?_
        rintro rfl
        exact notLater listed
      growing := inv.growing
      perm := by
        rw [State.spliceNode_nodes]
        refine List.Perm.trans ?_ inv.perm
        apply List.perm_iff_count.mpr
        intro m
        simp only [List.count_append, List.count_cons]
        omega }

theorem exchanged (inv : Balanced cfg s walk free parked [] out) :
    Balanced cfg { s with remoteHead := 0 } s.remoteHead free [] parked out where
  toOk := inv.toOk.withMembers s.nextGrowth 0
  remote := rfl
  chain := inv.remote
  growing := inv.growing
  perm := by
    show List.Perm _ (s.nodes cfg)
    simpa using inv.perm

/-- A node whose link holds the head of the remote stack goes on top of it. -/
theorem published (inv : Balanced cfg s walk free parked batch (n :: out))
    (linked : s.mem n = s.remoteHead) :
    Balanced cfg { s with remoteHead := n } walk free (n :: parked) batch
      out where
  toOk := inv.toOk.withMembers s.nextGrowth n
  remote := by
    have node := inv.mem_nodes_iff.mpr
      (Or.inr (Or.inr (Or.inr (List.mem_cons_self (a := n)))))
    refine ⟨rfl, inv.nonnull node, ?_⟩
    rw [linked]
    exact inv.remote
  chain := inv.chain
  growing := inv.growing
  perm := by
    refine List.Perm.trans ?_ inv.perm
    apply List.perm_iff_count.mpr
    intro m
    simp only [List.count_append, List.count_cons]
    omega

/-- A drain moves the whole batch to the free list. -/
theorem spliceWalk {fuel : Nat} (inv : Balanced cfg s n free parked batch out)
    (enough : batch.length ≤ fuel) :
    Balanced cfg (State.spliceWalk fuel n s) 0 (batch.reverse ++ free) parked []
        out ∧
      (State.spliceWalk fuel n s).chunks = s.chunks ∧
      (State.spliceWalk fuel n s).nextGrowth = s.nextGrowth ∧
      (State.spliceWalk fuel n s).capacity = s.capacity ∧
      ∀ addr ∉ batch, (State.spliceWalk fuel n s).mem addr = s.mem addr := by
  induction fuel generalizing s n batch free with
  | zero =>
      obtain rfl := List.eq_nil_of_length_eq_zero (Nat.le_zero.mp enough)
      exact ⟨{ inv with chain := rfl }, rfl, rfl, rfl, fun _ _ => rfl⟩
  | succ fuel ih =>
      unfold State.spliceWalk
      cases batch with
      | nil =>
          rw [if_pos (show n = 0 from inv.chain)]
          exact ⟨{ inv with chain := rfl }, rfl, rfl, rfl, fun _ _ => rfl⟩
      | cons m batch =>
          obtain ⟨rfl, nonnull, _⟩ := inv.chain
          rw [if_neg nonnull]
          obtain ⟨walked, chunks, growth, capacity, kept⟩ :=
            ih inv.spliced (by simpa using enough)
          rw [State.spliceNode_eq] at chunks growth capacity
          refine ⟨by simpa using walked, chunks, growth, capacity,
            fun addr outside => ?_⟩
          simp only [List.mem_cons, not_or] at outside
          exact (kept addr outside.2).trans
            (Function.update_of_ne outside.1 _ _)

theorem drainRemote (inv : Balanced cfg s 0 free parked [] out) :
    s.drainRemote.2 = decide (parked ≠ []) ∧
      Balanced cfg s.drainRemote.1 0 (parked.reverse ++ free) [] [] out ∧
      s.drainRemote.1.chunks = s.chunks ∧
      s.drainRemote.1.nextGrowth = s.nextGrowth ∧
      s.drainRemote.1.capacity = s.capacity ∧
      ∀ addr ∉ parked, s.drainRemote.1.mem addr = s.mem addr := by
  have exchanged := inv.exchanged
  unfold State.drainRemote
  dsimp only
  cases parked with
  | nil =>
      have empty : s.remoteHead = 0 := inv.remote
      rw [empty] at exchanged
      rw [if_pos empty]
      exact ⟨rfl, exchanged, rfl, rfl, rfl, fun _ _ => rfl⟩
  | cons m parked =>
      have nonempty : s.remoteHead ≠ 0 := by
        rw [inv.remote.1]
        exact inv.remote.2.1
      rw [if_neg nonempty]
      refine ⟨by simp, ?_⟩
      apply exchanged.spliceWalk
      have total := inv.capacity_eq
      show (m :: parked).length ≤ s.capacity
      omega

/-- An allocation drains the remote stack if the free list is empty, and then
provides a node. -/
theorem allocate (heap : Heap) (inv : Balanced cfg s 0 free parked [] out)
    (raw : cfg.ownerHeaders = false → parked = []) :
    ∃ u free' parked', s.allocate cfg heap = u.provide cfg heap ∧
      Balanced cfg u 0 free' parked' [] out ∧ u.chunks = s.chunks ∧
      u.nextGrowth = s.nextGrowth ∧ u.capacity = s.capacity ∧
      (∀ addr ∉ parked, u.mem addr = s.mem addr) ∧
      (∀ m, m ∈ parked' → m ∈ parked) ∧
      (free' = [] → free = [] ∧ parked = [] ∧ parked' = []) := by
  unfold State.allocate
  cases free with
  | cons n free =>
      refine ⟨s, n :: free, parked, ?_, inv, rfl, rfl, rfl, fun _ _ => rfl,
        fun _ => id, by simp⟩
      unfold State.provide
      rw [State.popFreeNode_cons inv.stack]
      dsimp only
      rw [if_neg fun both => inv.stack.2.1 both.1]
  | nil =>
      have provided : s.provide cfg heap = s.resumeAllocate cfg heap 0 := by
        unfold State.provide
        rw [State.popFreeNode_nil inv.stack]
      rw [State.popFreeNode_nil inv.stack]
      dsimp only
      by_cases headers : cfg.ownerHeaders = true
      · rw [if_pos ⟨rfl, headers⟩]
        obtain ⟨drained, inv', chunks, growth, capacity, kept⟩ := inv.drainRemote
        rw [List.append_nil] at inv'
        generalize s.drainRemote = outcome at *
        obtain ⟨u, found⟩ := outcome
        refine ⟨u, parked.reverse, [], ?_, inv', chunks, growth, capacity, kept,
          by simp, fun none => ⟨rfl, by simpa using none, rfl⟩⟩
        cases found with
        | true => rfl
        | false =>
            have empty : parked = [] := by simpa using drained.symm
            rw [empty] at inv'
            unfold State.provide
            rw [State.popFreeNode_nil inv'.stack]
      · rw [if_neg fun both => headers both.2, ← provided]
        have empty := raw (by simpa using headers)
        exact ⟨s, [], parked, rfl, inv, rfl, rfl, rfl, fun _ _ => rfl,
          fun _ => id, fun _ => ⟨rfl, empty, empty⟩⟩

end Balanced

def handedOut : Except Exn Nat → List Nat
  | .ok n => if n = 0 then [] else [n]
  | .error _ => []

/-- The pool after the end of an allocation: it writes to its own chunks only,
and those are the former ones and unused memory. -/
theorem Provides.balanced {cfg : Config} {heap : Heap} {s : State} {walk : Nat}
    {free parked batch out : List Nat} {outcome : State × Except Exn Nat}
    (provides : Provides cfg heap s free outcome)
    (inv : Balanced cfg s walk free parked batch out)
    (inUse : ∀ addr ∈ s.footprint cfg, heap.inUse addr) :
    (∃ free', Balanced cfg outcome.1 walk free' parked batch
      (handedOut outcome.2 ++ out)) ∧
    (∀ addr, addr ∉ outcome.1.footprint cfg ∨ addr ∈ s.footprint cfg →
      outcome.1.mem addr = s.mem addr) ∧
    s.footprint cfg ⊆ outcome.1.footprint cfg ∧
    ∀ addr ∈ outcome.1.footprint cfg,
      addr ∈ s.footprint cfg ∨ ¬ heap.inUse addr := by
  cases provides with
  | @taken n free =>
      have listed : handedOut (.ok n) = [n] := if_neg inv.stack.2.1
      refine ⟨⟨free, ?_⟩, fun _ _ => rfl, subset_rfl, fun _ => Or.inl⟩
      rw [listed]
      exact inv.handed
  | exhausted => exact ⟨⟨[], inv⟩, fun _ _ => rfl, subset_rfl, fun _ => Or.inl⟩
  | @failed nextGrowth exn changed =>
      refine ⟨⟨[], inv.withGrowth fun heapBacked => ?_⟩, fun _ _ => rfl,
        subset_rfl, fun _ => Or.inl⟩
      have before := inv.growing heapBacked
      omega
  | @grown nextGrowth chunk t n free growth grows nodes =>
      have positive : 0 < nextGrowth := by
        have counted := congrArg List.length nodes
        rw [List.length_reverse, Chunk.length_list, grows.fresh.count,
          List.length_cons] at counted
        omega
      have nonnull := grows.ok.nonnull (grows.ok.listed n (by rw [nodes]; simp))
      have listed : handedOut (.ok n) = [n] := if_neg nonnull
      have footprint : (t.handed n).footprint cfg =
          s.footprint cfg ∪ chunk.range cfg := grows.footprint
      rw [listed]
      refine ⟨⟨free, inv.grown inUse grows positive nodes⟩, ?_, ?_, ?_⟩
      · dsimp only
        rw [footprint]
        intro addr apart
        apply grows.kept
        intro inChunk
        rcases apart with outside | inside
        · exact outside (Or.inr inChunk)
        · exact grows.fresh.unused addr inChunk (inUse addr inside)
      · dsimp only
        rw [footprint]
        exact Set.subset_union_left
      · dsimp only
        rw [footprint]
        exact fun addr member => member.imp id (grows.fresh.unused addr)

end Pool

end Allocazam
