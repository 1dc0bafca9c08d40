import Allocazam.PoolInvariant

/-!
# What the operations of a pool do

One specification for each operation: pushing and popping a node, adding a
chunk, and the allocation that follows an empty free list.
-/

namespace Allocazam

namespace Pool

variable {cfg : Config} {s t : State} {free : List Nat}

namespace State

@[simp]
theorem pushFreeNode_mem (n : Nat) :
    (s.pushFreeNode n).mem = Function.update s.mem n s.freeHead :=
  rfl

@[simp]
theorem pushFreeNode_toMembers (n : Nat) : (s.pushFreeNode n).toMembers =
    { s.toMembers with freeHead := n } :=
  rfl

theorem spliceNode_eq (n : Nat) : s.spliceNode n =
    { s with
      size := decrement s.size
      freeHead := n
      mem := Function.update s.mem n s.freeHead } :=
  rfl

theorem spliceNode_nodes (n : Nat) :
    (s.spliceNode n).nodes cfg = s.nodes cfg := by
  rw [spliceNode_eq]
  rfl

theorem popFreeNode_nil (stack : IsStack s.mem s.freeHead []) :
    s.popFreeNode = (s, 0) := by
  unfold popFreeNode
  rw [if_pos (show s.freeHead = 0 from stack)]

theorem popFreeNode_cons {n : Nat} (stack : IsStack s.mem s.freeHead (n :: free)) :
    s.popFreeNode = ({ s with freeHead := s.mem n }, n) := by
  obtain ⟨headEq, nonnull, _⟩ := stack
  unfold popFreeNode
  rw [headEq, if_neg nonnull]

end State

namespace Ok

variable {n : Nat}

theorem nonnull (ok : Ok cfg s free) (node : n ∈ s.nodes cfg) : n ≠ 0 := by
  have := ok.laid.node_bounds node
  omega

theorem take (ok : Ok cfg s (n :: free)) :
    Ok cfg { s with freeHead := s.mem n, size := wrapAdd s.size 1 } free where
  laid := ok.laid
  stamped := ok.stamped
  capacity := ok.capacity
  stack := ok.stack.2.2
  listed m member := ok.listed m (List.mem_cons_of_mem _ member)
  size := by
    have counted := ok.size
    have bounded := ok.capacity_lt
    rw [List.length_cons] at counted
    rw [wrapAdd_eq (by omega)]
    simp only
    omega

/-- Pushing a node that is not free and counting it off. -/
theorem give (ok : Ok cfg s free) (node : n ∈ s.nodes cfg) (taken : n ∉ free) :
    Ok cfg (s.spliceNode n) (n :: free) := by
  have nodup : (n :: free).Nodup := List.nodup_cons.mpr ⟨taken, ok.free_nodup⟩
  have within : (n :: free).length ≤ (s.nodes cfg).length := by
    apply List.Subperm.length_le
    apply List.subperm_of_subset nodup
    intro m member
    rcases List.mem_cons.mp member with rfl | later
    · exact node
    · exact ok.listed m later
  have stored := ok.store node taken (cfg.self_mem_nodeRange n) s.freeHead
  have counted := ok.size
  have total := ok.capacity
  have bounded := ok.capacity_lt
  rw [List.length_cons] at within
  unfold State.spliceNode State.pushFreeNode State.write
  dsimp only
  rw [decrement_eq (by omega)]
  exact
    { laid := stored.laid
      stamped := stored.stamped
      capacity := stored.capacity
      stack := ok.stack.push (ok.nonnull node) taken
      listed := fun m member => by
        rcases List.mem_cons.mp member with rfl | later
        · exact node
        · exact ok.listed m later
      size := by
        simp only [List.length_cons]
        omega }

end Ok

section FillGranules

variable {base granule offset value count : Nat} {mem : Nat → Nat}

theorem fillGranules_inside {g : Nat} (inside : g < count) :
    fillGranules base granule offset value count mem
      (base + g * granule + offset) = value := by
  induction count with
  | zero => omega
  | succ count ih =>
      unfold fillGranules
      by_cases same : base + g * granule + offset =
          base + count * granule + offset
      · rw [same, Function.update_self]
      · rw [Function.update_of_ne same]
        apply ih
        rcases Nat.lt_succ_iff_lt_or_eq.mp inside with before | rfl
        · exact before
        · exact absurd rfl same

theorem fillGranules_outside {addr : Nat}
    (apart : ∀ g < count, addr ≠ base + g * granule + offset) :
    fillGranules base granule offset value count mem addr = mem addr := by
  induction count with
  | zero => rfl
  | succ count ih =>
      unfold fillGranules
      rw [Function.update_of_ne (apart count (Nat.lt_succ_self _))]
      exact ih fun g inside => apart g (Nat.lt_succ_of_lt inside)

end FillGranules

/-- `chunk` lies where no address was in use. -/
structure Fresh (cfg : Config) (heap : Heap) (slots : Nat) (chunk : Chunk) :
    Prop where
  count : chunk.count = slots
  placed : chunk.Placed cfg
  granules : cfg.ownerHeaders = true →
    slots + (cfg.nodesPerGranule cfg.granule - 1) < 2 ^ 64
  unused : ∀ addr ∈ chunk.range cfg, ¬ heap.inUse addr

/-- No array for a chunk of `slots` nodes can be had. -/
def Heap.Refuses (heap : Heap) (cfg : Config) (slots : Nat) : Prop :=
  ∀ bytes, cfg.chunkBytes slots = some bytes →
    heap.grant bytes cfg.chunkAlign = none

namespace Config

theorem pageAllocAlign_dvd : cfg.nodeAlignment ∣ cfg.pageAllocAlign := by
  obtain ⟨alignBits, alignEq⟩ := cfg.nodeAlignment_bits
  obtain ⟨pageBits, _, pageEq⟩ := cfg.pageBits
  unfold pageAllocAlign
  split
  · rename_i larger
    obtain ⟨_, larger⟩ := larger
    rw [alignEq, pageEq] at larger ⊢
    exact Nat.pow_dvd_pow 2
      ((Nat.pow_lt_pow_iff_right (by decide : 1 < 2)).mp larger).le
  · exact dvd_rfl

theorem chunkAlign_dvd : cfg.nodeAlignment ∣ cfg.chunkAlign := by
  unfold chunkAlign
  split
  · exact cfg.granule_dvd
  · exact cfg.pageAllocAlign_dvd

theorem nodesPerGranule_lt : cfg.nodesPerGranule cfg.granule < 2 ^ 64 := by
  obtain ⟨⟨bits, bound, granuleEq⟩, _⟩ := cfg.granule_spec
  have room := cfg.nodesPerGranule_spec.2
  have node := cfg.nodeBytes_spec.2
  have small : cfg.granule < 2 ^ 64 := by
    rw [granuleEq]
    exact Nat.pow_lt_pow_right (by decide) bound
  have fits := Nat.le_mul_of_pos_right (cfg.nodesPerGranule cfg.granule)
    (show 0 < cfg.nodeBytes by omega)
  omega

/-- The bytes of an array hold the chunk placed on it. -/
theorem chunkBytes_spec {slots bytes : Nat}
    (result : cfg.chunkBytes slots = some bytes) (base align : Nat) :
    (⟨slots, align, base⟩ : Chunk).bytes cfg ≤ bytes ∧
      (cfg.ownerHeaders = true →
        bytes = (⟨slots, align, base⟩ : Chunk).bytes cfg ∧
        slots + (cfg.nodesPerGranule cfg.granule - 1) < 2 ^ 64) := by
  unfold chunkBytes at result
  unfold Chunk.bytes
  by_cases headers : cfg.ownerHeaders = true
  · rw [if_pos headers] at result ⊢
    have positive := cfg.nodesPerGranule_spec.1
    have small := cfg.nodesPerGranule_lt
    obtain ⟨granules, granulesEq, result⟩ := Option.bind_eq_some_iff.mp result
    obtain ⟨fits, rfl⟩ := (checkedAdd_eq_some (by omega)).mp granulesEq
    obtain ⟨_, rfl⟩ := checkedMul_eq_some.mp result
    have shape : slots + (cfg.nodesPerGranule cfg.granule - 1) =
        slots + cfg.nodesPerGranule cfg.granule - 1 := by omega
    rw [← shape]
    exact ⟨le_rfl, fun _ => ⟨rfl, fits⟩⟩
  · rw [if_neg headers] at result ⊢
    obtain ⟨nodeBytes, nodeBytesEq, result⟩ := Option.bind_eq_some_iff.mp result
    obtain ⟨_, rfl⟩ := checkedMul_eq_some.mp nodeBytesEq
    obtain ⟨pageBits, pageBound, pageEq⟩ := cfg.pageBits
    have pageLt : cfg.pageSize < 2 ^ 64 := by
      rw [pageEq]
      exact Nat.pow_lt_pow_right (by decide) pageBound
    exact ⟨(checkedRoundToMultipleOf_eq_some pageLt result).1,
      fun contra => absurd contra headers⟩

end Config

theorem Chunk.header_mem_range {chunk : Chunk} {g offset : Nat}
    (inside : (g + 1) * cfg.granule ≤ chunk.bytes cfg) (inHeader : offset < 16) :
    chunk.nodes + g * cfg.granule + offset ∈ chunk.range cfg := by
  have room := cfg.granule_spec.2
  have wide := cfg.headerOffset_spec.1
  rw [Nat.succ_mul] at inside
  exact ⟨by omega, by omega⟩

/-- With owner headers a chunk is a whole number of granules. -/
theorem Chunk.granule_inside {chunk : Chunk} (headers : cfg.ownerHeaders = true)
    {g : Nat} : (g + 1) * cfg.granule ≤ chunk.bytes cfg ↔
      g < (chunk.count + cfg.nodesPerGranule cfg.granule - 1) /
        cfg.nodesPerGranule cfg.granule := by
  have positive : 0 < cfg.granule := by
    have room := cfg.granule_spec.2
    have node := cfg.nodeBytes_spec.2
    omega
  unfold Chunk.bytes
  rw [if_pos headers, Nat.mul_le_mul_right_iff positive, Nat.succ_le_iff]

theorem constructChunk_spec (cfg : Config) (s : State) (heap : Heap)
    (slots : Nat) :
    (heap.Refuses cfg slots ∧
        ∃ exn, s.constructChunk cfg heap slots = (s, .error exn)) ∨
      ∃ chunk mem, s.constructChunk cfg heap slots =
          ({ s with mem }, .ok chunk) ∧
        Fresh cfg heap slots chunk ∧
        ∀ addr ∉ chunk.range cfg, mem addr = s.mem addr := by
  unfold State.constructChunk
  cases bytesEq : cfg.chunkBytes slots with
  | none =>
      refine Or.inl ⟨fun bytes some => ?_, _, rfl⟩
      rw [bytesEq] at some
      simp at some
  | some bytes =>
      dsimp only
      cases baseEq : heap.grant bytes cfg.chunkAlign with
      | none =>
          refine Or.inl ⟨fun bytes' some => ?_, _, rfl⟩
          rw [bytesEq] at some
          rwa [← Option.some.inj some]
      | some base =>
          obtain ⟨covers, exact⟩ :=
            cfg.chunkBytes_spec bytesEq base cfg.chunkAlign
          obtain ⟨positive, aligned, bounded, unused⟩ :=
            heap.sound _ _ _ baseEq
          have fresh : Fresh cfg heap slots ⟨slots, cfg.chunkAlign, base⟩ :=
            { count := rfl
              placed :=
                { granule := fun headers => by
                    unfold Config.chunkAlign at aligned ⊢
                    rw [if_pos headers] at aligned ⊢
                    exact ⟨rfl, aligned⟩
                  aligned := cfg.chunkAlign_dvd.trans aligned
                  positive := positive
                  bounded := by
                    simp only
                    omega }
              granules := fun headers => (exact headers).2
              unused := fun addr ⟨low, high⟩ =>
                unused addr low (by simp only at high; omega) }
          refine Or.inr ?_
          dsimp only
          by_cases headers : cfg.ownerHeaders = true
          · rw [if_pos headers]
            refine ⟨_, _, rfl, fresh, fun addr outside => ?_⟩
            have inside : ∀ g < bytes / cfg.granule, ∀ offset < 16,
                addr ≠ base + g * cfg.granule + offset := by
              rintro g earlier offset small rfl
              apply outside
              apply Chunk.header_mem_range _ small
              rw [← (exact headers).1]
              exact (Nat.le_div_iff_mul_le (by
                have := cfg.granule_spec.2
                have := cfg.nodeBytes_spec.2
                omega)).mp earlier
            rw [fillGranules_outside fun g earlier =>
                inside g earlier 8 (by decide),
              fillGranules_outside fun g earlier =>
                inside g earlier 0 (by decide)]
          · rw [if_neg headers]
            exact ⟨_, s.mem, rfl, fresh, fun _ _ => rfl⟩

theorem stampOwner_spec {heap : Heap} {slots : Nat} {chunk : Chunk}
    (headers : cfg.ownerHeaders = true) (fresh : Fresh cfg heap slots chunk) :
    ∃ mem, s.stampOwner cfg chunk = { s with mem } ∧
      (∀ addr ∉ chunk.range cfg, mem addr = s.mem addr) ∧
      ∀ g, (g + 1) * cfg.granule ≤ chunk.bytes cfg →
        mem (chunk.nodes + g * cfg.granule) = cfg.self := by
  have positive := fresh.placed.positive
  have perGranule := cfg.nodesPerGranule_spec.1
  have bounded := fresh.granules headers
  have alignEq := (fresh.placed.granule headers).1
  have countEq : chunk.granuleCount cfg =
      (chunk.count + cfg.nodesPerGranule cfg.granule - 1) /
        cfg.nodesPerGranule cfg.granule := by
    unfold Chunk.granuleCount
    dsimp only
    rw [alignEq, fresh.count]
    rw [wrapSub_wrapAdd_one perGranule (by omega)]
  refine ⟨fillGranules chunk.nodes cfg.granule 0 cfg.self
    (chunk.granuleCount cfg) s.mem, ?_, ?_, ?_⟩
  · unfold State.stampOwner
    rw [if_neg (by omega), alignEq]
  · intro addr outside
    apply fillGranules_outside
    rintro g earlier rfl
    rw [countEq] at earlier
    exact outside (Chunk.header_mem_range
      ((Chunk.granule_inside headers).mpr earlier) (by decide))
  · intro g inside
    have earlier := (Chunk.granule_inside headers).mp inside
    rw [← countEq] at earlier
    exact fillGranules_inside earlier

theorem foldl_pushFreeNode_spec {nodes : List Nat} (nodup : nodes.Nodup)
    (nonnull : ∀ n ∈ nodes, n ≠ 0) (fresh : ∀ n ∈ nodes, n ∉ free)
    (stack : IsStack s.mem s.freeHead free) :
    ∃ freeHead mem, nodes.foldl State.pushFreeNode s = { s with freeHead, mem } ∧
      IsStack mem freeHead (nodes.reverse ++ free) ∧
      ∀ addr ∉ nodes, mem addr = s.mem addr := by
  induction nodes generalizing s free with
  | nil => exact ⟨s.freeHead, s.mem, rfl, stack, fun _ _ => rfl⟩
  | cons n nodes ih =>
      obtain ⟨notLater, nodup⟩ := List.nodup_cons.mp nodup
      have pushed : IsStack (s.pushFreeNode n).mem (s.pushFreeNode n).freeHead
          (n :: free) :=
        stack.push (nonnull n (by simp)) (fresh n (by simp))
      obtain ⟨freeHead, mem, result, chain, kept⟩ := ih nodup
        (fun m member => nonnull m (by simp [member]))
        (fun m member => by
          have distinct : m ≠ n := by
            rintro rfl
            exact notLater member
          simp [distinct, fresh m (by simp [member])]) pushed
      refine ⟨freeHead, mem, ?_, ?_, fun addr outside => ?_⟩
      · rw [List.foldl_cons, result]
        rfl
      · simpa using chain
      · simp only [List.mem_cons, not_or] at outside
        rw [kept addr outside.2, State.pushFreeNode_mem,
          Function.update_of_ne outside.1]

/-- How `t` arises from `s` when `chunk` is added. -/
structure Grown (cfg : Config) (heap : Heap) (slots : Nat) (chunk : Chunk)
    (s t : State) (free : List Nat) : Prop where
  fresh : Fresh cfg heap slots chunk
  ok : Ok cfg t ((chunk.list cfg).reverse ++ free)
  chunks : t.chunks = if cfg.fixedLike = true then [chunk]
    else s.chunks ++ [chunk]
  nodes : t.nodes cfg = s.nodes cfg ++ chunk.list cfg
  footprint : t.footprint cfg = s.footprint cfg ∪ chunk.range cfg
  members : t.size = s.size ∧ t.nextGrowth = s.nextGrowth ∧
    t.remoteHead = s.remoteHead
  kept : ∀ addr ∉ chunk.range cfg, t.mem addr = s.mem addr

theorem footprint_eq_empty {m : Members}
    (counts : ∀ chunk ∈ m.chunks, chunk.count = 0) : m.footprint cfg = ∅ := by
  apply Set.eq_empty_of_forall_notMem
  rintro addr ⟨chunk, member, low, high⟩
  have none : chunk.bytes cfg = 0 := by
    have positive := cfg.nodesPerGranule_spec.1
    unfold Chunk.bytes
    rw [counts chunk member]
    split
    · rw [Nat.div_eq_of_lt (by omega), Nat.zero_mul]
    · exact Nat.zero_mul _
  omega

theorem Laid.append {chunks : List Chunk} {chunk : Chunk}
    (laid : Laid cfg chunks) (placed : chunk.Placed cfg)
    (apart : ∀ other ∈ chunks,
      Disjoint (other.range cfg) (chunk.range cfg)) :
    Laid cfg (chunks ++ [chunk]) where
  placed other member := by
    rcases List.mem_append.mp member with earlier | last
    · exact laid.placed other earlier
    · rw [List.mem_singleton.mp last]
      exact Or.inr placed
  apart := by
    apply List.pairwise_append.mpr
    refine ⟨laid.apart, List.pairwise_singleton _ _, ?_⟩
    intro other member last lastMember
    rw [List.mem_singleton.mp lastMember]
    exact apart other member

/-- The members of a pool that holds `chunk` besides its former chunks.  In
fixed mode it replaces a chunk without nodes. -/
theorem Ok.hold {heap : Heap} {slots : Nat} {chunk : Chunk} {m : Members}
    (ok : Ok cfg s free) (inUse : ∀ addr ∈ s.footprint cfg, heap.inUse addr)
    (fresh : Fresh cfg heap slots chunk)
    (chunks : m.chunks = if cfg.fixedLike = true then [chunk]
      else s.chunks ++ [chunk])
    (single : cfg.fixedLike = true → s.capacity = 0) :
    Laid cfg m.chunks ∧ m.nodes cfg = s.nodes cfg ++ chunk.list cfg ∧
      m.footprint cfg = s.footprint cfg ∪ chunk.range cfg ∧
      chunk ∈ m.chunks ∧ ∀ other ∈ m.chunks, other = chunk ∨ other ∈ s.chunks := by
  by_cases fixed : cfg.fixedLike = true
  · rw [if_pos fixed] at chunks
    have empty : s.nodes cfg = [] := by
      apply List.eq_nil_of_length_eq_zero
      rw [← ok.capacity, single fixed]
    have unused : s.footprint cfg = ∅ := by
      apply footprint_eq_empty
      intro other member
      have counted : (other.list cfg).length = other.count := Chunk.length_list
      rw [← counted, List.length_eq_zero_iff]
      exact List.flatMap_eq_nil_iff.mp empty other member
    refine ⟨?_, ?_, ?_, ?_, ?_⟩
    · rw [chunks]
      exact ⟨fun other member => Or.inr
        (List.mem_singleton.mp member ▸ fresh.placed),
        List.pairwise_singleton _ _⟩
    · simp [Members.nodes, chunks, show s.chunks.flatMap (Chunk.list cfg) = []
        from empty]
    · rw [unused, Set.empty_union]
      ext addr
      simp [Members.footprint, chunks]
    · simp [chunks]
    · intro other member
      rw [chunks] at member
      exact Or.inl (List.mem_singleton.mp member)
  · rw [if_neg fixed] at chunks
    refine ⟨?_, ?_, ?_, ?_, ?_⟩
    · rw [chunks]
      apply ok.laid.append fresh.placed
      intro other member
      apply Set.disjoint_left.mpr
      intro addr inOther inChunk
      exact fresh.unused addr inChunk (inUse addr ⟨other, member, inOther⟩)
    · simp [Members.nodes, chunks]
    · ext addr
      simp [Members.footprint, chunks, or_and_right, exists_or]
    · simp [chunks]
    · intro other member
      rw [chunks, List.mem_append, List.mem_singleton] at member
      exact member.symm

/-- The nodes of a new chunk enter the free list. -/
theorem Ok.seed {heap : Heap} {slots : Nat} {chunk : Chunk} {chunks : List Chunk}
    {mem : Nat → Nat} (ok : Ok cfg s free)
    (inUse : ∀ addr ∈ s.footprint cfg, heap.inUse addr)
    (fresh : Fresh cfg heap slots chunk)
    (chunksEq : chunks = if cfg.fixedLike = true then [chunk]
      else s.chunks ++ [chunk])
    (single : cfg.fixedLike = true → s.capacity = 0)
    (kept : ∀ addr ∉ chunk.range cfg, mem addr = s.mem addr)
    (stamped : cfg.ownerHeaders = true → ∀ g,
      (g + 1) * cfg.granule ≤ chunk.bytes cfg →
        mem (chunk.nodes + g * cfg.granule) = cfg.self) :
    Grown cfg heap slots chunk s
      ({ s with chunks, mem }.seed cfg chunk) free := by
  obtain ⟨laid, nodes, footprint, member, others⟩ :=
    ok.hold (m := { s.toMembers with chunks }) inUse fresh chunksEq single
  have outside : ∀ addr ∈ s.footprint cfg, addr ∉ chunk.range cfg :=
    fun addr old inChunk => fresh.unused addr inChunk (inUse addr old)
  have nodeNew : ∀ n ∈ chunk.list cfg, n ∈ chunk.range cfg := fun n listed =>
    Chunk.nodeRange_subset fresh.placed listed (cfg.self_mem_nodeRange n)
  have freeOld : ∀ n ∈ free, n ∉ chunk.range cfg := fun n listed =>
    outside n (ok.laid.nodeRange_subset (ok.listed n listed)
      (cfg.self_mem_nodeRange n))
  have stack : IsStack mem s.freeHead free :=
    ok.stack.congr fun n listed => kept n (freeOld n listed)
  obtain ⟨freeHead, mem', seeded, chain, memKept⟩ :=
    foldl_pushFreeNode_spec (s := { s with chunks, mem })
      (Chunk.list_nodup fresh.placed)
      (fun n listed => by
        have := laid.node_bounds (mem_nodes.mpr ⟨chunk, member, listed⟩)
        omega)
      (fun n listed free => freeOld n free (nodeNew n listed)) stack
  have total : ({ s.toMembers with chunks }.nodes cfg).length =
      s.capacity + chunk.count := by
    rw [nodes, List.length_append, ← ok.capacity, Chunk.length_list]
  have bounded := laid.length_nodes_lt
  unfold State.seed
  rw [seeded]
  dsimp only
  rw [wrapAdd_eq (by omega)]
  refine
    { fresh := fresh
      ok :=
        { laid := laid
          stamped := fun headers other otherMember g inside => ?_
          capacity := total.symm
          stack := chain
          listed := fun n listed => ?_
          size := ?_ }
      chunks := chunksEq
      nodes := nodes
      footprint := footprint
      members := ⟨rfl, rfl, rfl⟩
      kept := fun addr apart => ?_ }
  · have header := Chunk.header_mem_range inside (show 0 < 16 by decide)
    rw [Nat.add_zero] at header
    have notNode : other.nodes + g * cfg.granule ∉ chunk.list cfg := by
      intro listed
      exact laid.header_apart headers
        (mem_nodes.mpr ⟨chunk, member, listed⟩) otherMember inside
        (cfg.self_mem_nodeRange _)
    show mem' (other.nodes + g * cfg.granule) = cfg.self
    rw [memKept _ notNode]
    show mem (other.nodes + g * cfg.granule) = cfg.self
    rcases others other otherMember with rfl | old
    · exact stamped headers g inside
    · rw [kept _ (outside _ ⟨other, old, header⟩)]
      exact ok.stamped headers other old g inside
  · show n ∈ { s.toMembers with chunks }.nodes cfg
    rw [nodes]
    rcases List.mem_append.mp listed with new | old
    · exact List.mem_append_right _ (List.mem_reverse.mp new)
    · exact List.mem_append_left _ (ok.listed n old)
  · have counted := ok.size
    simp only [List.length_append, List.length_reverse, Chunk.length_list]
    omega
  · rw [← kept addr apart]
    apply memKept
    intro listed
    exact apart (nodeNew addr listed)

theorem heapBacked_mode (heapBacked : cfg.heapBacked = true) :
    (cfg.mode = MemoryMode.fixed) = (cfg.fixedLike = true) := by
  unfold Config.heapBacked at heapBacked
  unfold Config.fixedLike
  cases mode : cfg.mode <;> simp_all

theorem addChunk_spec {heap : Heap} (ok : Ok cfg s free)
    (inUse : ∀ addr ∈ s.footprint cfg, heap.inUse addr)
    (heapBacked : cfg.heapBacked = true)
    (single : cfg.fixedLike = true → s.capacity = 0) (slots : Nat) :
    (heap.Refuses cfg slots ∧
        ∃ exn, s.addChunk cfg heap slots = (s, .error exn)) ∨
      ∃ chunk t, s.addChunk cfg heap slots = (t, .ok ()) ∧
        Grown cfg heap slots chunk s t free := by
  unfold State.addChunk
  rcases constructChunk_spec cfg s heap slots with
    ⟨refused, exn, failed⟩ | ⟨chunk, mem, built, fresh, kept⟩
  · rw [failed]
    exact Or.inl ⟨refused, exn, rfl⟩
  rw [built]
  refine Or.inr ⟨chunk, _, rfl, ?_⟩
  dsimp only
  simp only [heapBacked_mode heapBacked]
  by_cases headers : cfg.ownerHeaders = true
  · rw [if_pos headers]
    obtain ⟨stamped, result, stampKept, headersEq⟩ :=
      stampOwner_spec (s := { s with
        chunks := if cfg.fixedLike = true then [chunk] else s.chunks ++ [chunk]
        mem := mem }) headers fresh
    rw [result]
    apply ok.seed inUse fresh rfl single
    · intro addr outside
      exact (stampKept addr outside).trans (kept addr outside)
    · exact fun _ => headersEq
  · rw [if_neg headers]
    exact ok.seed inUse fresh rfl single kept fun contra => absurd contra headers

/-- The state after the pool has handed out the node `n`. -/
def State.handed (s : State) (n : Nat) : State :=
  { s with freeHead := s.mem n, size := wrapAdd s.size 1 }

/-- What the end of an allocation can be for a pool with the given free list. -/
inductive Provides (cfg : Config) (heap : Heap) (s : State) :
    List Nat → State × Except Exn Nat → Prop
  | taken {n : Nat} {free : List Nat} :
      Provides cfg heap s (n :: free) (s.handed n, .ok n)
  /-- A pool that cannot grow has no node left. -/
  | exhausted (fixedLike : cfg.fixedLike = true)
      (populated : cfg.heapBacked = true → s.capacity ≠ 0 ∨ s.nextGrowth = 0) :
      Provides cfg heap s [] (s, .ok 0)
  | failed {nextGrowth : Nat} {exn : Exn}
      (growth : nextGrowth = s.nextGrowth ∧
          (cfg.heapBacked = true ∧ s.capacity = 0 ∧
              heap.Refuses cfg nextGrowth ∨
            s.capacity ≠ 0 ∧ cfg.fixedLike = false ∧
              2 ^ 64 ≤ 2 * s.nextGrowth) ∨
        nextGrowth = 2 * s.nextGrowth ∧ s.capacity ≠ 0 ∧
          cfg.fixedLike = false ∧ 2 * s.nextGrowth < 2 ^ 64 ∧
          heap.Refuses cfg nextGrowth) :
      Provides cfg heap s [] ({ s with nextGrowth }, .error exn)
  | grown {nextGrowth : Nat} {chunk : Chunk} {t : State} {n : Nat}
      {free : List Nat} (growth : s.capacity = 0 ∧ nextGrowth = s.nextGrowth ∨
        s.capacity ≠ 0 ∧ cfg.fixedLike = false ∧
          nextGrowth = 2 * s.nextGrowth)
      (grows : Grown cfg heap nextGrowth chunk { s with nextGrowth } t [])
      (nodes : (chunk.list cfg).reverse = n :: free) :
      Provides cfg heap s [] (t.handed n, .ok n)

theorem Grown.provide {heap : Heap} {slots : Nat} {chunk : Chunk}
    (grows : Grown cfg heap slots chunk s t []) (positive : 0 < slots) :
    ∃ n free, (chunk.list cfg).reverse = n :: free ∧ n ≠ 0 ∧
      t.popFreeNode = ({ t with freeHead := t.mem n }, n) := by
  have counted : (chunk.list cfg).reverse.length = slots := by
    rw [List.length_reverse, Chunk.length_list, grows.fresh.count]
  have ok := grows.ok
  rw [List.append_nil] at ok
  cases nodes : (chunk.list cfg).reverse with
  | nil =>
      rw [nodes] at counted
      exact absurd counted positive.ne
  | cons n free =>
      rw [nodes] at ok
      exact ⟨n, free, rfl, ok.stack.2.1, State.popFreeNode_cons ok.stack⟩

theorem provide_spec {heap : Heap} (ok : Ok cfg s free)
    (inUse : ∀ addr ∈ s.footprint cfg, heap.inUse addr)
    (growing : cfg.heapBacked = true → 0 < s.nextGrowth) :
    Provides cfg heap s free (s.provide cfg heap) := by
  unfold State.provide
  cases free with
  | cons n free =>
      rw [State.popFreeNode_cons ok.stack]
      dsimp only
      unfold State.resumeAllocate
      rw [if_neg ok.stack.2.1]
      exact Provides.taken
  | nil =>
      rw [State.popFreeNode_nil ok.stack]
      dsimp only
      unfold State.resumeAllocate State.allocateDeferred
      rw [if_pos rfl]
      by_cases deferred : cfg.heapBacked = true ∧ s.capacity = 0 ∧
          s.nextGrowth ≠ 0
      · rw [if_pos deferred]
        obtain ⟨heapBacked, unpopulated, _⟩ := deferred
        rcases addChunk_spec ok inUse heapBacked (fun _ => unpopulated)
            s.nextGrowth with
          ⟨refused, exn, failed⟩ | ⟨chunk, t, added, grows⟩
        · rw [failed]
          exact @Provides.failed cfg heap s s.nextGrowth _
            (Or.inl ⟨rfl, Or.inl ⟨heapBacked, unpopulated, refused⟩⟩)
        · rw [added]
          obtain ⟨n, free, nodes, nonnull, popped⟩ :=
            grows.provide (growing heapBacked)
          dsimp only
          rw [popped]
          dsimp only
          rw [if_neg nonnull]
          exact Provides.grown (t := t) (Or.inl ⟨unpopulated, rfl⟩) grows nodes
      · rw [if_neg deferred]
        dsimp only
        rw [if_pos rfl]
        unfold State.allocateGrown
        by_cases fixedLike : cfg.fixedLike = true
        · rw [if_pos fixedLike]
          refine Provides.exhausted fixedLike fun heapBacked => ?_
          by_contra neither
          rw [not_or, not_not] at neither
          exact deferred ⟨heapBacked, neither⟩
        · rw [if_neg fixedLike]
          have heapBacked : cfg.heapBacked = true := by
            unfold Config.fixedLike at fixedLike
            unfold Config.heapBacked
            cases mode : cfg.mode <;> simp_all
          have positive := growing heapBacked
          have populated : s.capacity ≠ 0 := fun unpopulated =>
            deferred ⟨heapBacked, unpopulated, positive.ne'⟩
          unfold State.grow
          cases doubled : checkedMul s.nextGrowth 2 with
          | none =>
              have large := checkedMul_eq_none.mp doubled
              exact @Provides.failed cfg heap s s.nextGrowth _
                (Or.inl ⟨rfl, Or.inr
                  ⟨populated, by simpa using fixedLike, by omega⟩⟩)
          | some doubledGrowth =>
              obtain ⟨small, rfl⟩ := checkedMul_eq_some.mp doubled
              dsimp only
              rw [max_eq_right (by omega), Nat.mul_comm]
              rcases addChunk_spec
                  (ok.withMembers (2 * s.nextGrowth) s.remoteHead) inUse
                  heapBacked (fun contra => absurd contra fixedLike)
                  (2 * s.nextGrowth) with
                ⟨refused, exn, failed⟩ | ⟨chunk, t, added, grows⟩
              · rw [failed]
                exact Provides.failed (Or.inr
                  ⟨rfl, populated, by simpa using fixedLike, by omega,
                    refused⟩)
              · rw [added]
                obtain ⟨n, free, nodes, nonnull, popped⟩ :=
                  grows.provide (by omega)
                dsimp only
                rw [popped]
                dsimp only
                rw [if_neg nonnull]
                exact Provides.grown (t := t)
                  (Or.inr ⟨populated, by simpa using fixedLike, rfl⟩) grows
                  nodes

/-- What is true after the end of an allocation. -/
theorem Ok.handed {n : Nat} (ok : Ok cfg s (n :: free)) :
    Ok cfg (s.handed n) free :=
  ok.take

theorem Grown.handed {heap : Heap} {slots n : Nat} {chunk : Chunk}
    (grows : Grown cfg heap slots chunk s t [])
    (nodes : (chunk.list cfg).reverse = n :: free) :
    Ok cfg (t.handed n) free := by
  have ok := grows.ok
  rw [List.append_nil, nodes] at ok
  exact ok.handed

end Pool

end Allocazam
