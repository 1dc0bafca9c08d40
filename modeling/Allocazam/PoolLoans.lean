import Allocazam.OwnedMemory
import Allocazam.PoolMove

/-!
# The memory of a pool

What memory a pool obtains in a call, and how its chunks give it back.
-/

namespace Allocazam

namespace Pool

namespace Chunk

variable (cfg : Config) (chunk : Chunk)

/-- `release`: the loans that remain, unless the behavior is undefined. -/
def release (loans : List Loan) : Option (List Loan) :=
  if chunk.nodes = 0 then some loans
  else if cfg.heapBacked then deleteArray chunk.nodes chunk.allocAlign loans
  else some loans

def loan : Option Loan :=
  if chunk.nodes ≠ 0 ∧ cfg.heapBacked = true then
    some ⟨false, chunk.nodes, (cfg.chunkBytes chunk.count).getD 0, chunk.allocAlign⟩
  else none

end Chunk

def releaseChunks (cfg : Config) : List Chunk → List Loan → Option (List Loan)
  | [], loans => some loans
  | chunk :: rest, loans =>
      match chunk.release cfg loans with
      | none => none
      | some loans => releaseChunks cfg rest loans

def chunkLoans (cfg : Config) (chunks : List Chunk) : List Loan :=
  chunks.filterMap (Chunk.loan cfg)

/-- The memory that `chunk_t(sz, page_size, alloc_alignment)` obtains. -/
def obtained (cfg : Config) (heap : Heap) (slots : Nat) : List OwnedMemory :=
  match cfg.chunkBytes slots with
  | none => []
  | some bytes =>
      match heap.grant bytes cfg.chunkAlign with
      | none => []
      | some base => [⟨base, bytes, cfg.chunkAlign⟩]

namespace State

variable (cfg : Config) (s : State)

def obtainedDeferred (heap : Heap) : List OwnedMemory :=
  if cfg.heapBacked ∧ s.capacity = 0 ∧ s.nextGrowth ≠ 0 then
    obtained cfg heap s.nextGrowth
  else []

def obtainedGrowing (heap : Heap) : List OwnedMemory :=
  if cfg.fixedLike then []
  else
    match checkedMul s.nextGrowth 2 with
    | none => []
    | some doubledGrowth => obtained cfg heap (max 1 doubledGrowth)

/-- The memory that `allocate` obtains once the remote stack has been dealt with, with the
node found so far or null. -/
def obtainedLater (heap : Heap) (n : Nat) : List OwnedMemory :=
  if n = 0 then
    s.obtainedDeferred cfg heap ++
      match s.allocateDeferred cfg heap with
      | (_, .error _) => []
      | (t, .ok n) => if n = 0 then t.obtainedGrowing cfg heap else []
  else []

/-- The memory that `allocate` obtains. -/
def obtainedBy (heap : Heap) : List OwnedMemory :=
  let (s, n) := s.popFreeNode
  if n = 0 ∧ cfg.ownerHeaders then
    match s.drainRemote with
    | (s, true) =>
        let (s, n) := s.popFreeNode
        s.obtainedLater cfg heap n
    | (s, false) => s.obtainedLater cfg heap 0
  else s.obtainedLater cfg heap n

end State

variable {cfg : Config} {s t : State} {heap : Heap} {slots : Nat} {chunks : List Chunk}
  {chunk : Chunk} {loans rest : List Loan} {pieces : List OwnedMemory}

theorem chunkLoans_append (chunks other : List Chunk) :
    chunkLoans cfg (chunks ++ other) = chunkLoans cfg chunks ++ chunkLoans cfg other :=
  List.filterMap_append

theorem chunkLoans_eq_nil (unowned : ∀ chunk ∈ chunks, chunk.nodes = 0 ∨ cfg.heapBacked = false) :
    chunkLoans cfg chunks = [] := by
  refine List.filterMap_eq_nil_iff.mpr fun chunk member => ?_
  refine if_neg fun both => ?_
  rcases unowned chunk member with none | raw
  · exact both.1 none
  · rw [raw] at both
    exact absurd both.2 (by decide)

/-- The destructors of chunks give back exactly what the chunks are on loan. -/
theorem releaseChunks_spec (separate : Separate loans)
    (lent : loans.Perm (chunkLoans cfg chunks ++ rest)) :
    ∃ left, releaseChunks cfg chunks loans = some left ∧ left.Perm rest := by
  induction chunks generalizing loans with
  | nil => exact ⟨loans, rfl, lent⟩
  | cons chunk later ih =>
      unfold releaseChunks Chunk.release
      by_cases owned : chunk.nodes ≠ 0 ∧ cfg.heapBacked = true
      · have isLoan : chunk.loan cfg = some ⟨false, chunk.nodes,
            (cfg.chunkBytes chunk.count).getD 0, chunk.allocAlign⟩ := if_pos owned
        unfold chunkLoans at lent
        rw [List.filterMap_cons_some isLoan, List.cons_append] at lent
        obtain ⟨left, released, remains⟩ := separate.deleteArray lent
        rw [if_neg owned.1, if_pos owned.2]
        dsimp only at released ⊢
        rw [released]
        have apart := (separate.perm lent).tail
        exact ih (apart.perm remains.symm) remains
      · have noLoan : chunk.loan cfg = none := if_neg owned
        unfold chunkLoans at lent
        rw [List.filterMap_cons_none noLoan] at lent
        have kept : (if chunk.nodes = 0 then some loans
            else if cfg.heapBacked = true then deleteArray chunk.nodes chunk.allocAlign loans
            else some loans) = some loans := by
          by_cases null : chunk.nodes = 0
          · exact if_pos null
          · rw [if_neg null]
            exact if_neg fun heapBacked => owned ⟨null, heapBacked⟩
        rw [kept]
        exact ih separate lent

/-- What may happen to the chunks in one call: nothing, or a chunk on obtained memory, which
in a fixed pool takes the place of the empty one. -/
inductive Acquired (cfg : Config) (heap : Heap) (s t : Members) : List OwnedMemory → Prop
  | none (chunks : t.chunks = s.chunks) (capacity : t.capacity = s.capacity) :
      Acquired cfg heap s t []
  | chunk {slots bytes base : Nat} (heapBacked : cfg.heapBacked = true) (positive : 0 < slots)
      (first : cfg.mode = MemoryMode.fixed → s.capacity = 0)
      (sized : cfg.chunkBytes slots = some bytes)
      (granted : heap.grant bytes cfg.chunkAlign = some base)
      (chunks : t.chunks = if cfg.mode = MemoryMode.fixed then [⟨slots, cfg.chunkAlign, base⟩]
        else s.chunks ++ [⟨slots, cfg.chunkAlign, base⟩])
      (capacity : t.capacity = wrapAdd s.capacity slots) :
      Acquired cfg heap s t [⟨base, bytes, cfg.chunkAlign⟩]

theorem foldl_pushFreeNode_members (nodes : List Nat) (s : State) :
    (nodes.foldl State.pushFreeNode s).toMembers =
      { s.toMembers with freeHead := (nodes.getLast?).getD s.freeHead } := by
  induction nodes generalizing s with
  | nil => rfl
  | cons n rest ih =>
      rw [List.foldl_cons, ih]
      cases rest with
      | nil => rfl
      | cons m rest =>
          rw [List.getLast?_cons_cons]
          rw [List.getLast?_eq_some_getLast (List.cons_ne_nil m rest)]
          rfl

theorem Chunk.nodes_le_nodeAt (chunk : Chunk) (i : Nat) : chunk.nodes ≤ chunk.nodeAt cfg i := by
  unfold Chunk.nodeAt
  split
  · dsimp only
    omega
  · exact Nat.le_add_right _ _

theorem stampOwner_members (s : State) (chunk : Chunk) :
    (s.stampOwner cfg chunk).toMembers = s.toMembers := by
  unfold State.stampOwner
  split <;> rfl

/-- How `_add_chunk` ends: it throws and nothing happened but to the memory, or there is a
new chunk whose last node heads the free list. -/
theorem addChunk_members (cfg : Config) (heap : Heap) (s : State) (slots : Nat) :
    (∃ exn t, s.addChunk cfg heap slots = (t, .error exn) ∧ t.toMembers = s.toMembers ∧
      obtained cfg heap slots = []) ∨
    ∃ t bytes base, s.addChunk cfg heap slots = (t, .ok ()) ∧
      cfg.chunkBytes slots = some bytes ∧
      heap.grant bytes cfg.chunkAlign = some base ∧
      obtained cfg heap slots = [⟨base, bytes, cfg.chunkAlign⟩] ∧
      t.chunks = (if cfg.mode = MemoryMode.fixed then [⟨slots, cfg.chunkAlign, base⟩]
        else s.chunks ++ [⟨slots, cfg.chunkAlign, base⟩]) ∧
      t.capacity = wrapAdd s.capacity slots ∧ (0 < slots → t.freeHead ≠ 0) := by
  unfold State.addChunk State.constructChunk obtained
  cases sized : cfg.chunkBytes slots with
  | none => exact .inl ⟨_, s, rfl, rfl, rfl⟩
  | some bytes =>
      dsimp only
      cases granted : heap.grant bytes cfg.chunkAlign with
      | none => exact .inl ⟨_, s, rfl, rfl, rfl⟩
      | some base =>
          right
          let chunk : Chunk := ⟨slots, cfg.chunkAlign, base⟩
          have built : ∃ mem, (if cfg.ownerHeaders = true then
              let granules := bytes / cfg.granule
              let mem := fillGranules base cfg.granule 0 0 granules s.mem
              let mem := fillGranules base cfg.granule 8 granuleDebugTag granules mem
              (({ s with mem } : State), (Except.ok chunk : Except Exn Chunk))
            else (s, Except.ok chunk)) = ({ s with mem }, .ok chunk) := by
            split
            · exact ⟨_, rfl⟩
            · exact ⟨s.mem, rfl⟩
          obtain ⟨mem, built⟩ := built
          dsimp only
          rw [built]
          dsimp only
          generalize heldEq : ({ s with
            chunks := if cfg.mode = MemoryMode.fixed then [chunk] else s.chunks ++ [chunk]
            mem := mem } : State) = held
          have stamped : (if cfg.ownerHeaders = true then held.stampOwner cfg chunk
              else held).toMembers = held.toMembers := by
            split
            · exact stampOwner_members held chunk
            · rfl
          generalize (if cfg.ownerHeaders = true then held.stampOwner cfg chunk
            else held) = stamp at stamped ⊢
          have seeded := foldl_pushFreeNode_members (chunk.list cfg) stamp
          rw [stamped, ← heldEq] at seeded
          refine ⟨_, bytes, base, rfl, rfl, granted, rfl, ?_, ?_, fun positive => ?_⟩
          · exact congrArg Members.chunks seeded
          · show wrapAdd (List.foldl State.pushFreeNode stamp (chunk.list cfg)).capacity slots = _
            rw [congrArg Members.capacity seeded]
          · show (List.foldl State.pushFreeNode stamp (chunk.list cfg)).freeHead ≠ 0
            rw [congrArg Members.freeHead seeded]
            have some : chunk.list cfg ≠ [] := by
              rw [← List.length_pos_iff, Chunk.length_list]
              exact positive
            rw [List.getLast?_eq_some_getLast some, Option.getD_some]
            obtain ⟨i, _, isNode⟩ := Chunk.mem_list.mp (List.getLast_mem some)
            have nonnull := (heap.sound _ _ _ granted).1
            have after : base ≤ chunk.nodeAt cfg i := chunk.nodes_le_nodeAt i
            rw [← isNode]
            exact (nonnull.trans_le after).ne'

theorem Acquired.after {s t u : Members} (acquired : Acquired cfg heap s t pieces)
    (chunks : u.chunks = t.chunks) (capacity : u.capacity = t.capacity) :
    Acquired cfg heap s u pieces := by
  cases acquired with
  | none chunksEq capacityEq => exact .none (chunks.trans chunksEq) (capacity.trans capacityEq)
  | chunk heapBacked positive first sized granted chunksEq capacityEq =>
      exact .chunk heapBacked positive first sized granted (chunks.trans chunksEq)
        (capacity.trans capacityEq)

theorem Acquired.before {r s t : Members} (acquired : Acquired cfg heap s t pieces)
    (chunks : s.chunks = r.chunks) (capacity : s.capacity = r.capacity) :
    Acquired cfg heap r t pieces := by
  cases acquired with
  | none chunksEq capacityEq => exact .none (chunksEq.trans chunks) (capacityEq.trans capacity)
  | chunk heapBacked positive first sized granted chunksEq capacityEq =>
      rw [chunks] at chunksEq
      rw [capacity] at first capacityEq
      exact .chunk heapBacked positive first sized granted chunksEq capacityEq

theorem popFreeNode_members (s : State) :
    s.popFreeNode.1.chunks = s.chunks ∧ s.popFreeNode.1.capacity = s.capacity ∧
      s.popFreeNode.2 = s.freeHead := by
  unfold State.popFreeNode
  split
  · rename_i none
    exact ⟨rfl, rfl, none.symm⟩
  · exact ⟨rfl, rfl, rfl⟩

theorem spliceWalk_members (fuel n : Nat) (s : State) :
    (State.spliceWalk fuel n s).chunks = s.chunks ∧
      (State.spliceWalk fuel n s).capacity = s.capacity := by
  induction fuel generalizing n s with
  | zero => exact ⟨rfl, rfl⟩
  | succ fuel ih =>
      unfold State.spliceWalk
      split
      · exact ⟨rfl, rfl⟩
      · exact ih (s.mem n) (s.spliceNode n)

theorem drainRemote_members (s : State) :
    s.drainRemote.1.chunks = s.chunks ∧ s.drainRemote.1.capacity = s.capacity := by
  unfold State.drainRemote
  dsimp only
  split
  · exact ⟨rfl, rfl⟩
  · exact spliceWalk_members _ _ _

theorem allocateDeferred_acquired (s : State) :
    Acquired cfg heap s.toMembers (s.allocateDeferred cfg heap).1.toMembers
        (s.obtainedDeferred cfg heap) ∧
      ((s.allocateDeferred cfg heap).2 = .ok 0 →
        (s.allocateDeferred cfg heap).1 = s ∧ s.obtainedDeferred cfg heap = []) := by
  unfold State.allocateDeferred State.obtainedDeferred
  by_cases deferred : cfg.heapBacked = true ∧ s.capacity = 0 ∧ s.nextGrowth ≠ 0
  · rw [if_pos deferred, if_pos deferred]
    obtain ⟨heapBacked, empty, some⟩ := deferred
    rcases addChunk_members cfg heap s s.nextGrowth with
      ⟨exn, t, failed, same, nothing⟩ |
      ⟨t, bytes, base, added, sized, granted, piece, chunks, capacity, head⟩
    · rw [failed, nothing]
      exact ⟨.none (congrArg Members.chunks same) (congrArg Members.capacity same), nofun⟩
    · rw [added, piece]
      obtain ⟨sameChunks, sameCapacity, popped⟩ := popFreeNode_members t
      dsimp only
      refine ⟨.chunk heapBacked (Nat.pos_of_ne_zero some) (fun _ => empty) sized granted
        (sameChunks.trans chunks) (sameCapacity.trans capacity), fun null => ?_⟩
      rw [popped] at null
      exact absurd (Except.ok.inj null) (head (Nat.pos_of_ne_zero some))
  · rw [if_neg deferred, if_neg deferred]
    exact ⟨.none rfl rfl, fun _ => ⟨rfl, rfl⟩⟩

theorem allocateGrown_acquired (s : State) :
    Acquired cfg heap s.toMembers (s.allocateGrown cfg heap).1.toMembers
      (s.obtainedGrowing cfg heap) := by
  unfold State.allocateGrown State.obtainedGrowing State.grow
  by_cases fixedLike : cfg.fixedLike = true
  · rw [if_pos fixedLike, if_pos fixedLike]
    exact .none rfl rfl
  rw [if_neg fixedLike, if_neg fixedLike]
  have dynamic : cfg.mode = .dynamic := by
    unfold Config.fixedLike at fixedLike
    simpa using fixedLike
  cases checkedMul s.nextGrowth 2 with
  | none => exact .none rfl rfl
  | some doubledGrowth =>
      dsimp only
      rcases addChunk_members cfg heap { s with nextGrowth := max 1 doubledGrowth }
          (max 1 doubledGrowth) with
        ⟨exn, t, failed, same, nothing⟩ |
        ⟨t, bytes, base, added, sized, granted, piece, chunks, capacity, head⟩
      · have chunks : t.chunks = s.chunks := (congrArg Members.chunks same :)
        have capacity : t.capacity = s.capacity := (congrArg Members.capacity same :)
        rw [failed, nothing]
        exact .none chunks capacity
      · rw [added, piece]
        obtain ⟨sameChunks, sameCapacity, popped⟩ := popFreeNode_members t
        have acquired : Acquired cfg heap s.toMembers t.popFreeNode.1.toMembers
            [⟨base, bytes, cfg.chunkAlign⟩] := by
          refine .chunk ?_ (by omega) ?_ sized granted (sameChunks.trans chunks)
            (sameCapacity.trans capacity)
          · unfold Config.heapBacked
            rw [dynamic]
            rfl
          · intro fixed
            rw [fixed] at dynamic
            cases dynamic
        dsimp only
        generalize t.popFreeNode = outcome at acquired ⊢
        obtain ⟨u, n⟩ := outcome
        dsimp only at acquired ⊢
        split
        · exact acquired
        · exact acquired.after rfl rfl

theorem resumeAllocate_acquired (s : State) (n : Nat) :
    Acquired cfg heap s.toMembers (s.resumeAllocate cfg heap n).1.toMembers
      (s.obtainedLater cfg heap n) := by
  unfold State.resumeAllocate State.obtainedLater
  by_cases null : n = 0
  · rw [if_pos null, if_pos null]
    obtain ⟨acquired, without⟩ := @allocateDeferred_acquired cfg heap s
    generalize s.allocateDeferred cfg heap = outcome at acquired without ⊢
    obtain ⟨t, exn | m⟩ := outcome
    · dsimp only at acquired ⊢
      rw [List.append_nil]
      exact acquired
    · dsimp only at acquired without ⊢
      by_cases none : m = 0
      · obtain ⟨rfl, nothing⟩ := without (by rw [none])
        rw [if_pos none, if_pos none, nothing]
        exact allocateGrown_acquired t
      · rw [if_neg none, if_neg none, List.append_nil]
        exact acquired.after rfl rfl
  · rw [if_neg null, if_neg null]
    exact .none rfl rfl

theorem allocate_acquired (s : State) :
    Acquired cfg heap s.toMembers (s.allocate cfg heap).1.toMembers (s.obtainedBy cfg heap) := by
  unfold State.allocate State.obtainedBy
  obtain ⟨chunks, capacity, _⟩ := popFreeNode_members s
  generalize s.popFreeNode = first at chunks capacity ⊢
  obtain ⟨t, n⟩ := first
  dsimp only at chunks capacity ⊢
  by_cases empty : n = 0 ∧ cfg.ownerHeaders = true
  · rw [if_pos empty, if_pos empty]
    obtain ⟨drainedChunks, drainedCapacity⟩ := drainRemote_members t
    generalize t.drainRemote = drained at drainedChunks drainedCapacity ⊢
    obtain ⟨u, some | none⟩ := drained
    · exact (resumeAllocate_acquired u 0).before (drainedChunks.trans chunks)
        (drainedCapacity.trans capacity)
    · dsimp only at drainedChunks drainedCapacity ⊢
      obtain ⟨poppedChunks, poppedCapacity, _⟩ := popFreeNode_members u
      unfold State.provide
      generalize u.popFreeNode = second at poppedChunks poppedCapacity ⊢
      obtain ⟨v, m⟩ := second
      exact (resumeAllocate_acquired v m).before
        (poppedChunks.trans (drainedChunks.trans chunks))
        (poppedCapacity.trans (drainedCapacity.trans capacity))
  · rw [if_neg empty, if_neg empty]
    exact (resumeAllocate_acquired t n).before chunks capacity

theorem chunkBytes_bounds {bytes : Nat} (positive : 0 < slots)
    (sized : cfg.chunkBytes slots = some bytes) : 0 < bytes ∧ slots < 2 ^ 64 := by
  have node := cfg.nodeBytes_spec.2
  have perGranule := cfg.nodesPerGranule_spec.1
  have granule : 0 < cfg.granule := by
    have room := cfg.granule_spec.2
    omega
  unfold Config.chunkBytes at sized
  by_cases headers : cfg.ownerHeaders = true
  · rw [if_pos headers] at sized
    have small := cfg.nodesPerGranule_lt
    obtain ⟨granules, granulesEq, product⟩ := Option.bind_eq_some_iff.mp sized
    obtain ⟨fits, rfl⟩ := (checkedAdd_eq_some (by omega)).mp granulesEq
    obtain ⟨_, rfl⟩ := checkedMul_eq_some.mp product
    exact ⟨Nat.mul_pos (Nat.div_pos (by omega) perGranule) granule, by omega⟩
  · rw [if_neg headers] at sized
    obtain ⟨nodeBytes, nodeBytesEq, rounded⟩ := Option.bind_eq_some_iff.mp sized
    obtain ⟨fits, rfl⟩ := checkedMul_eq_some.mp nodeBytesEq
    obtain ⟨pageBits, pageBound, pageEq⟩ := cfg.pageBits
    have pageLt : cfg.pageSize < 2 ^ 64 := by
      rw [pageEq]
      exact Nat.pow_lt_pow_right (by decide) pageBound
    have covers := (checkedRoundToMultipleOf_eq_some pageLt rounded).1
    have enough : slots * 8 ≤ slots * cfg.nodeBytes := Nat.mul_le_mul_left slots node
    exact ⟨by omega, by omega⟩

/-- `operator new[]` supplies nothing that is on loan. -/
def Heap.Spares (heap : Heap) (loans : List Loan) : Prop :=
  ∀ bytes align base, heap.grant bytes align = some base → ∀ loan ∈ loans,
    base + bytes ≤ loan.memory.base ∨ loan.memory.base + loan.memory.bytes ≤ base

/-- A fixed pool without nodes has no chunk that a new one would replace. -/
def Replaceable (cfg : Config) (m : Members) : Prop :=
  cfg.mode = MemoryMode.fixed → m.capacity = 0 → ∀ chunk ∈ m.chunks, chunk.nodes = 0

/-- The chunks that the first chunk of a fixed pool is assigned to. -/
def replaced (cfg : Config) (chunks : List Chunk) (pieces : List OwnedMemory) : List Chunk :=
  if cfg.mode = MemoryMode.fixed ∧ pieces ≠ [] then chunks else []

/-- The loans of a pool and the others after a call: what was obtained, without what the
assignment of a chunk released. -/
def borrow (cfg : Config) (chunks : List Chunk) (pieces : List OwnedMemory)
    (loans : List Loan) : Option (List Loan) :=
  releaseChunks cfg (replaced cfg chunks pieces) (pieces.map (Loan.mk false) ++ loans)

theorem borrow_nil : borrow cfg chunks [] loans = some loans := by
  unfold borrow replaced
  rw [if_neg fun both => both.2 rfl]
  rfl

/-- The call leaves the loans that the chunks have and the others. -/
theorem Acquired.settles {s t : Members} (acquired : Acquired cfg heap s t pieces)
    (replaceable : Replaceable cfg s) (spares : heap.Spares loans) (separate : Separate loans)
    (lent : loans.Perm (chunkLoans cfg s.chunks ++ rest)) :
    ∃ left, borrow cfg s.chunks pieces loans = some left ∧ Separate left ∧
      left.Perm (chunkLoans cfg t.chunks ++ rest) ∧ Replaceable cfg t := by
  cases acquired with
  | none chunks capacity =>
      refine ⟨loans, borrow_nil, separate, by rwa [chunks], ?_⟩
      · unfold Replaceable
        rw [chunks, capacity]
        exact replaceable
  | @chunk slots bytes base heapBacked positive first sized granted chunks capacity =>
      obtain ⟨some, word⟩ := chunkBytes_bounds positive sized
      obtain ⟨nonnull, _, _, _⟩ := heap.sound _ _ _ granted
      let chunk : Chunk := ⟨slots, cfg.chunkAlign, base⟩
      have isLoan : chunk.loan cfg = Option.some ⟨false, base, bytes, cfg.chunkAlign⟩ := by
        unfold Chunk.loan
        rw [if_pos ⟨nonnull.ne', heapBacked⟩]
        show Option.some (Loan.mk false ⟨base, (cfg.chunkBytes slots).getD 0, _⟩) = _
        rw [sized]
        rfl
      have apart : Separate (⟨false, base, bytes, cfg.chunkAlign⟩ :: loans) :=
        separate.cons nonnull.ne' some fun other listed => spares _ _ _ granted other listed
      have single : chunkLoans cfg [chunk] = [⟨false, base, bytes, cfg.chunkAlign⟩] :=
        List.filterMap_cons_some isLoan
      have populated : Replaceable cfg t := by
        intro fixed none
        rw [capacity, first fixed, wrapAdd_eq (by omega)] at none
        omega
      unfold borrow replaced
      by_cases fixed : cfg.mode = MemoryMode.fixed
      · have empty : chunkLoans cfg s.chunks = [] :=
          chunkLoans_eq_nil fun chunk member => .inl (replaceable fixed (first fixed) chunk member)
        rw [empty, List.nil_append] at lent
        rw [if_pos fixed] at chunks
        rw [if_pos ⟨fixed, by simp⟩, chunks]
        have unowned : (⟨false, base, bytes, cfg.chunkAlign⟩ :: loans).Perm
            (chunkLoans cfg s.chunks ++ ⟨false, base, bytes, cfg.chunkAlign⟩ :: loans) := by
          rw [empty]
          exact .refl _
        obtain ⟨left, released, remains⟩ := releaseChunks_spec apart unowned
        refine ⟨left, released, apart.perm remains.symm, ?_, populated⟩
        rw [single]
        exact remains.trans (lent.cons _)
      · rw [if_neg fixed] at chunks
        rw [if_neg fun both => fixed both.1, chunks]
        refine ⟨_, rfl, apart, ?_, populated⟩
        rw [chunkLoans_append, single, List.append_assoc]
        exact (lent.cons _).trans List.perm_middle.symm

def Session.obtained (cfg : Config) (session : Session) : Operation → List OwnedMemory
  | .allocate heap => session.state.obtainedBy cfg heap
  | _ => []

/-- The heap that a call asks supplies nothing that is on loan. -/
def Operation.Spares (loans : List Loan) : Operation → Prop
  | .allocate heap => heap.Spares loans
  | _ => True

/-- What a pool owes and owns agree with all that is on loan. -/
structure Settled (cfg : Config) (m : Members) (rest left : List Loan) : Prop where
  separate : Separate left
  lent : left.Perm (chunkLoans cfg m.chunks ++ rest)
  replaceable : Replaceable cfg m

/-- A call, with whatever argument, leaves the loans that the chunks have and the others. -/
theorem perform_settles (session : Session) {operation : Operation}
    (spares : operation.Spares loans)
    (settled : Settled cfg session.state.toMembers rest loans) :
    ∃ left, borrow cfg session.state.chunks (session.obtained cfg operation) loans = some left ∧
      Settled cfg (session.perform cfg operation).state.toMembers rest left := by
  have kept : ∀ m : Members, m.chunks = session.state.chunks →
      m.capacity = session.state.capacity →
      ∃ left, borrow cfg session.state.chunks [] loans = some left ∧
        Settled cfg m rest left := by
    intro m chunks capacity
    have acquired : Acquired cfg exhausted session.state.toMembers m [] :=
      .none chunks capacity
    obtain ⟨left, borrowed, separate, lent, replaceable⟩ := acquired.settles
      settled.replaceable (fun bytes align base granted => by cases granted)
      settled.separate settled.lent
    exact ⟨left, borrowed, separate, lent, replaceable⟩
  cases operation with
  | allocate heap =>
      have acquired := @allocate_acquired cfg heap session.state
      have members : (session.perform cfg (.allocate heap)).state =
          (session.state.allocate cfg heap).1 := by
        rw [Session.perform_allocate]
      rw [members]
      obtain ⟨left, borrowed, separate, lent, replaceable⟩ := acquired.settles
        settled.replaceable spares settled.separate settled.lent
      exact ⟨left, borrowed, separate, lent, replaceable⟩
  | deallocate n =>
      refine kept _ ?_ ?_
      · show (session.state.deallocate n).chunks = _
        unfold State.deallocate
        split <;> rfl
      · show (session.state.deallocate n).capacity = _
        unfold State.deallocate
        split <;> rfl
  | remotePush n => exact kept _ rfl rfl

def State.obtainedFirst (cfg : Config) (heap : Heap) (poolSize : Nat) : List OwnedMemory :=
  if hasSingleBit poolSize = false then [] else obtained cfg heap poolSize

theorem blank_replaceable (mem : Nat → Nat) (nextGrowth : Nat) :
    Replaceable cfg (State.blank cfg mem nextGrowth).toMembers := by
  intro _ _ chunk member
  rw [(blank_vacant mem nextGrowth).chunks chunk member]
  rfl

theorem blank_loans (mem : Nat → Nat) (nextGrowth : Nat) :
    chunkLoans cfg (State.blank cfg mem nextGrowth).chunks = [] :=
  chunkLoans_eq_nil fun chunk member => .inl (by
    rw [(blank_vacant mem nextGrowth).chunks chunk member]
    rfl)

/-- The eager constructor has obtained the memory of its chunk, and nothing if it throws. -/
theorem construct_settles {mem : Nat → Nat} {poolSize : Nat} (heapBacked : cfg.heapBacked = true)
    (spares : heap.Spares loans) (separate : Separate loans) :
    match State.construct cfg heap mem poolSize with
    | .error _ => State.obtainedFirst cfg heap poolSize = []
    | .ok s =>
        ∃ left, borrow cfg (State.blank cfg mem poolSize).chunks
            (State.obtainedFirst cfg heap poolSize) loans = some left ∧
          Settled cfg s.toMembers loans left := by
  unfold State.construct State.obtainedFirst
  by_cases single : hasSingleBit poolSize = false
  · rw [if_pos single, if_pos single]
  rw [if_neg single, if_neg single]
  rcases addChunk_members cfg heap (State.blank cfg mem poolSize) poolSize with
    ⟨exn, t, failed, same, nothing⟩ |
    ⟨t, bytes, base, added, sized, granted, piece, chunks, capacity, head⟩
  · rw [failed]
    exact nothing
  · rw [added, piece]
    have acquired : Acquired cfg heap (State.blank cfg mem poolSize).toMembers t.toMembers
        [⟨base, bytes, cfg.chunkAlign⟩] :=
      .chunk heapBacked (hasSingleBit_pos single) (fun _ => rfl) sized granted chunks capacity
    have unowned : loans.Perm
        (chunkLoans cfg (State.blank cfg mem poolSize).chunks ++ loans) := by
      rw [blank_loans]
      exact .refl _
    obtain ⟨left, borrowed, apart, lent, replaceable⟩ := acquired.settles
      (blank_replaceable mem poolSize) spares separate unowned
    exact ⟨left, borrowed, apart, lent, replaceable⟩

/-- A moved-from pool has no chunk that is on loan. -/
theorem moveConstruct_source (source : Members) :
    chunkLoans cfg (source.moveConstruct cfg).2.chunks = [] ∧
      Replaceable cfg (source.moveConstruct cfg).2 := by
  have empty : ∀ chunk ∈ (source.moveConstruct cfg).2.chunks, chunk.nodes = 0 := by
    unfold Members.moveConstruct
    dsimp only
    intro chunk member
    split at member
    · cases member
    · obtain ⟨_, _, rfl⟩ := List.mem_map.mp member
      rfl
  exact ⟨chunkLoans_eq_nil fun chunk member => .inl (empty chunk member),
    fun _ _ chunk member => empty chunk member⟩

/-- A pool on the caller's memory has nothing on loan. -/
theorem raw_unowned (raw : cfg.heapBacked = false) (m : Members) :
    chunkLoans cfg m.chunks = [] ∧ Replaceable cfg m := by
  refine ⟨chunkLoans_eq_nil fun _ _ => .inr raw, fun fixed => ?_⟩
  unfold Config.heapBacked at raw
  rw [fixed] at raw
  cases raw

end Pool

end Allocazam
