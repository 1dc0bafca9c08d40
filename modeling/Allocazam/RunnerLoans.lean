import Allocazam.OwnedMemory
import Allocazam.RunnerHoldings

/-!
# The memory of a runner

What memory a runner obtains in a call, and how its destructor gives it back.
-/

namespace Allocazam

namespace Runner

/-- The OS as a runner with the given chunks asks it. -/
def Os.supply (os : Os) (inUse : List ChunkNode) : Supply where
  newArray bytes _ := os.grant inUse bytes
  mapHuge bytes := os.grant inUse bytes

def releaseAlignment (cfg : Config) : Nat :=
  if cfg.huge then explicitHugePageBytes else runAlignment

namespace State

variable (cfg : Config) (s : State)

/-- The memory that `_add_owned_chunk` obtains. -/
def obtained (os : Os) (bytes : Nat) : List OwnedMemory :=
  match ownedChunkBytesFor cfg bytes with
  | .error _ => []
  | .ok chunkBytes =>
      match Allocazam.allocateOwnedMemory cfg.huge (os.supply s.chunks) chunkBytes
          runAlignment with
      | .error _ => []
      | .ok memory => [memory]

def obtainedDeferred (os : Os) (h : Nat) : List OwnedMemory :=
  if h = 0 ∧ s.deferredBytes ≠ 0 then s.obtained cfg os s.deferredBytes else []

def obtainedGrowing (os : Os) (needed h : Nat) : List OwnedMemory :=
  if h = 0 ∧ cfg.canGrow then
    match checkedAdd needed minChunkBytes with
    | none => []
    | some neededWithOverhead =>
        s.obtained cfg os (max s.nextGrowth neededWithOverhead)
  else []

/-- The memory that `allocate_bytes` obtains once the remote stack has been dealt with, in
the order in which it does. -/
def obtainedLater (os : Os) (needed : Nat) (found : State × Nat × Nat) : List OwnedMemory :=
  found.1.obtainedDeferred cfg os found.2.1 ++
    match findOrDefer cfg os needed found with
    | (_, .error _) => []
    | (t, .ok (h, _)) => t.obtainedGrowing cfg os needed h

/-- The memory that `allocate_bytes` obtains. -/
def obtainedBy (os : Os) (bytes alignment : Nat) : List OwnedMemory :=
  let bytes := if bytes = 0 then 1 else bytes
  if alignment > runAlignment then []
  else
    let s := s.record cfg fun stats =>
      { stats with
        allocateCalls := wrapAdd stats.allocateCalls 1
        requestedBytes := wrapAdd stats.requestedBytes bytes }
    match normalizedRunBytesForPayload bytes with
    | none => []
    | some needed => obtainedLater cfg os needed (s.findOrDrain cfg needed)

end State

/-- `_release_owned_chunks`: the loans that remain, unless the behavior is undefined. -/
def releaseOwnedChunks (cfg : Config) : List ChunkNode → List Loan → Option (List Loan)
  | [], loans => some loans
  | chunk :: rest, loans =>
      if chunk.mappingBase ≠ 0 then
        let memory : OwnedMemory :=
          ⟨chunk.mappingBase, chunk.mappingBytes, releaseAlignment cfg⟩
        match releaseOwnedMemory cfg.huge memory loans with
        | none => none
        | some loans => releaseOwnedChunks cfg rest loans
      else releaseOwnedChunks cfg rest loans

def ChunkNode.loan (cfg : Config) (chunk : ChunkNode) : Option Loan :=
  if chunk.mappingBase ≠ 0 then
    some ⟨cfg.huge, chunk.mappingBase, chunk.mappingBytes, releaseAlignment cfg⟩
  else none

def chunkLoans (cfg : Config) (chunks : List ChunkNode) : List Loan :=
  chunks.filterMap (ChunkNode.loan cfg)

variable {cfg : Config} {s : State} {os : Os} {chunks : List ChunkNode}
  {memory : OwnedMemory} {loans rest : List Loan} {pieces later : List OwnedMemory}

/-- The destructor gives back exactly what the chunks are on loan. -/
theorem releaseOwnedChunks_spec (separate : Separate loans)
    (lent : loans.Perm (chunkLoans cfg chunks ++ rest)) :
    ∃ left, releaseOwnedChunks cfg chunks loans = some left ∧ left.Perm rest := by
  induction chunks generalizing loans with
  | nil => exact ⟨loans, rfl, lent⟩
  | cons chunk later ih =>
      unfold releaseOwnedChunks
      by_cases mapped : chunk.mappingBase ≠ 0
      · have isLoan : chunk.loan cfg = some ⟨cfg.huge, chunk.mappingBase,
            chunk.mappingBytes, releaseAlignment cfg⟩ := if_pos mapped
        unfold chunkLoans at lent
        rw [List.filterMap_cons_some isLoan, List.cons_append] at lent
        obtain ⟨left, released, remains⟩ := separate.releaseOwnedMemory lent
        rw [if_pos mapped]
        dsimp only
        rw [released]
        have apart := (separate.perm lent).tail
        exact ih (apart.perm remains.symm) remains
      · have noLoan : chunk.loan cfg = none := if_neg mapped
        unfold chunkLoans at lent
        rw [List.filterMap_cons_none noLoan] at lent
        rw [if_neg mapped]
        exact ih separate lent

def chunkOf (memory : OwnedMemory) : ChunkNode :=
  ownedChunk memory.base memory.bytes

/-- The chunks after memory has been obtained, piece by piece. -/
inductive Acquired (cfg : Config) (os : Os) (chunks : List ChunkNode) :
    List OwnedMemory → List ChunkNode → Prop
  | none : Acquired cfg os chunks [] chunks
  | more {obtained : List OwnedMemory} {held : List ChunkNode} {memory : OwnedMemory}
      (before : Acquired cfg os chunks obtained held) (positive : 0 < memory.bytes)
      (alignment : memory.alignment = releaseAlignment cfg)
      (granted : os.grant held memory.bytes = some memory.base) :
      Acquired cfg os chunks (obtained ++ [memory]) (chunkOf memory :: held)

namespace Acquired

variable {held last : List ChunkNode}

theorem trans (first : Acquired cfg os chunks pieces held)
    (second : Acquired cfg os held later last) :
    Acquired cfg os chunks (pieces ++ later) last := by
  induction second with
  | none => simpa using first
  | more _ positive alignment granted ih =>
      rw [← List.append_assoc]
      exact .more ih positive alignment granted

theorem single (positive : 0 < memory.bytes) (alignment : memory.alignment = releaseAlignment cfg)
    (granted : os.grant chunks memory.bytes = some memory.base) :
    Acquired cfg os chunks [memory] (chunkOf memory :: chunks) :=
  .more .none positive alignment granted

end Acquired

theorem allocateOwnedMemory_supply (inUse : List ChunkNode) (bytes alignment : Nat) :
    State.allocateOwnedMemory cfg os inUse bytes alignment =
      match Allocazam.allocateOwnedMemory cfg.huge (os.supply inUse) bytes alignment with
      | .error _ => none
      | .ok memory => some (memory.base, memory.bytes) := by
  unfold State.allocateOwnedMemory Allocazam.allocateOwnedMemory
  split
  · rfl
  split
  · split
    · rfl
    cases checkedRoundToMultipleOf bytes explicitHugePageBytes with
    | none => rfl
    | some mappingBytes =>
        show ((os.grant inUse mappingBytes).bind fun base => some (base, mappingBytes)) = _
        have asked : (os.supply inUse).mapHuge mappingBytes = os.grant inUse mappingBytes := rfl
        dsimp only
        rw [asked]
        cases os.grant inUse mappingBytes <;> rfl
  · show ((os.grant inUse bytes).bind fun base => some (base, bytes)) = _
    have asked : (os.supply inUse).newArray bytes alignment = os.grant inUse bytes := rfl
    rw [asked]
    cases os.grant inUse bytes <;> rfl

/-- Memory for a chunk is some bytes that the OS granted, and goes back as it came. -/
theorem supplied {inUse : List ChunkNode} {bytes : Nat}
    (obtained : Allocazam.allocateOwnedMemory cfg.huge (os.supply inUse) bytes runAlignment =
      .ok memory) :
    0 < memory.bytes ∧ memory.alignment = releaseAlignment cfg ∧
      os.grant inUse memory.bytes = some memory.base := by
  unfold releaseAlignment
  by_cases positive : bytes = 0
  · rw [positive] at obtained
    cases obtained
  have single : hasSingleBit runAlignment = true := by decide
  cases huge : cfg.huge with
  | true =>
      unfold Allocazam.allocateOwnedMemory at obtained
      rw [huge, if_neg (by rw [single]; simp; omega), if_pos rfl, if_neg (by decide)] at obtained
      cases rounded : checkedRoundToMultipleOf bytes explicitHugePageBytes with
      | none =>
          rw [rounded] at obtained
          cases obtained
      | some mappingBytes =>
          rw [rounded] at obtained
          dsimp only at obtained
          have asked : (os.supply inUse).mapHuge mappingBytes = os.grant inUse mappingBytes := rfl
          rw [asked] at obtained
          have covers := (checkedRoundToMultipleOf_isLeast (by decide) rounded).1.2
          cases granted : os.grant inUse mappingBytes with
          | none =>
              rw [granted] at obtained
              cases obtained
          | some base =>
              rw [granted] at obtained
              obtain rfl := Except.ok.inj obtained
              exact ⟨by dsimp only; omega, rfl, granted⟩
  | false =>
      rw [huge] at obtained
      obtain ⟨granted, length, alignment⟩ :=
        (allocateOwnedMemory_array (by omega) (by decide) single).mp obtained
      rw [← length] at granted
      exact ⟨by omega, alignment, granted⟩

theorem addOwnedChunk_acquired (cfg : Config) (s : State) (os : Os) (bytes : Nat) :
    Acquired cfg os s.chunks (s.obtained cfg os bytes)
      (s.addOwnedChunk cfg os bytes).1.chunks := by
  unfold State.obtained State.addOwnedChunk
  cases State.ownedChunkBytesFor cfg bytes with
  | error exn => exact .none
  | ok chunkBytes =>
      dsimp only
      rw [allocateOwnedMemory_supply]
      cases outcome : Allocazam.allocateOwnedMemory cfg.huge (os.supply s.chunks) chunkBytes
          runAlignment with
      | error failure => exact .none
      | ok memory =>
          obtain ⟨positive, alignment, granted⟩ := supplied outcome
          have chunks : (s.withChunk (chunkOf memory)).chunks = chunkOf memory :: s.chunks :=
            congrArg Holdings.chunks (withChunk_holdings (chunkOf memory))
          show Acquired cfg os s.chunks [memory] (s.withChunk (chunkOf memory)).chunks
          rw [chunks]
          exact .single positive alignment granted

theorem addOwnedChunk_failed {bytes : Nat} {exn : Exn}
    (failed : (s.addOwnedChunk cfg os bytes).2 = .error exn) :
    s.obtained cfg os bytes = [] := by
  unfold State.addOwnedChunk at failed
  unfold State.obtained
  cases sized : State.ownedChunkBytesFor cfg bytes with
  | error exn => rfl
  | ok chunkBytes =>
      rw [sized] at failed
      dsimp only at failed ⊢
      rw [allocateOwnedMemory_supply] at failed
      cases outcome : Allocazam.allocateOwnedMemory cfg.huge (os.supply s.chunks) chunkBytes
          runAlignment with
      | error failure => rfl
      | ok memory =>
          rw [outcome] at failed
          cases failed

theorem findOrDefer_acquired (cfg : Config) (os : Os) (s : State) (needed h count : Nat) :
    Acquired cfg os s.chunks (s.obtainedDeferred cfg os h)
      (State.findOrDefer cfg os needed (s, h, count)).1.chunks := by
  unfold State.obtainedDeferred State.findOrDefer
  dsimp only
  by_cases missing : h = 0 ∧ s.deferredBytes ≠ 0
  · rw [if_pos missing, if_pos missing]
    have added := addOwnedChunk_acquired cfg s os s.deferredBytes
    generalize s.addOwnedChunk cfg os s.deferredBytes = outcome at added ⊢
    obtain ⟨t, exn | chunkBytes⟩ := outcome
    · exact added
    · dsimp only at added ⊢
      rw [findFit_chunks]
      exact added
  · rw [if_neg missing, if_neg missing]
    exact .none

theorem growFor_acquired (cfg : Config) (os : Os) (s : State) (needed : Nat) :
    Acquired cfg os s.chunks
      (match checkedAdd needed minChunkBytes with
      | none => []
      | some overhead => s.obtained cfg os (max s.nextGrowth overhead))
      (s.growFor cfg os needed).1.chunks := by
  unfold State.growFor
  dsimp only
  have chunks : (s.record cfg fun stats =>
      { stats with growCalls := wrapAdd stats.growCalls 1 }).chunks = s.chunks :=
    record_chunks _
  have next : (s.record cfg fun stats =>
      { stats with growCalls := wrapAdd stats.growCalls 1 }).nextGrowth = s.nextGrowth :=
    congrArg Prod.fst (record_sizing _)
  generalize s.record cfg (fun stats =>
    { stats with growCalls := wrapAdd stats.growCalls 1 }) = u at chunks next ⊢
  rw [← chunks, ← next]
  cases checkedAdd needed minChunkBytes with
  | none => exact .none
  | some overhead =>
      dsimp only
      have added := addOwnedChunk_acquired cfg u os (max u.nextGrowth overhead)
      have same : s.obtained cfg os (max u.nextGrowth overhead) =
          u.obtained cfg os (max u.nextGrowth overhead) := by
        unfold State.obtained
        rw [chunks]
      rw [same]
      generalize u.addOwnedChunk cfg os (max u.nextGrowth overhead) = outcome at added ⊢
      obtain ⟨t, exn | chunkBytes⟩ := outcome <;> exact added

theorem findOrGrow_acquired (cfg : Config) (os : Os) (s : State) (needed h count : Nat) :
    Acquired cfg os s.chunks (s.obtainedGrowing cfg os needed h)
      (s.findOrGrow cfg os needed h count).1.chunks := by
  unfold State.obtainedGrowing State.findOrGrow
  by_cases missing : h = 0 ∧ cfg.canGrow = true
  · rw [if_pos missing, if_pos missing]
    have grown := growFor_acquired cfg os s needed
    generalize s.growFor cfg os needed = outcome at grown ⊢
    obtain ⟨t, exn | done⟩ := outcome
    · exact grown
    · dsimp only at grown ⊢
      rw [findFit_chunks]
      exact grown
  · rw [if_neg missing, if_neg missing]
    exact .none

theorem resumeAllocate_acquired (cfg : Config) (os : Os) (needed : Nat)
    (found : State × Nat × Nat) :
    Acquired cfg os found.1.chunks (State.obtainedLater cfg os needed found)
      (State.resumeAllocate cfg os needed found).1.chunks := by
  obtain ⟨s, h, count⟩ := found
  unfold State.obtainedLater State.resumeAllocate
  have first := findOrDefer_acquired cfg os s needed h count
  generalize State.findOrDefer cfg os needed (s, h, count) = stage at first ⊢
  obtain ⟨t, exn | ⟨h', count'⟩⟩ := stage
  · dsimp only at first ⊢
    rw [List.append_nil]
    exact first
  · have grown := findOrGrow_acquired cfg os t needed h' count'
    dsimp only at first ⊢
    refine first.trans ?_
    generalize t.findOrGrow cfg os needed h' count' = stage at grown ⊢
    obtain ⟨u, exn | h''⟩ := stage
    · exact grown
    · dsimp only at grown ⊢
      rw [finishAllocate_chunks]
      exact grown

/-- The chunks after an allocation are those before and one on each piece of memory it
obtained. -/
theorem allocateBytes_acquired (cfg : Config) (os : Os) (s : State) (bytes alignment : Nat) :
    Acquired cfg os s.chunks (s.obtainedBy cfg os bytes alignment)
      (s.allocateBytes cfg os bytes alignment).1.chunks := by
  unfold State.obtainedBy State.allocateBytes
  dsimp only
  split
  · exact .none
  generalize (if bytes = 0 then 1 else bytes) = request
  have recorded : (s.record cfg fun stats =>
      { stats with
        allocateCalls := wrapAdd stats.allocateCalls 1
        requestedBytes := wrapAdd stats.requestedBytes request }).chunks = s.chunks :=
    record_chunks _
  generalize s.record cfg (fun stats =>
    { stats with
      allocateCalls := wrapAdd stats.allocateCalls 1
      requestedBytes := wrapAdd stats.requestedBytes request }) = u at recorded ⊢
  rw [← recorded]
  cases normalizedRunBytesForPayload request with
  | none =>
      have kept : (u.failAllocate cfg).1.chunks = u.chunks := record_chunks _
      dsimp only
      rw [kept]
      exact .none
  | some needed =>
      dsimp only
      have searched : (u.findOrDrain cfg needed).1.chunks = u.chunks :=
        findOrDrain_chunks needed
      rw [← searched]
      exact resumeAllocate_acquired cfg os needed (u.findOrDrain cfg needed)

def Os.Spares (os : Os) (loans : List Loan) : Prop :=
  ∀ chunks bytes base, os.grant chunks bytes = some base → ∀ loan ∈ loans,
    base + bytes ≤ loan.memory.base ∨ loan.memory.base + loan.memory.bytes ≤ base

/-- The loans after a runner has obtained memory, the latest first. -/
def borrow (cfg : Config) (pieces : List OwnedMemory) (loans : List Loan) : List Loan :=
  pieces.reverse.map (Loan.mk cfg.huge) ++ loans

theorem borrow_append (memory : OwnedMemory) :
    borrow cfg (pieces ++ [memory]) loans = ⟨cfg.huge, memory⟩ :: borrow cfg pieces loans := by
  simp [borrow]

namespace Acquired

variable {held : List ChunkNode}

theorem mem (acquired : Acquired cfg os chunks pieces held) :
    ∀ memory ∈ pieces, chunkOf memory ∈ held := by
  induction acquired with
  | none => simp
  | more _ _ _ _ ih =>
      intro memory member
      rcases List.mem_append.mp member with before | last
      · exact List.mem_cons_of_mem _ (ih memory before)
      · rw [List.mem_singleton.mp last]
        exact List.mem_cons_self

/-- What is obtained is apart from all that was on loan, and from itself. -/
theorem separate (acquired : Acquired cfg os chunks pieces held) (spares : os.Spares loans)
    (separate : Separate loans) : Separate (borrow cfg pieces loans) := by
  induction acquired with
  | none => exact separate
  | @more obtained held memory before positive alignment granted ih =>
      obtain ⟨nonnull, _, _, clear⟩ := os.sound _ _ _ granted
      rw [borrow_append]
      refine ih.cons (by exact nonnull.ne') positive fun other listed => ?_
      rcases List.mem_append.mp listed with fresh | old
      · obtain ⟨earlier, member, rfl⟩ := List.mem_map.mp fresh
        exact clear _ (before.mem earlier (List.mem_reverse.mp member))
      · exact spares _ _ _ granted other old

/-- The chunks are on loan what was obtained for them. -/
theorem chunkLoans (acquired : Acquired cfg os chunks pieces held) :
    chunkLoans cfg held = borrow cfg pieces (chunkLoans cfg chunks) := by
  induction acquired with
  | none => rfl
  | @more obtained held memory before positive alignment granted ih =>
      obtain ⟨nonnull, _⟩ := os.sound _ _ _ granted
      have isLoan : (chunkOf memory).loan cfg = some ⟨cfg.huge, memory⟩ := by
        have mapped : (chunkOf memory).mappingBase ≠ 0 := nonnull.ne'
        unfold ChunkNode.loan
        rw [if_pos mapped, ← alignment]
        rfl
      rw [borrow_append, ← ih]
      exact List.filterMap_cons_some isLoan

end Acquired

def Session.obtained (cfg : Config) (session : Session) : Operation → List OwnedMemory
  | .allocateBytes os bytes alignment => session.state.obtainedBy cfg os bytes alignment
  | _ => []

/-- The OS that a call asks grants nothing that is on loan. -/
def Operation.Spares (loans : List Loan) : Operation → Prop
  | .allocateBytes os _ _ => os.Spares loans
  | _ => True

/-- A call, with whatever arguments, keeps the loans of the runner and the others apart. -/
theorem perform_loans (session : Session) {operation : Operation}
    (spares : operation.Spares loans) (separate : Separate loans) :
    Separate (borrow cfg (session.obtained cfg operation) loans) ∧
      chunkLoans cfg (session.perform cfg operation).state.chunks =
        borrow cfg (session.obtained cfg operation)
          (chunkLoans cfg session.state.chunks) := by
  cases operation with
  | allocateBytes os bytes alignment =>
      have acquired := allocateBytes_acquired cfg os session.state bytes alignment
      have chunks : (session.perform cfg (.allocateBytes os bytes alignment)).state.chunks =
          (session.state.allocateBytes cfg os bytes alignment).1.chunks := by
        unfold Session.perform
        dsimp only
        generalize session.state.allocateBytes cfg os bytes alignment = outcome
        obtain ⟨t, exn | p⟩ := outcome <;> rfl
      rw [chunks]
      exact ⟨acquired.separate spares separate, acquired.chunkLoans⟩
  | deallocateBytes payload =>
      have chunks : (session.state.deallocateBytes cfg payload).chunks = session.state.chunks :=
        State.chunks_of_outer (deallocateBytes_outer payload)
      exact ⟨separate, congrArg (chunkLoans cfg) chunks⟩
  | expand payload minNewBytes =>
      exact ⟨separate, congrArg (chunkLoans cfg) (expand_chunks payload minNewBytes)⟩
  | remotePush payload => exact ⟨separate, rfl⟩

def State.obtainedFirst (cfg : Config) (os : Os) (mem : Nat → Nat) (initialBytes : Nat) :
    List OwnedMemory :=
  (State.blank mem (max initialBytes 65536) 0).obtained cfg os initialBytes

/-- The eager constructor has obtained the memory of its chunk, and nothing if it throws. -/
theorem construct_loans {mem : Nat → Nat} {initialBytes : Nat} (spares : os.Spares loans)
    (separate : Separate loans) :
    Separate (borrow cfg (State.obtainedFirst cfg os mem initialBytes) loans) ∧
      match State.construct cfg os mem initialBytes with
      | .error _ => State.obtainedFirst cfg os mem initialBytes = []
      | .ok s =>
          chunkLoans cfg s.chunks =
            borrow cfg (State.obtainedFirst cfg os mem initialBytes) [] := by
  have acquired := addOwnedChunk_acquired cfg (State.blank mem (max initialBytes 65536) 0) os
    initialBytes
  refine ⟨acquired.separate spares separate, ?_⟩
  have loans := acquired.chunkLoans
  unfold State.construct State.obtainedFirst
  have failed := @addOwnedChunk_failed cfg (State.blank mem (max initialBytes 65536) 0) os
    initialBytes
  generalize (State.blank mem (max initialBytes 65536) 0).addOwnedChunk cfg os initialBytes =
    outcome at loans failed ⊢
  obtain ⟨t, exn | length⟩ := outcome
  · exact failed rfl
  · exact loans

theorem constructExternal_loans {mem : Nat → Nat} {data size : Nat}
    (built : State.constructExternal mem data size = .ok s) : chunkLoans cfg s.chunks = [] := by
  unfold State.constructExternal State.addExternalChunk at built
  dsimp only at built
  split at built
  · cases built
  split at built
  · cases built
  split at built
  · cases built
  generalize chunkEq : (ChunkNode.mk _ _ 0 0) = chunk at built
  have held : s.chunks = [chunk] := by
    obtain rfl := Except.ok.inj built
    exact congrArg Holdings.chunks (@withChunk_holdings (State.blank mem 0 0) chunk)
  have unmapped : chunk.mappingBase = 0 := by rw [← chunkEq]
  have noLoan : chunk.loan cfg = none := if_neg (by simp [unmapped])
  rw [held]
  exact List.filterMap_cons_none noLoan

end Runner

end Allocazam
