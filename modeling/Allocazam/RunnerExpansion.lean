import Allocazam.RunnerGauges

/-!
# Expansion in place

What `expand` changes: the run of the payload, the free run behind it, the flag of
the run behind that, and nothing else.
-/

namespace Allocazam

namespace Runner

variable {cfg : Config} {s t : State} {blocks : List Block} {runs : Set Block}
  {parked : List Nat}

section Tags

variable {mem mem' : Nat → Nat} {before : Bool}

theorem BlockTagged.words_eq {block : Block} (one : BlockTagged cfg mem before block)
    (two : BlockTagged cfg mem' before block) {word : Nat}
    (isTag : TagWord block word) : mem' word = mem word := by
  unfold BlockTagged at one two
  rcases isTag with rfl | ⟨used, rfl⟩ | ⟨free, rfl⟩
  · cases kind : block.kind with
    | free =>
        rw [kind] at one two
        exact two.1.trans one.1.symm
    | used =>
        rw [kind] at one two
        exact two.1.trans one.1.symm
    | fence =>
        rw [kind] at one two
        exact two.trans one.symm
  · rw [used] at one two
    exact two.2.trans one.2.symm
  · rw [free] at one two
    exact two.2.trans one.2.symm

theorem Tagged.words_eq {listed : List Block} (one : Tagged cfg mem before listed)
    (two : Tagged cfg mem' before listed) :
    ∀ block ∈ listed, ∀ word, TagWord block word → mem' word = mem word := by
  induction listed generalizing before with
  | nil => simp
  | cons head rest ih =>
      intro block member word isTag
      rcases List.mem_cons.mp member with rfl | later
      · exact one.1.words_eq two.1 isTag
      · exact ih one.2 two.2 block later word isTag

end Tags

namespace HeapOk

variable (heap : HeapOk cfg s blocks)

include heap

/-- The epilogue of a chunk carries the same header in every legal heap. -/
theorem epilogue {chunk : ChunkNode} (member : chunk ∈ s.chunks) :
    s.mem (chunk.first + chunk.bytes - 16) = pack 0 false true := by
  obtain ⟨front, back, listed, before⟩ := (heap.chunkView member).split
  have tagged := heap.tagged
  rw [listed, tagged_append] at tagged
  exact tagged.2.1

theorem prevRun_of_freeRun {addr size length : Nat} (free : s.FreeRun addr size)
    (behind : s.Allocated (addr + size) length) :
    s.prevIsFree (addr + size) = true ∧ s.prevRun (addr + size) = addr := by
  have freeListed := (heap.freeRun_iff.mp free).1
  have usedListed := (heap.allocated_iff.mp behind).1
  obtain ⟨front, back, rfl⟩ := List.append_of_mem freeListed
  obtain ⟨next, rest, rfl, adjacent⟩ :=
    heap.layout.fenced.exists_next (by simp)
  have nextListed : next ∈ front ++ ⟨addr, size, .free⟩ :: next :: rest := by simp
  obtain rfl := heap.layout.eq_of_addr_eq nextListed usedListed adjacent
  have large := (heap.layout.sizes _ freeListed (by simp)).1
  have tagged := heap.tagged
  rw [tagged_append] at tagged
  obtain ⟨_, freeTagged, nextTagged, _⟩ := tagged
  constructor
  · exact nextTagged.prevIsFree (heap.layout.packable nextListed) (by simp)
  · have footer : s.mem (addr + size - 8) = size := freeTagged.2
    unfold State.prevRun
    dsimp only at large ⊢
    rw [footer, if_neg (by omega)]
    omega

end HeapOk

/-- What is left of the free run behind a run grown to `granted` bytes, when the two
had `total` bytes together. -/
def remainder (addr granted total : Nat) : List Block :=
  if granted < total then [⟨addr + granted, total - granted, .free⟩] else []

/-- The run of `size` bytes at `addr` has become one of `granted` bytes at the cost of
the free run of `next` bytes behind it; all else that the runner keeps in its
memory and its members is as it was. -/
structure Grown (cfg : Config) (s t : State) (addr size next granted : Nat) : Prop where
  free : s.FreeRun (addr + size) next
  larger : size < granted
  split : granted = size + next ∨
    granted + (minFreeRunSize + splitRemainderThreshold) ≤ size + next
  allocated : ∀ a z, t.Allocated a z ↔
    a = addr ∧ z = granted ∨ s.Allocated a z ∧ a ≠ addr
  freed : ∀ a z, t.FreeRun a z ↔
    ⟨a, z, .free⟩ ∈ remainder addr granted (size + next) ∨
      s.FreeRun a z ∧ a ≠ addr + size
  /-- The headers of the other runs, the one behind excepted, are as they were. -/
  headers : ∀ a z, s.Allocated a z ∨ s.FreeRun a z → a ≠ addr → a ≠ addr + size →
    a ≠ addr + size + next → t.mem a = s.mem a
  following : ∀ z, s.Allocated (addr + size + next) z →
    t.mem (addr + size + next) = pack z false (decide (granted < size + next))
  epilogues : ∀ chunk ∈ s.chunks,
    t.mem (chunk.first + chunk.bytes - epilogueSize) =
      s.mem (chunk.first + chunk.bytes - epilogueSize)
  footers : ∀ a z, s.FreeRun a z → a ≠ addr + size →
    t.mem (a + z - 8) = s.mem (a + z - 8)
  /-- The owner words and payloads of all allocated runs are as they were. -/
  payloads : ∀ a z, s.Allocated a z → ∀ word, a < word → word < a + z →
    t.mem word = s.mem word
  bins : ∀ idx < binCount, t.binRuns idx =
    ((remainder addr granted (size + next)).filter
      fun run => binIndexFor run.size = idx).map Block.addr ++
        (s.binRuns idx).erase (addr + size)
  prevFree : t.prevIsFree addr = s.prevIsFree addr
  backwards : ∀ a z, s.FreeRun a z → a + z = addr →
    t.prevIsFree addr = true ∧ t.prevRun addr = a
  outside : ∀ word, ¬ InChunks s word → t.mem word = s.mem word
  outer : t.outer = s.outer
  stats : t.stats = (s.addLiveBytes cfg (granted - size)).stats

def grownBlocks (front rest : List Block) (addr granted total : Nat) : List Block :=
  front ++ ⟨addr, granted, .used⟩ :: remainder addr granted total ++ rest

theorem mem_remainder {addr granted total : Nat} {run : Block} :
    run ∈ remainder addr granted total ↔
      granted < total ∧ run = ⟨addr + granted, total - granted, .free⟩ := by
  unfold remainder
  split <;> simp_all

theorem carryFree_remainder {addr granted total : Nat} :
    carryFree false (remainder addr granted total) = decide (granted < total) := by
  unfold remainder
  split <;> simp_all [Block.isFree]

theorem freeRuns_grown {front rest : List Block} {addr granted total a z : Nat} :
    (⟨a, z, .free⟩ : Block) ∈ freeRuns (grownBlocks front rest addr granted total) ↔
      ⟨a, z, .free⟩ ∈ remainder addr granted total ∨
        (⟨a, z, .free⟩ : Block) ∈ freeRuns (front ++ rest) := by
  simp only [grownBlocks, mem_freeRuns, List.mem_append, List.mem_cons, Block.mk.injEq,
    reduceCtorEq, and_false, false_or, and_true]
  tauto

theorem usedRuns_grown {front rest : List Block} {addr granted total a z : Nat} :
    (⟨a, z, .used⟩ : Block) ∈ usedRuns (grownBlocks front rest addr granted total) ↔
      a = addr ∧ z = granted ∨ (⟨a, z, .used⟩ : Block) ∈ usedRuns (front ++ rest) := by
  have apart : (⟨a, z, .used⟩ : Block) ∉ remainder addr granted total := by
    rw [mem_remainder]
    rintro ⟨_, same⟩
    cases same
  simp only [grownBlocks, mem_usedRuns, List.mem_append, List.mem_cons, Block.mk.injEq,
    and_true, apart, or_false]
  tauto

section Growth

variable {front rest : List Block} {block next later : Block} {needed : Nat}
  {binned : Nat → List Nat}

/-- The erasure from the bin of a run is an erasure from every bin. -/
theorem erased_eq {free : Set Block} (index : FreeIndex s binned free)
    (linkable : Linkable free) (member : next ∈ free) {idx : Nat} (bound : idx < 536) :
    Function.update binned (binIndexFor next.size)
      ((binned (binIndexFor next.size)).erase next.addr) idx =
      (binned idx).erase next.addr := by
  by_cases same : idx = binIndexFor next.size
  · rw [same, Function.update_self]
  · rw [Function.update_of_ne same, List.erase_of_not_mem]
    intro listed
    obtain ⟨other, otherMember, addrEq, bin⟩ := (index.mem_iff idx bound _).mp listed
    rw [linkable.injective other otherMember next member addrEq] at bin
    exact same bin.symm

theorem expandInto_grownBlocks
    (heap : HeapOk cfg s (front ++ block :: next :: later :: rest))
    (used : block.kind = .used) (free : next.kind = .free)
    (aligned : 16 ∣ needed) (large : block.size ≤ needed)
    (fits : needed ≤ block.size + next.size) :
    let expanded := s.expandInto cfg block.addr next.addr block.size
      (block.size + next.size) needed
    ∃ granted, needed ≤ granted ∧
      (granted = block.size + next.size ∨ granted + 112 ≤ block.size + next.size) ∧
      expanded.2 = granted - 16 ∧
      HeapOk cfg expanded.1 (grownBlocks front (later :: rest) block.addr granted
        (block.size + next.size)) ∧
      ∀ idx < 536, expanded.1.binRuns idx =
        ((remainder block.addr granted (block.size + next.size)).filter
          fun run => binIndexFor run.size = idx).map Block.addr ++
            (s.binRuns idx).erase next.addr := by
  obtain ⟨binned, index⟩ := heap.indexed
  have member : next ∈ freeRuns (front ++ block :: next :: later :: rest) :=
    ⟨by simp, free⟩
  have exact := expandInto_retiled heap used free index aligned large fits
  dsimp only at exact ⊢
  generalize s.expandInto cfg block.addr next.addr block.size (block.size + next.size)
    needed = expanded at exact ⊢
  rcases exact with ⟨room, reported, retiled⟩ | ⟨_, reported, retiled⟩
  · have left : remainder block.addr needed (block.size + next.size) =
        [⟨block.addr + needed, block.size + next.size - needed, .free⟩] :=
      if_pos (by omega)
    refine ⟨needed, le_rfl, Or.inr room, reported, ?_, fun idx bound => ?_⟩
    · unfold grownBlocks
      rw [left]
      simpa using retiled.heap
    · rw [retiled.heap.binRuns_eq retiled.index bound, heap.binRuns_eq index bound,
        left, ← erased_eq index heap.layout.linkable member bound]
      by_cases same : binIndexFor (block.size + next.size - needed) = idx
      · subst same
        simp
      · rw [Function.update_of_ne (Ne.symm same)]
        simp [same]
  · have left : remainder block.addr (block.size + next.size)
        (block.size + next.size) = [] := if_neg (lt_irrefl _)
    refine ⟨_, fits, Or.inl rfl, reported, ?_, fun idx bound => ?_⟩
    · unfold grownBlocks
      rw [left]
      simpa using retiled.heap
    · rw [retiled.heap.binRuns_eq retiled.index bound, heap.binRuns_eq index bound,
        left, ← erased_eq index heap.layout.linkable member bound]
      simp

section Layouts

variable {granted : Nat}
  (heap : HeapOk cfg s (front ++ block :: next :: later :: rest))
  (after : HeapOk cfg t (grownBlocks front (later :: rest) block.addr granted
    (block.size + next.size)))
  (used : block.kind = .used) (free : next.kind = .free)
  (nextAddr : next.addr = block.addr + block.size)
  (laterAddr : later.addr = block.addr + block.size + next.size)

include heap used free

omit used in
theorem used_rest : usedRuns (front ++ later :: rest) =
    usedRuns (front ++ block :: next :: later :: rest) \ {block} := by
  rw [usedRuns_diff heap.layout.nodup,
    usedRuns_skip (show next.kind ≠ .used by rw [free]; decide)]

omit free in
theorem free_rest : freeRuns (front ++ later :: rest) =
    freeRuns (front ++ block :: next :: later :: rest) \ {next} := by
  have skipped : freeRuns (front ++ block :: later :: rest) =
      freeRuns (front ++ later :: rest) := freeRuns_skip (by rw [used]; decide)
  have removed := @freeRuns_diff (front ++ [block]) (later :: rest) next
    (by simpa using heap.layout.nodup)
  rw [← skipped]
  simpa using removed.symm

include after

omit used in
theorem allocated_grown (a z : Nat) : t.Allocated a z ↔
    a = block.addr ∧ z = granted ∨ s.Allocated a z ∧ a ≠ block.addr := by
  rw [after.allocated_iff, usedRuns_grown, used_rest heap free,
    heap.allocated_iff]
  apply or_congr_right
  constructor
  · rintro ⟨member, different⟩
    refine ⟨member, fun same => different ?_⟩
    exact heap.layout.eq_of_addr_eq member.1 (by simp) same
  · rintro ⟨member, different⟩
    refine ⟨member, fun same => different ?_⟩
    rw [← Set.mem_singleton_iff.mp same]

include nextAddr

omit free in
theorem freed_grown (a z : Nat) : t.FreeRun a z ↔
    ⟨a, z, .free⟩ ∈ remainder block.addr granted (block.size + next.size) ∨
      s.FreeRun a z ∧ a ≠ block.addr + block.size := by
  rw [after.freeRun_iff, freeRuns_grown, free_rest heap used, heap.freeRun_iff,
    ← nextAddr]
  apply or_congr_right
  constructor
  · rintro ⟨member, different⟩
    refine ⟨member, fun same => different ?_⟩
    exact heap.layout.eq_of_addr_eq member.1 (by simp) same
  · rintro ⟨member, different⟩
    refine ⟨member, fun same => different ?_⟩
    rw [← Set.mem_singleton_iff.mp same]

omit nextAddr

omit used free in
theorem tags_grown : ∀ run ∈ front ++ rest, ∀ word, TagWord run word →
    t.mem word = s.mem word := by
  have before := heap.tagged
  have now := after.tagged
  unfold grownBlocks at now
  rw [tagged_append] at before
  rw [List.append_assoc, tagged_append, tagged_append] at now
  intro run member
  rcases List.mem_append.mp member with early | late
  · exact before.1.words_eq now.1 run early
  · exact before.2.2.2.2.words_eq now.2.2.2 run late

omit free in
theorem prevFree_grown : t.prevIsFree block.addr = s.prevIsFree block.addr := by
  have before := heap.tagged
  have now := after.tagged
  unfold grownBlocks at now
  rw [tagged_append] at before
  rw [List.append_assoc, tagged_append] at now
  rw [before.2.1.prevIsFree (heap.layout.packable (by simp)) (by rw [used]; decide)]
  have tagged : BlockTagged cfg t.mem (carryFree false front)
      ⟨block.addr, granted, .used⟩ := now.2.1
  exact tagged.prevIsFree (after.layout.packable (by simp [grownBlocks])) (by simp)

omit heap used free in
theorem following_grown (kind : later.kind = .used) : t.mem later.addr =
    pack later.size false (decide (granted < block.size + next.size)) := by
  have now := after.tagged
  unfold grownBlocks at now
  have flag : carryFree (Block.isFree ⟨block.addr, granted, .used⟩)
      (remainder block.addr granted (block.size + next.size)) =
        decide (granted < block.size + next.size) := carryFree_remainder
  rw [tagged_append, carryFree_append, carryFree_cons, flag] at now
  have tagged := now.2.1
  unfold BlockTagged at tagged
  rw [kind] at tagged
  exact tagged.1

end Layouts

theorem expandInto_grown {back : List Block}
    (heap : HeapOk cfg s (front ++ block :: next :: back))
    (used : block.kind = .used) (free : next.kind = .free) (aligned : 16 ∣ needed)
    (large : block.size < needed) (fits : needed ≤ block.size + next.size) :
    let expanded := s.expandInto cfg block.addr next.addr block.size
      (block.size + next.size) needed
    ∃ granted, needed ≤ granted ∧ expanded.2 = granted - 16 ∧
      Grown cfg s expanded.1 block.addr block.size next.size granted := by
  have blockMember : block ∈ front ++ block :: next :: back := by simp
  have nextMember : next ∈ front ++ block :: next :: back := by simp
  obtain ⟨_, _, _, step, outer⟩ := expandInto_spec heap used free aligned large.le fits
  obtain ⟨_, _, sameBack, stretch⟩ := Stretch.startUsed heap used
  obtain ⟨rfl, rfl⟩ := List.cons.inj sameBack
  have nextAddr := stretch.adjacent
  obtain ⟨later, rest, rfl, separated, absorbed⟩ := absorb_free heap used free
  have laterAddr := absorbed.adjacent
  obtain ⟨granted, enough, split, reported, after, bins⟩ :=
    expandInto_grownBlocks heap used free aligned large.le fits
  obtain ⟨placed, placedStats, placedResult⟩ := expandInto_placed cfg s block.addr
    next.addr block.size (block.size + next.size) needed
  dsimp only
  have blockSize := heap.layout.sizes block blockMember (by rw [used]; decide)
  have bounded := heap.layout.size_lt blockMember
  have grantedBound := after.layout.size_lt
    (show ⟨block.addr, granted, .used⟩ ∈ _ by simp [grownBlocks])
  dsimp only at grantedBound
  generalize s.expandInto cfg block.addr next.addr block.size
    (block.size + next.size) needed = expanded at *
  have chunks := State.chunks_of_outer outer
  have allocated := allocated_grown heap after free
  have freed := freed_grown heap after used nextAddr
  have tags := tags_grown heap after
  have others : ∀ run ∈ front ++ block :: next :: later :: rest,
      run.addr ≠ block.addr → run.addr ≠ next.addr → run.addr ≠ later.addr →
        run ∈ front ++ rest := by
    intro run member notBlock notNext notLater
    simp only [List.mem_append, List.mem_cons] at member ⊢
    rcases member with early | rfl | rfl | rfl | late
    · exact Or.inl early
    · exact absurd rfl notBlock
    · exact absurd rfl notNext
    · exact absurd rfl notLater
    · exact Or.inr late
  refine ⟨granted, enough, reported, {
    free := ?_
    larger := by omega
    split := ?_
    allocated := allocated
    freed := freed
    headers := ?_
    following := ?_
    epilogues := ?_
    footers := ?_
    payloads := ?_
    bins := ?_
    prevFree := prevFree_grown heap after used
    backwards := ?_
    outside := ?_
    outer := outer
    stats := ?_ }⟩
  · rw [heap.freeRun_iff, ← nextAddr, ← free]
    exact ⟨nextMember, free⟩
  · rw [minFreeRunSize_eq, splitRemainderThreshold_eq]
    exact split
  · intro a z run notBlock notNext notLater
    have listed : ∃ kind, (⟨a, z, kind⟩ : Block) ∈
        front ++ block :: next :: later :: rest := by
      rcases run with marked | marked
      · exact ⟨_, (heap.allocated_iff.mp marked).1⟩
      · exact ⟨_, (heap.freeRun_iff.mp marked).1⟩
    obtain ⟨kind, listed⟩ := listed
    exact tags _ (others _ listed notBlock (by rw [nextAddr]; exact notNext)
      (by rw [laterAddr, ← Nat.add_assoc]; exact notLater)) _ (Or.inl rfl)
  · intro z marked
    have listed := heap.allocated_iff.mp marked
    rw [Nat.add_assoc, ← laterAddr] at listed ⊢
    have same := heap.layout.eq_of_addr_eq listed.1
      (show later ∈ _ by simp) rfl
    have kind : later.kind = .used := by rw [← same]
    have size : later.size = z := by rw [← same]
    rw [following_grown after kind, size]
  · intro chunk member
    have now := after.epilogue (chunks ▸ member)
    exact now.trans (heap.epilogue member).symm
  · intro a z marked different
    have listed := (heap.freeRun_iff.mp marked).1
    have notBlock : a ≠ block.addr := fun same => by
      have equal := heap.layout.eq_of_addr_eq listed blockMember same
      rw [← equal] at used
      cases used
    have notLater : a ≠ later.addr := fun same => by
      have equal := heap.layout.eq_of_addr_eq listed (show later ∈ _ by simp) same
      rw [← equal] at separated
      exact separated rfl
    exact tags _ (others _ listed notBlock (by rw [nextAddr]; exact different) notLater)
      _ (Or.inr (Or.inr ⟨rfl, rfl⟩))
  · intro a z marked word lower upper
    exact step.keeps _ (heap.allocated_iff.mp marked) word lower upper
  · intro idx bound
    rw [binCount_eq] at bound
    rw [bins idx bound, nextAddr]
  · rintro a z marked adjacent
    have kept : expanded.1.FreeRun a z :=
      (freed a z).mpr (Or.inr ⟨marked, by omega⟩)
    rw [← adjacent]
    refine after.prevRun_of_freeRun kept ((allocated _ granted).mpr (Or.inl ?_))
    exact ⟨adjacent, rfl⟩
  · intro word notIn
    apply step.outside word
    rintro ⟨chunk, member, place⟩
    exact notIn ⟨chunk, by rwa [← chunks], place⟩
  · have grew : wrapSub (placed.runSize block.addr) headerBytes = granted - 16 := by
      rw [← reported, placedResult]
    rw [placedResult, grew, headerBytes_eq, wrapSub_eq (by omega) bounded,
      if_pos (by omega), wrapSub_eq (by omega) (by omega)]
    have bytes : granted - 16 - (block.size - 16) = granted - block.size := by omega
    rw [bytes]
    unfold State.addLiveBytes State.record
    split
    · dsimp only
      rw [placedStats]
    · exact placedStats

end Growth

/-- Of an allocated run: what `expand` reports is the payload of the run afterwards,
and it is enough exactly when the run was large enough or is so together with a
free run behind it; a report that is not enough leaves the runner as it was, and so
does one that the run already met. -/
structure ExpandsExactly (cfg : Config) (s : State) (addr size minNewBytes : Nat)
    (result : State × Nat) : Prop where
  reported : ∃ granted, result.1.Allocated addr granted ∧
    result.2 = granted - headerBytes
  enough : minNewBytes ≤ result.2 ↔ minNewBytes ≤ size - headerBytes ∨
    ∃ next, s.FreeRun (addr + size) next ∧ minNewBytes ≤ size + next - headerBytes
  refused : result.2 < minNewBytes ∨ minNewBytes ≤ size - headerBytes → result.1 = s
  changes : result = (s, size - headerBytes) ∨ ∃ next granted,
    result.2 = granted - headerBytes ∧ Grown cfg s result.1 addr size next granted

theorem HeapOk.expandsExactly (heap : HeapOk cfg s blocks) {addr size : Nat}
    (marked : s.Allocated addr size) {minNewBytes : Nat} (word : minNewBytes < 2 ^ 64) :
    ExpandsExactly cfg s addr size minNewBytes
      (s.expand cfg (addr + 16) minNewBytes) := by
  have member := heap.allocated_iff.mp marked
  have header : headerBytes = 16 := rfl
  have expands := expand_expands heap member word
  dsimp only at expands
  generalize s.expand cfg (addr + 16) minNewBytes = result at expands ⊢
  cases expands with
  | stays refused =>
      refine ⟨⟨size, marked, rfl⟩, ⟨Or.inl, ?_⟩, fun _ => rfl, Or.inl rfl⟩
      rintro (enough | ⟨length, free, enough⟩)
      · exact enough
      by_contra short
      obtain ⟨front, back, rfl⟩ := List.append_of_mem member.1
      obtain ⟨next, rest, rfl, adjacent⟩ :=
        heap.layout.fenced.exists_next (by simp)
      have listed := (heap.freeRun_iff.mp free).1
      obtain rfl := heap.layout.eq_of_addr_eq (show next ∈ _ by simp) listed adjacent
      have small := refused (by omega) front _ rest rfl rfl
      dsimp only at small enough short
      omega
  | @grows front back next needed listed free short room aligned fits =>
      subst listed
      obtain ⟨granted, covers, reported, grown⟩ :=
        expandInto_grown heap rfl free aligned (by omega) fits
      dsimp only at covers reported grown fits short ⊢
      refine ⟨⟨granted, (grown.allocated _ _).mpr (Or.inl ⟨rfl, rfl⟩), reported⟩, ?_, ?_,
        Or.inr ⟨_, granted, reported, grown⟩⟩
      · rw [reported]
        constructor
        · intro _
          exact Or.inr ⟨next.size, grown.free, by omega⟩
        · intro _
          omega
      · rw [reported]
        rintro (short | enough) <;> omega

/-- In every reachable world `expand` is exact on every allocated run, those of the
payloads that are held among them. -/
theorem expand_exact {w : World} (reachable : (interleavings cfg).Reachable w) :
    (∀ p, w.Holds p → ∃ size, w.state.Allocated (headerFromPayload p) size) ∧
      ∀ p size, w.state.Allocated (headerFromPayload p) size →
        ∀ minNewBytes < 2 ^ 64, ExpandsExactly cfg w.state (headerFromPayload p) size
          minNewBytes (w.state.expand cfg p minNewBytes) := by
  obtain ⟨runs, pending, inv⟩ := (worldOk_inductive cfg).reachable reachable
  constructor
  · intro p holds
    obtain ⟨run, member, rfl, _⟩ := inv.held.run holds
    refine ⟨run.size, ?_⟩
    rw [headerFromPayload_eq, Nat.add_sub_cancel, inv.allocated_iff]
    rwa [inv.kind_eq member]
  · intro p size marked minNewBytes word
    obtain ⟨blocks, heap, _⟩ := inv.ok.heap
    have positive := heap.layout.addr_pos (heap.allocated_iff.mp marked).1
    rw [headerFromPayload_eq] at marked positive ⊢
    have exact := heap.expandsExactly marked word
    rwa [Nat.sub_add_cancel (by dsimp only at positive; omega)] at exact

/-- The only run of a runner of 1024 bytes grows from 48 to 224 bytes and leaves 784
bytes free. -/
theorem sampleWorld_expands :
    let s := (sampleWorld.search sampleConfig refusing 24 16).state
    ExpandsExactly sampleConfig s 4096 48 200 (s.expand sampleConfig 4112 200) ∧
      (s.expand sampleConfig 4112 200).2 = 208 ∧
      (s.expand sampleConfig 4112 200).1.runsIn ⟨4096, 1024, 0, 0⟩ =
        [⟨4096, 224, .used⟩, ⟨4320, 784, .free⟩] := by
  have begins : (interleavings sampleConfig).start sampleWorld :=
    ⟨.external (by decide : 0 < 4096) (by decide : 4096 + 1024 ≤ 2 ^ 64) rfl,
      rfl, rfl, rfl, rfl, rfl⟩
  have allocated := TransitionSystem.Reachable.step (.start begins)
    (Interleaves.search refusing 24 16 rfl (by decide))
  have marked : (sampleWorld.search sampleConfig refusing 24 16).state.Allocated
      (headerFromPayload 4112) 48 :=
    ⟨⟨4096, 1024, 0, 0⟩, by decide +kernel, by decide +kernel⟩
  exact ⟨(expand_exact allocated).2 4112 48 marked 200 (by decide),
    by decide +kernel, by decide +kernel⟩

end Runner

end Allocazam
