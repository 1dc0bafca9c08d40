import Allocazam.MatchedLists
import Allocazam.RunnerExchange
import Allocazam.RunnerStarted
import Mathlib.Data.List.Zip

/-!
# Runners alike up to the addresses of their chunks

Two runners are twins when their chunks have the same lengths, one by one, and what
they keep in these, the runs, the bins and the remote stack, lies at the same
offsets.  An exchange of runs that is made in both leaves them twins.
-/

namespace Allocazam

namespace Runner

variable {cfg cfg' : Config} {s t s' t' : State}
  {chunks chunks' : List ChunkNode} {addr addr' other : Nat}

/-- Two addresses have one offset in the chunks of one number. -/
def Alike (chunks chunks' : List ChunkNode) (addr addr' : Nat) : Prop :=
  ∃ pair ∈ chunks.zip chunks', ∃ offset < pair.1.bytes,
    addr = pair.1.first + offset ∧ addr' = pair.2.first + offset

/-- Two lists of chunks, and the mappings they came with, of the same lengths. -/
def SameLengths (chunks chunks' : List ChunkNode) : Prop :=
  List.Forall₂ (fun chunk chunk' : ChunkNode => chunk'.bytes = chunk.bytes ∧
    chunk'.mappingBytes = chunk.mappingBytes) chunks chunks'

/-- Runs of one size and kind at one offset. -/
structure BlockAlike (chunks chunks' : List ChunkNode) (block block' : Block) :
    Prop where
  addr : Alike chunks chunks' block.addr block'.addr
  size : block'.size = block.size
  kind : block'.kind = block.kind

namespace SameLengths

variable (same : SameLengths chunks chunks')

include same

theorem bytes : chunks'.map ChunkNode.bytes = chunks.map ChunkNode.bytes := by
  induction same with
  | nil => rfl
  | cons first _ ih => rw [List.map_cons, List.map_cons, ih, first.1]

theorem bytes_pair {pair : ChunkNode × ChunkNode}
    (member : pair ∈ chunks.zip chunks') : pair.2.bytes = pair.1.bytes :=
  (List.forall₂_zip same member).1

end SameLengths

namespace Alike

theorem unique
    (apart : chunks.Pairwise fun one two =>
      one.first + one.bytes ≤ two.first ∨ two.first + two.bytes ≤ one.first)
    (alike : Alike chunks chunks' addr addr') (again : Alike chunks chunks' addr other) :
    addr' = other := by
  induction chunks generalizing chunks' with
  | nil =>
      obtain ⟨pair, member, _⟩ := alike
      simp at member
  | cons chunk chunks ih =>
      cases chunks' with
      | nil =>
          obtain ⟨pair, member, _⟩ := alike
          simp at member
      | cons chunk' chunks' =>
          obtain ⟨first, rest⟩ := List.pairwise_cons.mp apart
          obtain ⟨pair, member, offset, inside, addrEq, addrEq'⟩ := alike
          obtain ⟨pair₂, member₂, offset₂, inside₂, addrEq₂, otherEq⟩ := again
          rw [List.zip_cons_cons, List.mem_cons] at member member₂
          rcases member with rfl | later <;> rcases member₂ with rfl | later₂
          · simp only at addrEq addrEq' addrEq₂ otherEq
            omega
          · have := first pair₂.1 (List.of_mem_zip later₂).1
            simp only at addrEq inside
            omega
          · have := first pair.1 (List.of_mem_zip later).1
            simp only at addrEq₂ inside₂
            omega
          · exact ih rest ⟨pair, later, offset, inside, addrEq, addrEq'⟩
              ⟨pair₂, later₂, offset₂, inside₂, addrEq₂, otherEq⟩

theorem swap (same : SameLengths chunks chunks') (alike : Alike chunks chunks' addr addr') :
    Alike chunks' chunks addr' addr := by
  obtain ⟨pair, member, offset, inside, addrEq, addrEq'⟩ := alike
  refine ⟨pair.swap, ?_, offset, ?_, addrEq', addrEq⟩
  · rw [← List.zip_swap, List.mem_map]
    exact ⟨pair, member, rfl⟩
  · show offset < pair.2.bytes
    rw [same.bytes_pair member]
    exact inside

theorem biUnique (ok : ChunksOk chunks) (ok' : ChunksOk chunks')
    (same : SameLengths chunks chunks') : Relator.BiUnique (Alike chunks chunks') := by
  refine ⟨fun addr addr' other alike again => ?_, fun addr addr' other alike again =>
    alike.unique ok.apart again⟩
  exact (alike.swap same).unique ok'.apart (again.swap same)

/-- Going on by the same distance inside a chunk. -/
theorem add (ok : ChunksOk chunks) (alike : Alike chunks chunks' addr addr')
    {chunk : ChunkNode} (member : chunk ∈ chunks) {distance : Nat}
    (lower : chunk.first ≤ addr) (upper : addr + distance < chunk.first + chunk.bytes) :
    Alike chunks chunks' (addr + distance) (addr' + distance) := by
  obtain ⟨pair, pairMember, offset, inside, rfl, rfl⟩ := alike
  have symmetric : Std.Symm fun one two : ChunkNode =>
      one.first + one.bytes ≤ two.first ∨
        two.first + two.bytes ≤ one.first := ⟨fun _ _ => Or.symm⟩
  have same : pair.1 = chunk := by
    by_contra different
    have := ok.apart.forall (List.of_mem_zip pairMember).1 member different
    omega
  subst same
  exact ⟨pair, pairMember, offset + distance, by omega, by omega, by omega⟩

theorem ne_zero (ok : ChunksOk chunks) (alike : Alike chunks chunks' addr addr') :
    addr ≠ 0 := by
  obtain ⟨pair, member, offset, inside, rfl, rfl⟩ := alike
  have := ok.positive pair.1 (List.of_mem_zip member).1
  omega

theorem cons (alike : Alike chunks chunks' addr addr') (chunk chunk' : ChunkNode) :
    Alike (chunk :: chunks) (chunk' :: chunks') addr addr' := by
  obtain ⟨pair, member, rest⟩ := alike
  exact ⟨pair, List.mem_cons_of_mem _ member, rest⟩

end Alike

namespace BlockAlike

variable {block block' : Block}

theorem cons (alike : BlockAlike chunks chunks' block block') (chunk chunk' : ChunkNode) :
    BlockAlike (chunk :: chunks) (chunk' :: chunks') block block' :=
  ⟨alike.addr.cons chunk chunk', alike.size, alike.kind⟩

theorem isFree (alike : BlockAlike chunks chunks' block block') :
    block'.isFree = block.isFree := by
  unfold Block.isFree
  rw [alike.kind]

theorem biUnique (unique : Relator.BiUnique (Alike chunks chunks')) :
    Relator.BiUnique (BlockAlike chunks chunks') := by
  constructor
  · rintro ⟨addr, size, kind⟩ ⟨addr', size', kind'⟩ other first second
    obtain rfl := unique.1 first.addr second.addr
    obtain rfl : size = size' := first.size.symm.trans second.size
    obtain rfl : kind = kind' := first.kind.symm.trans second.kind
    rfl
  · rintro other ⟨addr, size, kind⟩ ⟨addr', size', kind'⟩ first second
    obtain rfl := unique.2 first.addr second.addr
    obtain rfl : size = size' := first.size.trans second.size.symm
    obtain rfl : kind = kind' := first.kind.trans second.kind.symm
    rfl

theorem add {blocks : List Block} (layout : LayoutOk chunks blocks)
    (alike : BlockAlike chunks chunks' block block') (member : block ∈ blocks)
    {distance : Nat} (inside : distance < block.size) :
    Alike chunks chunks' (block.addr + distance) (block'.addr + distance) := by
  obtain ⟨chunk, chunkMember, lower, upper, _⟩ := layout.mem_chunk member
  unfold Block.stop at upper
  exact alike.addr.add layout.chunksOk chunkMember lower (by omega)

end BlockAlike

theorem carvedRuns_alike {needed total : Nat}
    (alike : Alike chunks chunks' addr addr')
    (inside : ∀ distance < total,
      Alike chunks chunks' (addr + distance) (addr' + distance)) :
    List.Forall₂ (BlockAlike chunks chunks') (carvedRuns addr needed total)
      (carvedRuns addr' needed total) := by
  refine .cons ⟨alike, rfl, rfl⟩ ?_
  unfold remainder
  by_cases split : carved needed total < total
  · rw [if_pos split, if_pos split]
    exact .cons ⟨inside _ split, rfl, rfl⟩ .nil
  · rw [if_neg split, if_neg split]
    exact .nil

/-- Memory, heads and chunks determine what the bins hold. -/
theorem State.binRuns_congr (mem : t.mem = s.mem) (bins : t.bins = s.bins)
    (chunks : t.chunks = s.chunks) : t.binRuns = s.binRuns := by
  funext idx
  have walk : ∀ fuel h, t.nodesFrom fuel h = s.nodesFrom fuel h := by
    intro fuel
    induction fuel with
    | zero => exact fun _ => rfl
    | succ fuel ih =>
        intro h
        unfold State.nodesFrom
        rw [ih, mem]
  unfold State.binRuns State.nodeBound
  rw [walk, bins, chunks]

/-- The runs, bins and sizes of two runners are alike. -/
structure Mirrors (cfg cfg' : Config) (s t : State) : Prop where
  chunks : SameLengths s.chunks t.chunks
  layouts : ∃ blocks blocks', HeapOk cfg s blocks ∧ HeapOk cfg' t blocks' ∧
    List.Forall₂ (BlockAlike s.chunks t.chunks) blocks blocks'
  bins : ∀ idx < 536,
    List.Forall₂ (Alike s.chunks t.chunks) (s.binRuns idx) (t.binRuns idx)
  nextGrowth : t.nextGrowth = s.nextGrowth
  deferred : t.deferredBytes = s.deferredBytes

namespace Mirrors

variable (mirrors : Mirrors cfg cfg' s t)

include mirrors

theorem biUnique : Relator.BiUnique (Alike s.chunks t.chunks) := by
  obtain ⟨blocks, blocks', heap, heap', _⟩ := mirrors.layouts
  exact Alike.biUnique heap.layout.chunksOk heap'.layout.chunksOk mirrors.chunks

theorem nodeBound : t.nodeBound = s.nodeBound := by
  unfold State.nodeBound
  rw [mirrors.chunks.bytes]

theorem mask {word : Nat} (bound : word < binWordCount) :
    t.binNonemptyMask word = s.binNonemptyMask word := by
  obtain ⟨blocks, blocks', heap, heap', _⟩ := mirrors.layouts
  refine (mask_eq heap heap' (fun idx inBins => ?_) bound).symm
  have lengths := (mirrors.bins idx inBins).length_eq
  rw [← List.length_eq_zero_iff, ← List.length_eq_zero_iff, lengths]

theorem congr (mem : s'.mem = s.mem) (mem' : t'.mem = t.mem)
    (bins : s'.bins = s.bins) (bins' : t'.bins = t.bins)
    (mask : s'.binNonemptyMask = s.binNonemptyMask)
    (mask' : t'.binNonemptyMask = t.binNonemptyMask)
    (chunks : s'.chunks = s.chunks) (chunks' : t'.chunks = t.chunks)
    (growth : t'.nextGrowth = s'.nextGrowth)
    (deferred : t'.deferredBytes = s'.deferredBytes) :
    Mirrors cfg cfg' s' t' := by
  obtain ⟨blocks, blocks', heap, heap', alike⟩ := mirrors.layouts
  exact
    { chunks := by rw [chunks, chunks']; exact mirrors.chunks
      layouts := ⟨blocks, blocks', heap.congr chunks mem bins mask,
        heap'.congr chunks' mem' bins' mask', by rw [chunks, chunks']; exact alike⟩
      bins := by
        rw [chunks, chunks', State.binRuns_congr mem bins chunks,
          State.binRuns_congr mem' bins' chunks']
        exact mirrors.bins
      nextGrowth := growth
      deferred := deferred }

theorem same (mem : s'.mem = s.mem) (mem' : t'.mem = t.mem)
    (bins : s'.bins = s.bins) (bins' : t'.bins = t.bins)
    (mask : s'.binNonemptyMask = s.binNonemptyMask)
    (mask' : t'.binNonemptyMask = t.binNonemptyMask)
    (outer : s'.outer = s.outer) (outer' : t'.outer = t.outer) :
    Mirrors cfg cfg' s' t' := by
  have growth : s'.nextGrowth = s.nextGrowth :=
    congrArg (fun members => members.2.1) outer
  have growth' : t'.nextGrowth = t.nextGrowth :=
    congrArg (fun members => members.2.1) outer'
  have deferred : s'.deferredBytes = s.deferredBytes :=
    congrArg (fun members => members.2.2.1) outer
  have deferred' : t'.deferredBytes = t.deferredBytes :=
    congrArg (fun members => members.2.2.1) outer'
  refine mirrors.congr mem mem' bins bins' mask mask' (State.chunks_of_outer outer)
    (State.chunks_of_outer outer') ?_ ?_
  · rw [growth, growth', mirrors.nextGrowth]
  · rw [deferred, deferred', mirrors.deferred]

section Exchange

variable {front old new back front' old' new' back' : List Block}

/-- An exchange of runs for alike ones on both sides. -/
theorem exchange (one : Exchanged cfg s s' front old new back)
    (two : Exchanged cfg' t t' front' old' new' back')
    (frontAlike : List.Forall₂ (BlockAlike s.chunks t.chunks) front front')
    (oldAlike : List.Forall₂ (BlockAlike s.chunks t.chunks) old old')
    (newAlike : List.Forall₂ (BlockAlike s.chunks t.chunks) new new')
    (backAlike : List.Forall₂ (BlockAlike s.chunks t.chunks) back back') :
    Mirrors cfg cfg' s' t' := by
  have unique := mirrors.biUnique
  have chunks := State.chunks_of_outer one.outer
  have chunks' := State.chunks_of_outer two.outer
  have growth : s'.nextGrowth = s.nextGrowth :=
    congrArg (fun members => members.2.1) one.outer
  have growth' : t'.nextGrowth = t.nextGrowth :=
    congrArg (fun members => members.2.1) two.outer
  have deferred : s'.deferredBytes = s.deferredBytes :=
    congrArg (fun members => members.2.2.1) one.outer
  have deferred' : t'.deferredBytes = t.deferredBytes :=
    congrArg (fun members => members.2.2.1) two.outer
  have addrs : List.Forall₂ (Alike s.chunks t.chunks) (old.map Block.addr)
      (old'.map Block.addr) :=
    List.rel_map (fun _ _ alike => alike.addr) oldAlike
  refine ⟨by rw [chunks, chunks']; exact mirrors.chunks,
    ⟨_, _, one.after, two.after, ?_⟩, fun idx bound => ?_,
    by rw [growth, growth', mirrors.nextGrowth],
    by rw [deferred, deferred', mirrors.deferred]⟩
  · rw [chunks, chunks']
    exact List.rel_append (List.rel_append frontAlike newAlike) backAlike
  · rw [chunks, chunks', one.bins idx bound, two.bins idx bound]
    refine List.rel_append ?_ ?_
    · refine List.rel_map (fun run run' (alike : BlockAlike s.chunks t.chunks run run') =>
        alike.addr) ?_
      refine List.rel_filter (fun run run' alike => ?_) newAlike
      dsimp only
      rw [alike.isFree, alike.size]
    · refine List.rel_filter (fun h h' alike => ?_) (mirrors.bins idx bound)
      have mem := List.rel_mem unique alike addrs
      simp only [decide_eq_true_eq]
      exact not_congr mem

end Exchange

end Mirrors

end Runner

end Allocazam
