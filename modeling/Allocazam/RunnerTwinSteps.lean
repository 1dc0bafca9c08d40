import Allocazam.RunnerTwinSearch

/-!
# What the operations of twins do

Deallocation, the drain, expansion, further chunks and allocation: made on both
sides, each returns alike results and leaves twins.
-/

namespace Allocazam

namespace Runner

variable {cfg cfg' : Config} {s t s' t' : State} {parked parked' : List Nat}
  {needed : Nat}

/-- Runners with alike heaps and remote stacks. -/
structure Twins (cfg cfg' : Config) (s t : State) (parked parked' : List Nat) : Prop
    extends Mirrors cfg cfg' s t where
  ok : ∃ runs, RunnerOk cfg s runs parked
  ok' : ∃ runs, RunnerOk cfg' t runs parked'
  parkedAlike : List.Forall₂ (Alike s.chunks t.chunks) parked parked'

/-- The payload `p` belongs to an allocated run. -/
def State.Holds (s : State) (p : Nat) : Prop :=
  ∃ addr size, s.Allocated addr size ∧ addr + 16 = p

theorem RunnerOk.holds_iff {runs : Set Block} (ok : RunnerOk cfg s runs parked) {p : Nat} :
    s.Holds p ↔ ∃ run ∈ runs, run.addr + 16 = p := by
  constructor
  · rintro ⟨addr, size, marked, rfl⟩
    exact ⟨_, ok.allocated_iff.mp marked, rfl⟩
  · rintro ⟨run, member, rfl⟩
    refine ⟨run.addr, run.size, ?_, rfl⟩
    obtain ⟨blocks, heap, rfl⟩ := ok.heap
    rw [heap.allocated_iff, ← member.2]
    exact member

theorem RunnerOk.emptied {runs : Set Block} (ok : RunnerOk cfg s runs parked) :
    RunnerOk cfg { s with remoteHead := 0 } runs [] where
  heap := by
    obtain ⟨blocks, heap, used⟩ := ok.heap
    exact ⟨blocks, heap.congr rfl rfl rfl rfl, used⟩
  stack := rfl
  parkedRuns := by simp
  growth := ok.growth
  deferred := ok.deferred

namespace Mirrors

variable (mirrors : Mirrors cfg cfg' s t)

include mirrors

theorem exists_gathered {p p' : Nat} (holds : s.Holds p)
    (alike : Alike s.chunks t.chunks p p') :
    ∃ front before block behind back front' before' block' behind' back',
      HeapOk cfg s (front ++ (before ++ [block] ++ behind) ++ back) ∧
      HeapOk cfg' t (front' ++ (before' ++ [block'] ++ behind') ++ back') ∧
      Gathered front before block behind back ∧
      Gathered front' before' block' behind' back' ∧
      block.addr + 16 = p ∧ block'.addr + 16 = p' ∧
      List.Forall₂ (BlockAlike s.chunks t.chunks) front front' ∧
      List.Forall₂ (BlockAlike s.chunks t.chunks) before before' ∧
      BlockAlike s.chunks t.chunks block block' ∧
      List.Forall₂ (BlockAlike s.chunks t.chunks) behind behind' ∧
      List.Forall₂ (BlockAlike s.chunks t.chunks) back back' := by
  have unique := mirrors.biUnique
  obtain ⟨blocks, blocks', heap, heap', matched⟩ := mirrors.layouts
  obtain ⟨addr, size, marked, rfl⟩ := holds
  have member := heap.allocated_iff.mp marked
  obtain ⟨front, before, behind, back, rfl, gathered⟩ := heap.gathered member
  obtain ⟨rest', back', rfl, restMatched, backMatched⟩ := forall₂_append_left matched
  obtain ⟨front', middle', rfl, frontMatched, middleMatched⟩ :=
    forall₂_append_left restMatched
  obtain ⟨early', behind', rfl, earlyMatched, behindMatched⟩ :=
    forall₂_append_left middleMatched
  obtain ⟨before', single', rfl, beforeMatched, singleMatched⟩ :=
    forall₂_append_left earlyMatched
  obtain ⟨block', none', blockAlike, noneMatched, rfl⟩ :=
    List.forall₂_cons_left_iff.mp singleMatched
  obtain rfl := List.forall₂_nil_left_iff.mp noneMatched
  have large := heap.layout.sizes _ member.1 (by simp)
  have payload := blockAlike.add heap.layout member.1
    (show 16 < (⟨addr, size, .used⟩ : Block).size by omega)
  have kinds : ∀ {runs runs' : List Block},
      List.Forall₂ (BlockAlike s.chunks t.chunks) runs runs' →
      (∀ run ∈ runs, run.kind = .free) → ∀ run' ∈ runs', run'.kind = .free := by
    intro runs runs' same
    induction same with
    | nil => simp
    | cons first _ ih =>
        intro free run' listed
        rcases List.mem_cons.mp listed with rfl | later
        · rw [first.kind]
          exact free _ List.mem_cons_self
        · exact ih (fun run member => free run (List.mem_cons_of_mem _ member)) run' later
  have carries : ∀ {runs runs' : List Block} {carried : Bool},
      List.Forall₂ (BlockAlike s.chunks t.chunks) runs runs' →
      carryFree carried runs' = carryFree carried runs := by
    intro runs runs' carried same
    induction same generalizing carried with
    | nil => rfl
    | cons first _ ih =>
        rw [carryFree_cons, carryFree_cons, first.isFree, ih]
  refine ⟨front, before, _, behind, back, front', before', block', behind', back', heap,
    heap', gathered, ⟨blockAlike.kind, kinds beforeMatched gathered.beforeFree,
      kinds behindMatched gathered.behindFree, ?_, ?_⟩, rfl, unique.2 payload alike,
    frontMatched, beforeMatched, blockAlike, behindMatched, backMatched⟩
  · rw [carries frontMatched]
    exact gathered.prevUsed
  · obtain ⟨next, rest, rfl, nextUsed⟩ := gathered.nextUsed
    obtain ⟨next', rest', nextAlike, _, rfl⟩ := List.forall₂_cons_left_iff.mp backMatched
    exact ⟨next', rest', rfl, by rw [nextAlike.kind]; exact nextUsed⟩

theorem holds {p p' : Nat} (held : s.Holds p) (alike : Alike s.chunks t.chunks p p') :
    t.Holds p' := by
  obtain ⟨_, _, _, _, _, front', before', block', behind', back', _, heap', _, gathered',
    _, rfl, _⟩ := mirrors.exists_gathered held alike
  refine ⟨block'.addr, block'.size, ?_, rfl⟩
  rw [heap'.allocated_iff, ← gathered'.used]
  exact ⟨by simp, gathered'.used⟩

theorem deallocateBytes {p p' : Nat} (held : s.Holds p)
    (alike : Alike s.chunks t.chunks p p') :
    Mirrors cfg cfg' (s.deallocateBytes cfg p) (t.deallocateBytes cfg' p') := by
  obtain ⟨front, before, block, behind, back, front', before', block', behind', back', heap,
    heap', gathered, gathered', rfl, rfl, frontAlike, beforeAlike, blockAlike, behindAlike,
    backAlike⟩ := mirrors.exists_gathered held alike
  have oldAlike : List.Forall₂ (BlockAlike s.chunks t.chunks)
      (before ++ [block] ++ behind) (before' ++ [block'] ++ behind') :=
    List.rel_append (List.rel_append beforeAlike (.cons blockAlike .nil)) behindAlike
  refine mirrors.exchange (deallocateBytes_exchanged heap gathered)
    (deallocateBytes_exchanged heap' gathered') frontAlike oldAlike (.cons ?_ .nil) backAlike
  have nonempty : before ++ [block] ++ behind ≠ [] := by simp
  generalize before ++ [block] ++ behind = old at oldAlike nonempty
  generalize before' ++ [block'] ++ behind' = old' at oldAlike
  have sizes : (old'.map Block.size).sum = (old.map Block.size).sum := by
    clear nonempty
    induction oldAlike with
    | nil => rfl
    | cons first _ ih => rw [List.map_cons, List.map_cons, List.sum_cons, List.sum_cons, ih,
        first.size]
  cases oldAlike with
  | nil => exact absurd rfl nonempty
  | cons first _ => exact ⟨first.addr, sizes, rfl⟩

theorem exists_pair {p p' : Nat} (held : s.Holds p)
    (alike : Alike s.chunks t.chunks p p') :
    ∃ front block next back front' block' next' back',
      HeapOk cfg s (front ++ block :: next :: back) ∧
      HeapOk cfg' t (front' ++ block' :: next' :: back') ∧
      block.kind = .used ∧ block.addr + 16 = p ∧ block'.addr + 16 = p' ∧
      List.Forall₂ (BlockAlike s.chunks t.chunks) front front' ∧
      BlockAlike s.chunks t.chunks block block' ∧
      BlockAlike s.chunks t.chunks next next' ∧
      List.Forall₂ (BlockAlike s.chunks t.chunks) back back' := by
  have unique := mirrors.biUnique
  obtain ⟨blocks, blocks', heap, heap', matched⟩ := mirrors.layouts
  obtain ⟨addr, size, marked, rfl⟩ := held
  have member := heap.allocated_iff.mp marked
  obtain ⟨front, rest, rfl⟩ := List.append_of_mem member.1
  obtain ⟨next, back, rfl, _⟩ := Stretch.startUsed heap rfl
  obtain ⟨front', rest', rfl, frontMatched, restMatched⟩ := forall₂_append_left matched
  obtain ⟨block', behind', blockAlike, behindMatched, rfl⟩ :=
    List.forall₂_cons_left_iff.mp restMatched
  obtain ⟨next', back', nextAlike, backMatched, rfl⟩ :=
    List.forall₂_cons_left_iff.mp behindMatched
  have large := heap.layout.sizes _ member.1 (by simp)
  have payload := blockAlike.add heap.layout member.1
    (show 16 < (⟨addr, size, .used⟩ : Block).size by omega)
  exact ⟨front, _, next, back, front', block', next', back', heap, heap', rfl, rfl,
    unique.2 payload alike, frontMatched, blockAlike, nextAlike, backMatched⟩

theorem expand {p p' minNewBytes : Nat} (held : s.Holds p)
    (alike : Alike s.chunks t.chunks p p') (word : minNewBytes < 2 ^ 64) :
    (t.expand cfg' p' minNewBytes).2 = (s.expand cfg p minNewBytes).2 ∧
      Mirrors cfg cfg' (s.expand cfg p minNewBytes).1
        (t.expand cfg' p' minNewBytes).1 := by
  obtain ⟨front, block, next, back, front', block', next', back', heap, heap', used, rfl,
    rfl, frontAlike, blockAlike, nextAlike, backAlike⟩ := mirrors.exists_pair held alike
  have used' : block'.kind = .used := by rw [blockAlike.kind, used]
  rw [expand_eq heap used, expand_eq heap' used', blockAlike.size, nextAlike.size,
    nextAlike.kind]
  by_cases enough : minNewBytes ≤ block.size - 16
  · rw [if_pos enough, if_pos enough]
    exact ⟨rfl, mirrors⟩
  rw [if_neg enough, if_neg enough]
  cases normalized : normalizedRunBytesForPayload minNewBytes with
  | none => exact ⟨rfl, mirrors⟩
  | some needed =>
      obtain ⟨aligned, _, room, _⟩ := normalizedRunBytesForPayload_spec word normalized
      dsimp only
      by_cases grows : next.kind = .free ∧ needed ≤ block.size + next.size
      swap
      · rw [if_neg grows, if_neg grows]
        exact ⟨rfl, mirrors⟩
      obtain ⟨free, fits⟩ := grows
      rw [if_pos ⟨free, fits⟩, if_pos ⟨free, fits⟩]
      have free' : next'.kind = .free := by rw [nextAlike.kind, free]
      obtain ⟨reported, exchanged⟩ := expandInto_exchanged heap used free aligned
        (by omega) fits
      obtain ⟨reported', exchanged'⟩ := expandInto_exchanged heap' used' free' aligned
        (by rw [blockAlike.size]; omega) (by rw [blockAlike.size, nextAlike.size]; exact fits)
      rw [blockAlike.size, nextAlike.size] at reported' exchanged'
      obtain ⟨_, _, sameBack, stretch⟩ := Stretch.startUsed heap used
      obtain ⟨rfl, rfl⟩ := List.cons.inj sameBack
      obtain ⟨_, _, sameBack', stretch'⟩ := Stretch.startUsed heap' used'
      obtain ⟨rfl, rfl⟩ := List.cons.inj sameBack'
      have adjacent := stretch.adjacent
      have adjacent' := stretch'.adjacent
      rw [blockAlike.size] at adjacent'
      refine ⟨reported'.trans reported.symm, mirrors.exchange exchanged exchanged' frontAlike
        (.cons blockAlike (.cons nextAlike .nil)) (carvedRuns_alike blockAlike.addr ?_)
        backAlike⟩
      intro distance inside
      by_cases inBlock : distance < block.size
      · exact blockAlike.add heap.layout (by simp) inBlock
      · have inNext := nextAlike.add heap.layout (by simp)
          (show distance - block.size < next.size by omega)
        have place : next.addr + (distance - block.size) = block.addr + distance := by
          omega
        have place' : next'.addr + (distance - block.size) = block'.addr + distance := by
          omega
        rwa [place, place'] at inNext

theorem write {p p' offset : Nat} (held : s.Holds p) (alike : Alike s.chunks t.chunks p p')
    (inside : offset < s.payloadBytes p) (value value' : Nat) :
    Mirrors cfg cfg' (s.write (p + offset) value) (t.write (p' + offset) value') := by
  obtain ⟨front, block, next, back, front', block', next', back', heap, heap', used, rfl,
    rfl, frontAlike, blockAlike, nextAlike, backAlike⟩ := mirrors.exists_pair held alike
  have used' : block'.kind = .used := by rw [blockAlike.kind, used]
  have size := heap.runSize (show block ∈ front ++ block :: next :: back by simp)
    (by rw [used]; decide)
  have bytes : s.payloadBytes (block.addr + 16) = block.size - 16 := by
    unfold State.payloadBytes
    rw [headerFromPayload_eq, Nat.add_sub_cancel, size]
  rw [bytes] at inside
  have sameSize := blockAlike.size
  refine mirrors.exchange (write_exchanged heap ⟨by simp, used⟩ value ?_ ?_)
    (write_exchanged heap' ⟨by simp, used'⟩ value' ?_ ?_)
    (List.rel_append frontAlike (.cons blockAlike (.cons nextAlike backAlike))) .nil .nil
    .nil
  all_goals (try unfold Block.stop); omega

end Mirrors

namespace Twins

variable (twins : Twins cfg cfg' s t parked parked')

include twins

theorem same (mem : s'.mem = s.mem) (mem' : t'.mem = t.mem)
    (bins : s'.bins = s.bins) (bins' : t'.bins = t.bins)
    (mask : s'.binNonemptyMask = s.binNonemptyMask)
    (mask' : t'.binNonemptyMask = t.binNonemptyMask)
    (outer : s'.outer = s.outer) (outer' : t'.outer = t.outer) :
    Twins cfg cfg' s' t' parked parked' := by
  obtain ⟨runs, ok⟩ := twins.ok
  obtain ⟨runs', ok'⟩ := twins.ok'
  refine ⟨twins.toMirrors.same mem mem' bins bins' mask mask' outer outer',
    ⟨runs, (ok.same mem bins mask outer).ok⟩,
    ⟨runs', (ok'.same mem' bins' mask' outer').ok⟩, ?_⟩
  rw [State.chunks_of_outer outer, State.chunks_of_outer outer']
  exact twins.parkedAlike

theorem record (update update' : Stats → Stats) :
    Twins cfg cfg' (s.record cfg update) (t.record cfg' update') parked parked' :=
  twins.same (by simp) (by simp) (by simp) (by simp) (by simp) (by simp) (by simp)
    (by simp)

theorem parked_iff {p p' : Nat} (alike : Alike s.chunks t.chunks p p') :
    p ∈ parked ↔ p' ∈ parked' :=
  List.rel_mem twins.biUnique alike twins.parkedAlike

theorem deallocateBytes {p p' : Nat} (held : s.Holds p)
    (alike : Alike s.chunks t.chunks p p') (notParked : p ∉ parked) :
    Twins cfg cfg' (s.deallocateBytes cfg p) (t.deallocateBytes cfg' p') parked
      parked' := by
  have held' := twins.toMirrors.holds held alike
  have notParked' := fun inParked => notParked ((twins.parked_iff alike).mpr inParked)
  have mirrors := twins.toMirrors.deallocateBytes held alike
  have chunks := State.chunks_of_outer (@deallocateBytes_outer cfg s p)
  have chunks' := State.chunks_of_outer (@deallocateBytes_outer cfg' t p')
  have parkedAlike := twins.parkedAlike
  rw [← chunks, ← chunks'] at parkedAlike
  obtain ⟨runs, ok⟩ := twins.ok
  obtain ⟨runs', ok'⟩ := twins.ok'
  obtain ⟨run, member, rfl⟩ := ok.holds_iff.mp held
  obtain ⟨run', member', rfl⟩ := ok'.holds_iff.mp held'
  exact ⟨mirrors, ⟨_, (deallocateBytes_step ok member notParked).ok⟩,
    ⟨_, (deallocateBytes_step ok' member' notParked').ok⟩, parkedAlike⟩

theorem holds_deallocate {p q : Nat} (held : s.Holds p) (notParked : p ∉ parked)
    (other : s.Holds q) (different : q ≠ p) : (s.deallocateBytes cfg p).Holds q := by
  obtain ⟨runs, ok⟩ := twins.ok
  obtain ⟨run, member, rfl⟩ := ok.holds_iff.mp held
  obtain ⟨run', member', rfl⟩ := ok.holds_iff.mp other
  rw [(deallocateBytes_step ok member notParked).ok.holds_iff]
  refine ⟨run', ⟨member', ?_⟩, rfl⟩
  rintro rfl
  exact different rfl

theorem deallocateAll {pending pending' : List Nat}
    (matched : List.Forall₂ (Alike s.chunks t.chunks) pending pending')
    (nodup : pending.Nodup) (held : ∀ p ∈ pending, s.Holds p)
    (fresh : ∀ p ∈ pending, p ∉ parked) :
    Twins cfg cfg' (s.deallocateAll cfg pending) (t.deallocateAll cfg' pending') parked
      parked' := by
  induction pending generalizing s t pending' with
  | nil =>
      obtain rfl := List.forall₂_nil_left_iff.mp matched
      exact twins
  | cons p pending ih =>
      obtain ⟨p', rest', alike, later, rfl⟩ := List.forall₂_cons_left_iff.mp matched
      obtain ⟨apart, nodup⟩ := List.nodup_cons.mp nodup
      have freed := twins.deallocateBytes (held p List.mem_cons_self) alike
        (fresh p List.mem_cons_self)
      refine ih freed ?_ nodup (fun q listed => ?_) fun q listed =>
        fresh q (List.mem_cons_of_mem _ listed)
      · rw [State.chunks_of_outer (@deallocateBytes_outer cfg s p),
          State.chunks_of_outer (@deallocateBytes_outer cfg' t p')]
        exact later
      · refine twins.holds_deallocate (held p List.mem_cons_self)
          (fresh p List.mem_cons_self) (held q (List.mem_cons_of_mem _ listed)) ?_
        rintro rfl
        exact apart listed

theorem drainRemote : (t.drainRemote cfg').2 = (s.drainRemote cfg).2 ∧
    Twins cfg cfg' (s.drainRemote cfg).1 (t.drainRemote cfg').1 [] [] := by
  obtain ⟨runs, ok⟩ := twins.ok
  obtain ⟨runs', ok'⟩ := twins.ok'
  obtain ⟨flag, drained, _⟩ := drainRemote_spec ok
  obtain ⟨flag', drained', _⟩ := drainRemote_spec ok'
  rw [drained, drained', flag, flag']
  have lengths := twins.parkedAlike.length_eq
  have emptied : Twins cfg cfg' { s with remoteHead := 0 } { t with remoteHead := 0 }
      [] [] :=
    { toMirrors := twins.toMirrors.congr rfl rfl rfl rfl rfl rfl rfl rfl
        twins.nextGrowth twins.deferred
      ok := ⟨runs, ok.emptied⟩
      ok' := ⟨runs', ok'.emptied⟩
      parkedAlike := .nil }
  refine ⟨?_, emptied.deallocateAll twins.parkedAlike ok.stack.nodup (fun p listed => ?_)
    (by simp)⟩
  · rw [Bool.eq_iff_iff]
    simp only [Bool.not_eq_true', List.isEmpty_eq_false_iff, ne_eq,
      ← List.length_eq_zero_iff, lengths]
  · exact ok.emptied.holds_iff.mpr (ok.parkedRuns p listed)

theorem expand {p p' minNewBytes : Nat} (held : s.Holds p)
    (alike : Alike s.chunks t.chunks p p') (word : minNewBytes < 2 ^ 64) :
    (t.expand cfg' p' minNewBytes).2 = (s.expand cfg p minNewBytes).2 ∧
      Twins cfg cfg' (s.expand cfg p minNewBytes).1 (t.expand cfg' p' minNewBytes).1
        parked parked' := by
  obtain ⟨reported, mirrors⟩ := twins.toMirrors.expand held alike word
  have held' := twins.toMirrors.holds held alike
  obtain ⟨runs, ok⟩ := twins.ok
  obtain ⟨runs', ok'⟩ := twins.ok'
  obtain ⟨run, member, rfl⟩ := ok.holds_iff.mp held
  obtain ⟨run', member', rfl⟩ := ok'.holds_iff.mp held'
  obtain ⟨_, _, _, step⟩ := expand_step ok member word
  obtain ⟨_, _, _, step'⟩ := expand_step ok' member' word
  refine ⟨reported, mirrors, ⟨_, step.ok⟩, ⟨_, step'.ok⟩, ?_⟩
  rw [expand_chunks, expand_chunks]
  exact twins.parkedAlike

/-- The payload of a held run has the same number of bytes on both sides. -/
theorem payloadBytes {p p' : Nat} (held : s.Holds p)
    (alike : Alike s.chunks t.chunks p p') :
    t.payloadBytes p' = s.payloadBytes p ∧ 0 < s.payloadBytes p := by
  obtain ⟨front, block, next, back, front', block', next', back', heap, heap', used, rfl,
    rfl, _, blockAlike, _⟩ := twins.toMirrors.exists_pair held alike
  have notFence : block.kind ≠ .fence := by rw [used]; decide
  have member : block ∈ front ++ block :: next :: back := by simp
  have large := (heap.layout.sizes block member notFence).1
  unfold State.payloadBytes
  rw [headerFromPayload_eq, headerFromPayload_eq, Nat.add_sub_cancel, Nat.add_sub_cancel,
    heap.runSize member notFence,
    heap'.runSize (show block' ∈ front' ++ block' :: next' :: back' by simp)
      (by rw [blockAlike.kind]; exact notFence), blockAlike.size, headerBytes_eq]
  exact ⟨rfl, by omega⟩

theorem write {p p' offset : Nat} (held : s.Holds p) (alike : Alike s.chunks t.chunks p p')
    (notParked : p ∉ parked) (inside : offset < s.payloadBytes p) (value value' : Nat) :
    Twins cfg cfg' (s.write (p + offset) value) (t.write (p' + offset) value') parked
      parked' := by
  have held' := twins.toMirrors.holds held alike
  have notParked' := fun inParked => notParked ((twins.parked_iff alike).mpr inParked)
  have mirrors := twins.toMirrors.write held alike inside value value'
  have inside' : offset < t.payloadBytes p' := by
    rw [(twins.payloadBytes held alike).1]
    exact inside
  have written : ∀ {cfg : Config} {s : State} {parked : List Nat} {p : Nat} (value : Nat),
      (∃ runs, RunnerOk cfg s runs parked) → s.Holds p → p ∉ parked →
      offset < s.payloadBytes p →
        ∃ runs, RunnerOk cfg (s.write (p + offset) value) runs parked := by
    rintro cfg s parked p value ⟨runs, ok⟩ held notParked inside
    obtain ⟨run, member, rfl⟩ := ok.holds_iff.mp held
    obtain ⟨blocks, heap, rfl⟩ := ok.heap
    have size := heap.runSize member.1 (by rw [member.2]; decide)
    unfold State.payloadBytes at inside
    rw [headerFromPayload_eq, Nat.add_sub_cancel, size, headerBytes_eq] at inside
    exact ⟨_, (write_step ok member notParked value (by omega)
      (by unfold Block.stop; omega)).ok⟩
  exact ⟨mirrors, written value twins.ok held notParked inside,
    written value' twins.ok' held' notParked' inside', twins.parkedAlike⟩

theorem remotePush {p p' : Nat} (held : s.Holds p) (alike : Alike s.chunks t.chunks p p')
    (notParked : p ∉ parked) :
    Twins cfg cfg' (s.remotePush p) (t.remotePush p') (p :: parked) (p' :: parked') := by
  have held' := twins.toMirrors.holds held alike
  have notParked' := fun inParked => notParked ((twins.parked_iff alike).mpr inParked)
  have mirrors := twins.toMirrors.write held alike (twins.payloadBytes held alike).2
    s.remoteHead t.remoteHead
  obtain ⟨runs, ok⟩ := twins.ok
  obtain ⟨runs', ok'⟩ := twins.ok'
  obtain ⟨run, member, rfl⟩ := ok.holds_iff.mp held
  obtain ⟨run', member', rfl⟩ := ok'.holds_iff.mp held'
  exact ⟨mirrors.congr rfl rfl rfl rfl rfl rfl rfl rfl twins.nextGrowth twins.deferred,
    ⟨_, (remotePush_step ok member notParked).ok⟩,
    ⟨_, (remotePush_step ok' member' notParked').ok⟩, .cons alike twins.parkedAlike⟩

end Twins

end Runner

end Allocazam
