import Allocazam.RunnerTwinAllocate

/-!
# A runner before and after its first chunk

A runner that has deferred its first chunk and one that has acquired it at once become
twins with the first search: nothing fits on the one side, which then adds a chunk of
the length that the other side began with.
-/

namespace Allocazam

namespace Runner

variable {cfg cfg' : Config} {s t : State} {os os' : Os} {blocks : List Block}
  {runs : Set Block} {parked parked' : List Nat}
  {base base' length needed count count' bytes alignment : Nat}

section Chunkless

variable (none : s.chunks = [])

include none

theorem HeapOk.chunkless (heap : HeapOk cfg s blocks) : blocks = [] := by
  refine List.eq_nil_iff_forall_not_mem.mpr fun block member => ?_
  obtain ⟨chunk, nowhere, _⟩ := heap.layout.mem_chunk member
  rw [none] at nowhere
  cases nowhere

theorem RunnerOk.chunkless (ok : RunnerOk cfg s runs parked) :
    HeapOk cfg s [] ∧ ∀ idx < 536, s.binRuns idx = [] := by
  obtain ⟨blocks, heap, _⟩ := ok.heap
  obtain rfl := heap.chunkless none
  obtain ⟨binned, index⟩ := heap.indexed
  refine ⟨heap, fun idx bound => ?_⟩
  rw [heap.binRuns_eq index bound]
  refine List.eq_nil_iff_forall_not_mem.mpr fun h listed => ?_
  obtain ⟨run, member, _⟩ := (index.mem_iff idx bound h).mp listed
  cases member.1

theorem RunnerOk.findFit_chunkless (ok : RunnerOk cfg s runs parked)
    (normalized : Normalized needed) : (s.findFit cfg needed count).2.1 = 0 := by
  obtain ⟨step, candidate⟩ := @findFit_step cfg s runs parked needed count ok normalized
  rcases candidate with null | ⟨blocks, heap, _, block, member, _⟩
  · exact null
  · have chunks := State.chunks_of_outer (@findFit_same cfg s needed count).2.2.2
    obtain rfl := heap.chunkless (chunks.trans none)
    cases member.1

end Chunkless

theorem RunnerOk.findOrDrain_unparked (ok : RunnerOk cfg s runs []) :
    s.findOrDrain cfg needed = s.findFit cfg needed 0 := by
  have head : (s.findFit cfg needed 0).1.remoteHead = 0 :=
    (State.remoteHead_of_outer (@findFit_same cfg s needed 0).2.2.2).trans ok.stack
  unfold State.findOrDrain
  generalize s.findFit cfg needed 0 = found at head ⊢
  obtain ⟨u, h, count⟩ := found
  dsimp only at head ⊢
  split
  · have drained : u.drainRemote cfg = (u, false) := by
      unfold State.drainRemote
      rw [if_pos head]
      obtain ⟨members, mem⟩ := u
      obtain ⟨bins, mask, chunks, growth, deferred, stats, remoteHead⟩ := members
      cases head
      rfl
    rw [drained]
  · rfl

theorem findOrDefer_settled {found : State × Nat × Nat} (none : found.1.deferredBytes = 0) :
    State.findOrDefer cfg os needed found = (found.1, .ok found.2) := by
  unfold State.findOrDefer
  exact if_neg fun both => both.2 none

theorem findOrDefer_first (deferred : s.deferredBytes ≠ 0)
    (sized : State.ownedChunkBytesFor cfg s.deferredBytes = .ok length) :
    (State.findOrDefer cfg os needed (s, 0, count)).2 = .error .refused ∨
      ∃ base, os.grant s.chunks length = some base ∧
        State.findOrDefer cfg os needed (s, 0, count) =
          State.findOrDefer cfg os needed
            ((s.withFirst base length).findFit cfg needed count) := by
  have ends := addOwnedChunk_added cfg s os s.deferredBytes
  conv => enter [1]; unfold State.findOrDefer
  conv => enter [2, 1, base, 2, 1]; unfold State.findOrDefer
  dsimp only
  rw [if_pos ⟨rfl, deferred⟩]
  generalize s.addOwnedChunk cfg os s.deferredBytes = outcome at ends ⊢
  cases ends with
  | overflow unsized =>
      rw [sized] at unsized
      cases unsized
  | refused => exact .inl rfl
  | @added other base sized' grants =>
      obtain rfl := Except.ok.inj (sized.symm.trans sized')
      refine .inr ⟨base, grants, ?_⟩
      rw [findOrDefer_settled]
      · rfl
      · exact congrArg Prod.snd (findFit_sizing needed count)

theorem resumeAllocate_first (deferred : s.deferredBytes ≠ 0)
    (sized : State.ownedChunkBytesFor cfg s.deferredBytes = .ok length)
    (granted : (State.resumeAllocate cfg os needed (s, 0, count)).2 ≠ .error .refused) :
    ∃ base, os.grant s.chunks length = some base ∧
      State.resumeAllocate cfg os needed (s, 0, count) =
        State.resumeAllocate cfg os needed
          ((s.withFirst base length).findFit cfg needed count) := by
  rcases @findOrDefer_first cfg s os length needed count deferred sized with
    refused | ⟨base, grants, first⟩
  · refine absurd ?_ granted
    unfold State.resumeAllocate
    generalize State.findOrDefer cfg os needed (s, 0, count) = outcome at refused ⊢
    obtain ⟨u, result⟩ := outcome
    obtain rfl : result = .error .refused := refused
    rfl
  · refine ⟨base, grants, ?_⟩
    unfold State.resumeAllocate
    rw [first]

/-- A runner that has deferred a chunk of `length` bytes, and one whose only chunk has
this length and is one free run. -/
structure Awaiting (cfg cfg' : Config) (s t : State) (base' length : Nat) : Prop where
  ok : RunnerOk cfg s ∅ []
  ok' : RunnerOk cfg' t ∅ []
  chunkless : s.chunks = []
  deferred : s.deferredBytes ≠ 0
  sized : State.ownedChunkBytesFor cfg s.deferredBytes = .ok length
  chunks' : t.chunks = [ownedChunk base' length]
  heap' : HeapOk cfg' t
    [(ownedChunk base' length).wholeRun, (ownedChunk base' length).epilogue]
  bins' : ∀ idx < 536, t.binRuns idx = newlyBinned [(ownedChunk base' length).wholeRun] idx
  nextGrowth' : t.nextGrowth = length
  deferred' : t.deferredBytes = 0

theorem awaiting_of_constructed (same : SameTemplate cfg cfg') {mem mem' : Nat → Nat}
    {initialBytes : Nat} (word : initialBytes < 2 ^ 64)
    (built : State.construct cfg' os mem' initialBytes = .ok t) :
    ∃ base' length,
      Awaiting cfg cfg' (State.constructLazy mem initialBytes) t base' length := by
  have ok' := construct_ok word built
  have blank : RunnerOk cfg' (State.blank mem' (max initialBytes 65536) 0) ∅ [] :=
    blank_ok (by omega) (by decide)
  have clamped : State.ownedChunkBytesFor cfg (max initialBytes 1) =
      State.ownedChunkBytesFor cfg' initialBytes := by
    rw [same.ownedChunkBytesFor]
    unfold State.ownedChunkBytesFor
    rw [minChunkBytes_eq, show max (max initialBytes 1) 64 = max initialBytes 64 by omega]
  unfold State.construct at built
  have ends := addOwnedChunk_added cfg' (State.blank mem' (max initialBytes 65536) 0) os
    initialBytes
  generalize (State.blank mem' (max initialBytes 65536) 0).addOwnedChunk cfg' os
    initialBytes = outcome at built ends
  cases ends with
  | overflow => cases built
  | refused => cases built
  | @added length base' sized granted =>
      obtain rfl := Except.ok.inj built
      obtain ⟨heap, none⟩ := blank.chunkless rfl
      have outer := @withChunk_outer (State.blank mem' (max initialBytes 65536) 0)
        (ownedChunk base' length)
      obtain ⟨after, bins⟩ := withChunk_layout heap (ownedChunk_fresh word sized granted)
      refine ⟨base', length, constructLazy_ok word, ok', rfl, ?_, clamped.trans sized,
        congrArg (fun members => members.1) outer, after.congr rfl rfl rfl rfl,
        fun idx bound => ?_, rfl, congrArg (fun members => members.2.2.1) outer⟩
      · show max initialBytes 1 ≠ 0
        omega
      · have resized : ∀ u : State, { u with nextGrowth := length }.binRuns = u.binRuns :=
          fun _ => State.binRuns_congr rfl rfl rfl
        refine (congrFun (resized _) idx).trans ?_
        rw [bins idx bound, none idx bound, List.append_nil]

namespace Awaiting

variable (awaiting : Awaiting cfg cfg' s t base' length)

include awaiting

theorem same {u v : State} (mem : u.mem = s.mem) (mem' : v.mem = t.mem)
    (bins : u.bins = s.bins) (bins' : v.bins = t.bins)
    (mask : u.binNonemptyMask = s.binNonemptyMask)
    (mask' : v.binNonemptyMask = t.binNonemptyMask)
    (outer : u.outer = s.outer) (outer' : v.outer = t.outer) :
    Awaiting cfg cfg' u v base' length := by
  have chunks := State.chunks_of_outer outer
  have chunks' := State.chunks_of_outer outer'
  have deferred : u.deferredBytes = s.deferredBytes :=
    congrArg (fun members => members.2.2.1) outer
  have deferred' : v.deferredBytes = t.deferredBytes :=
    congrArg (fun members => members.2.2.1) outer'
  have growth' : v.nextGrowth = t.nextGrowth :=
    congrArg (fun members => members.2.1) outer'
  exact
    { ok := (awaiting.ok.same mem bins mask outer).ok
      ok' := (awaiting.ok'.same mem' bins' mask' outer').ok
      chunkless := chunks.trans awaiting.chunkless
      deferred := by rw [deferred]; exact awaiting.deferred
      sized := by rw [deferred]; exact awaiting.sized
      chunks' := chunks'.trans awaiting.chunks'
      heap' := awaiting.heap'.congr chunks' mem' bins' mask'
      bins' := by
        rw [State.binRuns_congr mem' bins' chunks']
        exact awaiting.bins'
      nextGrowth' := growth'.trans awaiting.nextGrowth'
      deferred' := deferred'.trans awaiting.deferred' }

theorem record (update update' : Stats → Stats) :
    Awaiting cfg cfg' (s.record cfg update) (t.record cfg' update') base' length :=
  awaiting.same (by simp) (by simp) (by simp) (by simp) (by simp) (by simp) (by simp)
    (by simp)

/-- The first chunk on the one side makes the two twins. -/
theorem twins (granted : os.grant s.chunks length = some base) :
    Twins cfg cfg' (s.withFirst base length) t [] [] := by
  have word := awaiting.ok.deferred
  obtain ⟨_, large, bounded, _⟩ := ownedChunkBytesFor_spec word awaiting.sized
  have positive : 0 < (ownedChunk base length).bytes := show 0 < length by omega
  have covers : 16 ≤ (ownedChunk base length).bytes := show 16 ≤ length by omega
  have added := addOwnedChunk_of_granted word
    ⟨ownedChunkBytesFor_isLeast awaiting.sized, bounded, granted⟩
  have step : RunnerOk cfg (s.addOwnedChunk cfg os s.deferredBytes).1 ∅ [] :=
    (addOwnedChunk_step awaiting.ok word).1.ok
  rw [added] at step
  have first : RunnerOk cfg (s.withFirst base length) ∅ [] :=
    (step.resize (t := s.withFirst base length) rfl rfl rfl rfl rfl bounded
      (show 0 < 2 ^ 64 by decide)).ok
  obtain ⟨heap, none⟩ := awaiting.ok.chunkless awaiting.chunkless
  obtain ⟨after, bins⟩ := withChunk_layout heap
    (ownedChunk_fresh word awaiting.sized granted)
  have chunks : (s.withFirst base length).chunks = [ownedChunk base length] := by
    rw [← awaiting.chunkless]
    exact congrArg (fun members => members.1) (@withChunk_outer s (ownedChunk base length))
  refine ⟨⟨?_, ⟨_, _, after.congr rfl rfl rfl rfl, awaiting.heap', ?_⟩, fun idx bound => ?_,
    awaiting.nextGrowth', awaiting.deferred'⟩, ⟨_, first⟩, ⟨_, awaiting.ok'⟩, .nil⟩
  · rw [chunks, awaiting.chunks']
    exact .cons ⟨rfl, rfl⟩ .nil
  · rw [chunks, awaiting.chunks']
    exact .cons (wholeRun_alike positive rfl) (.cons (epilogue_alike covers rfl) .nil)
  · rw [chunks, awaiting.chunks', awaiting.bins' idx bound]
    have same : (s.withFirst base length).binRuns =
        (s.withChunk (ownedChunk base length)).binRuns :=
      State.binRuns_congr rfl rfl rfl
    rw [same, bins idx bound, none idx bound, List.append_nil]
    have whole : BlockAlike [ownedChunk base length] [ownedChunk base' length]
        (ownedChunk base length).wholeRun (ownedChunk base' length).wholeRun :=
      wholeRun_alike positive rfl
    exact newlyBinned_alike (.cons whole .nil) idx

theorem allocateBytes (same : SameTemplate cfg cfg') (word : bytes < 2 ^ 64)
    (searches : Searches bytes alignment needed)
    (granted : (s.allocateBytes cfg os bytes alignment).2 ≠ .error .refused)
    (granted' : (t.allocateBytes cfg' os' bytes alignment).2 ≠ .error .refused) :
    Twins cfg cfg' (s.allocateBytes cfg os bytes alignment).1
        (t.allocateBytes cfg' os' bytes alignment).1 [] [] ∧
      ResultAlike (s.allocateBytes cfg os bytes alignment).1.chunks
        (t.allocateBytes cfg' os' bytes alignment).1.chunks
        (s.allocateBytes cfg os bytes alignment).2
        (t.allocateBytes cfg' os' bytes alignment).2 := by
  have normalized := searches.normalized word
  rw [allocateBytes_searched searches] at granted granted' ⊢
  rw [allocateBytes_searched searches]
  have requested : Awaiting cfg cfg' (s.requested cfg bytes) (t.requested cfg' bytes)
      base' length := awaiting.record _ _
  generalize s.requested cfg bytes = u at granted requested ⊢
  generalize t.requested cfg' bytes = v at granted' requested ⊢
  rw [requested.ok'.findOrDrain_unparked] at granted' ⊢
  rw [requested.ok.findOrDrain_unparked] at granted ⊢
  obtain ⟨mem, bins, mask, outer⟩ := @findFit_same cfg u needed 0
  have searched : Awaiting cfg cfg' (u.findFit cfg needed 0).1 v base' length :=
    requested.same mem rfl bins rfl mask rfl outer rfl
  have missing := @RunnerOk.findFit_chunkless cfg u _ _ needed 0 requested.chunkless
    requested.ok normalized
  generalize u.findFit cfg needed 0 = found at granted searched missing ⊢
  obtain ⟨w, h, count⟩ := found
  obtain rfl : h = 0 := missing
  obtain ⟨base, grants, resumed⟩ := resumeAllocate_first searched.deferred searched.sized
    granted
  rw [resumed] at granted ⊢
  have seeks := @Twins.findFit _ _ _ _ _ _ _ count 0 (searched.twins grants) normalized
  exact seeks.resumeAllocate normalized same granted granted'

/-- A call that searches nothing returns null on both sides. -/
theorem allocateBytes_unsearched
    (unsearched : ∀ needed, ¬ Searches bytes alignment needed) :
    Awaiting cfg cfg' (s.allocateBytes cfg os bytes alignment).1
        (t.allocateBytes cfg' os' bytes alignment).1 base' length ∧
      (s.allocateBytes cfg os bytes alignment).2 = .ok 0 ∧
      (t.allocateBytes cfg' os' bytes alignment).2 = .ok 0 := by
  obtain ⟨update, result⟩ := @Runner.allocateBytes_unsearched cfg s os _ _ unsearched
  obtain ⟨update', result'⟩ := @Runner.allocateBytes_unsearched cfg' t os' _ _ unsearched
  rw [result, result']
  exact ⟨awaiting.record _ _, rfl, rfl⟩

end Awaiting

end Runner

end Allocazam
