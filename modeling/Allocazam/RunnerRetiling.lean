import Allocazam.RunnerStretch

/-!
# Finishing a stretch

The three ways in which the operations leave a gathered stretch: as one free
run, as one allocated run, or as an allocated run followed by a free remainder.
-/

namespace Allocazam

namespace Runner

variable {cfg : Config} {s t u v : State}

@[simp] theorem record_mem (update : Stats → Stats) :
    (s.record cfg update).mem = s.mem := by
  unfold State.record
  split <;> rfl

@[simp] theorem record_bins (update : Stats → Stats) :
    (s.record cfg update).bins = s.bins := by
  unfold State.record
  split <;> rfl

@[simp] theorem record_binNonemptyMask (update : Stats → Stats) :
    (s.record cfg update).binNonemptyMask = s.binNonemptyMask := by
  unfold State.record
  split <;> rfl

@[simp] theorem record_chunks (update : Stats → Stats) :
    (s.record cfg update).chunks = s.chunks := by
  unfold State.record
  split <;> rfl

@[simp] theorem record_outer (update : Stats → Stats) :
    (s.record cfg update).outer = s.outer := by
  unfold State.record
  split <;> rfl

/-- The state `t` holds an allocated run of `granted` bytes at `first`, cut from
the front of the stretch, and keeps every word that was not private. -/
structure Granted (cfg : Config) (s t : State) (blocks rest : List Block)
    (first granted size : Nat) : Prop where
  heap : ∃ new, HeapOk cfg t new ∧
    usedRuns new = insert ⟨first, granted, .used⟩ (usedRuns rest)
  owner : t.mem (first + 8) = cfg.self
  frame : ∀ word, ¬ PrivateWord blocks word → word ≠ first + 8 →
    word < first + granted ∨ first + size ≤ word → t.mem word = s.mem word
  outer : t.outer = s.outer

/-- The state `t` holds the layout `new` and the index `binned`, with the allocated
run of `granted` bytes at `first` that `Granted` is about. -/
structure Retiled (cfg : Config) (s t : State) (blocks new : List Block)
    (binned : Nat → List Nat) (first granted size : Nat) : Prop where
  heap : HeapOk cfg t new
  index : FreeIndex t binned (freeRuns new)
  owner : t.mem (first + 8) = cfg.self
  frame : ∀ word, ¬ PrivateWord blocks word → word ≠ first + 8 →
    word < first + granted ∨ first + size ≤ word → t.mem word = s.mem word
  outer : t.outer = s.outer

theorem Retiled.granted {blocks new rest : List Block} {binned : Nat → List Nat}
    {first granted size : Nat}
    (retiled : Retiled cfg s t blocks new binned first granted size)
    (used : usedRuns new = insert ⟨first, granted, .used⟩ (usedRuns rest)) :
    Granted cfg s t blocks rest first granted size where
  heap := ⟨new, retiled.heap, used⟩
  owner := retiled.owner
  frame := retiled.frame
  outer := retiled.outer

theorem Retiled.congr {r : State} {blocks new : List Block} {binned : Nat → List Nat}
    {first granted size : Nat}
    (retiled : Retiled cfg s t blocks new binned first granted size)
    (mem : r.mem = t.mem) (bins : r.bins = t.bins)
    (mask : r.binNonemptyMask = t.binNonemptyMask) (outer : r.outer = t.outer) :
    Retiled cfg s r blocks new binned first granted size where
  heap := retiled.heap.congr (State.chunks_of_outer outer) mem bins mask
  index := retiled.index.congr bins mask fun word _ => by rw [mem]
  owner := by
    rw [mem]
    exact retiled.owner
  frame := by
    rw [mem]
    exact retiled.frame
  outer := outer.trans retiled.outer

namespace Stretch

variable {front old back : List Block} {next : Block} {first size : Nat}
  (stretch : Stretch cfg s u front old next back first size)
  (nonempty : old ≠ []) (nextUsed : next.kind ≠ .free)

include stretch

/-- What is not private lies away from the headers and links that finishing a
stretch writes. -/
theorem not_private (nonempty : old ≠ []) {word : Nat}
    (notPrivate : ¬ PrivateWord (front ++ old ++ next :: back) word) :
    word ≠ first ∧ word ≠ next.addr ∧
      ¬ LinkWord (freeRuns (front ++ old ++ next :: back)) word := by
  refine ⟨?_, ?_, fun isLink =>
    notPrivate (stretch.heap.privateWord_of_linkWord isLink)⟩
  · rintro rfl
    obtain ⟨head, rest, rfl⟩ := List.exists_cons_of_ne_nil nonempty
    exact notPrivate ⟨head, by simp, Or.inl stretch.tiles.1.symm⟩
  · rintro rfl
    exact notPrivate ⟨next, by simp, Or.inl rfl⟩

include nonempty nextUsed

/-- One free run in place of the stretch, in front of its bin. -/
theorem makeFree_indexed {binned : Nat → List Nat}
    (index : FreeIndex u binned (freeRuns (front ++ next :: back)))
    (prevUsed : carryFree false front = false) :
    HeapOk cfg (u.makeFree first size)
        (front ++ [⟨first, size, .free⟩] ++ next :: back) ∧
      FreeIndex (u.makeFree first size)
        (Function.update binned (binIndexFor size)
          (first :: binned (binIndexFor size)))
        (freeRuns (front ++ [⟨first, size, .free⟩] ++ next :: back)) ∧
      (∀ word, ¬ (first ≤ word ∧ word < first + size) →
        ¬ PrivateWord (front ++ old ++ next :: back) word →
          (u.makeFree first size).mem word = s.mem word) ∧
        (u.makeFree first size).outer = s.outer := by
  obtain ⟨aligned, positive, large, sizeAligned⟩ := stretch.first_spec nonempty
  have retiles : Retiles front [⟨first, size, .free⟩] next first size :=
    { tiles := ⟨rfl, rfl⟩
      sizes := by simp [large, sizeAligned]
      coalesced := by simp [prevUsed]
      separated := fun _ => nextUsed }
  have splice := stretch.splice nonempty ⟨first, size, .free⟩ le_rfl
    rfl aligned large
  have fresh : (⟨first, size, .free⟩ : Block) ∉
      freeRuns (front ++ next :: back) := by
    intro member
    rcases stretch.rest_apart (by omega) member.1 with before | after
    · simp only [Block.stop] at before
      omega
    · simp only at after
      omega
  have prevFlag := stretch.prevIsFree_first nonempty
  rw [prevUsed] at prevFlag
  obtain ⟨madeIndex, madeTagged, nextTagged, frame, outer, _⟩ :=
    makeFree_spec splice index rfl fresh prevFlag
  have inserted : freeRuns (front ++ [⟨first, size, .free⟩] ++ next :: back) =
      insert ⟨first, size, .free⟩ (freeRuns (front ++ next :: back)) := by
    rw [← freeRuns_insert rfl]
    simp
  have newFrame : ∀ word, ¬ (first ≤ word ∧ word < first + size) →
      word ≠ next.addr →
      ¬ LinkWord (freeRuns (front ++ [⟨first, size, .free⟩] ++ next :: back))
        word →
      (u.makeFree first size).mem word = u.mem word := by
    intro word outside notNext notLink
    rw [inserted] at notLink
    refine frame word ?_ ?_ notNext notLink
    · simp only
      omega
    · simp only [Block.stop]
      omega
  rw [← inserted] at madeIndex
  refine ⟨stretch.heapOk nonempty retiles newFrame ?_ ?_ ⟨_, madeIndex⟩ outer,
    madeIndex, fun word outside notPrivate => ?_, outer.trans stretch.outer⟩
  · simpa [prevUsed] using madeTagged
  · simpa [Block.isFree] using nextTagged
  · obtain ⟨_, notNext, notLink⟩ := stretch.not_private nonempty notPrivate
    rw [newFrame word outside notNext, stretch.frame word notLink]
    rw [inserted]
    intro isLink
    rcases isLink.of_insert with own | rest
    · rcases own with rfl | rfl <;> simp only at outside <;> omega
    · exact notLink (rest.mono freeRuns_rest)

theorem makeFree (prevUsed : carryFree false front = false) :
    HeapOk cfg (u.makeFree first size)
        (front ++ [⟨first, size, .free⟩] ++ next :: back) ∧
      (∀ word, ¬ (first ≤ word ∧ word < first + size) →
        ¬ PrivateWord (front ++ old ++ next :: back) word →
          (u.makeFree first size).mem word = s.mem word) ∧
        (u.makeFree first size).outer = s.outer := by
  obtain ⟨binned, index⟩ := stretch.indexed
  obtain ⟨heap, _, rest⟩ :=
    stretch.makeFree_indexed nonempty nextUsed index prevUsed
  exact ⟨heap, rest⟩

omit nextUsed in
/-- The stretch handed out whole: the index stays as it is. -/
theorem takeWhole_retiled {binned : Nat → List Nat}
    (index : FreeIndex u binned (freeRuns (front ++ next :: back)))
    (prevFree : Bool) (flag : prevFree = carryFree false front) :
    Retiled cfg s ((u.takeWhole first size prevFree).write (ownerWord first)
      cfg.self) (front ++ old ++ next :: back)
      (front ++ [⟨first, size, .used⟩] ++ next :: back) binned first size size := by
  obtain ⟨aligned, positive, large, sizeAligned⟩ := stretch.first_spec nonempty
  have retiles : Retiles front [⟨first, size, .used⟩] next first size :=
    { tiles := ⟨rfl, rfl⟩
      sizes := by simp [large, sizeAligned]
      coalesced := by simp
      separated := fun carries => by simp [Block.isFree] at carries }
  have splice := stretch.splice nonempty ⟨first, size, .used⟩ le_rfl
    rfl aligned large
  obtain ⟨takenIndex, header, nextTagged, frame, outer, _⟩ :=
    takeWhole_spec splice index prevFree
  have unchanged : freeRuns (front ++ [⟨first, size, .used⟩] ++ next :: back) =
      freeRuns (front ++ next :: back) := by
    rw [List.append_assoc, List.singleton_append]
    exact freeRuns_skip (by simp)
  have ownerNotLink :
      ¬ LinkWord (freeRuns (front ++ next :: back)) (first + 8) :=
    splice.noLink _ (Or.inl ⟨by simp, by simp only [Block.stop]; omega⟩)
  have adjacent := stretch.adjacent
  have nextLarge := (stretch.heap.layout.size_spec next_mem).2
  have newFrame : ∀ word, word ≠ first → word ≠ first + 8 →
      word ≠ next.addr →
      ((u.takeWhole first size prevFree).write (ownerWord first) cfg.self).mem
        word = u.mem word := by
    intro word notHeader notOwner notNext
    rw [State.write_mem, ownerWord_eq, Function.update_of_ne notOwner]
    exact frame word notHeader notNext
  have newIndex : FreeIndex ((u.takeWhole first size prevFree).write (ownerWord first)
      cfg.self) binned (freeRuns (front ++ [⟨first, size, .used⟩] ++ next :: back)) := by
    rw [unchanged]
    refine takenIndex.congr rfl rfl fun word isLink => ?_
    rw [State.write_mem, ownerWord_eq]
    refine Function.update_of_ne ?_ _ _
    rintro rfl
    exact ownerNotLink isLink
  refine ⟨stretch.heapOk nonempty retiles (fun word outside notNext _ =>
      newFrame word (by omega) (by omega) notNext) ?_ ?_ ⟨binned, newIndex⟩ ?_,
    newIndex, ?_, fun word notPrivate notOwner _ => ?_, ?_⟩
  · refine ⟨⟨?_, by simp⟩, trivial⟩
    rw [State.write_mem, ownerWord_eq, Function.update_of_ne (by simp), ← flag]
    exact header
  · simp only [carryFree_cons, carryFree_nil]
    refine nextTagged.congr fun word isTag => ?_
    rw [State.write_mem, ownerWord_eq]
    refine Function.update_of_ne ?_ _ _
    have stopEq : next.stop = next.addr + next.size := rfl
    rcases isTag.place with rfl | rfl | rfl <;> omega
  · simpa using outer
  · simp
  · obtain ⟨notHeader, notNext, notLink⟩ :=
      stretch.not_private nonempty notPrivate
    rw [newFrame word notHeader notOwner notNext, stretch.frame word notLink]
  · simpa [stretch.outer] using outer

omit nextUsed in
theorem takeWhole (prevFree : Bool) (flag : prevFree = carryFree false front) :
    Granted cfg s ((u.takeWhole first size prevFree).write (ownerWord first)
      cfg.self) (front ++ old ++ next :: back) (front ++ next :: back) first
      size size := by
  obtain ⟨binned, index⟩ := stretch.indexed
  apply (stretch.takeWhole_retiled nonempty index prevFree flag).granted
  rw [List.append_assoc, List.singleton_append]
  exact usedRuns_insert rfl

/-- The front of the stretch handed out, the rest left as a free run.  The
state `v` is `u` with the header of the allocated part set. -/
theorem makeRemainder_retiled {binned : Nat → List Nat}
    (index : FreeIndex u binned (freeRuns (front ++ next :: back)))
    {needed : Nat} (neededLarge : 48 ≤ needed) (neededAligned : 16 ∣ needed)
    (room : needed + 48 ≤ size)
    (mem : v.mem = Function.update u.mem first
      (pack needed false (carryFree false front)))
    (bins : v.bins = u.bins) (mask : v.binNonemptyMask = u.binNonemptyMask)
    (members : v.outer = u.outer) :
    Retiled cfg s ((v.makeRemainder (first + needed) (size - needed)).write
      (ownerWord first) cfg.self) (front ++ old ++ next :: back)
      (front ++ [⟨first, needed, .used⟩, ⟨first + needed, size - needed, .free⟩] ++
        next :: back)
      (Function.update binned (binIndexFor (size - needed))
        ((first + needed) :: binned (binIndexFor (size - needed))))
      first needed size := by
  obtain ⟨aligned, positive, large, sizeAligned⟩ := stretch.first_spec nonempty
  have remAligned : 16 ∣ size - needed := Nat.dvd_sub sizeAligned neededAligned
  generalize remEq : size - needed = rem at *
  have retiles : Retiles front
      [⟨first, needed, .used⟩, ⟨first + needed, rem, .free⟩] next first size :=
    { tiles := ⟨rfl, rfl, by simp only [Block.stop, tiles_nil]; omega⟩
      sizes := by
        simp only [List.mem_cons, List.not_mem_nil, or_false]
        rintro block (rfl | rfl)
        · exact ⟨by simp, neededLarge, neededAligned⟩
        · exact ⟨by simp, by simp only; omega, remAligned⟩
      coalesced := by simp [Block.isFree]
      separated := fun _ => nextUsed }
  have splice := (stretch.splice nonempty
    ⟨first + needed, rem, .free⟩ (by simp)
    (by simp only [Block.stop]; omega) (Nat.dvd_add aligned neededAligned)
    (by simp only; omega))
  have fresh : (⟨first + needed, rem, .free⟩ : Block) ∉
      freeRuns (front ++ next :: back) := by
    intro member
    rcases stretch.rest_apart (by omega) member.1 with before | after
    · simp only [Block.stop] at before
      omega
    · simp only at after
      omega
  have headerNotLink :
      ¬ LinkWord (freeRuns (front ++ next :: back)) first ∧
        ¬ LinkWord (freeRuns (front ++ next :: back)) (first + 8) := by
    have whole := stretch.splice nonempty ⟨first, size, .used⟩ le_rfl
      rfl aligned large
    exact ⟨whole.noLink _ (Or.inl ⟨by simp, by simp only [Block.stop]; omega⟩),
      whole.noLink _ (Or.inl ⟨by simp, by simp only [Block.stop]; omega⟩)⟩
  have adjacent := stretch.adjacent
  have nextLarge := (stretch.heap.layout.size_spec next_mem).2
  have nextStop : next.stop = next.addr + next.size := rfl
  have headed : Splice cfg v (freeRuns (front ++ next :: back))
      ⟨first + needed, rem, .free⟩ next
      (carryFree (carryFree false front) old) := by
    refine splice.congr fun word isTag => ?_
    rw [mem]
    refine Function.update_of_ne ?_ _ _
    rcases isTag.place with rfl | rfl | rfl <;> omega
  have headedIndex : FreeIndex v binned (freeRuns (front ++ next :: back)) := by
    refine index.congr bins mask fun word isLink => ?_
    rw [mem]
    refine Function.update_of_ne ?_ _ _
    rintro rfl
    exact headerNotLink.1 isLink
  obtain ⟨madeIndex, madeTagged, nextTagged, frame, outer, _⟩ :=
    makeRemainder_spec headed headedIndex rfl fresh
  dsimp only at madeIndex madeTagged nextTagged frame outer
  have inserted : freeRuns (front ++
      [⟨first, needed, .used⟩, ⟨first + needed, rem, .free⟩] ++ next :: back) =
      insert ⟨first + needed, rem, .free⟩ (freeRuns (front ++ next :: back)) := by
    rw [← freeRuns_insert rfl, List.append_assoc, List.cons_append,
      List.singleton_append]
    exact freeRuns_skip (by simp)
  have newFrame : ∀ word, word ≠ first → word ≠ first + 8 →
      (word < first + needed ∨ first + size ≤ word) → word ≠ next.addr →
      ¬ LinkWord (freeRuns (front ++ next :: back)) word →
      ((v.makeRemainder (first + needed) rem).write (ownerWord first)
        cfg.self).mem word = u.mem word := by
    intro word notHeader notOwner outside notNext notLink
    rw [State.write_mem, ownerWord_eq, Function.update_of_ne notOwner,
      frame word (by omega) (by simp only [Block.stop]; omega) notNext, mem,
      Function.update_of_ne notHeader]
    intro isLink
    rcases isLink.of_insert with own | rest
    · simp only at own
      omega
    · exact notLink rest
  have ownerApart : first + 8 ≠ first + needed ∧
      first + 8 ≠ first + needed + rem - 8 ∧ first + 8 ≠ next.addr := by
    omega
  have newIndex : FreeIndex ((v.makeRemainder (first + needed) rem).write
      (ownerWord first) cfg.self) (Function.update binned (binIndexFor rem)
        ((first + needed) :: binned (binIndexFor rem)))
      (freeRuns (front ++ [⟨first, needed, .used⟩, ⟨first + needed, rem, .free⟩] ++
        next :: back)) := by
    rw [inserted]
    refine madeIndex.congr rfl rfl fun word isLink => ?_
    rw [State.write_mem, ownerWord_eq]
    refine Function.update_of_ne ?_ _ _
    rintro rfl
    rcases isLink.of_insert with own | rest
    · simp only at own
      omega
    · exact headerNotLink.2 rest
  refine ⟨stretch.heapOk nonempty retiles
      (fun word outside notNext notLink => newFrame word (by omega) (by omega)
        (by omega) notNext fun isLink => notLink ?_) ?_ ?_ ⟨_, newIndex⟩ ?_,
    newIndex, ?_, fun word notPrivate notOwner outside => ?_, ?_⟩
  · rw [inserted]
    exact isLink.mono (Set.subset_insert _ _)
  · refine ⟨⟨?_, by simp⟩, ?_, trivial⟩
    · rw [State.write_mem, ownerWord_eq, Function.update_of_ne (by simp),
        frame first (by omega) (by simp only [Block.stop]; omega) (by omega), mem,
        Function.update_self]
      intro isLink
      rcases isLink.of_insert with own | rest
      · simp only at own
        omega
      · exact headerNotLink.1 rest
    · refine madeTagged.congr fun word isTag => ?_
      rw [State.write_mem, ownerWord_eq]
      refine Function.update_of_ne ?_ _ _
      have place := isTag.place
      simp only [Block.stop] at place
      omega
  · simp only [carryFree_cons, carryFree_nil]
    refine nextTagged.congr fun word isTag => ?_
    rw [State.write_mem, ownerWord_eq]
    refine Function.update_of_ne ?_ _ _
    rcases isTag.place with rfl | rfl | rfl <;> omega
  · simpa [members] using outer
  · simp
  · obtain ⟨notHeader, notNext, notLink⟩ :=
      stretch.not_private nonempty notPrivate
    rw [newFrame word notHeader notOwner outside notNext fun isLink =>
      notLink (isLink.mono freeRuns_rest), stretch.frame word notLink]
  · simpa [members, stretch.outer] using outer

theorem makeRemainder {needed : Nat} (neededLarge : 48 ≤ needed)
    (neededAligned : 16 ∣ needed) (room : needed + 48 ≤ size)
    (mem : v.mem = Function.update u.mem first
      (pack needed false (carryFree false front)))
    (bins : v.bins = u.bins) (mask : v.binNonemptyMask = u.binNonemptyMask)
    (members : v.outer = u.outer) :
    Granted cfg s ((v.makeRemainder (first + needed) (size - needed)).write
      (ownerWord first) cfg.self) (front ++ old ++ next :: back)
      (front ++ next :: back) first needed size := by
  obtain ⟨binned, index⟩ := stretch.indexed
  apply (stretch.makeRemainder_retiled nonempty nextUsed index neededLarge neededAligned
    room mem bins mask members).granted
  rw [List.append_assoc, List.cons_append, List.singleton_append,
    usedRuns_insert rfl, usedRuns_skip (by simp)]

end Stretch

end Runner

end Allocazam
