import Allocazam.SuballocatedCache

/-!
# Draining the run cache

Class lists are drained to a watermark, drained whole, and emptied when their
thread exits: each entry goes back to the owner it is stamped with.
-/

namespace Allocazam

namespace Suballocated

variable {Value Thread Bound : Type} [DecidableEq Value] [DecidableEq Thread]
  [DecidableEq Bound] {fam : Family Value Thread Bound}
  {w w' : World Value Thread Bound} {live : List (Item fam)}
  {ledger : Ledger Value Thread Bound} {site : Site Value Thread Bound}
  {value : Value} {thread owner : Thread} {idx p : Nat}

omit [DecidableEq Bound] in
/-- A class list is not touched when the entry in front of another one comes
off. -/
theorem ClassOk.popHead {back entries : List Nat} {idx' : Nat}
    (other : ClassOk fam w ledger value thread idx' entries)
    (cls : ClassOk fam w ledger value thread idx (p :: back))
    (distinct : idx' ≠ idx) :
    ClassOk fam (w.setClass value thread idx
      ⟨w.mem p, decrement (w.classes value thread idx).count⟩)
      (ledger.settle p .adrift) value thread idx' entries := by
  have cached := (cls.place p).mp List.mem_cons_self
  apply other.congr
  · exact World.setClass_of_ne _ fun same => distinct same.2.2
  · exact fun _ _ => ⟨rfl, rfl⟩
  · intro q
    by_cases moved : q = p
    · subst moved
      rw [Function.update_self, cached]
      simp [distinct.symm]
    · rw [Function.update_of_ne moved]

namespace WorldOk

variable (ok : WorldOk fam w live ledger)

include ok

/-- The entry in front of a class list goes back to its owner. -/
theorem evict {back : List Nat}
    (cls : ClassOk fam w ledger value thread idx (p :: back)) :
    ∃ next, Ledger.Returned [p] ledger next ∧
      WorldOk fam
        ((w.setClass value thread idx
          ⟨w.mem p, decrement (w.classes value thread idx).count⟩).returnRun fam
            value thread p (w.mem (p + 8))) live next ∧
      ClassOk fam
        ((w.setClass value thread idx
          ⟨w.mem p, decrement (w.classes value thread idx).count⟩).returnRun fam
            value thread p (w.mem (p + 8))) next value thread idx back ∧
      ∀ idx' ≠ idx, ∀ entries, ClassOk fam w ledger value thread idx' entries →
        ClassOk fam
          ((w.setClass value thread idx
            ⟨w.mem p, decrement (w.classes value thread idx).count⟩).returnRun fam
              value thread p (w.mem (p + 8))) next value thread idx' entries := by
  obtain ⟨owner, allocation, member, payload, _, stamp, cached⟩ :=
    cls.owned List.mem_cons_self
  have popped := ok.popHead cls
  have run : (ledger.settle p .adrift).HasRun (.thread value owner) p :=
    ⟨allocation, member, payload⟩
  have loose : (ledger.settle p .adrift).place p = some .adrift :=
    Ledger.settle_self .adrift
  rw [stamp]
  refine ⟨_, ?_, popped.returnRun run loose, popped.returnRun_class run loose
    cls.tail, fun idx' distinct entries other =>
      popped.returnRun_class run loose (other.popHead cls distinct)⟩
  have returned := popped.giveBack_returned run
  exact
    { returned with
      nodes := returned.nodes
      kept := fun q absent => by
        rw [returned.kept q absent]
        exact Ledger.settle_of_ne _ (by simpa using absent) }

/-- The loop of `_tls_drain_class`, with the entries `front` to be returned. -/
theorem tlsDrainWalk {keepCount fuel : Nat}
    {front back : List Nat}
    (cls : ClassOk fam w ledger value thread idx (front ++ back))
    (kept : back.length ≤ keepCount)
    (whole : front ≠ [] → back.length = keepCount)
    (enough : front.length ≤ fuel) :
    ∃ next, Ledger.Returned front ledger next ∧
      WorldOk fam (World.tlsDrainWalk fam value thread idx keepCount fuel w)
        live next ∧
      ClassOk fam (World.tlsDrainWalk fam value thread idx keepCount fuel w)
        next value thread idx back := by
  induction front generalizing w ledger fuel with
  | nil =>
      have ended : World.tlsDrainWalk fam value thread idx keepCount fuel w = w := by
        cases fuel with
        | zero => rfl
        | succ fuel =>
            apply if_neg
            rw [cls.count]
            simpa using kept
      rw [ended]
      exact ⟨ledger, .refl ledger, ok, cls⟩
  | cons p front ih =>
      have length := whole (by simp)
      obtain ⟨fuel, rfl⟩ : ∃ rounds, fuel = rounds + 1 :=
        ⟨fuel - 1, by rw [List.length_cons] at enough; omega⟩
      obtain ⟨next, returned, evicted, rest, _⟩ := ok.evict cls
      obtain ⟨last, later, done, remaining⟩ :=
        ih evicted rest (fun _ => length) (Nat.le_of_succ_le_succ enough)
      have nonnull : (w.classes value thread idx).head ≠ 0 := by
        rw [cls.chain.1]
        exact cls.chain.2.1
      have step : World.tlsDrainWalk fam value thread idx keepCount (fuel + 1) w =
          World.tlsDrainWalk fam value thread idx keepCount fuel
            ((w.setClass value thread idx ⟨w.mem p,
              decrement (w.classes value thread idx).count⟩).returnRun fam value
                thread p (w.mem (p + 8))) := by
        rw [World.tlsDrainWalk]
        unfold World.tlsPopAny
        rw [if_pos (by
          rw [cls.count, List.length_append, List.length_cons]
          omega)]
        dsimp only
        rw [if_neg nonnull]
        dsimp only
        rw [if_neg nonnull, cls.chain.1]
        rfl
      rw [step]
      exact ⟨last, returned.trans later, done, remaining⟩

theorem tlsDrainClass (keepCount : Nat) {entries : List Nat}
    (cls : ClassOk fam w ledger value thread idx entries) :
    ∃ next, Ledger.Returned (entries.take (entries.length - keepCount)) ledger
        next ∧
      WorldOk fam (w.tlsDrainClass fam value thread idx keepCount) live next ∧
      ClassOk fam (w.tlsDrainClass fam value thread idx keepCount) next value
        thread idx (entries.drop (entries.length - keepCount)) := by
  have split : ClassOk fam w ledger value thread idx
      (entries.take (entries.length - keepCount) ++
        entries.drop (entries.length - keepCount)) := by
    rw [List.take_append_drop]
    exact cls
  apply ok.tlsDrainWalk split
  · rw [List.length_drop]
    omega
  · intro nonempty
    rw [List.length_drop]
    have longer : entries.length - keepCount ≠ 0 := by
      intro none
      rw [none] at nonempty
      exact nonempty rfl
    omega
  · rw [List.length_take, cls.count]
    exact Nat.min_le_right _ _

end WorldOk

theorem tlsDrainWalk_confined (keepCount fuel : Nat)
    (w : World Value Thread Bound) :
    Confined fam site w
      (World.tlsDrainWalk fam value thread idx keepCount fuel w) := by
  induction fuel generalizing w with
  | zero => exact .refl w
  | succ fuel ih =>
      unfold World.tlsDrainWalk World.tlsPopAny
      split
      · dsimp only
        split
        · exact .refl w
        · refine .trans ?_ (ih _)
          have popped : Confined fam site w (w.setClass value thread idx
              ⟨w.mem (w.classes value thread idx).head,
                decrement (w.classes value thread idx).count⟩) :=
            .of_states rfl rfl
          exact popped.trans (returnRun_confined _)
      · exact .refl w

theorem tlsDrainAll_confined :
    Confined fam site w (w.tlsDrainAll fam value thread) := by
  unfold World.tlsDrainAll
  induction List.range tlsRunClassCount generalizing w with
  | nil => exact .refl w
  | cons idx indices ih =>
      exact .trans (tlsDrainWalk_confined 0 _ w) ih

theorem World.returnRun_setClass {value' : Value} {thread' : Thread}
    (cls : RunClass) (owner : Nat) :
    (w.returnRun fam value thread p owner).setClass value' thread' idx cls =
      (w.setClass value' thread' idx cls).returnRun fam value thread p owner := by
  unfold World.returnRun
  rw [apply_ite fun w : World Value Thread Bound =>
    w.setClass value' thread' idx cls]
  rfl

theorem World.destroyWalk_setClass {value' : Value} {thread' : Thread}
    (cls : RunClass) (fuel node : Nat) (w : World Value Thread Bound) :
    (World.destroyWalk fam value thread fuel node w).setClass value' thread' idx
        cls =
      World.destroyWalk fam value thread fuel node
        (w.setClass value' thread' idx cls) := by
  induction fuel generalizing node w with
  | zero => rfl
  | succ fuel ih =>
      unfold World.destroyWalk
      split
      · rfl
      · dsimp only
        have mem : (w.setClass value' thread' idx cls).mem = w.mem := rfl
        rw [ih, mem]
        split
        · rw [World.returnRun_setClass]
        · rfl

variable (fam) in
/-- Return runs to the owners that the stamps name, one after the other. -/
def World.returnEach (value : Value) (thread : Thread) (stamp : Nat → Nat)
    (ps : List Nat) (w : World Value Thread Bound) : World Value Thread Bound :=
  ps.foldl (fun w p => w.returnRun fam value thread p (stamp p)) w

omit [DecidableEq Bound] in
def World.clearClasses (value : Value) (thread : Thread) (indices : List Nat)
    (w : World Value Thread Bound) : World Value Thread Bound :=
  indices.foldl (fun w idx => w.setClass value thread idx ⟨0, 0⟩) w

theorem World.returnEach_setClass {value' : Value} {thread' : Thread}
    (stamp : Nat → Nat) (cls : RunClass) (ps : List Nat)
    (w : World Value Thread Bound) :
    (World.returnEach fam value thread stamp ps w).setClass value' thread' idx
        cls =
      World.returnEach fam value thread stamp ps
        (w.setClass value' thread' idx cls) := by
  induction ps generalizing w with
  | nil => rfl
  | cons p ps ih =>
      show (World.returnEach fam value thread stamp ps _).setClass _ _ _ _ = _
      rw [ih, World.returnRun_setClass]
      rfl

namespace WorldOk

omit [DecidableEq Value] [DecidableEq Thread] [DecidableEq Bound] in
/-- The stamp of an entry stays while other entries go back. -/
theorem stamp_kept {next : Ledger Value Thread Bound}
    {entries left gone : List Nat} {q : Nat} (ok : WorldOk fam w live ledger)
    (before : ClassOk fam w ledger value thread idx entries)
    (after : ClassOk fam w' next value thread idx left)
    (returned : Ledger.Returned gone ledger next)
    (member : q ∈ entries) (still : q ∈ left) :
    w'.mem (q + 8) = w.mem (q + 8) := by
  obtain ⟨owner, allocation, listed, payload, _, stamp, _⟩ := before.owned member
  obtain ⟨owner', allocation', listed', payload', _, stamp', _⟩ :=
    after.owned still
  have old := ((returned.runs _ _).mp listed').1
  have same := ok.run_unique ⟨allocation, listed, payload⟩
    ⟨allocation', old, payload'⟩
  rw [stamp, stamp', same]

/-- The walk of the destructor over one class list: each entry goes back to the
owner it is stamped with, and no other list is touched. -/
theorem destroyWalk {entries : List Nat} {node fuel : Nat} {stamp : Nat → Nat}
    (ok : WorldOk fam w live ledger)
    (cls : ClassOk fam w ledger value thread idx entries)
    (head : node = (w.classes value thread idx).head)
    (enough : entries.length ≤ fuel)
    (stamps : ∀ q ∈ entries, w.mem (q + 8) = stamp q) :
    World.destroyWalk fam value thread fuel node w =
        World.returnEach fam value thread stamp entries w ∧
      ∃ next, Ledger.Returned entries ledger next ∧
        WorldOk fam
          ((World.returnEach fam value thread stamp entries w).setClass value
            thread idx ⟨0, 0⟩) live next ∧
        ∀ idx' ≠ idx, ∀ others, ClassOk fam w ledger value thread idx' others →
          ClassOk fam
            ((World.returnEach fam value thread stamp entries w).setClass value
              thread idx ⟨0, 0⟩) next value thread idx' others := by
  induction entries generalizing w ledger node fuel with
  | nil =>
      have ended : World.destroyWalk fam value thread fuel node w = w := by
        cases fuel with
        | zero => rfl
        | succ fuel => exact if_pos (head.trans cls.chain)
      have empty : w.classes value thread idx = ⟨0, 0⟩ := by
        have null := cls.chain
        have none := cls.count
        generalize w.classes value thread idx = c at *
        obtain ⟨head, count⟩ := c
        dsimp only at null none
        rw [null, none]
        rfl
      refine ⟨ended, ledger, .refl ledger, ?_⟩
      have same : (World.returnEach fam value thread stamp [] w).setClass value
          thread idx ⟨0, 0⟩ = w := by
        rw [← empty]
        exact World.setClass_same
      rw [same]
      exact ⟨ok, fun _ _ _ other => other⟩
  | cons p back ih =>
      obtain ⟨owner, _, _, _, _, owned, _⟩ := cls.owned List.mem_cons_self
      obtain ⟨fuel, rfl⟩ : ∃ rounds, fuel = rounds + 1 :=
        ⟨fuel - 1, by rw [List.length_cons] at enough; omega⟩
      obtain ⟨next, returned, evicted, rest, others⟩ := ok.evict cls
      rw [← World.returnRun_setClass] at evicted rest others
      have later : ∀ q ∈ back, ((w.returnRun fam value thread p
          (w.mem (p + 8))).setClass value thread idx ⟨w.mem p,
            decrement (w.classes value thread idx).count⟩).mem (q + 8) =
              stamp q := by
        intro q listed
        have member := List.mem_cons_of_mem p listed
        rw [ok.stamp_kept cls rest returned member listed, stamps q member]
      have advanced : w.mem p = (((w.returnRun fam value thread p
          (w.mem (p + 8))).setClass value thread idx ⟨w.mem p,
            decrement (w.classes value thread idx).count⟩).classes value thread
              idx).head := by
        rw [World.setClass_self]
      obtain ⟨same, last, laterReturned, done, kept⟩ :=
        ih evicted rest advanced (Nat.le_of_succ_le_succ enough) later
      have here := stamps p List.mem_cons_self
      rw [here] at same done kept others
      have walked : World.destroyWalk fam value thread (fuel + 1) node w =
          World.destroyWalk fam value thread fuel (w.mem p)
            (w.returnRun fam value thread p (stamp p)) := by
        rw [World.destroyWalk, head, cls.chain.1, if_neg cls.chain.2.1]
        dsimp only
        rw [here, if_pos (by rw [← here, owned]; exact fam.runsNonnull _)]
      have cleared : ((World.returnEach fam value thread stamp back
          ((w.returnRun fam value thread p (stamp p)).setClass value thread idx
            ⟨w.mem p, decrement (w.classes value thread idx).count⟩)).setClass
              value thread idx ⟨0, 0⟩) =
          (World.returnEach fam value thread stamp (p :: back) w).setClass value
            thread idx ⟨0, 0⟩ := by
        rw [← World.returnEach_setClass, World.setClass_setClass]
        rfl
      rw [cleared] at done kept
      refine ⟨?_, last, returned.trans laterReturned, done,
        fun idx' distinct entries other =>
          kept idx' distinct entries (others idx' distinct entries other)⟩
      rw [walked]
      -- The walk does not read the class that the entry came off.
      have restored := congrArg (fun u : World Value Thread Bound =>
        u.setClass value thread idx
          ((w.returnRun fam value thread p (stamp p)).classes value thread idx))
        same
      rw [World.destroyWalk_setClass, World.returnEach_setClass,
        World.setClass_setClass, World.setClass_same] at restored
      exact restored

/-- The destructor of the cache on one class list. -/
theorem destroyClass {entries : List Nat} {stamp : Nat → Nat}
    (ok : WorldOk fam w live ledger)
    (cls : ClassOk fam w ledger value thread idx entries)
    (stamps : ∀ q ∈ entries, w.mem (q + 8) = stamp q) :
    w.destroyClass fam value thread idx =
        (World.returnEach fam value thread stamp entries w).setClass value thread
          idx ⟨0, 0⟩ ∧
      ∃ next, Ledger.Returned entries ledger next ∧
        WorldOk fam (w.destroyClass fam value thread idx) live next ∧
        ∀ idx' ≠ idx, ∀ others, ClassOk fam w ledger value thread idx' others →
          ClassOk fam (w.destroyClass fam value thread idx) next value thread
            idx' others := by
  obtain ⟨same, destroyed⟩ := ok.destroyWalk cls rfl cls.count.ge stamps
  unfold World.destroyClass
  dsimp only
  rw [same]
  exact ⟨rfl, destroyed⟩

omit [DecidableEq Value] [DecidableEq Thread] [DecidableEq Bound] in
theorem sweep {f : World Value Thread Bound → Nat → World Value Thread Bound}
    (clears : ∀ {w : World Value Thread Bound} {ledger} (idx : Nat),
      WorldOk fam w live ledger → ∃ gone next, Ledger.Returned gone ledger next ∧
        WorldOk fam (f w idx) live next ∧
        ∀ q, q ∈ gone ↔ ledger.place q = some (.cached value thread idx))
    (indices : List Nat) (ok : WorldOk fam w live ledger) :
    ∃ gone next, Ledger.Returned gone ledger next ∧
      WorldOk fam (indices.foldl f w) live next ∧
      ∀ q, q ∈ gone ↔
        ∃ idx ∈ indices, ledger.place q = some (.cached value thread idx) := by
  induction indices generalizing w ledger with
  | nil => exact ⟨[], ledger, .refl ledger, ok, by simp⟩
  | cons idx indices ih =>
      obtain ⟨gone, next, returned, cleared, first⟩ := clears idx ok
      obtain ⟨later, last, rest, done, others⟩ := ih cleared
      refine ⟨gone ++ later, last, returned.trans rest, done, fun q => ?_⟩
      rw [List.mem_append, others q]
      by_cases listed : q ∈ gone
      · have here := (first q).mp listed
        exact iff_of_true (Or.inl listed) ⟨idx, List.mem_cons_self, here⟩
      · rw [returned.kept q listed]
        have notHere : ¬ ledger.place q = some (.cached value thread idx) :=
          fun here => listed ((first q).mpr here)
        simp only [listed, false_or, List.mem_cons, exists_eq_or_imp, notHere]

theorem tlsDrainAll (ok : WorldOk fam w live ledger) (value : Value)
    (thread : Thread) :
    ∃ gone next, Ledger.Returned gone ledger next ∧
      WorldOk fam (w.tlsDrainAll fam value thread) live next ∧
      ∀ q, q ∈ gone ↔ ∃ idx < tlsRunClassCount,
        ledger.place q = some (.cached value thread idx) := by
  obtain ⟨gone, next, returned, drained, cached⟩ :=
    ok.sweep (fun idx ok => by
      obtain ⟨entries, cls⟩ := ok.classes value thread idx
      obtain ⟨next, returned, drained, _⟩ := ok.tlsDrainClass 0 cls
      rw [Nat.sub_zero, List.take_length] at returned
      exact ⟨entries, next, returned, drained, cls.place⟩)
      (List.range tlsRunClassCount)
  refine ⟨gone, next, returned, drained, fun q => ?_⟩
  rw [cached q]
  simp only [List.mem_range]

theorem destroyCache (ok : WorldOk fam w live ledger) (value : Value)
    (thread : Thread) :
    ∃ gone next, Ledger.Returned gone ledger next ∧
      WorldOk fam (w.destroyCache fam value thread) live next ∧
      ∀ q, q ∈ gone ↔ ∃ idx < tlsRunClassCount,
        ledger.place q = some (.cached value thread idx) := by
  obtain ⟨gone, next, returned, destroyed, cached⟩ :=
    ok.sweep (fun idx ok => by
      obtain ⟨entries, cls⟩ := ok.classes value thread idx
      obtain ⟨_, next, returned, destroyed, _⟩ :=
        ok.destroyClass cls fun q _ => rfl
      exact ⟨entries, next, returned, destroyed, cls.place⟩)
      (List.range tlsRunClassCount)
  refine ⟨gone, next, returned, destroyed, fun q => ?_⟩
  rw [cached q]
  simp only [List.mem_range]

/-- The destructor on several class lists: all their entries go back to the owners
they are stamped with, and the lists are emptied. -/
theorem destroyClasses_eq {entries : Nat → List Nat} {stamp : Nat → Nat}
    {indices : List Nat} (distinct : indices.Nodup)
    (ok : WorldOk fam w live ledger)
    (cls : ∀ idx ∈ indices, ClassOk fam w ledger value thread idx (entries idx))
    (stamps : ∀ idx ∈ indices, ∀ q ∈ entries idx, w.mem (q + 8) = stamp q) :
    indices.foldl (fun w idx => w.destroyClass fam value thread idx) w =
      World.clearClasses value thread indices
        (World.returnEach fam value thread stamp (indices.flatMap entries) w) := by
  induction indices generalizing w ledger with
  | nil => rfl
  | cons idx indices ih =>
      obtain ⟨apart, distinct⟩ := List.nodup_cons.mp distinct
      have first := cls idx List.mem_cons_self
      obtain ⟨same, next, returned, destroyed, kept⟩ :=
        ok.destroyClass first (stamps idx List.mem_cons_self)
      have left : ∀ idx' ∈ indices, ClassOk fam
          (w.destroyClass fam value thread idx) next value thread idx'
            (entries idx') := by
        intro idx' listed
        apply kept
        · rintro rfl
          exact apart listed
        · exact cls idx' (List.mem_cons_of_mem idx listed)
      have leftStamps : ∀ idx' ∈ indices, ∀ q ∈ entries idx',
          (w.destroyClass fam value thread idx).mem (q + 8) = stamp q := by
        intro idx' listed q member
        have old := List.mem_cons_of_mem idx listed
        rw [ok.stamp_kept (cls idx' old) (left idx' listed) returned member member]
        exact stamps idx' old q member
      have rest := ih distinct destroyed left leftStamps
      rw [same, ← World.returnEach_setClass] at rest
      rw [List.foldl_cons, same, rest, List.flatMap_cons]
      unfold World.clearClasses World.returnEach
      rw [List.foldl_cons, List.foldl_append]

theorem destroyCache_eq {entries : Nat → List Nat}
    (ok : WorldOk fam w live ledger)
    (cls : ∀ idx < tlsRunClassCount,
      ClassOk fam w ledger value thread idx (entries idx)) :
    w.destroyCache fam value thread =
      World.clearClasses value thread (List.range tlsRunClassCount)
        (World.returnEach fam value thread (fun q => w.mem (q + 8))
          ((List.range tlsRunClassCount).flatMap entries) w) :=
  ok.destroyClasses_eq List.nodup_range
    (fun idx listed => cls idx (List.mem_range.mp listed)) fun _ _ _ _ => rfl

end WorldOk

end Suballocated

end Allocazam
