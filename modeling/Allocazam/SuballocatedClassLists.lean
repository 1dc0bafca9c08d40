import Allocazam.SuballocatedDrain

/-!
# Class lists under pops and drains

A pop by owner takes the first entry with the owner's stamp off a class list and
keeps the order of the others.  A drain returns entries from the front until
the list is as short as asked.
-/

namespace Allocazam

namespace Suballocated

variable {Value Thread Bound : Type} [DecidableEq Value] [DecidableEq Thread]
  {fam : Family Value Thread Bound} {w : World Value Thread Bound}
  {live : List (Item fam)} {ledger : Ledger Value Thread Bound}
  {value : Value} {thread : Thread} {idx owner : Nat} {entries : List Nat}

/-- A search by owner leaves a class list without entries of the owner alone, and
takes the first such entry off any other. -/
inductive TakesFirst (w : World Value Thread Bound) (value : Value)
    (thread : Thread) (idx owner : Nat) (entries : List Nat) :
    World Value Thread Bound × Nat → Prop
  | nothing (without : ∀ q ∈ entries, w.mem (q + 8) ≠ owner) :
      TakesFirst w value thread idx owner entries (w, 0)
  | entry {w' : World Value Thread Bound} {p : Nat} {front back : List Nat}
      (split : entries = front ++ p :: back) (nonnull : p ≠ 0)
      (foreign : ∀ q ∈ front, w.mem (q + 8) ≠ owner)
      (stamp : w.mem (p + 8) = owner)
      (chain : IsStack w'.mem (w'.classes value thread idx).head (front ++ back))
      (count : (w'.classes value thread idx).count = (front ++ back).length)
      (stamps : ∀ q ∈ front ++ back, w'.mem (q + 8) = w.mem (q + 8)) :
      TakesFirst w value thread idx owner entries (w', p)

theorem World.tlsPopWalk_pass (value : Value) (thread : Thread) (idx : Nat)
    (fuel prev : Nat) {front rest : List Nat} {node : Nat}
    (chain : IsStack w.mem node (front ++ rest))
    (foreign : ∀ q ∈ front, w.mem (q + 8) ≠ owner) :
    ∃ next, IsStack w.mem next rest ∧
      w.tlsPopWalk value thread idx owner (front.length + fuel) prev node =
        w.tlsPopWalk value thread idx owner fuel (front.getLast?.getD prev)
          next := by
  induction front generalizing prev node with
  | nil =>
      refine ⟨node, chain, ?_⟩
      rw [List.length_nil, Nat.zero_add]
      rfl
  | cons first front ih =>
      obtain ⟨rfl, nonnull, later⟩ := chain
      have others : ∀ q ∈ front, w.mem (q + 8) ≠ owner := fun q listed =>
        foreign q (List.mem_cons_of_mem node listed)
      obtain ⟨next, rest, same⟩ := ih node later others
      refine ⟨next, rest, ?_⟩
      rw [List.length_cons, Nat.add_right_comm, World.tlsPopWalk,
        if_neg nonnull, if_pos (foreign node List.mem_cons_self), same,
        List.getLast?_cons]
      rfl

theorem exists_first (stamp : Nat → Nat) {p : Nat} (listed : p ∈ entries)
    (same : stamp p = owner) :
    ∃ front first back, entries = front ++ first :: back ∧
      stamp first = owner ∧ ∀ q ∈ front, stamp q ≠ owner := by
  induction entries with
  | nil => cases listed
  | cons q entries ih =>
      by_cases here : stamp q = owner
      · exact ⟨[], q, entries, rfl, here, by simp⟩
      · rcases List.mem_cons.mp listed with rfl | later
        · exact absurd same here
        · obtain ⟨front, first, back, rfl, found, others⟩ := ih later
          refine ⟨q :: front, first, back, rfl, found, ?_⟩
          intro r member
          rcases List.mem_cons.mp member with rfl | member
          · exact here
          · exact others r member

namespace WorldOk

theorem takeFirst (ok : WorldOk fam w live ledger) {front back : List Nat}
    {p fuel : Nat}
    (cls : ClassOk fam w ledger value thread idx (front ++ p :: back))
    (foreign : ∀ q ∈ front, w.mem (q + 8) ≠ owner)
    (stamp : w.mem (p + 8) = owner) :
    TakesFirst w value thread idx owner (front ++ p :: back)
      (w.tlsPopWalk value thread idx owner (fuel + 1) (front.getLast?.getD 0)
        p) := by
  have nonnull : p ≠ 0 := cls.chain.ne_zero p (by simp)
  have shorter : decrement (w.classes value thread idx).count =
      (front ++ back).length := by
    rw [cls.count, decrement_eq (by simp)]
    simp only [List.length_append, List.length_cons]
    omega
  rw [World.tlsPopWalk, if_neg nonnull, if_neg (not_not_intro stamp)]
  dsimp only
  induction front using List.reverseRecOn with
  | nil =>
      rw [List.getLast?_nil, Option.getD_none, if_pos rfl]
      exact .entry rfl nonnull foreign stamp
        (by rw [World.setClass_self]; exact cls.chain.2.2)
        (by rw [World.setClass_self]; exact shorter) fun _ _ => rfl
  | append_singleton front before =>
      have last : (front ++ [before]).getLast?.getD 0 = before := by simp
      have linked : before ≠ 0 := cls.chain.ne_zero before (by simp)
      rw [last, if_neg linked]
      have chained : ClassOk fam w ledger value thread idx
          (front ++ before :: p :: back) := by
        rw [List.append_assoc, List.singleton_append] at cls
        exact cls
      obtain ⟨_, linking, linkingMember, rfl, _⟩ :=
        cls.owned (p := before) (by simp)
      have large := (ok.payload_large linkingMember).1
      refine .entry rfl nonnull foreign stamp ?_ ?_ ?_
      · rw [World.setClass_self, List.append_assoc, List.singleton_append]
        exact chained.chain.skip
      · rw [World.setClass_self]
        exact shorter
      · intro q listed
        obtain ⟨_, entry, entryMember, rfl, _⟩ := cls.owned (p := q) (by
          simp only [List.mem_append, List.mem_cons] at listed ⊢
          tauto)
        by_cases same : linking.payload = entry.payload
        · rw [← same]
          exact Function.update_of_ne (by omega) _ _
        · exact (ok.write_words linkingMember le_rfl (by omega) _ entryMember
            same).2

theorem tlsPopForOwner_first (ok : WorldOk fam w live ledger)
    (cls : ClassOk fam w ledger value thread idx entries) (owner : Nat) :
    TakesFirst w value thread idx owner entries
      (w.tlsPopForOwner value thread idx owner) := by
  unfold World.tlsPopForOwner
  dsimp only
  by_cases found : ∃ q ∈ entries, w.mem (q + 8) = owner
  · obtain ⟨q, listed, same⟩ := found
    obtain ⟨front, p, back, rfl, stamp, foreign⟩ :=
      exists_first (fun q => w.mem (q + 8)) listed same
    obtain ⟨next, ⟨rfl, _, _⟩, walked⟩ := World.tlsPopWalk_pass value
      thread idx (back.length + 1) 0 cls.chain foreign
    rw [cls.count, List.length_append, List.length_cons, walked]
    exact ok.takeFirst cls foreign stamp
  · have without : ∀ q ∈ entries, w.mem (q + 8) ≠ owner := fun q listed same =>
      found ⟨q, listed, same⟩
    have chain : IsStack w.mem (w.classes value thread idx).head
        (entries ++ []) := by
      rw [List.append_nil]
      exact cls.chain
    obtain ⟨next, rfl, walked⟩ := World.tlsPopWalk_pass value thread idx 0 0
      chain without
    rw [cls.count, ← Nat.add_zero entries.length, walked]
    exact .nothing without

end WorldOk

variable [DecidableEq Bound]

theorem World.tlsDrainWalk_add (keepCount more rounds : Nat)
    (w : World Value Thread Bound) :
    World.tlsDrainWalk fam value thread idx keepCount (rounds + more) w =
      World.tlsDrainWalk fam value thread idx keepCount more
        (World.tlsDrainWalk fam value thread idx keepCount rounds w) := by
  induction rounds generalizing w with
  | zero =>
      rw [Nat.zero_add]
      rfl
  | succ rounds ih =>
      rw [Nat.add_right_comm, World.tlsDrainWalk, World.tlsDrainWalk]
      by_cases longer : (w.classes value thread idx).count > keepCount
      · rw [if_pos longer, if_pos longer]
        unfold World.tlsPopAny
        dsimp only
        by_cases null : (w.classes value thread idx).head = 0
        · -- The list has ended before the count says so.
          rw [if_pos null]
          dsimp only
          rw [if_pos rfl, if_pos rfl]
          cases more with
          | zero => rfl
          | succ more =>
              rw [World.tlsDrainWalk, if_pos longer]
              unfold World.tlsPopAny
              dsimp only
              rw [if_pos null]
              dsimp only
              rw [if_pos rfl]
        · rw [if_neg null]
          dsimp only
          rw [if_neg null, if_neg null]
          exact ih _
      · rw [if_neg longer, if_neg longer]
        cases more with
        | zero => rfl
        | succ more => rw [World.tlsDrainWalk, if_neg longer]

/-- A drain leaves the back of the class list, and has come to its end after as
many rounds as the list has entries. -/
theorem WorldOk.tlsDrainClass_exact (ok : WorldOk fam w live ledger)
    (cls : ClassOk fam w ledger value thread idx entries) (keepCount : Nat) :
    IsStack (w.tlsDrainClass fam value thread idx keepCount).mem
        ((w.tlsDrainClass fam value thread idx keepCount).classes value thread
          idx).head (entries.drop (entries.length - keepCount)) ∧
      ((w.tlsDrainClass fam value thread idx keepCount).classes value thread
        idx).count = min entries.length keepCount ∧
      ∀ fuel, entries.length ≤ fuel →
        World.tlsDrainWalk fam value thread idx keepCount fuel w =
          w.tlsDrainClass fam value thread idx keepCount := by
  obtain ⟨next, _, _, left⟩ := ok.tlsDrainClass keepCount cls
  have count : ((w.tlsDrainClass fam value thread idx keepCount).classes value
      thread idx).count = min entries.length keepCount := by
    rw [left.count, List.length_drop]
    omega
  refine ⟨left.chain, count, fun fuel enough => ?_⟩
  obtain ⟨more, rfl⟩ := Nat.exists_eq_add_of_le enough
  rw [World.tlsDrainWalk_add, ← cls.count]
  cases more with
  | zero => rfl
  | succ more =>
      rw [World.tlsDrainWalk]
      apply if_neg
      show ¬ ((w.tlsDrainClass fam value thread idx keepCount).classes value
        thread idx).count > keepCount
      rw [count]
      omega

end Suballocated

end Allocazam
