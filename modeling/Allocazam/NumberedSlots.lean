import Allocazam.TransitionSystem
import Mathlib.Data.List.Perm.Basic
import Mathlib.Data.List.Range

/-!
# Numbered slots

A stack of slots that grows on demand.  Slots are numbered in the order in which they are
obtained and handed out last in, first out; those parked on the side come back when no
other slot is free.
-/

namespace Allocazam

/-- The slots obtained so far, how many were asked for last, and where each slot is. -/
structure Slots where
  count : Nat
  step : Nat
  free : List Nat
  parked : List Nat
  live : List Nat
  deriving DecidableEq, Repr

/-- Whether no slots are asked for after the first ones, and how a request that is too
large fails. -/
structure Policy (Failure : Type*) where
  bounded : Bool
  limit : Nat
  overflow : Failure

namespace Slots

variable {Failure : Type*} (policy : Policy Failure) (supply : Nat → Except Failure Unit)
  (slots : Slots)

def blank (step : Nat) : Slots :=
  ⟨0, step, [], [], []⟩

def extend (count : Nat) : Slots :=
  { slots with
    count := slots.count + count
    free := (List.range' slots.count count).reverse ++ slots.free }

/-- The parked slots come back if no slot is free, the one parked first in front. -/
def reclaim : Slots :=
  if slots.free = [] then { slots with free := slots.parked.reverse, parked := [] }
  else slots

def handOut : Slots × Option Nat :=
  match slots.free with
  | [] => (slots, none)
  | slot :: free => ({ slots with free, live := slot :: slots.live }, some slot)

/-- More slots are asked for, and one of them is handed out. -/
def stock (count : Nat) : Slots × Except Failure (Option Nat) :=
  match supply count with
  | .error failure => (slots, .error failure)
  | .ok () => ((slots.extend count).handOut.1, .ok (slots.extend count).handOut.2)

def demand : Slots × Except Failure (Option Nat) :=
  if slots.count = 0 ∧ slots.step ≠ 0 then slots.stock supply slots.step
  else if policy.bounded then (slots, .ok none)
  else if policy.limit ≤ 2 * slots.step then (slots, .error policy.overflow)
  else stock supply { slots with step := 2 * slots.step } (2 * slots.step)

def allocate : Slots × Except Failure (Option Nat) :=
  match slots.reclaim.handOut with
  | (slots, some slot) => (slots, .ok (some slot))
  | (slots, none) => slots.demand policy supply

def release (slot : Nat) : Slots :=
  { slots with free := slot :: slots.free, live := slots.live.erase slot }

def park (slot : Nat) : Slots :=
  { slots with parked := slot :: slots.parked, live := slots.live.erase slot }

/-- Each slot is in one place. -/
def Conserved : Prop :=
  (slots.free ++ slots.parked ++ slots.live).Perm (List.range slots.count)

namespace Conserved

variable {slots} (conserved : slots.Conserved)

theorem blank (step : Nat) : (Slots.blank step).Conserved :=
  .refl []

include conserved

theorem nodup : (slots.free ++ slots.parked ++ slots.live).Nodup :=
  conserved.nodup_iff.mpr List.nodup_range

theorem lt_of_mem {slot : Nat}
    (member : slot ∈ slots.free ∨ slot ∈ slots.parked ∨ slot ∈ slots.live) :
    slot < slots.count := by
  refine List.mem_range.mp (conserved.mem_iff.mp ?_)
  simpa [or_assoc] using member

theorem withStep (step : Nat) : { slots with step }.Conserved :=
  conserved

theorem extend (count : Nat) : (slots.extend count).Conserved := by
  unfold Conserved Slots.extend at *
  dsimp only
  rw [List.range_add, List.append_assoc, List.append_assoc, ← List.append_assoc slots.free]
  refine (List.perm_append_comm.trans (conserved.append ?_))
  rw [List.range'_eq_map_range]
  exact List.reverse_perm _

theorem reclaim : slots.reclaim.Conserved := by
  unfold Slots.reclaim
  split
  · rename_i empty
    unfold Conserved at *
    rw [empty, List.nil_append] at conserved
    dsimp only
    rw [List.append_nil]
    exact ((List.reverse_perm slots.parked).append_right slots.live).trans conserved
  · exact conserved

theorem handOut : slots.handOut.1.Conserved := by
  unfold Slots.handOut
  split
  · exact conserved
  · rename_i slot free listed
    unfold Conserved at *
    rw [listed] at conserved
    refine List.Perm.trans ?_ conserved
    exact List.perm_middle

theorem stock (count : Nat) : (slots.stock supply count).1.Conserved := by
  unfold Slots.stock
  split
  · exact conserved
  · exact (conserved.extend count).handOut

theorem demand : (slots.demand policy supply).1.Conserved := by
  unfold Slots.demand
  split
  · exact conserved.stock supply slots.step
  split
  · exact conserved
  split
  · exact conserved
  · exact (conserved.withStep _).stock supply _

theorem allocate : (slots.allocate policy supply).1.Conserved := by
  have handed := conserved.reclaim.handOut
  unfold Slots.allocate
  generalize slots.reclaim.handOut = outcome at handed ⊢
  obtain ⟨next, none | slot⟩ := outcome
  · exact handed.demand policy supply
  · exact handed

theorem release {slot : Nat} (held : slot ∈ slots.live) : (slots.release slot).Conserved := by
  unfold Conserved Slots.release at *
  refine List.Perm.trans ?_ conserved
  have moved := (List.perm_cons_erase held).append_left (slots.free ++ slots.parked)
  exact (List.perm_middle.symm).trans moved.symm

theorem park {slot : Nat} (held : slot ∈ slots.live) : (slots.park slot).Conserved := by
  unfold Conserved Slots.park at *
  refine List.Perm.trans ?_ conserved
  have moved := (List.perm_cons_erase held).append_left (slots.free ++ slots.parked)
  have first : (slots.free ++ slot :: slots.parked ++ slots.live.erase slot).Perm
      (slot :: (slots.free ++ slots.parked ++ slots.live.erase slot)) := by
    rw [List.append_assoc, List.cons_append, List.append_assoc]
    exact List.perm_middle
  exact (first.trans List.perm_middle.symm).trans moved.symm

end Conserved

section Live

theorem reclaim_live : slots.reclaim.live = slots.live := by
  unfold reclaim
  split <;> rfl

theorem handOut_live : slots.handOut.1.live = slots.handOut.2.toList ++ slots.live := by
  unfold handOut
  split <;> rfl

def given : Except Failure (Option Nat) → List Nat
  | .ok slot => slot.toList
  | .error _ => []

theorem stock_live (count : Nat) :
    (slots.stock supply count).1.live = given (slots.stock supply count).2 ++ slots.live := by
  unfold stock
  split
  · rfl
  · exact (slots.extend count).handOut_live

theorem demand_live : (slots.demand policy supply).1.live =
    given (slots.demand policy supply).2 ++ slots.live := by
  unfold demand
  split
  · exact slots.stock_live supply slots.step
  split
  · rfl
  split
  · rfl
  · exact stock_live supply _ _

/-- An allocation adds what it hands out to what is in use. -/
theorem allocate_live : (slots.allocate policy supply).1.live =
    given (slots.allocate policy supply).2 ++ slots.live := by
  unfold allocate
  have handed := slots.reclaim.handOut_live
  rw [reclaim_live] at handed
  generalize slots.reclaim.handOut = outcome at handed ⊢
  obtain ⟨next, none | slot⟩ := outcome
  · have same : next.live = slots.live := handed
    have demanded := next.demand_live policy supply
    rw [same] at demanded
    exact demanded
  · exact handed

end Live

section Agree

variable {policy supply slots} {supply' : Nat → Except Failure Unit} {refused : Failure}

theorem stock_agree {count : Nat}
    (agree : supply count = .error refused ∨ supply' count = .error refused ∨
      supply' count = supply count)
    (unrefused : (slots.stock supply count).2 ≠ .error refused)
    (unrefused' : (slots.stock supply' count).2 ≠ .error refused) :
    slots.stock supply' count = slots.stock supply count := by
  unfold stock at *
  rcases agree with denied | denied | same
  · rw [denied] at unrefused
    exact absurd rfl unrefused
  · rw [denied] at unrefused'
    exact absurd rfl unrefused'
  · rw [same]

theorem demand_agree
    (agree : ∀ count, supply count = .error refused ∨ supply' count = .error refused ∨
      supply' count = supply count)
    (unrefused : (slots.demand policy supply).2 ≠ .error refused)
    (unrefused' : (slots.demand policy supply').2 ≠ .error refused) :
    slots.demand policy supply' = slots.demand policy supply := by
  unfold demand at *
  split at unrefused
  · rename_i deferred
    rw [if_pos deferred] at unrefused' ⊢
    rw [if_pos deferred]
    exact stock_agree (agree _) unrefused unrefused'
  rename_i populated
  rw [if_neg populated] at unrefused' ⊢
  rw [if_neg populated]
  split at unrefused
  · rename_i bounded
    rw [if_pos bounded, if_pos bounded]
  rename_i unbounded
  rw [if_neg unbounded] at unrefused' ⊢
  rw [if_neg unbounded]
  split at unrefused
  · rename_i large
    rw [if_pos large, if_pos large]
  rename_i small
  rw [if_neg small] at unrefused' ⊢
  rw [if_neg small]
  exact stock_agree (agree _) unrefused unrefused'

theorem allocate_agree
    (agree : ∀ count, supply count = .error refused ∨ supply' count = .error refused ∨
      supply' count = supply count)
    (unrefused : (slots.allocate policy supply).2 ≠ .error refused)
    (unrefused' : (slots.allocate policy supply').2 ≠ .error refused) :
    slots.allocate policy supply' = slots.allocate policy supply := by
  unfold allocate at *
  generalize slots.reclaim.handOut = outcome at unrefused unrefused' ⊢
  obtain ⟨next, none | slot⟩ := outcome
  · exact demand_agree agree unrefused unrefused'
  · rfl

end Agree

theorem allocate_free {slot : Nat} {rest : List Nat} (listed : slots.free = slot :: rest) :
    slots.allocate policy supply = (slots.handOut.1, .ok slots.handOut.2) := by
  unfold allocate reclaim
  rw [if_neg (by simp [listed])]
  unfold handOut
  rw [listed]

theorem allocate_blank {first : Nat} (positive : 0 < first) :
    (blank first).allocate policy supply = (blank first).stock supply first := by
  have none : (blank first).reclaim.handOut = (blank first, Option.none) := rfl
  unfold allocate
  rw [none]
  unfold demand
  exact if_pos ⟨rfl, positive.ne'⟩

/-- It makes no difference whether the first slots are there from the start. -/
theorem allocate_deferred {first : Nat} (supply' : Nat → Except Failure Unit)
    (positive : 0 < first) (supplied : supply first = .ok ()) :
    (blank first).allocate policy supply =
      ((blank first).extend first).allocate policy supply' := by
  have some : ((blank first).extend first).free ≠ [] := by
    unfold extend
    simp
    omega
  obtain ⟨slot, rest, listed⟩ := List.exists_cons_of_ne_nil some
  rw [allocate_blank policy supply positive, allocate_free policy supply' _ listed]
  unfold stock
  rw [supplied]

/-- A step: a slot is asked for, comes back or is parked. -/
inductive Moves : Slots → Slots → Prop
  | allocate {slots : Slots} (supply : Nat → Except Failure Unit) :
      Moves slots (slots.allocate policy supply).1
  | release {slots : Slots} {slot : Nat} (held : slot ∈ slots.live) :
      Moves slots (slots.release slot)
  | park {slots : Slots} {slot : Nat} (held : slot ∈ slots.live) :
      Moves slots (slots.park slot)

/-- The runs of slots, of which the first may be there from the start. -/
def runs (first step : Nat) : TransitionSystem Slots where
  start slots := slots = (blank step).extend first
  step := Moves policy

theorem conserved_inductive (first step : Nat) :
    (runs policy first step).Inductive Conserved where
  start slots begins := by
    obtain rfl := begins
    exact (Conserved.blank step).extend first
  step slots next conserved moves := by
    cases moves with
    | allocate supply => exact conserved.allocate policy supply
    | release held => exact conserved.release held
    | park held => exact conserved.park held

end Slots

end Allocazam
