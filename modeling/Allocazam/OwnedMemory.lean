import Allocazam.ExclusiveResource

/-!
# Memory on loan

`allocate_owned_memory` and `release_owned_memory`: memory comes from the array form of
`operator new`, or is mapped in huge pages, and goes back the way it came.  A release names
the base and the alignment of an array or the length of a mapping; anything else than what
was lent is undefined behavior.  The platform is Linux.
-/

namespace Allocazam

structure OwnedMemory where
  base : Nat
  bytes : Nat
  alignment : Nat
  deriving DecidableEq, Repr

inductive OwnedMemoryError where
  | outOfMemory
  | hugetlbFailed
  deriving DecidableEq, Repr

/-- What the OS supplies at the time of a request: arrays of a given length and alignment,
and mappings of a given length. -/
structure Supply where
  newArray : Nat → Nat → Option Nat
  mapHuge : Nat → Option Nat

/-- `allocate_owned_memory<Huge>`. -/
def allocateOwnedMemory (huge : Bool) (supply : Supply) (bytes alignment : Nat) :
    Except OwnedMemoryError OwnedMemory :=
  if bytes = 0 ∨ alignment < 8 ∨ ¬ hasSingleBit alignment then .error .outOfMemory
  else if huge then
    if alignment > Runner.explicitHugePageBytes then .error .hugetlbFailed
    else
      match checkedRoundToMultipleOf bytes Runner.explicitHugePageBytes with
      | none => .error .outOfMemory
      | some mappingBytes =>
          match supply.mapHuge mappingBytes with
          | none => .error .hugetlbFailed
          | some mapping => .ok ⟨mapping, mappingBytes, Runner.explicitHugePageBytes⟩
  else
    match supply.newArray bytes alignment with
    | none => .error .outOfMemory
    | some raw => .ok ⟨raw, bytes, alignment⟩

/-- Memory that has not gone back: a mapping of huge pages, or an array. -/
structure Loan where
  huge : Bool
  memory : OwnedMemory
  deriving DecidableEq, Repr

/-- What is at `base` goes back if it was lent as the release says. -/
def giveBack (base : Nat) (fits : Loan → Bool) (loans : List Loan) : Option (List Loan) :=
  match loans.find? fun loan => loan.memory.base = base with
  | none => none
  | some loan => if fits loan then some (loans.erase loan) else none

/-- `::operator delete[]`: the loans that remain, unless the behavior is undefined. -/
def deleteArray (base alignment : Nat) : List Loan → Option (List Loan) :=
  giveBack base fun loan => !loan.huge && loan.memory.alignment == alignment

/-- `::munmap`, likewise. -/
def unmap (base bytes : Nat) : List Loan → Option (List Loan) :=
  giveBack base fun loan => loan.huge && loan.memory.bytes == bytes

/-- `release_owned_memory<Huge>`, likewise. -/
def releaseOwnedMemory (huge : Bool) (memory : OwnedMemory) (loans : List Loan) :
    Option (List Loan) :=
  if memory.base = 0 then some loans
  else if huge then unmap memory.base memory.bytes loans
  else deleteArray memory.base memory.alignment loans

def Loan.Apart (one two : Loan) : Prop :=
  one.memory.base + one.memory.bytes ≤ two.memory.base ∨
    two.memory.base + two.memory.bytes ≤ one.memory.base

theorem Loan.Apart.symm {one two : Loan} (apart : one.Apart two) : two.Apart one :=
  Or.symm apart

/-- The loans are of some bytes each, nonnull and apart. -/
structure Separate (loans : List Loan) : Prop where
  nonnull : ∀ loan ∈ loans, loan.memory.base ≠ 0
  positive : ∀ loan ∈ loans, 0 < loan.memory.bytes
  apart : loans.Pairwise Loan.Apart

namespace Separate

variable {loans rest : List Loan} {loan : Loan} {huge : Bool} {memory : OwnedMemory}

theorem nil : Separate [] :=
  ⟨by simp, by simp, .nil⟩

theorem cons (separate : Separate loans) (nonnull : loan.memory.base ≠ 0)
    (positive : 0 < loan.memory.bytes) (apart : ∀ other ∈ loans, loan.Apart other) :
    Separate (loan :: loans) where
  nonnull := List.forall_mem_cons.mpr ⟨nonnull, separate.nonnull⟩
  positive := List.forall_mem_cons.mpr ⟨positive, separate.positive⟩
  apart := .cons apart separate.apart

theorem perm (separate : Separate loans) (same : loans.Perm rest) : Separate rest where
  nonnull _ member := separate.nonnull _ (same.mem_iff.mpr member)
  positive _ member := separate.positive _ (same.mem_iff.mpr member)
  apart := same.pairwise separate.apart fun apart => apart.symm

theorem append_right (separate : Separate (loans ++ rest)) : Separate rest where
  nonnull _ member := separate.nonnull _ (List.mem_append_right _ member)
  positive _ member := separate.positive _ (List.mem_append_right _ member)
  apart := (List.pairwise_append.mp separate.apart).2.1

theorem tail (separate : Separate (loan :: loans)) : Separate loans where
  nonnull _ member := separate.nonnull _ (List.mem_cons_of_mem _ member)
  positive _ member := separate.positive _ (List.mem_cons_of_mem _ member)
  apart := separate.apart.of_cons

theorem find?_base (separate : Separate loans) (member : loan ∈ loans) :
    loans.find? (fun other => other.memory.base = loan.memory.base) = some loan := by
  induction loans with
  | nil => cases member
  | cons first later ih =>
      have positive := separate.positive
      have apart := List.pairwise_cons.mp separate.apart
      rcases List.mem_cons.mp member with rfl | inLater
      · rw [List.find?_cons_of_pos (by simp)]
      · have clear : first.Apart loan := apart.1 loan inLater
        have firstBytes := positive first (by simp)
        have loanBytes := positive loan member
        unfold Loan.Apart at clear
        rw [List.find?_cons_of_neg (by simp; omega)]
        exact ih separate.tail inLater

theorem giveBack (separate : Separate loans) (lent : loans.Perm (loan :: rest))
    {fits : Loan → Bool} (fitting : fits loan = true) :
    ∃ left, giveBack loan.memory.base fits loans = some left ∧ left.Perm rest := by
  have member : loan ∈ loans := lent.mem_iff.mpr List.mem_cons_self
  refine ⟨loans.erase loan, ?_, ?_⟩
  · unfold Allocazam.giveBack
    rw [separate.find?_base member]
    exact if_pos fitting
  · simpa using lent.erase loan

/-- An array goes back with the alignment that it was made with. -/
theorem deleteArray (separate : Separate loans) (lent : loans.Perm (⟨false, memory⟩ :: rest)) :
    ∃ left, deleteArray memory.base memory.alignment loans = some left ∧ left.Perm rest :=
  separate.giveBack lent (by simp)

/-- Memory goes back that is described as it was lent. -/
theorem releaseOwnedMemory (separate : Separate loans)
    (lent : loans.Perm (⟨huge, memory⟩ :: rest)) :
    ∃ left, releaseOwnedMemory huge memory loans = some left ∧ left.Perm rest := by
  have nonnull := separate.nonnull _ (lent.mem_iff.mpr List.mem_cons_self)
  unfold Allocazam.releaseOwnedMemory
  rw [if_neg nonnull]
  cases huge with
  | true => exact separate.giveBack lent (by simp)
  | false => exact separate.deleteArray lent

end Separate

section Allocate

variable {supply : Supply} {bytes alignment : Nat} {memory : OwnedMemory}

/-- An array is as long and as aligned as asked for. -/
theorem allocateOwnedMemory_array (positive : 0 < bytes) (large : 8 ≤ alignment)
    (single : hasSingleBit alignment = true) :
    allocateOwnedMemory false supply bytes alignment = .ok memory ↔
      supply.newArray bytes alignment = some memory.base ∧ memory.bytes = bytes ∧
        memory.alignment = alignment := by
  have accepted : ¬ (bytes = 0 ∨ alignment < 8 ∨ ¬ hasSingleBit alignment = true) := by
    rw [single]
    simp
    omega
  obtain ⟨base, length, aligned⟩ := memory
  unfold allocateOwnedMemory
  rw [if_neg accepted, if_neg (by decide)]
  cases given : supply.newArray bytes alignment with
  | none => simp
  | some raw => simp [eq_comm]

/-- A mapping covers the request in as few huge pages as possible. -/
theorem allocateOwnedMemory_huge (positive : 0 < bytes) (word : bytes < 2 ^ 64)
    (large : 8 ≤ alignment) (single : hasSingleBit alignment = true) :
    allocateOwnedMemory true supply bytes alignment = .ok memory ↔
      alignment ≤ Runner.explicitHugePageBytes ∧ memory.bytes < 2 ^ 64 ∧
        IsLeast {length | Runner.explicitHugePageBytes ∣ length ∧ bytes ≤ length}
          memory.bytes ∧
        supply.mapHuge memory.bytes = some memory.base ∧
        memory.alignment = Runner.explicitHugePageBytes := by
  have accepted : ¬ (bytes = 0 ∨ alignment < 8 ∨ ¬ hasSingleBit alignment = true) := by
    rw [single]
    simp
    omega
  obtain ⟨base, length, aligned⟩ := memory
  unfold allocateOwnedMemory
  rw [if_neg accepted, if_pos rfl]
  by_cases coarse : alignment > Runner.explicitHugePageBytes
  · rw [if_pos coarse]
    simp [Nat.not_le.mpr coarse]
  rw [if_neg coarse]
  cases rounded : checkedRoundToMultipleOf bytes Runner.explicitHugePageBytes with
  | none =>
      have overflow := (checkedRoundToMultipleOf_eq_none positive word (by decide)).mp rounded
      constructor
      · intro failed
        cases failed
      · rintro ⟨_, bounded, least, _⟩
        exact absurd (overflow _ least.1.1 least.1.2) (Nat.not_le.mpr bounded)
  | some mappingBytes =>
      have least := checkedRoundToMultipleOf_isLeast (by decide) rounded
      have bounded := checkedRoundToMultipleOf_lt word (by decide) rounded
      dsimp only
      constructor
      · intro mapped
        cases given : supply.mapHuge mappingBytes with
        | none =>
            rw [given] at mapped
            cases mapped
        | some mapping =>
            rw [given] at mapped
            obtain ⟨rfl, rfl, rfl⟩ := OwnedMemory.mk.inj (Except.ok.inj mapped)
            exact ⟨Nat.not_lt.mp coarse, bounded, least, given, rfl⟩
      · rintro ⟨_, _, isLeast, given, rfl⟩
        obtain rfl := le_antisymm (least.2 isLeast.1) (isLeast.2 least.1)
        rw [given]

end Allocate

end Allocazam
