import Allocazam.SizeArithmetic
import Allocazam.RunnerModel
import Allocazam.TransitionSystem

/-!
# The exclusive resource

`exclusive_resource`: one block of memory that is claimed as a whole.  The claim
records an interval of sizes that release accepts and an alignment; the least
size doubles as the mark of a claim.
-/

namespace Allocazam

namespace Exclusive

/-- `exclusive_resource`. -/
structure Resource where
  base : Nat
  usableBytes : Nat
  effectiveAlignment : Nat
  claimedMinBytes : Nat
  claimedMaxBytes : Nat
  claimedAlignment : Nat
  deriving DecidableEq, Repr

def isAligned (pointer alignment : Nat) : Bool :=
  pointer &&& (alignment - 1) == 0

namespace Resource

def construct (base usableBytes effectiveAlignment : Nat) :
    Except Exn Resource :=
  if base = 0 then
    .error (.invalidArgument "exclusive resource base must not be null")
  else if usableBytes = 0 then
    .error (.invalidArgument "exclusive resource capacity must not be zero")
  else if effectiveAlignment = 0 ∨ hasSingleBit effectiveAlignment = false then
    .error (.invalidArgument
      "exclusive resource alignment must be a power of two")
  else if isAligned base effectiveAlignment = false then
    .error (.invalidArgument
      "exclusive resource base does not satisfy its alignment")
  else .ok ⟨base, usableBytes, effectiveAlignment, 0, 0, 0⟩

variable (r : Resource)

def claimed : Bool :=
  r.claimedMinBytes != 0

def owns (pointer : Nat) : Bool :=
  pointer == r.base

/-- `claim`: the base, or null. -/
def claim (minimumBytes maximumBytes alignment : Nat) : Resource × Nat :=
  if r.claimed ∨ minimumBytes = 0 ∨ minimumBytes > maximumBytes ∨
      maximumBytes > r.usableBytes ∨ alignment = 0 ∨
      hasSingleBit alignment = false ∨ alignment > r.effectiveAlignment ∨
      isAligned r.base alignment = false then
    (r, 0)
  else
    ({ r with
        claimedMinBytes := minimumBytes
        claimedMaxBytes := maximumBytes
        claimedAlignment := alignment }, r.base)

/-- `release`, with assertions compiled out. -/
def release (pointer bytes alignment : Nat) : Resource :=
  if r.claimed ∧ pointer = r.base ∧ r.claimedMinBytes ≤ bytes ∧
      bytes ≤ r.claimedMaxBytes ∧ alignment = r.claimedAlignment then
    { r with
      claimedMinBytes := 0
      claimedMaxBytes := 0
      claimedAlignment := 0 }
  else r

def expand (pointer minimumNewBytes representableCapacityBytes : Nat) :
    Resource × Nat :=
  if r.claimed = false ∨ pointer ≠ r.base then (r, 0)
  else if minimumNewBytes ≤ r.claimedMaxBytes then (r, r.claimedMaxBytes)
  else if representableCapacityBytes < r.claimedMaxBytes ∨
      representableCapacityBytes > r.usableBytes ∨
      minimumNewBytes > representableCapacityBytes then
    (r, r.claimedMaxBytes)
  else
    ({ r with claimedMaxBytes := representableCapacityBytes },
      representableCapacityBytes)

end Resource

theorem hasSingleBit_iff {value : Nat} :
    hasSingleBit value = true ↔ ∃ bits, value = 2 ^ bits := by
  unfold hasSingleBit
  constructor
  · intro single
    rw [Bool.and_eq_true, bne_iff_ne, beq_iff_eq] at single
    exact (Nat.and_sub_one_eq_zero_iff_isPowerOfTwo single.1).mp single.2
  · rintro ⟨bits, rfl⟩
    have positive := Nat.two_pow_pos bits
    rw [Bool.and_eq_true, bne_iff_ne, beq_iff_eq]
    exact ⟨by omega, (Nat.and_sub_one_eq_zero_iff_isPowerOfTwo (by omega)).mpr
      ⟨bits, rfl⟩⟩

theorem isAligned_iff {pointer alignment : Nat}
    (single : ∃ bits, alignment = 2 ^ bits) :
    isAligned pointer alignment = true ↔ alignment ∣ pointer := by
  obtain ⟨bits, rfl⟩ := single
  unfold isAligned
  rw [Nat.and_two_pow_sub_one_eq_mod, beq_iff_eq, Nat.dvd_iff_mod_eq_zero]

/-- An alignment the base of the resource has. -/
structure Resource.Supports (r : Resource) (alignment : Nat) : Prop where
  single : ∃ bits, alignment = 2 ^ bits
  effective : alignment ≤ r.effectiveAlignment
  divides : alignment ∣ r.base

/-- A resource as its constructor leaves it, apart from the claim. -/
structure Resource.Valid (r : Resource) : Prop where
  base : 0 < r.base
  usable : 0 < r.usableBytes
  supports : r.Supports r.effectiveAlignment

def Resource.Unclaimed (r : Resource) : Prop :=
  r.claimedMinBytes = 0 ∧ r.claimedMaxBytes = 0 ∧ r.claimedAlignment = 0

structure Resource.Claimed (r : Resource) : Prop where
  positive : 0 < r.claimedMinBytes
  ordered : r.claimedMinBytes ≤ r.claimedMaxBytes
  usable : r.claimedMaxBytes ≤ r.usableBytes
  alignment : r.Supports r.claimedAlignment

structure Resource.Claimable (r : Resource)
    (minimumBytes maximumBytes alignment : Nat) : Prop where
  positive : 0 < minimumBytes
  ordered : minimumBytes ≤ maximumBytes
  usable : maximumBytes ≤ r.usableBytes
  alignment : r.Supports alignment

namespace Resource

variable {r : Resource} {minimumBytes maximumBytes alignment pointer bytes : Nat}

theorem claimed_eq_false_iff : r.claimed = false ↔ r.claimedMinBytes = 0 := by
  simp [claimed]

theorem claimed_eq_true_iff : r.claimed = true ↔ r.claimedMinBytes ≠ 0 := by
  simp [claimed]

theorem claim_eq (unclaimed : r.claimedMinBytes = 0)
    (fits : r.Claimable minimumBytes maximumBytes alignment) :
    r.claim minimumBytes maximumBytes alignment =
      ({ r with
          claimedMinBytes := minimumBytes
          claimedMaxBytes := maximumBytes
          claimedAlignment := alignment }, r.base) := by
  have positive := fits.positive
  have ordered := fits.ordered
  have usable := fits.usable
  have effective := fits.alignment.effective
  have single := hasSingleBit_iff.mpr fits.alignment.single
  have aligned := (isAligned_iff fits.alignment.single).mpr
    fits.alignment.divides
  have nonzero : alignment ≠ 0 := by
    obtain ⟨bits, rfl⟩ := fits.alignment.single
    exact (Nat.two_pow_pos bits).ne'
  have unmarked : r.claimed = false := claimed_eq_false_iff.mpr unclaimed
  unfold claim
  apply if_neg
  simp only [unmarked, single, aligned, Bool.false_eq_true, Bool.true_eq_false,
    or_false, false_or]
  omega

theorem claim_eq_null (rejected : ¬ (r.claimedMinBytes = 0 ∧
      r.Claimable minimumBytes maximumBytes alignment)) :
    r.claim minimumBytes maximumBytes alignment = (r, 0) := by
  unfold claim
  apply if_pos
  by_contra accepted
  simp only [not_or, not_not, claimed_eq_true_iff, Bool.not_eq_false] at accepted
  obtain ⟨unclaimed, positive, ordered, usable, _, single, effective, aligned⟩ :=
    accepted
  have power := hasSingleBit_iff.mp single
  exact rejected ⟨unclaimed, Nat.pos_of_ne_zero positive, Nat.le_of_not_lt ordered,
    Nat.le_of_not_lt usable, power, Nat.le_of_not_lt effective,
    (isAligned_iff power).mp aligned⟩

def Releasable (r : Resource) (pointer bytes alignment : Nat) : Prop :=
  r.claimedMinBytes ≠ 0 ∧ pointer = r.base ∧ r.claimedMinBytes ≤ bytes ∧
    bytes ≤ r.claimedMaxBytes ∧ alignment = r.claimedAlignment

theorem release_eq (valid : r.Releasable pointer bytes alignment) :
    r.release pointer bytes alignment =
      { r with
        claimedMinBytes := 0
        claimedMaxBytes := 0
        claimedAlignment := 0 } := by
  unfold release
  simp only [claimed_eq_true_iff]
  exact if_pos valid

theorem release_eq_self (invalid : ¬ r.Releasable pointer bytes alignment) :
    r.release pointer bytes alignment = r := by
  unfold release
  simp only [claimed_eq_true_iff]
  exact if_neg invalid

def Expandable (r : Resource)
    (pointer minimumNewBytes representableCapacityBytes : Nat) : Prop :=
  r.claimedMinBytes ≠ 0 ∧ pointer = r.base ∧
    r.claimedMaxBytes < minimumNewBytes ∧
    minimumNewBytes ≤ representableCapacityBytes ∧
    representableCapacityBytes ≤ r.usableBytes

variable {minimumNewBytes representableCapacityBytes : Nat}

theorem expand_eq (grows : r.Expandable pointer minimumNewBytes
      representableCapacityBytes) :
    r.expand pointer minimumNewBytes representableCapacityBytes =
      ({ r with claimedMaxBytes := representableCapacityBytes },
        representableCapacityBytes) := by
  obtain ⟨claimed, same, larger, covered, usable⟩ := grows
  unfold expand
  simp only [claimed_eq_false_iff]
  rw [if_neg (by tauto), if_neg (by omega), if_neg (by omega)]

theorem expand_eq_self (rejected : ¬ r.Expandable pointer minimumNewBytes
      representableCapacityBytes) :
    r.expand pointer minimumNewBytes representableCapacityBytes =
      (r, if r.claimedMinBytes ≠ 0 ∧ pointer = r.base then r.claimedMaxBytes
        else 0) := by
  unfold expand
  simp only [claimed_eq_false_iff]
  by_cases foreign : r.claimedMinBytes = 0 ∨ pointer ≠ r.base
  · rw [if_pos foreign, if_neg (by tauto)]
  · have own : r.claimedMinBytes ≠ 0 ∧ pointer = r.base := by tauto
    rw [if_neg foreign, if_pos own]
    by_cases enough : minimumNewBytes ≤ r.claimedMaxBytes
    · rw [if_pos enough]
    · rw [if_neg enough, if_pos]
      by_contra accepted
      exact rejected ⟨own.1, own.2, by omega, by omega, by omega⟩

theorem construct_ok {base usableBytes effectiveAlignment : Nat}
    (accepted : construct base usableBytes effectiveAlignment = .ok r) :
    r.Valid ∧ r = ⟨base, usableBytes, effectiveAlignment, 0, 0, 0⟩ := by
  unfold construct at accepted
  split at accepted
  · simp at accepted
  split at accepted
  · simp at accepted
  split at accepted
  · simp at accepted
  split at accepted
  · simp at accepted
  rename_i baseNonnull usable single aligned
  obtain rfl := Except.ok.inj accepted
  rw [not_or, Bool.not_eq_false] at single
  rw [Bool.not_eq_false] at aligned
  have power := hasSingleBit_iff.mp single.2
  exact ⟨⟨Nat.pos_of_ne_zero baseNonnull, Nat.pos_of_ne_zero usable, power,
    le_rfl, (isAligned_iff power).mp aligned⟩, rfl⟩

end Resource

end Exclusive

end Allocazam
