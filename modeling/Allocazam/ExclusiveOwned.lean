import Allocazam.ExclusivePlacement
import Allocazam.OwnedMemory

/-!
# Exclusive states that own their memory

A fixed exclusive state obtains memory for its capacity, in huge pages perhaps more than
it uses, keeps one resource on it and gives it back whole.
-/

namespace Allocazam

/-- What is supplied is nonnull, aligned, does not wrap around the address space, and shares
no byte with what is on loan. -/
structure Supply.Sound (supply : Supply) (loans : List Loan) : Prop where
  array : ∀ bytes alignment base, supply.newArray bytes alignment = some base →
    0 < base ∧ alignment ∣ base ∧ base + bytes ≤ 2 ^ 64 ∧
      ∀ loan ∈ loans, Loan.Apart ⟨false, base, bytes, alignment⟩ loan
  mapping : ∀ bytes base, supply.mapHuge bytes = some base →
    0 < base ∧ Runner.explicitHugePageBytes ∣ base ∧ base + bytes ≤ 2 ^ 64 ∧
      ∀ loan ∈ loans,
        Loan.Apart ⟨true, base, bytes, Runner.explicitHugePageBytes⟩ loan

/-- The memory that a request gets: an array as asked for, or a mapping in as few huge
pages as possible. -/
def Lends (huge : Bool) (supply : Supply) (bytes alignment : Nat) (memory : OwnedMemory) :
    Prop :=
  if huge then
    alignment ≤ Runner.explicitHugePageBytes ∧ memory.bytes < 2 ^ 64 ∧
      IsLeast {length | Runner.explicitHugePageBytes ∣ length ∧ bytes ≤ length}
        memory.bytes ∧
      supply.mapHuge memory.bytes = some memory.base ∧
      memory.alignment = Runner.explicitHugePageBytes
  else
    supply.newArray bytes alignment = some memory.base ∧ memory.bytes = bytes ∧
      memory.alignment = alignment

theorem hugePage_single : hasSingleBit Runner.explicitHugePageBytes = true := by decide

section Lends

variable {huge : Bool} {supply : Supply} {bytes alignment : Nat} {memory : OwnedMemory}
  {loans : List Loan}

theorem allocateOwnedMemory_lends (positive : 0 < bytes) (word : bytes < 2 ^ 64)
    (large : 8 ≤ alignment) (single : hasSingleBit alignment = true) :
    allocateOwnedMemory huge supply bytes alignment = .ok memory ↔
      Lends huge supply bytes alignment memory := by
  cases huge with
  | true => exact allocateOwnedMemory_huge positive word large single
  | false => exact allocateOwnedMemory_array positive large single

/-- A loan covers the request, is aligned as asked for, and apart from all others. -/
structure Loan.Covers (loan : Loan) (bytes alignment : Nat) (loans : List Loan) : Prop where
  nonnull : 0 < loan.memory.base
  room : bytes ≤ loan.memory.bytes
  bounded : loan.memory.base + loan.memory.bytes ≤ 2 ^ 64
  aligned : loan.memory.alignment ∣ loan.memory.base
  coarse : alignment ≤ loan.memory.alignment
  single : hasSingleBit loan.memory.alignment = true
  apart : ∀ other ∈ loans, loan.Apart other

theorem Lends.covers (lends : Lends huge supply bytes alignment memory)
    (sound : supply.Sound loans) (single : hasSingleBit alignment = true) :
    Loan.Covers ⟨huge, memory⟩ bytes alignment loans := by
  obtain ⟨base, length, aligned⟩ := memory
  unfold Lends at lends
  cases huge with
  | true =>
      rw [if_pos rfl] at lends
      obtain ⟨coarse, _, least, mapped, rfl⟩ := lends
      obtain ⟨nonnull, divides, bounded, apart⟩ := sound.mapping _ _ mapped
      exact ⟨nonnull, least.1.2, bounded, divides, coarse, hugePage_single, apart⟩
  | false =>
      rw [if_neg (by decide)] at lends
      obtain ⟨given, rfl, rfl⟩ := lends
      obtain ⟨nonnull, divides, bounded, apart⟩ := sound.array _ _ _ given
      exact ⟨nonnull, le_rfl, bounded, divides, le_rfl, single, apart⟩

end Lends

namespace Exclusive

/-- `allocazam_std_state<fixed, exclusive>`. -/
structure FixedState where
  backing : OwnedMemory
  resource : Resource
  elementCapacity : Nat
  deriving DecidableEq, Repr

namespace FixedState

variable (state : FixedState)

def capacity : Nat :=
  state.elementCapacity

def capacityBytes : Nat :=
  state.resource.usableBytes

def mappingBytes : Nat :=
  state.backing.bytes

def claimed : Bool :=
  state.resource.claimed

end FixedState

namespace ValueType

variable (T : ValueType)

/-- `_config_for`: the usable bytes. -/
def usableBytesFor (elementCapacity : Nat) : Except Exn Nat :=
  if elementCapacity = 0 then
    .error (.invalidArgument "exclusive state capacity must not be zero")
  else
    match checkedMul elementCapacity T.size with
    | none => .error .badArrayNewLength
    | some usableBytes => .ok usableBytes

/-- The constructor, with the loans before and after.  The owner of the memory gives it
back when the resource throws. -/
def constructFixed (huge : Bool) (supply : Supply) (elementCapacity : Nat)
    (loans : List Loan) : Option (List Loan) × Except Exn FixedState :=
  match T.usableBytesFor elementCapacity with
  | .error exn => (some loans, .error exn)
  | .ok usableBytes =>
      match allocateOwnedMemory huge supply usableBytes T.requiredAlignment with
      | .error _ => (some loans, .error .badAlloc)
      | .ok backing =>
          let loans := ⟨huge, backing⟩ :: loans
          match Resource.construct backing.base usableBytes backing.alignment with
          | .error exn => (releaseOwnedMemory huge backing loans, .error exn)
          | .ok resource => (some loans, .ok ⟨backing, resource, elementCapacity⟩)

end ValueType

namespace FixedState

def destroy (huge : Bool) (state : FixedState) (loans : List Loan) : Option (List Loan) :=
  releaseOwnedMemory huge state.backing loans

end FixedState

/-- A state of the capacity asked for on memory of its own. -/
structure ValueType.Occupies (T : ValueType) (huge : Bool) (supply : Supply)
    (loans : List Loan) (elementCapacity : Nat) (state : FixedState) : Prop where
  capacity : state.capacity = elementCapacity
  bytes : state.capacityBytes = elementCapacity * T.size
  word : state.capacityBytes < 2 ^ 64
  lends : Lends huge supply state.capacityBytes T.requiredAlignment state.backing
  covers : Loan.Covers ⟨huge, state.backing⟩ state.capacityBytes T.requiredAlignment loans
  placed : state.resource.base = state.backing.base ∧
    state.resource.effectiveAlignment = state.backing.alignment
  counted : T.maxSize state.resource = elementCapacity
  unclaimed : state.claimed = false

/-- How the constructor ends: without a capacity, with one that is too large, without
memory, or with a state. -/
inductive ValueType.FixedEnds (T : ValueType) (huge : Bool) (supply : Supply)
    (elementCapacity : Nat) (loans : List Loan) :
    Option (List Loan) × Except Exn FixedState → Prop
  | zero (none : elementCapacity = 0) :
      T.FixedEnds huge supply elementCapacity loans
        (some loans, .error (.invalidArgument "exclusive state capacity must not be zero"))
  | large (positive : 0 < elementCapacity) (overflow : 2 ^ 64 ≤ elementCapacity * T.size) :
      T.FixedEnds huge supply elementCapacity loans (some loans, .error .badArrayNewLength)
  | refused (positive : 0 < elementCapacity) (word : elementCapacity * T.size < 2 ^ 64)
      (without : ∀ memory,
        ¬ Lends huge supply (elementCapacity * T.size) T.requiredAlignment memory) :
      T.FixedEnds huge supply elementCapacity loans (some loans, .error .badAlloc)
  | occupied {state : FixedState} (positive : 0 < elementCapacity)
      (occupies : T.Occupies huge supply loans elementCapacity state) :
      T.FixedEnds huge supply elementCapacity loans
        (some (⟨huge, state.backing⟩ :: loans), .ok state)

namespace ValueType

variable {T : ValueType} {huge : Bool} {supply : Supply} {loans : List Loan}
  {elementCapacity : Nat}

theorem requiredAlignment_large : 8 ≤ T.requiredAlignment := by
  unfold requiredAlignment maxAlignment
  omega

theorem constructFixed_ends (sound : supply.Sound loans) (elementCapacity : Nat) :
    T.FixedEnds huge supply elementCapacity loans
      (T.constructFixed huge supply elementCapacity loans) := by
  have single := hasSingleBit_iff.mpr (requiredAlignment_single (T := T))
  unfold constructFixed usableBytesFor
  by_cases zero : elementCapacity = 0
  · rw [if_pos zero]
    exact .zero zero
  rw [if_neg zero]
  have nonempty := Nat.pos_of_ne_zero zero
  cases product : checkedMul elementCapacity T.size with
  | none => exact .large nonempty (checkedMul_eq_none.mp product)
  | some usableBytes =>
      obtain ⟨word, rfl⟩ := checkedMul_eq_some.mp product
      have positive : 0 < elementCapacity * T.size := Nat.mul_pos nonempty T.sizePositive
      have lending : ∀ memory,
          allocateOwnedMemory huge supply (elementCapacity * T.size) T.requiredAlignment =
              .ok memory ↔
            Lends huge supply (elementCapacity * T.size) T.requiredAlignment memory :=
        fun _ => allocateOwnedMemory_lends positive word requiredAlignment_large single
      dsimp only
      generalize allocateOwnedMemory huge supply (elementCapacity * T.size)
        T.requiredAlignment = outcome at lending
      cases outcome with
      | error failure =>
          exact .refused nonempty word fun memory lends => by
            cases (lending memory).mpr lends
      | ok backing =>
          have lends := (lending backing).mp rfl
          have covers := lends.covers sound single
          have effective := hasSingleBit_iff.mp covers.single
          have aligned := (isAligned_iff effective).mpr covers.aligned
          have built : Resource.construct backing.base (elementCapacity * T.size)
              backing.alignment = .ok ⟨backing.base, elementCapacity * T.size,
                backing.alignment, 0, 0, 0⟩ := by
            have coarse : 8 ≤ backing.alignment :=
              requiredAlignment_large.trans covers.coarse
            unfold Resource.construct
            rw [if_neg covers.nonnull.ne', if_neg positive.ne', if_neg,
              if_neg (by rw [aligned]; decide)]
            · rw [show hasSingleBit backing.alignment = true from covers.single]
              simp
              omega
          have occupies : T.Occupies huge supply loans elementCapacity
              ⟨backing, ⟨backing.base, elementCapacity * T.size, backing.alignment,
                0, 0, 0⟩, elementCapacity⟩ :=
            { capacity := rfl
              bytes := rfl
              word := word
              lends := lends
              covers := covers
              placed := ⟨rfl, rfl⟩
              counted := by
                have coarse : T.alignment ≤ backing.alignment :=
                  (le_max_left _ _).trans covers.coarse
                unfold maxSize
                rw [if_pos coarse, Nat.mul_div_cancel _ T.sizePositive]
              unclaimed := rfl }
          dsimp only
          rw [built]
          exact .occupied nonempty occupies

end ValueType

def Resource.extent (r : Resource) : Nat × Nat × Nat :=
  (r.base, r.usableBytes, r.effectiveAlignment)

section Extent

variable {T : ValueType} {r : Resource}

@[simp]
theorem Resource.claim_extent (minimumBytes maximumBytes alignment : Nat) :
    (r.claim minimumBytes maximumBytes alignment).1.extent = r.extent := by
  unfold Resource.claim
  split <;> rfl

@[simp]
theorem Resource.release_extent (pointer bytes alignment : Nat) :
    (r.release pointer bytes alignment).extent = r.extent := by
  unfold Resource.release
  split <;> rfl

@[simp]
theorem Resource.expand_extent (pointer minimumNewBytes representable : Nat) :
    (r.expand pointer minimumNewBytes representable).1.extent = r.extent := by
  unfold Resource.expand
  split
  · rfl
  split
  · rfl
  split <;> rfl

theorem ValueType.allocate_extent (n : Nat) : (T.allocate r n).1.extent = r.extent := by
  unfold ValueType.allocate
  split
  · rfl
  split
  · rfl
  cases checkedMul n T.size with
  | none => rfl
  | some bytes =>
      have kept := @Resource.claim_extent r bytes bytes T.alignment
      dsimp only
      split <;> exact kept

theorem ValueType.allocateAtLeast_extent (n : Nat) :
    (T.allocateAtLeast r n).1.extent = r.extent := by
  unfold ValueType.allocateAtLeast
  split
  · rfl
  split
  · rfl
  cases checkedMul n T.size with
  | none => rfl
  | some bytes =>
      dsimp only
      split
      · rfl
      have kept := @Resource.claim_extent r bytes (r.usableBytes / T.size * T.size) T.alignment
      split <;> exact kept

theorem ValueType.deallocate_extent (pointer n : Nat) :
    (T.deallocate r pointer n).extent = r.extent := by
  unfold ValueType.deallocate
  split
  · rfl
  split
  · rfl
  cases checkedMul n T.size with
  | none => rfl
  | some bytes => exact Resource.release_extent pointer bytes T.alignment

theorem Shared.perform_extent (shared : Shared) (call : HandleCall) :
    (shared.perform T call).resource.extent = shared.resource.extent := by
  cases call with
  | allocate n =>
      have kept := @ValueType.allocate_extent T shared.resource n
      unfold Shared.perform
      dsimp only
      generalize T.allocate shared.resource n = outcome at kept ⊢
      obtain ⟨r, exn | pointer⟩ := outcome <;> exact kept
  | allocateAtLeast n =>
      have kept := @ValueType.allocateAtLeast_extent T shared.resource n
      unfold Shared.perform
      dsimp only
      generalize T.allocateAtLeast shared.resource n = outcome at kept ⊢
      obtain ⟨r, exn | pointer⟩ := outcome <;> exact kept
  | deallocate pointer n => exact ValueType.deallocate_extent pointer n
  | expand pointer minimumNewBytes => exact Resource.expand_extent pointer minimumNewBytes _

theorem extent_kept {before after : Shared}
    (run : Relation.ReflTransGen handles.step before after) :
    after.resource.extent = before.resource.extent := by
  induction run with
  | refl => rfl
  | tail _ last ih =>
      obtain ⟨T, call, rfl⟩ := last
      rw [Shared.perform_extent, ih]

end Extent

/-- An allocation of `count` objects at `pointer` within the memory of the state. -/
structure FixedState.Holds (state : FixedState) (U : ValueType) (pointer count : Nat) :
    Prop where
  start : pointer = state.backing.base
  aligned : U.alignment ∣ pointer
  usable : count * U.size ≤ state.capacityBytes
  within : pointer + count * U.size ≤ state.backing.base + state.mappingBytes

section Life

variable {T : ValueType} {huge : Bool} {supply : Supply} {loans : List Loan}
  {elementCapacity : Nat} {state : FixedState} {shared : Shared}

theorem ValueType.Occupies.sharedOk
    (occupies : T.Occupies huge supply loans elementCapacity state)
    (positive : 0 < elementCapacity) : SharedOk ⟨state.resource, []⟩ where
  valid := by
    obtain ⟨base, alignment⟩ := occupies.placed
    have usable : 0 < state.resource.usableBytes := by
      have bytes : state.resource.usableBytes = _ := occupies.bytes
      rw [bytes]
      exact Nat.mul_pos positive T.sizePositive
    refine ⟨by rw [base]; exact occupies.covers.nonnull, usable, ?_⟩
    rw [alignment]
    refine ⟨hasSingleBit_iff.mp occupies.covers.single, alignment.ge, ?_⟩
    rw [base]
    exact occupies.covers.aligned
  word := occupies.word
  live := (if_pos (Resource.claimed_eq_false_iff.mp occupies.unclaimed)).symm

theorem sharedOk_run {before after : Shared} (ok : SharedOk before)
    (run : Relation.ReflTransGen handles.step before after) : SharedOk after := by
  induction run with
  | refl => exact ok
  | tail _ last ih => exact handles_inductive.step _ _ ih last

/-- What a handle is granted lies in the memory of the state. -/
theorem ValueType.Occupies.holds (occupies : T.Occupies huge supply loans elementCapacity state)
    (same : shared.resource.extent = state.resource.extent) (ok : SharedOk shared)
    {U : ValueType} {n count : Nat} {r : Resource}
    (grants : U.Grants r n count) (kept : r.extent = shared.resource.extent)
    (aligned : U.alignment ≤ shared.resource.effectiveAlignment) :
    state.Holds U shared.resource.base count := by
  have base : shared.resource.base = state.resource.base := congrArg Prod.fst same
  have usable : shared.resource.usableBytes = state.capacityBytes :=
    congrArg (fun extent => extent.2.1) same
  have keptUsable : r.usableBytes = shared.resource.usableBytes :=
    congrArg (fun extent => extent.2.1) kept
  have fits := grants.usable
  have room : state.capacityBytes ≤ state.backing.bytes := occupies.covers.room
  rw [keptUsable, usable] at fits
  refine ⟨base.trans occupies.placed.1, (ValueType.supports ok.valid aligned).divides, fits, ?_⟩
  rw [base, occupies.placed.1]
  exact Nat.add_le_add_left (fits.trans room) _

/-- A fixed state is constructed exactly when it has a capacity that fits in the address
space and memory for it; whatever its handles do, what they hold lies in this memory and
is aligned for its type. -/
theorem fixed_state_exact (T : ValueType) (huge : Bool) (elementCapacity : Nat)
    (sound : supply.Sound loans) :
    T.FixedEnds huge supply elementCapacity loans
        (T.constructFixed huge supply elementCapacity loans) ∧
      ∀ held state,
        T.constructFixed huge supply elementCapacity loans = (held, .ok state) →
        ∀ shared, Relation.ReflTransGen handles.step ⟨state.resource, []⟩ shared →
          ∀ (U : ValueType) n r pointer, 0 < n →
            (U.allocate shared.resource n = (r, .ok pointer) →
              state.Holds U pointer n) ∧
            ∀ count, U.allocateAtLeast shared.resource n = (r, .ok (pointer, count)) →
              n ≤ count ∧ state.Holds U pointer count := by
  have ends := @ValueType.constructFixed_ends T huge supply loans sound elementCapacity
  refine ⟨ends, fun held state built shared run U n r pointer positive => ?_⟩
  rw [built] at ends
  cases ends with
  | occupied nonempty occupies =>
      have ok := sharedOk_run (occupies.sharedOk nonempty) run
      have same := extent_kept run
      by_cases accepted : shared.resource.claimedMinBytes = 0 ∧
          n ≤ U.maxSize shared.resource
      · obtain ⟨unclaimed, fits⟩ := accepted
        have aligned := ((ValueType.le_maxSize_iff positive).mp fits).1
        obtain ⟨one, result, grants, _⟩ :=
          ValueType.allocate_eq ok.valid ok.word unclaimed positive fits
        obtain ⟨two, result', grants', _⟩ :=
          ValueType.allocateAtLeast_eq ok.valid ok.word unclaimed positive fits
        have extent := @ValueType.allocate_extent U shared.resource n
        have extent' := @ValueType.allocateAtLeast_extent U shared.resource n
        rw [result] at extent
        rw [result'] at extent'
        rw [result, result']
        constructor
        · rintro ⟨⟩
          exact occupies.holds same ok grants extent aligned
        · rintro count ⟨⟩
          exact ⟨grants'.ordered, occupies.holds same ok grants' extent' aligned⟩
      · obtain ⟨exn, result⟩ := ValueType.allocate_throws positive accepted
        obtain ⟨exn', result'⟩ := ValueType.allocateAtLeast_throws positive accepted
        rw [result, result']
        exact ⟨nofun, nofun⟩

end Life

def sampleSupply : Supply where
  newArray bytes alignment :=
    if bytes ≤ 2 ^ 30 ∧ alignment ∣ 2 ^ 30 then some (2 ^ 30) else none
  mapHuge bytes := if bytes ≤ 2 ^ 30 then some (2 ^ 30) else none

theorem sampleSupply_sound : sampleSupply.Sound [] where
  array bytes alignment base given := by
    unfold sampleSupply at given
    dsimp only at given
    split at given
    · rename_i fits
      obtain rfl := Option.some.inj given
      exact ⟨by decide, fits.2, by omega, by simp⟩
    · cases given
  mapping bytes base given := by
    unfold sampleSupply at given
    dsimp only at given
    split at given
    · rename_i fits
      obtain rfl := Option.some.inj given
      exact ⟨by decide, by decide, by omega, by simp⟩
    · cases given

def sampleFixedState : FixedState :=
  ⟨⟨2 ^ 30, 2 ^ 21, 2 ^ 21⟩, ⟨2 ^ 30, 400, 2 ^ 21, 0, 0, 0⟩, 100⟩

theorem sampleFixedState_exact :
    sampleFixedState.mappingBytes = 2 ^ 21 ∧
      sampleFixedState.Holds sampleInts (2 ^ 30) 100 := by
  have built : sampleInts.constructFixed true sampleSupply 100 [] =
      (some [⟨true, sampleFixedState.backing⟩], .ok sampleFixedState) := by
    decide +kernel
  exact ⟨rfl, (((fixed_state_exact sampleInts true 100 sampleSupply_sound).2 _ _ built _ .refl
    sampleInts 100 _ (2 ^ 30) (by decide)).1 rfl)⟩

end Exclusive

end Allocazam
