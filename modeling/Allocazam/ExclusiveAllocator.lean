import Allocazam.ExclusiveLedger

/-!
# Exclusive allocators

Handles of all value types on one exclusive state share its resource, and so
share one claim.
-/

namespace Allocazam

namespace Exclusive

/-- The size and alignment of a type. -/
structure ValueType where
  size : Nat
  alignment : Nat
  sizePositive : 0 < size
  single : ∃ bits, alignment = 2 ^ bits

namespace ValueType

variable (T : ValueType) (r : Resource)

def theoreticalMaxSize : Nat :=
  (2 ^ 64 - 1) / T.size

def maxSize : Nat :=
  if T.alignment ≤ r.effectiveAlignment then r.usableBytes / T.size else 0

def allocate (n : Nat) : Resource × Except Exn Nat :=
  if n = 0 then (r, .ok 0)
  else if n > T.theoreticalMaxSize then (r, .error .badArrayNewLength)
  else
    match checkedMul n T.size with
    | none => (r, .error .badArrayNewLength)
    | some bytes =>
        let (r, raw) := r.claim bytes bytes T.alignment
        if raw = 0 then (r, .error .badAlloc) else (r, .ok raw)

/-- `allocate_at_least`: the pointer and the count. -/
def allocateAtLeast (n : Nat) : Resource × Except Exn (Nat × Nat) :=
  if n = 0 then (r, .ok (0, 0))
  else if n > T.theoreticalMaxSize then (r, .error .badArrayNewLength)
  else
    match checkedMul n T.size with
    | none => (r, .error .badArrayNewLength)
    | some minimumBytes =>
        let returnedCount := r.usableBytes / T.size
        if n > returnedCount ∨ T.alignment > r.effectiveAlignment then
          (r, .error .badAlloc)
        else
          let maximumBytes := returnedCount * T.size
          let (r, raw) := r.claim minimumBytes maximumBytes T.alignment
          if raw = 0 then (r, .error .badAlloc)
          else (r, .ok (raw, returnedCount))

/-- `deallocate`, with assertions compiled out. -/
def deallocate (pointer n : Nat) : Resource :=
  if pointer = 0 ∧ n = 0 then r
  else if pointer = 0 ∨ n = 0 then r
  else
    match checkedMul n T.size with
    | none => r
    | some bytes => r.release pointer bytes T.alignment

def expand (pointer minimumNewBytes : Nat) : Resource × Nat :=
  let representableCapacityBytes := r.usableBytes / T.size * T.size
  r.expand pointer minimumNewBytes representableCapacityBytes

/-- Expansions one after the other, with the largest count granted so far. -/
def expands : List (Nat × Nat) → Resource × Nat → Resource × Nat
  | [], granted => granted
  | (pointer, minimumNewBytes) :: calls, (r, count) =>
      let (r, bytes) := T.expand r pointer minimumNewBytes
      expands calls (r, max count (bytes / T.size))

end ValueType

inductive HandleCall where
  | allocate (n : Nat)
  | allocateAtLeast (n : Nat)
  | deallocate (pointer n : Nat)
  | expand (pointer minimumNewBytes : Nat)
  deriving DecidableEq, Repr

/-- The resource of an exclusive state, and the nonzero allocations that were
handed out and not yet released. -/
structure Shared where
  resource : Resource
  live : List Nat

namespace Shared

variable (shared : Shared) (T : ValueType)

def perform : HandleCall → Shared
  | .allocate n =>
      match T.allocate shared.resource n with
      | (r, .ok pointer) =>
          ⟨r, if pointer = 0 then shared.live else pointer :: shared.live⟩
      | (r, .error _) => ⟨r, shared.live⟩
  | .allocateAtLeast n =>
      match T.allocateAtLeast shared.resource n with
      | (r, .ok (pointer, _)) =>
          ⟨r, if pointer = 0 then shared.live else pointer :: shared.live⟩
      | (r, .error _) => ⟨r, shared.live⟩
  | .deallocate pointer n =>
      let r := T.deallocate shared.resource pointer n
      ⟨r, if shared.resource.claimed && !r.claimed then
          shared.live.erase pointer
        else shared.live⟩
  | .expand pointer minimumNewBytes =>
      ⟨(T.expand shared.resource pointer minimumNewBytes).1, shared.live⟩

end Shared

/-- The runs of all handles on one exclusive state.  The handles are copies and
rebinds of each other; a call chooses the value type of its handle. -/
def handles : TransitionSystem Shared where
  start shared := ∃ base usableBytes effectiveAlignment,
    Resource.construct base usableBytes effectiveAlignment =
      .ok shared.resource ∧ usableBytes < 2 ^ 64 ∧ shared.live = []
  step shared shared' := ∃ T call, shared' = shared.perform T call

namespace ValueType

variable {T : ValueType} {r : Resource} {n : Nat}

theorem count_le_iff {count bytes : Nat} :
    count ≤ bytes / T.size ↔ count * T.size ≤ bytes :=
  Nat.le_div_iff_mul_le T.sizePositive

theorem small_of_fits (word : r.usableBytes < 2 ^ 64)
    (fits : n * T.size ≤ r.usableBytes) :
    n ≤ T.theoreticalMaxSize ∧ checkedMul n T.size = some (n * T.size) := by
  constructor
  · exact count_le_iff.mpr (by omega)
  · exact checkedMul_eq_some.mpr ⟨by omega, rfl⟩

theorem supports (valid : r.Valid) (aligned : T.alignment ≤ r.effectiveAlignment) :
    r.Supports T.alignment where
  single := T.single
  effective := aligned
  divides := by
    obtain ⟨bits, alignmentEq⟩ := T.single
    obtain ⟨effectiveBits, effectiveEq⟩ := valid.supports.single
    apply Nat.dvd_trans _ valid.supports.divides
    rw [alignmentEq, effectiveEq] at aligned ⊢
    exact Nat.pow_dvd_pow 2
      ((Nat.pow_le_pow_iff_right (by decide : 1 < 2)).mp aligned)

theorem le_maxSize_iff (positive : 0 < n) :
    n ≤ T.maxSize r ↔
      T.alignment ≤ r.effectiveAlignment ∧ n * T.size ≤ r.usableBytes := by
  unfold maxSize
  split
  · rename_i aligned
    rw [count_le_iff]
    exact (and_iff_right aligned).symm
  · rename_i overAligned
    constructor
    · omega
    · exact fun both => absurd both.1 overAligned

/-- The resource while a claim of `n` objects that may grow to `count` lasts. -/
structure Grants (T : ValueType) (r : Resource) (n count : Nat) : Prop where
  valid : r.Valid
  word : r.usableBytes < 2 ^ 64
  positive : 0 < n
  ordered : n ≤ count
  minimum : r.claimedMinBytes = n * T.size
  maximum : r.claimedMaxBytes = count * T.size
  usable : count * T.size ≤ r.usableBytes
  alignment : r.claimedAlignment = T.alignment

theorem claim_grants {count : Nat} (valid : r.Valid)
    (word : r.usableBytes < 2 ^ 64) (unclaimed : r.claimedMinBytes = 0)
    (positive : 0 < n) (ordered : n ≤ count)
    (aligned : T.alignment ≤ r.effectiveAlignment)
    (usable : count * T.size ≤ r.usableBytes) :
    ∃ s, r.claim (n * T.size) (count * T.size) T.alignment = (s, r.base) ∧
      T.Grants s n count ∧ s.base = r.base := by
  have fits : r.Claimable (n * T.size) (count * T.size) T.alignment :=
    ⟨Nat.mul_pos positive T.sizePositive, Nat.mul_le_mul_right _ ordered, usable,
      supports valid aligned⟩
  refine ⟨_, Resource.claim_eq unclaimed fits, ?_, rfl⟩
  exact
    { valid := ⟨valid.base, valid.usable, valid.supports.single, le_rfl,
        valid.supports.divides⟩
      word := word
      positive := positive
      ordered := ordered
      minimum := rfl
      maximum := rfl
      usable := usable
      alignment := rfl }

theorem allocate_eq (valid : r.Valid) (word : r.usableBytes < 2 ^ 64)
    (unclaimed : r.claimedMinBytes = 0) (positive : 0 < n)
    (fits : n ≤ T.maxSize r) :
    ∃ s, T.allocate r n = (s, .ok r.base) ∧ T.Grants s n n ∧
      s.base = r.base := by
  obtain ⟨aligned, usable⟩ := (le_maxSize_iff positive).mp fits
  obtain ⟨small, product⟩ := small_of_fits word usable
  obtain ⟨s, claimed, grants, baseEq⟩ :=
    claim_grants valid word unclaimed positive le_rfl aligned usable
  refine ⟨s, ?_, grants, baseEq⟩
  unfold allocate
  rw [if_neg positive.ne', if_neg (by omega), product]
  dsimp only
  rw [claimed]
  exact if_neg valid.base.ne'

theorem allocate_throws (positive : 0 < n)
    (rejected : ¬ (r.claimedMinBytes = 0 ∧ n ≤ T.maxSize r)) :
    ∃ exn, T.allocate r n = (r, .error exn) := by
  unfold allocate
  rw [if_neg positive.ne']
  split
  · exact ⟨_, rfl⟩
  cases product : checkedMul n T.size with
  | none => exact ⟨_, rfl⟩
  | some bytes =>
      obtain ⟨_, rfl⟩ := checkedMul_eq_some.mp product
      have refused : ¬ (r.claimedMinBytes = 0 ∧
          r.Claimable (n * T.size) (n * T.size) T.alignment) := by
        rintro ⟨unclaimed, fits⟩
        exact rejected ⟨unclaimed, (le_maxSize_iff positive).mpr
          ⟨fits.alignment.effective, fits.usable⟩⟩
      dsimp only
      rw [Resource.claim_eq_null refused]
      exact ⟨_, rfl⟩

theorem allocateAtLeast_eq (valid : r.Valid) (word : r.usableBytes < 2 ^ 64)
    (unclaimed : r.claimedMinBytes = 0) (positive : 0 < n)
    (fits : n ≤ T.maxSize r) :
    ∃ s, T.allocateAtLeast r n =
        (s, .ok (r.base, r.usableBytes / T.size)) ∧
      T.Grants s n (r.usableBytes / T.size) ∧ s.base = r.base := by
  obtain ⟨aligned, usable⟩ := (le_maxSize_iff positive).mp fits
  obtain ⟨small, product⟩ := small_of_fits word usable
  obtain ⟨s, claimed, grants, baseEq⟩ :=
    claim_grants valid word unclaimed positive (count_le_iff.mpr usable) aligned
      (Nat.div_mul_le_self _ _)
  refine ⟨s, ?_, grants, baseEq⟩
  have enough : n ≤ r.usableBytes / T.size := count_le_iff.mpr usable
  unfold allocateAtLeast
  rw [if_neg positive.ne', if_neg (by omega), product]
  dsimp only
  rw [if_neg (by omega), claimed]
  exact if_neg valid.base.ne'

theorem allocateAtLeast_throws (positive : 0 < n)
    (rejected : ¬ (r.claimedMinBytes = 0 ∧ n ≤ T.maxSize r)) :
    ∃ exn, T.allocateAtLeast r n = (r, .error exn) := by
  unfold allocateAtLeast
  rw [if_neg positive.ne']
  split
  · exact ⟨_, rfl⟩
  cases product : checkedMul n T.size with
  | none => exact ⟨_, rfl⟩
  | some bytes =>
      obtain ⟨_, rfl⟩ := checkedMul_eq_some.mp product
      dsimp only
      split
      · exact ⟨_, rfl⟩
      rename_i accepted
      have refused : ¬ (r.claimedMinBytes = 0 ∧
          r.Claimable (n * T.size) (r.usableBytes / T.size * T.size)
            T.alignment) := by
        rintro ⟨unclaimed, fits⟩
        rw [not_or, Nat.not_lt, Nat.not_lt] at accepted
        exact rejected ⟨unclaimed, (le_maxSize_iff positive).mpr
          ⟨accepted.2, count_le_iff.mp accepted.1⟩⟩
      rw [Resource.claim_eq_null refused]
      exact ⟨_, rfl⟩

namespace Grants

variable {count : Nat} (grants : T.Grants r n count)

include grants

theorem marked : r.claimedMinBytes ≠ 0 := by
  rw [grants.minimum]
  exact (Nat.mul_pos grants.positive T.sizePositive).ne'

theorem expand (pointer minimumNewBytes : Nat) :
    T.Grants (T.expand r pointer minimumNewBytes).1 n
        (max count ((T.expand r pointer minimumNewBytes).2 / T.size)) ∧
      (T.expand r pointer minimumNewBytes).1.base = r.base := by
  have ordered := grants.ordered
  have maximum := grants.maximum
  unfold ValueType.expand
  dsimp only
  by_cases grows : r.Expandable pointer minimumNewBytes
      (r.usableBytes / T.size * T.size)
  · have larger : count ≤ r.usableBytes / T.size := count_le_iff.mpr grants.usable
    rw [Resource.expand_eq grows]
    dsimp only
    rw [Nat.mul_div_cancel _ T.sizePositive, max_eq_right larger]
    exact ⟨
      { valid := ⟨grants.valid.base, grants.valid.usable,
          grants.valid.supports.single, le_rfl, grants.valid.supports.divides⟩
        word := grants.word
        positive := grants.positive
        ordered := ordered.trans larger
        minimum := grants.minimum
        maximum := rfl
        usable := Nat.div_mul_le_self _ _
        alignment := grants.alignment }, rfl⟩
  · have kept : max count ((if r.claimedMinBytes ≠ 0 ∧ pointer = r.base then
        r.claimedMaxBytes else 0) / T.size) = count := by
      split
      · rw [maximum, Nat.mul_div_cancel _ T.sizePositive, max_self]
      · rw [Nat.zero_div, max_eq_left (Nat.zero_le _)]
    rw [Resource.expand_eq_self grows]
    dsimp only
    rw [kept]
    exact ⟨grants, rfl⟩

theorem expands (calls : List (Nat × Nat)) :
    T.Grants (T.expands calls (r, count)).1 n (T.expands calls (r, count)).2 ∧
      (T.expands calls (r, count)).1.base = r.base := by
  induction calls generalizing r count with
  | nil => exact ⟨grants, rfl⟩
  | cons call calls ih =>
      obtain ⟨pointer, minimumNewBytes⟩ := call
      obtain ⟨expanded, baseEq⟩ := grants.expand pointer minimumNewBytes
      obtain ⟨rest, restEq⟩ := ih expanded
      exact ⟨rest, restEq.trans baseEq⟩

theorem releasable_iff {pointer m : Nat} :
    r.Releasable pointer (m * T.size) T.alignment ↔
      pointer = r.base ∧ n ≤ m ∧ m ≤ count := by
  unfold Resource.Releasable
  rw [grants.minimum, grants.maximum, grants.alignment,
    Nat.mul_le_mul_right_iff T.sizePositive,
    Nat.mul_le_mul_right_iff T.sizePositive]
  have positive := (Nat.mul_pos grants.positive T.sizePositive).ne'
  tauto

/-- The claim ends exactly when the pointer and a count in range come back. -/
theorem deallocate (pointer m : Nat) :
    ((T.deallocate r pointer m).claimed = false ↔
      pointer = r.base ∧ n ≤ m ∧ m ≤ count) ∧
    (¬ (pointer = r.base ∧ n ≤ m ∧ m ≤ count) →
      T.deallocate r pointer m = r) := by
  have baseNonnull := grants.valid.base
  have positive := grants.positive
  have marked := Resource.claimed_eq_true_iff.mpr grants.marked
  by_cases valid : pointer = r.base ∧ n ≤ m ∧ m ≤ count
  · have usable : m * T.size ≤ r.usableBytes :=
      (Nat.mul_le_mul_right _ valid.2.2).trans grants.usable
    have released : T.deallocate r pointer m =
        { r with
          claimedMinBytes := 0
          claimedMaxBytes := 0
          claimedAlignment := 0 } := by
      unfold ValueType.deallocate
      rw [if_neg (by omega), if_neg (by omega),
        (small_of_fits grants.word usable).2]
      exact Resource.release_eq (grants.releasable_iff.mpr valid)
    rw [released]
    exact ⟨⟨fun _ => valid, fun _ => rfl⟩, fun invalid => absurd valid invalid⟩
  · have kept : T.deallocate r pointer m = r := by
      unfold ValueType.deallocate
      split
      · rfl
      split
      · rfl
      cases product : checkedMul m T.size with
      | none => rfl
      | some bytes =>
          obtain ⟨_, rfl⟩ := checkedMul_eq_some.mp product
          exact Resource.release_eq_self fun releasable =>
            valid (grants.releasable_iff.mp releasable)
    rw [kept]
    exact ⟨⟨fun unmarked => by simp [marked] at unmarked,
      fun both => absurd both valid⟩, fun _ => rfl⟩

end Grants

theorem deallocate_cases (pointer m : Nat) :
    T.deallocate r pointer m = r ∨
      r.claimedMinBytes ≠ 0 ∧ pointer = r.base ∧
        T.deallocate r pointer m =
          { r with
            claimedMinBytes := 0
            claimedMaxBytes := 0
            claimedAlignment := 0 } := by
  unfold ValueType.deallocate
  split
  · exact Or.inl rfl
  split
  · exact Or.inl rfl
  cases checkedMul m T.size with
  | none => exact Or.inl rfl
  | some bytes =>
      by_cases valid : r.Releasable pointer bytes T.alignment
      · exact Or.inr ⟨valid.1, valid.2.1, Resource.release_eq valid⟩
      · exact Or.inl (Resource.release_eq_self valid)

theorem expand_kept (pointer minimumNewBytes : Nat) :
    ∃ maximum, (T.expand r pointer minimumNewBytes).1 =
      { r with claimedMaxBytes := maximum } := by
  unfold ValueType.expand
  dsimp only
  by_cases grows : r.Expandable pointer minimumNewBytes
      (r.usableBytes / T.size * T.size)
  · rw [Resource.expand_eq grows]
    exact ⟨_, rfl⟩
  · rw [Resource.expand_eq_self grows]
    exact ⟨r.claimedMaxBytes, rfl⟩

end ValueType

/-- The invariant: the claim is the live allocation. -/
structure SharedOk (shared : Shared) : Prop where
  valid : shared.resource.Valid
  word : shared.resource.usableBytes < 2 ^ 64
  live : shared.live = if shared.resource.claimedMinBytes = 0 then []
    else [shared.resource.base]

namespace SharedOk

variable {shared : Shared} (inv : SharedOk shared)

include inv

theorem live_eq_nil_iff :
    shared.live = [] ↔ shared.resource.claimedMinBytes = 0 := by
  rw [inv.live]
  split <;> simp_all

/-- The state after an allocation that started a claim. -/
theorem granted {T : ValueType} {r : Resource} {n count : Nat}
    (unclaimed : shared.resource.claimedMinBytes = 0)
    (grants : T.Grants r n count) (baseEq : r.base = shared.resource.base) :
    SharedOk ⟨r, shared.resource.base :: shared.live⟩ where
  valid := grants.valid
  word := grants.word
  live := by
    rw [if_neg grants.marked, inv.live_eq_nil_iff.mpr unclaimed, baseEq]

theorem perform (T : ValueType) (call : HandleCall) :
    SharedOk (shared.perform T call) := by
  have nonnull := inv.valid.base.ne'
  cases call with
  | allocate n =>
      unfold Shared.perform
      dsimp only
      rcases Nat.eq_zero_or_pos n with rfl | positive
      · exact inv
      by_cases accepted : shared.resource.claimedMinBytes = 0 ∧
          n ≤ T.maxSize shared.resource
      · obtain ⟨r, result, grants, baseEq⟩ := ValueType.allocate_eq inv.valid
          inv.word accepted.1 positive accepted.2
        rw [result]
        dsimp only
        rw [if_neg nonnull]
        exact inv.granted accepted.1 grants baseEq
      · obtain ⟨exn, result⟩ := ValueType.allocate_throws positive accepted
        rw [result]
        exact inv
  | allocateAtLeast n =>
      unfold Shared.perform
      dsimp only
      rcases Nat.eq_zero_or_pos n with rfl | positive
      · exact inv
      by_cases accepted : shared.resource.claimedMinBytes = 0 ∧
          n ≤ T.maxSize shared.resource
      · obtain ⟨r, result, grants, baseEq⟩ := ValueType.allocateAtLeast_eq
          inv.valid inv.word accepted.1 positive accepted.2
        rw [result]
        dsimp only
        rw [if_neg nonnull]
        exact inv.granted accepted.1 grants baseEq
      · obtain ⟨exn, result⟩ :=
          ValueType.allocateAtLeast_throws positive accepted
        rw [result]
        exact inv
  | deallocate pointer n =>
      unfold Shared.perform
      dsimp only
      rcases T.deallocate_cases (r := shared.resource) pointer n with
        kept | ⟨marked, rfl, released⟩
      · rw [kept, Bool.and_not_self]
        exact inv
      · have claimed := Resource.claimed_eq_true_iff.mpr marked
        rw [released, claimed]
        exact
          { valid := ⟨inv.valid.base, inv.valid.usable,
              inv.valid.supports.single, le_rfl, inv.valid.supports.divides⟩
            word := inv.word
            live := by
              have live := inv.live
              rw [if_neg marked] at live
              show (shared.live.erase shared.resource.base) = []
              rw [live, List.erase_cons_head] }
  | expand pointer minimumNewBytes =>
      obtain ⟨maximum, result⟩ :=
        T.expand_kept (r := shared.resource) pointer minimumNewBytes
      unfold Shared.perform
      dsimp only
      rw [result]
      exact
        { valid := ⟨inv.valid.base, inv.valid.usable,
            inv.valid.supports.single, le_rfl, inv.valid.supports.divides⟩
          word := inv.word
          live := inv.live }

end SharedOk

theorem handles_inductive : handles.Inductive SharedOk where
  start shared := by
    rintro ⟨base, usableBytes, effectiveAlignment, accepted, word, none⟩
    obtain ⟨valid, fields⟩ := Resource.construct_ok accepted
    exact
      { valid := valid
        word := by
          rw [fields]
          exact word
        live := by
          rw [none, fields]
          rfl }
  step shared shared' inv := by
    rintro ⟨T, call, rfl⟩
    exact inv.perform T call

/-- What deallocation does to a claim after an allocation of `n` objects granted
at `pointer` and any expansions through handles of the same type. -/
def EndsExactly (T : ValueType) (r : Resource) (pointer n count : Nat) : Prop :=
  ∀ calls q m, let (r, count) := T.expands calls (r, count)
    ((T.deallocate r q m).claimed = false ↔
      q = pointer ∧ n ≤ m ∧ m ≤ count) ∧
    (¬ (q = pointer ∧ n ≤ m ∧ m ≤ count) → T.deallocate r q m = r)

theorem ValueType.Grants.endsExactly {T : ValueType} {r : Resource}
    {pointer n count : Nat} (grants : T.Grants r n count)
    (baseEq : r.base = pointer) : EndsExactly T r pointer n count := by
  intro calls q m
  obtain ⟨last, lastEq⟩ := grants.expands calls
  have ends := last.deallocate q m
  rw [lastEq, baseEq] at ends
  exact ends

/-- All handles of an exclusive state share one claim. -/
theorem claim_shared {shared : Shared} (reachable : handles.Reachable shared) :
    shared.live.length ≤ 1 ∧
    (∀ (T : ValueType) n, 0 < n →
      (shared.live = [] ∧ n ≤ T.maxSize shared.resource →
        (∃ r pointer, pointer ≠ 0 ∧
          T.allocate shared.resource n = (r, .ok pointer) ∧
          EndsExactly T r pointer n n) ∧
        ∃ r pointer count, pointer ≠ 0 ∧
          T.allocateAtLeast shared.resource n = (r, .ok (pointer, count)) ∧
          EndsExactly T r pointer n count) ∧
      (¬ (shared.live = [] ∧ n ≤ T.maxSize shared.resource) →
        (∃ exn, T.allocate shared.resource n =
          (shared.resource, .error exn)) ∧
        ∃ exn, T.allocateAtLeast shared.resource n =
          (shared.resource, .error exn))) ∧
    ∀ (T : ValueType) pointer m, shared.live ≠ [] →
      (T.deallocate shared.resource pointer m).claimed = false →
        ∀ U : ValueType, 0 < U.maxSize shared.resource →
          ∃ r pointer', pointer' ≠ 0 ∧
            U.allocate (T.deallocate shared.resource pointer m)
              (U.maxSize shared.resource) = (r, .ok pointer') := by
  have inv := handles_inductive.reachable reachable
  have nonnull := inv.valid.base.ne'
  refine ⟨?_, fun T n positive => ⟨?_, ?_⟩, fun T pointer m live ended U room => ?_⟩
  · rw [inv.live]
    split <;> simp
  · rintro ⟨none, fits⟩
    have unclaimed := inv.live_eq_nil_iff.mp none
    obtain ⟨r, result, grants, baseEq⟩ :=
      ValueType.allocate_eq inv.valid inv.word unclaimed positive fits
    obtain ⟨r', result', grants', baseEq'⟩ :=
      ValueType.allocateAtLeast_eq inv.valid inv.word unclaimed positive fits
    exact ⟨⟨r, _, nonnull, result, grants.endsExactly baseEq⟩,
      ⟨r', _, _, nonnull, result', grants'.endsExactly baseEq'⟩⟩
  · intro rejected
    rw [inv.live_eq_nil_iff] at rejected
    exact ⟨ValueType.allocate_throws positive rejected,
      ValueType.allocateAtLeast_throws positive rejected⟩
  · rcases T.deallocate_cases (r := shared.resource) pointer m with
      kept | ⟨_, _, released⟩
    · rw [kept, Resource.claimed_eq_false_iff] at ended
      exact absurd (inv.live_eq_nil_iff.mpr ended) live
    · have valid : Resource.Valid
          { shared.resource with
            claimedMinBytes := 0
            claimedMaxBytes := 0
            claimedAlignment := 0 } :=
        ⟨inv.valid.base, inv.valid.usable, inv.valid.supports.single, le_rfl,
          inv.valid.supports.divides⟩
      obtain ⟨r, result, _, _⟩ :=
        ValueType.allocate_eq (T := U) valid inv.word rfl room le_rfl
      rw [released]
      exact ⟨r, _, nonnull, result⟩

def sampleBytes : ValueType where
  size := 1
  alignment := 1
  sizePositive := by decide
  single := ⟨0, rfl⟩

def sampleInts : ValueType where
  size := 4
  alignment := 4
  sizePositive := by decide
  single := ⟨2, rfl⟩

def sampleShared : Shared :=
  Shared.perform ⟨⟨4096, 64, 16, 0, 0, 0⟩, []⟩ sampleInts (.allocate 4)

theorem sampleShared_reachable : handles.Reachable sampleShared := by
  have begins : handles.start ⟨⟨4096, 64, 16, 0, 0, 0⟩, []⟩ :=
    ⟨4096, 64, 16, rfl, by decide, rfl⟩
  exact .step (.start begins) ⟨sampleInts, .allocate 4, rfl⟩

theorem sampleShared_claimed :
    sampleShared.live = [4096] ∧
      ∃ exn, sampleBytes.allocate sampleShared.resource 1 =
        (sampleShared.resource, .error exn) :=
  ⟨rfl, (((claim_shared sampleShared_reachable).2.1 sampleBytes 1
    (by decide)).2 (by decide +kernel)).1⟩

end Exclusive

end Allocazam
