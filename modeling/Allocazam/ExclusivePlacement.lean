import Allocazam.ExclusiveAllocator

/-!
# Exclusive states on a backing span

A noheap exclusive state owns no memory.  It aligns the span of its caller and
keeps as many whole values as the rest of the span holds.
-/

namespace Allocazam

/-- A `std::span` of bytes: an object in the address space, or nothing. -/
structure Span where
  data : Nat
  size : Nat
  bounded : data + size ≤ 2 ^ 64
  nonnull : 0 < size → 0 < data

/-- `std::align`: the first aligned address from the pointer on and the space
from there, unless the space is too small for the size. -/
def alignWithin (alignment size pointer space : Nat) : Option (Nat × Nat) :=
  let aligned := (pointer + (alignment - 1)) / alignment * alignment
  if aligned - pointer + size > space then none
  else some (aligned, space - (aligned - pointer))

theorem roundUp_isLeast {unit : Nat} (positive : 0 < unit) (value : Nat) :
    IsLeast {rounded | unit ∣ rounded ∧ value ≤ rounded}
      ((value + (unit - 1)) / unit * unit) := by
  have divided := Nat.div_add_mod (value + (unit - 1)) unit
  have remainder := Nat.mod_lt (value + (unit - 1)) positive
  rw [Nat.mul_comm] at divided
  constructor
  · exact ⟨Dvd.intro_left _ rfl, by omega⟩
  · rintro other ⟨⟨count, rfl⟩, covers⟩
    rw [Nat.mul_comm unit count]
    apply Nat.mul_le_mul_right
    apply Nat.le_of_lt_succ
    rw [Nat.div_lt_iff_lt_mul positive, Nat.succ_mul, Nat.mul_comm count unit]
    omega

theorem alignWithin_eq {alignment size pointer space aligned : Nat}
    (positive : 0 < alignment)
    (least : IsLeast {address | alignment ∣ address ∧ pointer ≤ address} aligned) :
    alignWithin alignment size pointer space =
      if aligned + size > pointer + space then none
      else some (aligned, pointer + space - aligned) := by
  have rounded := roundUp_isLeast positive pointer
  have same := le_antisymm (least.2 rounded.1) (rounded.2 least.1)
  have after := least.1.2
  unfold alignWithin
  dsimp only
  rw [← same]
  by_cases small : aligned + size > pointer + space
  · rw [if_pos small, if_pos (by omega)]
  · rw [if_neg small, if_neg (by omega)]
    congr 2
    omega

namespace Exclusive

/-- `allocazam_std_state<noheap, exclusive>::config`. -/
structure Placement where
  base : Nat
  usableBytes : Nat
  alignment : Nat
  elementCapacity : Nat
  deriving DecidableEq, Repr

/-- `allocazam_std_state<noheap, exclusive>`. -/
structure ExternalState where
  resource : Resource
  elementCapacity : Nat
  deriving DecidableEq, Repr

/-- `alignof(std::max_align_t)`. -/
def maxAlignment : Nat :=
  16

namespace ValueType

variable (T : ValueType)

def requiredAlignment : Nat :=
  max T.alignment maxAlignment

def configFor (backing : Span) : Except Exn Placement :=
  if backing.size = 0 then
    .error (.invalidArgument "exclusive state backing must not be empty")
  else
    match alignWithin T.requiredAlignment T.size backing.data backing.size with
    | none =>
        .error (.invalidArgument
          "exclusive state backing cannot satisfy value alignment")
    | some (aligned, space) =>
        let elementCapacity := space / T.size
        if elementCapacity = 0 then
          .error (.invalidArgument
            "exclusive state backing is too small for one value")
        else
          let usableBytes := elementCapacity * T.size % 2 ^ 64
          .ok ⟨aligned, usableBytes, T.requiredAlignment, elementCapacity⟩

def constructFrom (cfg : Placement) : Except Exn ExternalState :=
  match Resource.construct cfg.base cfg.usableBytes cfg.alignment with
  | .error exn => .error exn
  | .ok resource => .ok ⟨resource, cfg.elementCapacity⟩

def constructOn (backing : Span) : Except Exn ExternalState :=
  match T.configFor backing with
  | .error exn => .error exn
  | .ok cfg => constructFrom cfg

def FirstAligned (backing : Span) (base : Nat) : Prop :=
  IsLeast {address | T.requiredAlignment ∣ address ∧ backing.data ≤ address} base

def FitsAt (backing : Span) (base : Nat) : Prop :=
  base + T.size ≤ backing.data + backing.size

/-- A region of whole values in the span from the address on. -/
structure Placed (backing : Span) (base : Nat) (cfg : Placement) :
    Prop where
  start : cfg.base = base
  alignment : cfg.alignment = T.requiredAlignment
  positive : 0 < cfg.elementCapacity
  usable : cfg.usableBytes = cfg.elementCapacity * T.size
  word : cfg.usableBytes < 2 ^ 64
  within : base + cfg.usableBytes ≤ backing.data + backing.size
  maximal : backing.data + backing.size - (base + cfg.usableBytes) < T.size

end ValueType

namespace ExternalState

variable (state : ExternalState)

def capacity : Nat :=
  state.elementCapacity

def capacityBytes : Nat :=
  state.resource.usableBytes

def claimed : Bool :=
  state.resource.claimed

end ExternalState

/-- What a state on a span exposes. -/
structure ValueType.Exposes (T : ValueType) (backing : Span) (base : Nat)
    (state : ExternalState) : Prop where
  start : state.resource.base = base
  bytes : state.capacityBytes = state.capacity * T.size
  word : state.capacityBytes < 2 ^ 64
  within : base + state.capacityBytes ≤ backing.data + backing.size
  maximal : backing.data + backing.size - (base + state.capacityBytes) < T.size
  counted : T.maxSize state.resource = state.capacity
  unclaimed : state.claimed = false

namespace ValueType

variable {T : ValueType}

theorem requiredAlignment_single : ∃ bits, T.requiredAlignment = 2 ^ bits := by
  unfold requiredAlignment
  rcases max_choice T.alignment maxAlignment with own | least
  · rw [own]
    exact T.single
  · rw [least]
    exact ⟨4, rfl⟩

theorem requiredAlignment_pos : 0 < T.requiredAlignment := by
  unfold requiredAlignment maxAlignment
  omega

theorem configFor_spec {backing : Span} {base : Nat}
    (first : T.FirstAligned backing base) :
    (¬ T.FitsAt backing base ∧
        T.configFor backing = .error (.invalidArgument
          (if backing.size = 0 then "exclusive state backing must not be empty"
          else "exclusive state backing cannot satisfy value alignment"))) ∨
      (T.FitsAt backing base ∧
        ∃ cfg, T.configFor backing = .ok cfg ∧ T.Placed backing base cfg) := by
  have positive := T.sizePositive
  have after := first.1.2
  have bounded := backing.bounded
  unfold FitsAt configFor
  by_cases empty : backing.size = 0
  · rw [if_pos empty, if_pos empty]
    exact .inl ⟨by omega, rfl⟩
  rw [if_neg empty, if_neg empty]
  rw [alignWithin_eq requiredAlignment_pos first]
  by_cases small : base + T.size > backing.data + backing.size
  · rw [if_pos small]
    exact .inl ⟨by omega, rfl⟩
  rw [if_neg small]
  dsimp only
  have nonnull := backing.nonnull (Nat.pos_of_ne_zero empty)
  generalize spaceEq : backing.data + backing.size - base = space
  have capacityPositive : 0 < space / T.size :=
    Nat.div_pos (by omega) positive
  have divided := Nat.div_add_mod space T.size
  have remainder := Nat.mod_lt space positive
  rw [Nat.mul_comm] at divided
  have usable : space / T.size * T.size < 2 ^ 64 := by omega
  rw [if_neg capacityPositive.ne', Nat.mod_eq_of_lt usable]
  refine .inr ⟨by omega, _, rfl, ?_⟩
  exact
    { start := rfl
      alignment := rfl
      positive := capacityPositive
      usable := rfl
      word := usable
      within := by dsimp only; omega
      maximal := by dsimp only; omega }

/-- The second layer of validation never rejects what the first accepts. -/
theorem Placed.construct {backing : Span} {base : Nat} {cfg : Placement}
    (placed : T.Placed backing base cfg) (first : T.FirstAligned backing base) :
    Resource.construct cfg.base cfg.usableBytes cfg.alignment =
      .ok ⟨base, cfg.usableBytes, T.requiredAlignment, 0, 0, 0⟩ := by
  have nonempty : 0 < cfg.usableBytes := by
    rw [placed.usable]
    exact Nat.mul_pos placed.positive T.sizePositive
  have within := placed.within
  have after := first.1.2
  have room : 0 < backing.size ∨ 0 < base := by omega
  have nonnull : 0 < base := by
    rcases room with some | nonzero
    · exact (backing.nonnull some).trans_le after
    · exact nonzero
  have single := hasSingleBit_iff.mpr (requiredAlignment_single (T := T))
  have aligned := (isAligned_iff (requiredAlignment_single (T := T))).mpr first.1.1
  unfold Resource.construct
  rw [placed.start, placed.alignment, if_neg nonnull.ne', if_neg nonempty.ne',
    if_neg, if_neg]
  · rw [aligned]
    decide
  · rw [single]
    have positive := requiredAlignment_pos (T := T)
    simp
    omega

theorem Placed.exposes {backing : Span} {base : Nat} {cfg : Placement}
    (placed : T.Placed backing base cfg) :
    T.Exposes backing base
      ⟨⟨base, cfg.usableBytes, T.requiredAlignment, 0, 0, 0⟩,
        cfg.elementCapacity⟩ where
  start := rfl
  bytes := placed.usable
  word := placed.word
  within := placed.within
  maximal := placed.maximal
  counted := by
    have covered : T.alignment ≤ T.requiredAlignment := le_max_left _ _
    unfold maxSize ExternalState.capacity
    dsimp only
    rw [if_pos covered, placed.usable,
      Nat.mul_div_cancel _ T.sizePositive]
  unclaimed := rfl

/-- A span gets as many whole values as it holds from its first aligned
address on, and is rejected exactly when that is none. -/
theorem placement_exact (T : ValueType) (backing : Span) :
    (∀ cfg, T.configFor backing = .ok cfg →
      ∃ r, Resource.construct cfg.base cfg.usableBytes cfg.alignment = .ok r) ∧
    ∃ base, T.FirstAligned backing base ∧
      ((¬ T.FitsAt backing base ∧
          ∃ message, T.constructOn backing = .error (.invalidArgument message)) ∨
        (T.FitsAt backing base ∧
          ∃ state, T.constructOn backing = .ok state ∧
            T.Exposes backing base state)) := by
  have first : T.FirstAligned backing _ :=
    roundUp_isLeast requiredAlignment_pos backing.data
  unfold constructOn constructFrom
  rcases configFor_spec first with ⟨small, rejected⟩ | ⟨fits, cfg, accepted, placed⟩
  · rw [rejected]
    constructor
    · rintro cfg accepted
      cases accepted
    · exact ⟨_, first, .inl ⟨small, _, rfl⟩⟩
  · rw [accepted]
    dsimp only
    rw [placed.construct first]
    constructor
    · rintro other same
      cases same
      exact ⟨_, placed.construct first⟩
    · exact ⟨_, first, .inr ⟨fits, _, rfl, placed.exposes⟩⟩

end ValueType

end Exclusive

end Allocazam
