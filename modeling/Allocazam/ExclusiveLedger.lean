import Allocazam.ExclusiveResource
import Mathlib.Data.List.Chain

/-!
# The claim ledger

Every state of an exclusive resource is unclaimed or holds a well-formed claim,
claims and releases alternate, and a rejected call changes nothing.
-/

namespace Allocazam

namespace Exclusive

inductive Call where
  | claim (minimumBytes maximumBytes alignment : Nat)
  | release (pointer bytes alignment : Nat)
  | expand (pointer minimumNewBytes representableCapacityBytes : Nat)
  deriving DecidableEq, Repr

def Resource.apply (r : Resource) : Call → Resource
  | .claim minimumBytes maximumBytes alignment =>
      (r.claim minimumBytes maximumBytes alignment).1
  | .release pointer bytes alignment => r.release pointer bytes alignment
  | .expand pointer minimumNewBytes representableCapacityBytes =>
      (r.expand pointer minimumNewBytes representableCapacityBytes).1

/-- A claim that returned the base, or a release that ended a claim. -/
inductive Event where
  | claimed
  | released
  deriving DecidableEq, Repr

/-- A resource and the events so far, newest first. -/
structure Ledger where
  resource : Resource
  events : List Event
  deriving DecidableEq, Repr

namespace Ledger

variable (ledger : Ledger)

def event : Call → List Event
  | .claim minimumBytes maximumBytes alignment =>
      if (ledger.resource.claim minimumBytes maximumBytes alignment).2 ≠ 0 then
        [.claimed]
      else []
  | .release pointer bytes alignment =>
      if ledger.resource.claimed ∧
          (ledger.resource.release pointer bytes alignment).claimed = false then
        [.released]
      else []
  | .expand _ _ _ => []

def perform (call : Call) : Ledger :=
  ⟨ledger.resource.apply call, ledger.event call ++ ledger.events⟩

end Ledger

def ledgers : TransitionSystem Ledger where
  start ledger := ∃ base usableBytes effectiveAlignment,
    Resource.construct base usableBytes effectiveAlignment =
      .ok ledger.resource ∧ ledger.events = []
  step ledger ledger' := ∃ call, ledger' = ledger.perform call

/-- The invariant: the last event tells whether the resource is claimed. -/
structure LedgerOk (ledger : Ledger) : Prop where
  valid : ledger.resource.Valid
  state : ledger.resource.Unclaimed ∧ ledger.events.head? ≠ some .claimed ∨
    ledger.resource.Claimed ∧ ledger.events.head? = some .claimed
  alternating : ledger.events.IsChain (· ≠ ·)
  first : ledger.events.getLast? ≠ some .released

namespace LedgerOk

variable {ledger : Ledger} (inv : LedgerOk ledger)

include inv

theorem unclaimed_iff :
    ledger.resource.Unclaimed ↔ ledger.resource.claimedMinBytes = 0 := by
  constructor
  · exact fun unclaimed => unclaimed.1
  · intro unmarked
    rcases inv.state with ⟨unclaimed, _⟩ | ⟨claimed, _⟩
    · exact unclaimed
    · exact absurd unmarked claimed.positive.ne'

theorem claimed_of_marked (marked : ledger.resource.claimedMinBytes ≠ 0) :
    ledger.resource.Claimed ∧ ledger.events.head? = some .claimed := by
  rcases inv.state with ⟨unclaimed, _⟩ | both
  · exact absurd unclaimed.1 marked
  · exact both

theorem claim (minimumBytes maximumBytes alignment : Nat) :
    LedgerOk (ledger.perform (.claim minimumBytes maximumBytes alignment)) := by
  unfold Ledger.perform Ledger.event Resource.apply
  dsimp only
  by_cases accepted : ledger.resource.claimedMinBytes = 0 ∧
      ledger.resource.Claimable minimumBytes maximumBytes alignment
  · obtain ⟨unmarked, fits⟩ := accepted
    rw [Resource.claim_eq unmarked fits]
    dsimp only
    rw [if_pos inv.valid.base.ne']
    have before : ledger.events.head? ≠ some .claimed := by
      rcases inv.state with ⟨_, released⟩ | ⟨claimed, _⟩
      · exact released
      · exact absurd unmarked claimed.positive.ne'
    exact
      { valid := ⟨inv.valid.base, inv.valid.usable, inv.valid.supports.single,
          le_rfl, inv.valid.supports.divides⟩
        state := Or.inr ⟨⟨fits.positive, fits.ordered, fits.usable,
          fits.alignment.single, fits.alignment.effective,
          fits.alignment.divides⟩, rfl⟩
        alternating := by
          apply List.IsChain.cons inv.alternating
          rintro event last rfl
          exact before last
        first := by
          cases events : ledger.events with
          | nil => simp
          | cons event rest =>
              have first := inv.first
              rw [events] at first
              simpa using first }
  · rw [Resource.claim_eq_null accepted]
    exact inv

theorem release (pointer bytes alignment : Nat) :
    LedgerOk (ledger.perform (.release pointer bytes alignment)) := by
  unfold Ledger.perform Ledger.event Resource.apply
  dsimp only
  by_cases valid : ledger.resource.Releasable pointer bytes alignment
  · obtain ⟨claimed, last⟩ := inv.claimed_of_marked valid.1
    rw [Resource.release_eq valid,
      if_pos ⟨Resource.claimed_eq_true_iff.mpr valid.1, rfl⟩]
    exact
      { valid := ⟨inv.valid.base, inv.valid.usable, inv.valid.supports.single,
          le_rfl, inv.valid.supports.divides⟩
        state := Or.inl ⟨⟨rfl, rfl, rfl⟩, by simp⟩
        alternating := by
          apply List.IsChain.cons inv.alternating
          rintro event isLast rfl
          rw [Option.mem_def, last] at isLast
          simp at isLast
        first := by
          cases events : ledger.events with
          | nil => simp [events] at last
          | cons event rest =>
              have first := inv.first
              rw [events] at first
              simpa using first }
  · rw [Resource.release_eq_self valid]
    have quiet : ¬ (ledger.resource.claimed = true ∧
        ledger.resource.claimed = false) := by
      rintro ⟨marked, unmarked⟩
      simp [marked] at unmarked
    rw [if_neg quiet]
    exact inv

theorem expand (pointer minimumNewBytes representableCapacityBytes : Nat) :
    LedgerOk (ledger.perform
      (.expand pointer minimumNewBytes representableCapacityBytes)) := by
  unfold Ledger.perform Ledger.event Resource.apply
  dsimp only
  by_cases grows : ledger.resource.Expandable pointer minimumNewBytes
      representableCapacityBytes
  · obtain ⟨claimed, last⟩ := inv.claimed_of_marked grows.1
    have ordered := claimed.ordered
    rw [Resource.expand_eq grows]
    obtain ⟨_, _, larger, covered, usable⟩ := grows
    exact
      { valid := ⟨inv.valid.base, inv.valid.usable, inv.valid.supports.single,
          le_rfl, inv.valid.supports.divides⟩
        state := Or.inr ⟨⟨claimed.positive, by simp only; omega, usable,
          claimed.alignment.single, claimed.alignment.effective,
          claimed.alignment.divides⟩, last⟩
        alternating := inv.alternating
        first := inv.first }
  · rw [Resource.expand_eq_self grows]
    exact inv

end LedgerOk

theorem ledgers_inductive : ledgers.Inductive LedgerOk where
  start ledger := by
    rintro ⟨base, usableBytes, effectiveAlignment, accepted, none⟩
    obtain ⟨valid, fields⟩ := Resource.construct_ok accepted
    exact
      { valid := valid
        state := Or.inl ⟨by rw [fields]; exact ⟨rfl, rfl, rfl⟩, by simp [none]⟩
        alternating := by
          rw [none]
          exact List.IsChain.nil
        first := by simp [none] }
  step ledger ledger' inv := by
    rintro ⟨call, rfl⟩
    cases call with
    | claim minimumBytes maximumBytes alignment => exact inv.claim _ _ _
    | release pointer bytes alignment => exact inv.release _ _ _
    | expand pointer minimumNewBytes representable => exact inv.expand _ _ _

/-- While a claim lasts its least size and alignment stay, and its largest size
does not shrink. -/
theorem Ledger.claim_kept {ledger : Ledger}
    (claimed : ledger.resource.Claimed) {call : Call}
    (still : (ledger.resource.apply call).Claimed) :
    (ledger.resource.apply call).claimedMinBytes =
        ledger.resource.claimedMinBytes ∧
      (ledger.resource.apply call).claimedAlignment =
        ledger.resource.claimedAlignment ∧
      ledger.resource.claimedMaxBytes ≤
        (ledger.resource.apply call).claimedMaxBytes := by
  have marked := claimed.positive.ne'
  cases call with
  | claim minimumBytes maximumBytes alignment =>
      unfold Resource.apply
      dsimp only
      rw [Resource.claim_eq_null fun accepted => marked accepted.1]
      exact ⟨rfl, rfl, le_rfl⟩
  | release pointer bytes alignment =>
      unfold Resource.apply at still ⊢
      dsimp only at still ⊢
      by_cases valid : ledger.resource.Releasable pointer bytes alignment
      · rw [Resource.release_eq valid] at still
        exact absurd still.positive (lt_irrefl 0)
      · rw [Resource.release_eq_self valid]
        exact ⟨rfl, rfl, le_rfl⟩
  | expand pointer minimumNewBytes representable =>
      unfold Resource.apply
      dsimp only
      by_cases grows : ledger.resource.Expandable pointer minimumNewBytes
          representable
      · rw [Resource.expand_eq grows]
        obtain ⟨_, _, larger, covered, _⟩ := grows
        exact ⟨rfl, rfl, by simp only; omega⟩
      · rw [Resource.expand_eq_self grows]
        exact ⟨rfl, rfl, le_rfl⟩

/-- The ledger of every reachable resource, whatever the calls were. -/
theorem ledger_exact {ledger : Ledger} (reachable : ledgers.Reachable ledger) :
    (ledger.resource.Unclaimed ∨ ledger.resource.Claimed) ∧
    ledger.events.IsChain (· ≠ ·) ∧
    ledger.events.getLast? ≠ some .released ∧
    (ledger.resource.Claimed ↔ ledger.events.head? = some .claimed) ∧
    (∀ minimumBytes maximumBytes alignment,
      ((ledger.resource.claim minimumBytes maximumBytes alignment).2 ≠ 0 ↔
        ledger.resource.Unclaimed ∧
          ledger.resource.Claimable minimumBytes maximumBytes alignment) ∧
      ((ledger.resource.claim minimumBytes maximumBytes alignment).2 = 0 →
        (ledger.resource.claim minimumBytes maximumBytes alignment).1 =
          ledger.resource)) ∧
    (∀ call, ledger.resource.Claimed → (ledger.resource.apply call).Claimed →
      (ledger.resource.apply call).claimedMinBytes =
          ledger.resource.claimedMinBytes ∧
        (ledger.resource.apply call).claimedAlignment =
          ledger.resource.claimedAlignment ∧
        ledger.resource.claimedMaxBytes ≤
          (ledger.resource.apply call).claimedMaxBytes) ∧
    (∀ pointer bytes alignment,
      ¬ ledger.resource.Releasable pointer bytes alignment →
        ledger.resource.release pointer bytes alignment = ledger.resource) ∧
    ∀ pointer minimumNewBytes representable,
      ¬ ledger.resource.Expandable pointer minimumNewBytes representable →
        (ledger.resource.expand pointer minimumNewBytes representable).1 =
          ledger.resource := by
  have inv := ledgers_inductive.reachable reachable
  refine ⟨inv.state.imp And.left And.left, inv.alternating, inv.first, ?_, ?_,
    fun call claimed still => ledger.claim_kept claimed still,
    fun _ _ _ invalid => Resource.release_eq_self invalid,
    fun _ _ _ rejected => by rw [Resource.expand_eq_self rejected]⟩
  · constructor
    · exact fun claimed => (inv.claimed_of_marked claimed.positive.ne').2
    · intro last
      rcases inv.state with ⟨_, released⟩ | ⟨claimed, _⟩
      · exact absurd last released
      · exact claimed
  · intro minimumBytes maximumBytes alignment
    rw [inv.unclaimed_iff]
    by_cases accepted : ledger.resource.claimedMinBytes = 0 ∧
        ledger.resource.Claimable minimumBytes maximumBytes alignment
    · rw [Resource.claim_eq accepted.1 accepted.2]
      exact ⟨⟨fun _ => accepted, fun _ => inv.valid.base.ne'⟩,
        fun null => absurd null inv.valid.base.ne'⟩
    · rw [Resource.claim_eq_null accepted]
      exact ⟨⟨fun nonnull => absurd rfl nonnull, fun both => absurd both accepted⟩,
        fun _ => rfl⟩

def sampleLedger : Ledger :=
  Ledger.perform ⟨⟨4096, 256, 64, 0, 0, 0⟩, []⟩ (.claim 32 96 32)

theorem sampleLedger_reachable : ledgers.Reachable sampleLedger := by
  have begins : ledgers.start ⟨⟨4096, 256, 64, 0, 0, 0⟩, []⟩ :=
    ⟨4096, 256, 64, rfl, rfl⟩
  exact .step (.start begins) ⟨.claim 32 96 32, rfl⟩

theorem sampleLedger_exact :
    sampleLedger.resource.claimedMaxBytes = 96 ∧
      sampleLedger.resource.release 4096 97 32 = sampleLedger.resource :=
  ⟨by decide +kernel,
    (ledger_exact sampleLedger_reachable).2.2.2.2.2.2.1 4096 97 32
      (by unfold Resource.Releasable; decide +kernel)⟩

end Exclusive

end Allocazam
