import Mathlib.Data.Set.Lattice
import Mathlib.Logic.Pairwise
import Mathlib.Order.CompletePartialOrder

/-!
# Components on a shared memory

Several components live on one memory.  Each owns a set of addresses, and what
it requires of the memory reads these addresses only.  A component that writes
to its own addresses, old ones or newly acquired ones, disturbs no other.
-/

namespace Allocazam

/-- The addresses each component owns and what it requires of the memory. -/
structure Tenancy (Index Addr Word : Type*) where
  owns : Index → Set Addr
  holds : Index → (Addr → Word) → Prop
  framed : ∀ i mem mem', holds i mem →
    (∀ addr ∈ owns i, mem' addr = mem addr) → holds i mem'

namespace Tenancy

variable {Index Addr Word : Type*} {tenancy next : Tenancy Index Addr Word}
  {mem mem' : Addr → Word} {i j : Index} {addr : Addr}

def InUse (tenancy : Tenancy Index Addr Word) (addr : Addr) : Prop :=
  ∃ i, addr ∈ tenancy.owns i

/-- All components are content and their addresses are disjoint. -/
structure Ok (tenancy : Tenancy Index Addr Word) (mem : Addr → Word) :
    Prop where
  apart : Pairwise fun i j => Disjoint (tenancy.owns i) (tenancy.owns j)
  holds : ∀ i, tenancy.holds i mem

/-- Component `i` goes from one tenancy to the next: it may acquire unused
addresses, and it writes only where it ends up owning. -/
structure Moves (tenancy next : Tenancy Index Addr Word) (i : Index)
    (mem mem' : Addr → Word) : Prop where
  owns : ∀ j ≠ i, next.owns j = tenancy.owns j
  holds : ∀ j ≠ i, ∀ mem, tenancy.holds j mem → next.holds j mem
  acquires : ∀ addr ∈ next.owns i, addr ∈ tenancy.owns i ∨ ¬ tenancy.InUse addr
  writes : ∀ addr ∉ next.owns i, mem' addr = mem addr

namespace Ok

variable (ok : tenancy.Ok mem)

include ok

theorem eq_of_owns (first : addr ∈ tenancy.owns i)
    (second : addr ∈ tenancy.owns j) : i = j := by
  by_contra distinct
  exact Set.disjoint_left.mp (ok.apart distinct) first second

/-- What one component acquires and writes is no concern of another. -/
theorem foreign (moves : tenancy.Moves next i mem mem') (distinct : j ≠ i)
    (owned : addr ∈ tenancy.owns j) : addr ∉ next.owns i := by
  intro acquired
  rcases moves.acquires addr acquired with old | unused
  · exact distinct (ok.eq_of_owns owned old)
  · exact unused ⟨j, owned⟩

theorem kept (moves : tenancy.Moves next i mem mem') (distinct : j ≠ i)
    (owned : addr ∈ tenancy.owns j) : mem' addr = mem addr :=
  moves.writes addr (ok.foreign moves distinct owned)

/-- A move of one component that ends well for it ends well for all. -/
theorem moved (moves : tenancy.Moves next i mem mem')
    (holds : next.holds i mem') : next.Ok mem' where
  apart := by
    intro j k distinct
    apply Set.disjoint_left.mpr
    intro addr first second
    by_cases jMoved : j = i
    · subst jMoved
      rw [moves.owns k distinct.symm] at second
      exact ok.foreign moves distinct.symm second first
    · rw [moves.owns j jMoved] at first
      by_cases kMoved : k = i
      · subst kMoved
        exact ok.foreign moves jMoved first second
      · rw [moves.owns k kMoved] at second
        exact distinct (ok.eq_of_owns first second)
  holds := by
    intro j
    by_cases moved : j = i
    · exact moved ▸ holds
    · apply next.framed j mem mem'
      · exact moves.holds j moved mem (ok.holds j)
      · intro addr owned
        rw [moves.owns j moved] at owned
        exact ok.kept moves moved owned

theorem elsewhere (agrees : ∀ addr, tenancy.InUse addr → mem' addr = mem addr) :
    tenancy.Ok mem' where
  apart := ok.apart
  holds i := tenancy.framed i mem mem' (ok.holds i)
    fun addr owned => agrees addr ⟨i, owned⟩

end Ok

end Tenancy

end Allocazam
