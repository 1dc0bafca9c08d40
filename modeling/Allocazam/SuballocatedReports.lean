import Allocazam.SuballocatedConservation
import Allocazam.SuballocatedRegistry

/-!
# The count that `allocate_at_least` reports

`allocate_at_least` of a dynamic allocator asks for half as many values again.  It
subtracts from `max_size()` and adds without a check of the count it was given, so
that a count above `max_size()` may lead to a request for far fewer values.
-/

namespace Allocazam

namespace Suballocated

variable {Value Thread Bound : Type} {fam : Family Value Thread Bound}
  {value : Value} {n : Nat}

/-- The counts for which the request is neither capped nor wraps around, or that
`allocate` refuses as they are. -/
def Family.Reports (fam : Family Value Thread Bound) (value : Value) (n : Nat) :
    Prop :=
  fam.mode ≠ MemoryMode.dynamic ∨ n ≤ fam.maxSize value ∨
    fam.maxSize value < n / 2 ∧ n + n / 2 < 2 ^ 64

theorem Family.sizeOf_le (fam : Family Value Thread Bound) (value : Value) :
    fam.sizeOf value ≤ Pool.nodeBytes (fam.sizeOf value) (fam.alignOf value) := by
  have positive : 8 ≤ Pool.nodeAlignment (fam.alignOf value) := le_max_right _ _
  unfold Pool.nodeBytes
  generalize Pool.nodeAlignment (fam.alignOf value) = unit at positive ⊢
  have divided := Nat.div_add_mod (max (fam.sizeOf value) 8 + unit - 1) unit
  have remainder := Nat.mod_lt (max (fam.sizeOf value) 8 + unit - 1)
    (show 0 < unit by omega)
  rw [Nat.mul_comm] at divided
  omega

theorem Family.maxSize_pos (fam : Family Value Thread Bound) (value : Value) :
    0 < fam.maxSize value := by
  have bound := fam.nodeBound value
  have covers := fam.sizeOf_le value
  exact Nat.div_pos (by omega) (fam.sizePositive value)

theorem Family.maxSize_lt (fam : Family Value Thread Bound) (value : Value) :
    fam.maxSize value < 2 ^ 64 :=
  Family.le_maxSize_lt le_rfl

theorem Family.growthCount_large (large : fam.maxSize value < n)
    (reports : fam.Reports value n) :
    fam.maxSize value < World.growthCount fam value n := by
  unfold World.growthCount
  have word := fam.maxSize_lt value
  split
  · rename_i grows
    rcases reports with static | small | ⟨above, fits⟩
    · exact absurd grows.1 static
    · omega
    · have room : wrapSub (fam.maxSize value) (n / 2) =
          fam.maxSize value + 2 ^ 64 - n / 2 := by
        unfold wrapSub
        exact Nat.mod_eq_of_lt (by omega)
      dsimp only
      rw [room, if_neg (by omega), wrapAdd_eq fits]
      omega
  · exact large

theorem Family.growthCount_small (word : n < 2 ^ 64)
    (unreported : ¬ fam.Reports value n) :
    fam.maxSize value < n ∧
      World.growthCount fam value n ≤ fam.maxSize value := by
  unfold Family.Reports at unreported
  push Not at unreported
  obtain ⟨dynamic, large, wraps⟩ := unreported
  have positive := fam.maxSize_pos value
  have maxWord := fam.maxSize_lt value
  refine ⟨large, ?_⟩
  unfold World.growthCount
  rw [if_pos ⟨dynamic, by omega⟩]
  dsimp only
  split
  · exact le_rfl
  · rename_i uncapped
    unfold wrapSub at uncapped
    unfold wrapAdd
    rcases Nat.lt_or_ge (fam.maxSize value) (n / 2) with above | below
    · have := wraps above
      rw [Nat.mod_eq_of_lt (by omega)] at uncapped
      omega
    · omega

variable [DecidableEq Value] [DecidableEq Thread] [DecidableEq Bound]
  {session : Session fam} {a : Handle fam value} {thread : Thread}
  {env : Environment}

/-- The call returns no count below the one it was given, with storage for as many
values as it returns; a count above `max_size()` makes it throw and changes
nothing. -/
def Session.ReportsEnough (session : Session fam) (a : Handle fam value)
    (thread : Thread) (env : Environment) (n : Nat) : Prop :=
  (∀ w p count,
    session.world.allocateAtLeast fam a thread env n = (w, .ok (p, count)) →
      n ≤ count ∧ ∀ addr, p ≤ addr → addr < p + count * fam.sizeOf value →
        (session.perform (.allocateAtLeast a thread env n)).Writable addr) ∧
  (fam.maxSize value < n → ∃ exn,
    session.world.allocateAtLeast fam a thread env n = (session.world, .error exn))

theorem SessionOk.storage {ledger : Ledger Value Thread Bound}
    (ok : SessionOk session ledger) (usable : a.Usable session.world)
    (avoids : env.Avoids (session.world.inUse fam)) (some : n ≠ 0)
    {w : World Value Thread Bound} {p count : Nat} (several : count ≠ 0)
    (result :
      session.world.allocateAtLeast fam a thread env n = (w, .ok (p, count)))
    {addr : Nat} (lower : p ≤ addr) (upper : addr < p + count * fam.sizeOf value) :
    (session.perform (.allocateAtLeast a thread env n)).Writable addr := by
  obtain ⟨same, allocated⟩ := World.allocateAtLeast_ok some result
  have performed : session.perform (.allocateAtLeast a thread env n) =
      session.finish a n count (w, .ok p) := by
    rw [Session.perform_allocateAtLeast some, same, allocated]
  have nonnull : p ≠ 0 := by
    have outcome : AllocateOutcome fam session.live ledger a thread count _
        (session.world.allocate fam a thread env count) :=
      ok.world.allocate usable avoids
    rw [allocated] at outcome
    cases outcome with
    | null none => exact absurd none several
    | node _ _ _ nonnull => exact nonnull
    | run _ _ _ nonnull => exact nonnull
  have held : (⟨value, a, n, count, p⟩ : Item fam) ∈
      (session.finish a n count (w, .ok p)).live := by
    show _ ∈ session.record a n count p
    unfold Session.record
    rw [if_neg nonnull]
    exact List.mem_cons_self
  rw [performed]
  refine ⟨_, held, lower, ?_⟩
  rcases ok.world.allocate_source usable avoids several allocated with
    ⟨one, pooled, _⟩ | ⟨routed, _, room⟩
  · refine Or.inl ⟨⟨one, pooled⟩, ?_⟩
    rw [one, Nat.one_mul] at upper
    exact upper.trans_le (Nat.add_le_add_left (fam.sizeOf_le value) p)
  · exact Or.inr ⟨fun node => node.2 (routed node.1),
      upper.trans_le (Nat.add_le_add_left room p)⟩

theorem World.allocate_large {w : World Value Thread Bound}
    (large : fam.maxSize value < n) :
    w.allocate fam a thread env n = (w, .error .badArrayNewLength) := by
  unfold World.allocate
  rw [if_neg (by omega), if_pos large]

theorem SessionOk.reportsEnough {ledger : Ledger Value Thread Bound}
    (ok : SessionOk session ledger) (usable : a.Usable session.world)
    (avoids : env.Avoids (session.world.inUse fam))
    (reports : fam.Reports value n) :
    session.ReportsEnough a thread env n := by
  by_cases none : n = 0
  · subst none
    refine ⟨fun w p count result => ?_, fun above => absurd above (by omega)⟩
    cases result
    exact ⟨le_rfl, fun addr lower upper => by omega⟩
  rcases Nat.lt_or_ge (fam.maxSize value) n with large | small
  · have above := Family.growthCount_large large reports
    have refused : session.world.allocateAtLeast fam a thread env n =
        (session.world, .error .badArrayNewLength) := by
      unfold World.allocateAtLeast
      rw [if_neg none]
      dsimp only
      rw [World.allocate_large above]
    refine ⟨fun w p count result => ?_, fun _ => ⟨_, refused⟩⟩
    rw [refused] at result
    cases result
  · refine ⟨fun w p count result => ?_, fun above => absurd above (by omega)⟩
    obtain ⟨enough, _, _⟩ := Family.growthCount_spec small
    obtain ⟨same, _⟩ := World.allocateAtLeast_ok none result
    rw [same] at enough
    exact ⟨enough, fun addr lower upper =>
      ok.storage usable avoids none (by omega) result lower upper⟩

theorem World.allocate_bounded_eq {w : World Value Thread Bound} (positive : n ≠ 0)
    (bounded : n ≤ fam.maxSize value) :
    w.allocate fam a thread env n =
      if n = 1 then w.allocateNode fam a thread env
      else if a.canUseTlsRunCache (n * fam.sizeOf value) then
        match w.allocateFromTlsRunCache fam a thread env (n * fam.sizeOf value) with
        | (w, .error exn) => (w, .error exn)
        | (w, .ok p) =>
            w.allocateRest fam a thread env (n * fam.sizeOf value) p
      else w.allocateRest fam a thread env (n * fam.sizeOf value) 0 := by
  have product : checkedMul n (fam.sizeOf value) = some (n * fam.sizeOf value) :=
    checkedMul_eq_some.mpr ⟨Family.le_maxSize_iff.mp bounded, rfl⟩
  unfold allocate
  rw [if_neg positive, if_neg (by omega)]
  refine if_congr Iff.rfl rfl ?_
  split
  · rename_i overflow
    rw [product] at overflow
    cases overflow
  · rename_i bytes same
    obtain rfl := Option.some.inj (product.symm.trans same)
    rfl

/-- An allocation through a default allocator is one on the state of the thread,
which it creates first. -/
theorem World.allocate_threadState {w w₁ : World Value Thread Bound}
    (ordinary : fam.stateless = true) (positive : n ≠ 0)
    (bounded : n ≤ fam.maxSize value)
    (first : w.threadState fam value thread env.room =
      (w₁, .ok (.thread value thread)))
    (again : w₁.threadState fam value thread env.room =
      (w₁, .ok (.thread value thread))) :
    w.allocate fam (.defaultState ordinary : Handle fam value) thread env n =
      w₁.allocate fam (.defaultState ordinary : Handle fam value) thread env n := by
  have run : ∀ os bytes,
      w.allocateRun fam (.defaultState ordinary : Handle fam value) thread env.room
          os bytes =
        w₁.allocateRun fam (.defaultState ordinary : Handle fam value) thread
          env.room os bytes := by
    intro os bytes
    unfold allocateRun runsPtr
    dsimp only
    rw [first, again]
  rw [allocate_bounded_eq positive bounded, allocate_bounded_eq positive bounded]
  split
  · unfold allocateNode allocState
    dsimp only
    rw [first, again]
  split
  · unfold allocateFromTlsRunCache runsPtr
    dsimp only
    rw [first, again]
  · unfold allocateRest
    exact run _ _

theorem World.allocate_creates {w : World Value Thread Bound}
    (ordinary : fam.stateless = true) (positive : n ≠ 0)
    (bounded : n ≤ fam.maxSize value) (room : env.room = true) :
    (w.allocate fam (.defaultState ordinary : Handle fam value) thread env
      n).1.created (.thread value thread) = true := by
  obtain ⟨w₁, first, made⟩ : ∃ w₁, w.threadState fam value thread env.room =
      (w₁, .ok (.thread value thread)) ∧
        w₁.created (.thread value thread) = true := by
    unfold threadState
    by_cases made : w.created (.thread value thread) = true
    · exact ⟨w, if_pos made, made⟩
    · exact ⟨_, (if_neg made).trans (if_pos room), Function.update_self _ _ _⟩
  have again : w₁.threadState fam value thread env.room =
      (w₁, .ok (.thread value thread)) := by
    unfold threadState
    exact if_pos made
  rw [allocate_threadState ordinary positive bounded first again]
  exact (allocate_created fun _ _ _ => made).trans made

/-- Where the count does not report, the first allocation of a thread returns null
with the count 0, or creates the state of the thread. -/
theorem not_reportsEnough (ordinary : fam.stateless = true) (thread : Thread)
    (word : n < 2 ^ 64) (unreported : ¬ fam.Reports value n)
    (unmade : session.world.created (.thread value thread) = false)
    (room : env.room = true) :
    ¬ session.ReportsEnough (.defaultState ordinary : Handle fam value) thread env
      n := by
  rintro ⟨_, throws⟩
  obtain ⟨large, small⟩ := Family.growthCount_small word unreported
  obtain ⟨exn, thrown⟩ := throws large
  have some : n ≠ 0 := by omega
  unfold World.allocateAtLeast at thrown
  rw [if_neg some] at thrown
  dsimp only at thrown
  by_cases zero : World.growthCount fam value n = 0
  · rw [zero] at thrown
    cases thrown
  have made : (session.world.allocate fam (.defaultState ordinary : Handle fam value)
      thread env (World.growthCount fam value n)).1.created
        (.thread value thread) = true :=
    World.allocate_creates ordinary zero small room
  generalize session.world.allocate fam
    (.defaultState ordinary : Handle fam value) thread env
      (World.growthCount fam value n) = outcome at thrown made
  obtain ⟨w, failure | p⟩ := outcome
  · cases thrown
    rw [unmade] at made
    cases made
  · cases thrown

/-- `allocate_at_least(n)` reports enough in every session, whatever allocator and
thread it is called through and whatever the system grants. -/
def Family.ReportsEnough (fam : Family Value Thread Bound) (value : Value)
    (n : Nat) : Prop :=
  ∀ session, (sessions fam).Reachable session →
    ∀ (a : Handle fam value) thread env, a.Usable session.world →
      env.Avoids (session.world.inUse fam) → session.ReportsEnough a thread env n

/-- `allocate_at_least` reports enough for the counts that report, and without huge
pages for no others. -/
theorem allocateAtLeast_reports (fam : Family Value Thread Bound) (value : Value)
    (n : Nat) (word : n < 2 ^ 64) :
    (fam.Reports value n → fam.ReportsEnough value n) ∧
      (fam.huge = false → Nonempty Thread →
        (fam.ReportsEnough value n ↔ fam.Reports value n)) := by
  have enough : fam.Reports value n → fam.ReportsEnough value n := by
    intro reports session reachable a thread env usable avoids
    obtain ⟨ledger, ok⟩ := sessions_inductive.reachable reachable
    exact ok.reportsEnough usable avoids reports
  refine ⟨enough, fun ordinary ⟨thread⟩ => ⟨fun reportsEnough => ?_, enough⟩⟩
  by_contra unreported
  have dynamic : fam.mode = MemoryMode.dynamic := by
    by_contra static
    exact unreported (Or.inl static)
  have stateless : fam.stateless = true := by
    unfold Family.stateless Family.heapBacked
    rw [dynamic, ordinary]
    rfl
  refine not_reportsEnough stateless thread word unreported rfl rfl
    (reportsEnough _ (.start ⟨fun _ => 0, rfl⟩) _ thread
      ⟨true, Pool.exhausted, fun _ => Runner.refusing⟩ ?_ ?_)
  · rintro site (⟨⟨⟩⟩ | ⟨⟨⟩⟩)
  · exact ⟨fun _ _ => trivial, fun _ _ _ _ granted => by cases granted⟩

theorem oddSize : 0 < 3 ∧ 3 ≤ 8 := by decide

def oddFamily : Family Bool Bool Unit :=
  sampleFamily .dynamic 12 samplePage 3 oddSize

def oddHandle : Handle oddFamily false :=
  .defaultState rfl

theorem oddFamily_reports :
    oddFamily.ReportsEnough false 5 ∧
      ¬ oddFamily.ReportsEnough false 12297829382473034412 := by
  refine ⟨(allocateAtLeast_reports oddFamily false 5 (by decide)).1
    (Or.inr (Or.inl (by decide))), fun reports => ?_⟩
  rcases ((allocateAtLeast_reports oddFamily false 12297829382473034412
    (by decide)).2 rfl ⟨false⟩).mp reports with static | small | ⟨_, fits⟩
  · exact static rfl
  · exact absurd small (by decide)
  · exact absurd fits (by decide)

/-- The sum wraps around to 2, and two values are what there is storage for. -/
theorem oddFamily_short :
    (sessions oddFamily).Reachable (sampleStart oddFamily) ∧
      oddHandle.Usable (sampleStart oddFamily).world ∧
      sampleEnvironment.Avoids ((sampleStart oddFamily).world.inUse oddFamily) ∧
      ((sampleStart oddFamily).world.allocateAtLeast oddFamily oddHandle false
        sampleEnvironment 12297829382473034412).2 = .ok (65552, 2) ∧
      2 < 12297829382473034412 := by
  have count : World.growthCount oddFamily false 12297829382473034412 = 2 := by
    decide +kernel
  refine ⟨sampleStart_reachable _, ?_, sampleStart_avoids _, ?_, by decide⟩
  · rintro site (⟨⟨⟩⟩ | ⟨⟨⟩⟩)
  · unfold World.allocateAtLeast
    rw [if_neg (by decide), count]
    decide +kernel

end Suballocated

end Allocazam
