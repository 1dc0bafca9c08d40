import Allocazam.SuballocatedStates

/-!
# Serving from the run cache

The refill loop and the thread-cached allocation, with everything that changes
its place on the way.
-/

namespace Allocazam

namespace Suballocated

variable {Value Thread Bound : Type} {fam : Family Value Thread Bound}
  {w : World Value Thread Bound} {live : List (Item fam)}
  {ledger middle next : Ledger Value Thread Bound}
  {site : Site Value Thread Bound} {value : Value} {thread : Thread}
  {idx p bytes : Nat} {loose later : List Nat}

/-- What a thread does to the ledger while it serves a request for a value type:
what is neither adrift nor in its own cache stays where it is, its cache may
lose and gain runs, and exactly the pointers `loose` come adrift. -/
structure Ledger.Served (value : Value) (thread : Thread) (loose : List Nat)
    (ledger next : Ledger Value Thread Bound) : Prop where
  kept : ∀ q x, ledger.place q = some x →
    (∀ idx, x ≠ .cached value thread idx) → next.place q = some x
  runs : ∀ site, ∀ allocation ∈ ledger.runs site, ∀ x,
    ledger.place allocation.payload = some x →
      (∀ idx, x ≠ .cached value thread idx) → allocation ∈ next.runs site
  cached : ∀ q value' thread' idx',
    next.place q = some (.cached value' thread' idx') →
      ledger.place q = some (.cached value' thread' idx') ∨
        value' = value ∧ thread' = thread ∧ idx' < tlsRunClassCount
  loose : ∀ q, next.place q = some .adrift ↔
    ledger.place q = some .adrift ∨ q ∈ loose

namespace Ledger.Served

theorem refl (ledger : Ledger Value Thread Bound) :
    Served value thread [] ledger ledger :=
  ⟨fun _ _ same _ => same, fun _ _ member _ _ _ => member,
    fun _ _ _ _ same => Or.inl same, by simp⟩

theorem trans (first : Served value thread loose ledger middle)
    (second : Served value thread later middle next) :
    Served value thread (loose ++ later) ledger next where
  kept q x same elsewhere :=
    second.kept q x (first.kept q x same elsewhere) elsewhere
  runs site allocation member x same elsewhere :=
    second.runs site allocation
      (first.runs site allocation member x same elsewhere) x
      (first.kept _ x same elsewhere) elsewhere
  cached q value' thread' idx' new := by
    rcases second.cached q value' thread' idx' new with old | own
    · exact first.cached q value' thread' idx' old
    · exact Or.inr own
  loose q := by
    rw [second.loose, first.loose, List.mem_append, or_assoc]

end Ledger.Served

/-- Runs that left the thread's cache for their owners. -/
theorem Ledger.Returned.served {gone : List Nat}
    (returned : Ledger.Returned gone ledger next)
    (cached : ∀ q ∈ gone, ∃ idx, ledger.place q =
      some (.cached value thread idx)) :
    Ledger.Served value thread [] ledger next where
  kept q x same elsewhere := by
    rw [returned.kept q, same]
    intro listed
    obtain ⟨idx, here⟩ := cached q listed
    rw [same] at here
    exact elsewhere idx (Option.some.inj here)
  runs site allocation member x same elsewhere := by
    refine (returned.runs site allocation).mpr ⟨member, fun listed => ?_⟩
    obtain ⟨idx, here⟩ := cached _ listed
    rw [same] at here
    exact elsewhere idx (Option.some.inj here)
  cached q value' thread' idx' new := by
    by_cases listed : q ∈ gone
    · rw [returned.freed q listed] at new
      cases new
    · rw [returned.kept q listed] at new
      exact Or.inl new
  loose q := by
    by_cases listed : q ∈ gone
    · obtain ⟨idx, here⟩ := cached q listed
      rw [returned.freed q listed, here]
      simp
    · rw [returned.kept q listed]
      simp

/-- A run that was taken off the thread's cache. -/
theorem Ledger.settle_served (here : ledger.place p =
    some (.cached value thread idx)) :
    Ledger.Served value thread [p] ledger (ledger.settle p .adrift) where
  kept q x same elsewhere := by
    by_cases moved : q = p
    · subst moved
      rw [here] at same
      exact absurd (Option.some.inj same).symm (elsewhere idx)
    · rw [settle_of_ne _ moved, same]
  runs _ _ member _ _ _ := member
  cached q value' thread' idx' new := by
    by_cases moved : q = p
    · subst moved
      rw [settle_self] at new
      cases new
    · rw [settle_of_ne _ moved] at new
      exact Or.inl new
  loose q := by
    by_cases moved : q = p
    · subst moved
      simp
    · rw [settle_of_ne _ moved]
      simp [moved]

variable [DecidableEq Value] [DecidableEq Thread] [DecidableEq Bound]

theorem Ledger.acquire_served (fresh : ledger.place p = none) :
    Ledger.Served value thread [p] ledger (ledger.acquire site p bytes) where
  kept q x same _ := by
    have moved : q ≠ p := by
      rintro rfl
      rw [fresh] at same
      cases same
    exact (Function.update_of_ne moved _ _).trans same
  runs other allocation member _ _ _ := by
    unfold acquire
    by_cases own : other = site
    · subst own
      rw [setRuns_self]
      exact List.mem_cons_of_mem _ member
    · rw [setRuns_of_ne _ _ own]
      exact member
  cached q value' thread' idx' new := by
    by_cases moved : q = p
    · subst moved
      have adrift : (ledger.acquire site q bytes).place q = some .adrift :=
        Function.update_self _ _ _
      rw [adrift] at new
      cases new
    · exact Or.inl ((Function.update_of_ne moved _ _).symm.trans new)
  loose q := by
    by_cases moved : q = p
    · subst moved
      exact iff_of_true (Function.update_self _ _ _) (by simp)
    · have same : (ledger.acquire site p bytes).place q = ledger.place q :=
        Function.update_of_ne moved _ _
      rw [same]
      simp [moved]

theorem Ledger.stock_served (fresh : ledger.place p = none)
    (bounded : idx < tlsRunClassCount) :
    Ledger.Served value thread [] ledger
      ((ledger.acquire site p bytes).settle p (.cached value thread idx)) := by
  have acquired : Served value thread [p] ledger (ledger.acquire site p bytes) :=
    acquire_served fresh
  have notThere : ∀ q x, ledger.place q = some x → q ≠ p := by
    rintro q x same rfl
    rw [fresh] at same
    cases same
  exact
    { kept := by
        intro q x same elsewhere
        rw [settle_of_ne _ (notThere q x same)]
        exact acquired.kept q x same elsewhere
      runs := acquired.runs
      cached := by
        intro q value' thread' idx' new
        by_cases moved : q = p
        · subst moved
          rw [settle_self] at new
          cases new
          exact Or.inr ⟨rfl, rfl, bounded⟩
        · rw [settle_of_ne _ moved] at new
          exact acquired.cached q value' thread' idx' new
      loose := by
        intro q
        by_cases moved : q = p
        · subst moved
          rw [settle_self, fresh]
          simp
        · rw [settle_of_ne _ moved, acquired.loose q]
          simp [moved] }

theorem Confined.of_setRuns (s : Runner.State) :
    Confined fam site w (w.setRuns site s) where
  created := rfl
  territory := by
    rintro (other | other) distinct
    · show Pool.Members.footprint _ _ = Pool.Members.footprint _ _
      rw [World.setRuns_pool]
    · show Runner.Allocator.footprint _ = Runner.Allocator.footprint _
      rw [World.setRuns_runs_of_ne _ fun same => distinct (by rw [same])]

theorem allocateBytes_confined (os : Runner.Os) (bytes alignment : Nat) :
    Confined fam site w (w.allocateBytes fam site os bytes alignment).1 :=
  .of_setRuns _

theorem World.refill_created (os : Nat → Runner.Os) (rounds : Nat)
    (w : World Value Thread Bound) :
    (World.refill fam value thread site os idx rounds w).1.created =
      w.created := by
  induction rounds generalizing w with
  | zero => rfl
  | succ rounds ih =>
      have confined : Confined fam site w (w.allocateBytes fam site
          (os (rounds + 2)) (tlsClassBytes idx) (fam.alignOf value)).1 :=
        allocateBytes_confined (os (rounds + 2)) (tlsClassBytes idx)
          (fam.alignOf value)
      have same := confined.created
      unfold World.refill
      generalize w.allocateBytes fam site (os (rounds + 2)) (tlsClassBytes idx)
        (fam.alignOf value) = outcome at *
      obtain ⟨w', exn | extra⟩ := outcome
      · exact same
      · dsimp only at same ⊢
        split
        · exact same
        · rw [ih]
          exact same

theorem tlsClassBytes_lt (bounded : idx < tlsRunClassCount) :
    tlsClassBytes idx < 2 ^ 64 := by
  have count : tlsRunClassCount = 256 := by decide
  unfold tlsClassBytes tlsRunQuantum
  omega

namespace WorldOk

/-- `_tls_push` of a run that a runner just gave out. -/
theorem stock (ok : WorldOk fam w live (ledger.acquire (.thread value thread) p
      (tlsClassBytes idx))) :
    WorldOk fam
      (w.tlsPush value thread idx p (fam.runsAt (.thread value thread))) live
      ((ledger.acquire (.thread value thread) p (tlsClassBytes idx)).settle p
        (.cached value thread idx)) := by
  have member : (⟨p, tlsClassBytes idx, 0⟩ : Runner.Allocation) ∈
      (ledger.acquire (.thread value thread) p (tlsClassBytes idx)).runs
        (.thread value thread) := by
    unfold Ledger.acquire
    rw [Ledger.setRuns_self]
    exact List.mem_cons_self
  apply ok.tlsPush member
  · exact Function.update_self _ _ _
  · unfold room
    dsimp only
    omega

theorem refill (ok : WorldOk fam w live ledger) {os : Nat → Runner.Os}
    (created : w.created (.thread value thread) = true)
    (avoids : ∀ i, (os i).Avoids (w.others fam (.runs (.thread value thread))))
    (bounded : idx < tlsRunClassCount) (rounds : Nat) :
    ∃ next, Ledger.Served value thread [] ledger next ∧
      WorldOk fam
        (World.refill fam value thread (.thread value thread) os idx rounds
          w).1 live next := by
  induction rounds generalizing w ledger with
  | zero => exact ⟨ledger, .refl ledger, ok⟩
  | succ rounds ih =>
      obtain ⟨after, fresh⟩ := ok.allocateBytes (fam.alignOf value) created
        (avoids (rounds + 2)) (tlsClassBytes_lt bounded)
      have confined : Confined fam (.thread value thread) w _ :=
        allocateBytes_confined (os (rounds + 2)) (tlsClassBytes idx)
          (fam.alignOf value)
      unfold World.refill
      generalize w.allocateBytes fam (.thread value thread) (os (rounds + 2))
        (tlsClassBytes idx) (fam.alignOf value) = outcome at *
      obtain ⟨w', exn | extra⟩ := outcome
      · exact ⟨ledger, .refl ledger, after⟩
      · dsimp only at after confined ⊢
        unfold Ledger.afterAllocation at after
        dsimp only at after
        split
        · rename_i null
          rw [if_pos null] at after
          exact ⟨ledger, .refl ledger, after⟩
        · rename_i nonnull
          rw [if_neg nonnull] at after
          have stocked := after.stock
          have quiet : Confined fam (.thread value thread) w
              (w'.tlsPush value thread idx extra
                (fam.runsAt (.thread value thread))) :=
            confined.trans (.of_states rfl rfl)
          obtain ⟨next, served, done⟩ := ih stocked
            (by rw [quiet.created]; exact created)
            (fun i => by rw [quiet.others]; exact avoids i)
          exact ⟨next, (Ledger.stock_served (fresh extra rfl nonnull)
            bounded).trans served, done⟩

end WorldOk

namespace World

variable (fam) (w)

/-- The run for the request of `_allocate_from_tls_run_cache`: at once, or after
the cache was drained. -/
def obtain (value : Value) (thread : Thread) (site : Site Value Thread Bound)
    (os : Nat → Runner.Os) (idx : Nat) :
    World Value Thread Bound × Except Exn Nat :=
  match w.allocateBytes fam site (os 0) (tlsClassBytes idx)
    (fam.alignOf value) with
  | (w, .error exn) => (w, .error exn)
  | (w, .ok raw) =>
      if raw = 0 then
        (w.tlsDrainAll fam value thread).allocateBytes fam site (os 1)
          (tlsClassBytes idx) (fam.alignOf value)
      else (w, .ok raw)

/-- The refill throws after the run for the request has been obtained. -/
def RefillFails (value : Value) (thread : Thread)
    (site : Site Value Thread Bound) (os : Nat → Runner.Os) (idx : Nat) : Prop :=
  fam.mode = MemoryMode.dynamic ∧ ∃ raw w', raw ≠ 0 ∧
    w.obtain fam value thread site os idx = (w', .ok raw) ∧
      ∃ exn, (refill fam value thread site os idx (tlsRefillBatch - 1) w').2 =
        .error exn

variable {fam} {w} {os : Nat → Runner.Os}

theorem allocateForCache_eq :
    w.allocateForCache fam value thread site os idx =
      match w.obtain fam value thread site os idx with
      | (w, .error exn) => (w, .error exn)
      | (w, .ok raw) =>
          if raw = 0 then (w, .ok 0)
          else w.refillAndHandOut fam value thread site os idx raw := by
  unfold allocateForCache obtain
  generalize w.allocateBytes fam site (os 0) (tlsClassBytes idx)
    (fam.alignOf value) = first
  obtain ⟨w₁, exn | raw⟩ := first
  · rfl
  · dsimp only
    generalize (w₁.tlsDrainAll fam value thread).allocateBytes fam site (os 1)
      (tlsClassBytes idx) (fam.alignOf value) = second
    obtain ⟨w₂, exn | again⟩ := second <;> by_cases null : raw = 0 <;>
      simp only [null, if_true, if_false]

theorem obtain_confined :
    Confined fam site w (w.obtain fam value thread site os idx).1 := by
  have first : Confined fam site w (w.allocateBytes fam site (os 0)
      (tlsClassBytes idx) (fam.alignOf value)).1 := allocateBytes_confined _ _ _
  unfold obtain
  generalize w.allocateBytes fam site (os 0) (tlsClassBytes idx)
    (fam.alignOf value) = outcome at first ⊢
  obtain ⟨w₁, exn | raw⟩ := outcome
  · exact first
  · dsimp only
    split
    · exact (first.trans tlsDrainAll_confined).trans
        (allocateBytes_confined _ _ _)
    · exact first

end World

/-- What a request for a run of the given size comes to: a run of the state's
runner that is now with nobody, nothing, or an exception, which loses a run just
when `orphans` holds. -/
inductive RunOutcome (fam : Family Value Thread Bound)
    (w : World Value Thread Bound) (live : List (Item fam))
    (ledger : Ledger Value Thread Bound) (value : Value) (thread : Thread)
    (site : Site Value Thread Bound) (bytes : Nat) (orphans : Prop) :
    World Value Thread Bound × Except Exn Nat → Prop
  | given {w' : World Value Thread Bound} {p : Nat}
      {next : Ledger Value Thread Bound} (nonnull : p ≠ 0)
      (ok : WorldOk fam w' live next)
      (served : Ledger.Served value thread [p] ledger next)
      (created : w'.created site = true)
      (run : ∃ allocation ∈ next.runs site, allocation.payload = p ∧
        bytes ≤ room allocation) :
      RunOutcome fam w live ledger value thread site bytes orphans (w', .ok p)
  | null {w' : World Value Thread Bound} {next : Ledger Value Thread Bound}
      (ok : WorldOk fam w' live next)
      (served : Ledger.Served value thread [] ledger next)
      (created : w'.created site = true)
      (confined : Confined fam site w w') (intact : ¬ orphans) :
      RunOutcome fam w live ledger value thread site bytes orphans (w', .ok 0)
  | throws {w' : World Value Thread Bound} {exn : Exn}
      {next : Ledger Value Thread Bound} {loose : List Nat}
      (ok : WorldOk fam w' live next)
      (served : Ledger.Served value thread loose ledger next)
      (owned : ∀ q ∈ loose, next.HasRun site q)
      (lost : loose ≠ [] ↔ orphans) :
      RunOutcome fam w live ledger value thread site bytes orphans
        (w', .error exn)

omit [DecidableEq Value] [DecidableEq Thread] [DecidableEq Bound] in
theorem RunOutcome.before {orphans : Prop} {w₁ : World Value Thread Bound}
    {result : World Value Thread Bound × Except Exn Nat}
    (outcome : RunOutcome fam w₁ live middle value thread site bytes orphans
      result)
    (served : Ledger.Served value thread [] ledger middle)
    (confined : Confined fam site w w₁) :
    RunOutcome fam w live ledger value thread site bytes orphans result := by
  cases outcome with
  | given nonnull after later created run =>
      exact .given nonnull after (served.trans later) created run
  | null after later created quiet intact =>
      exact .null after (served.trans later) created (confined.trans quiet) intact
  | throws after later owned lost =>
      exact .throws after (served.trans later) owned lost

namespace WorldOk

/-- The end of the thread-cached allocation, with the run obtained. -/
theorem refillAndHandOut (ok : WorldOk fam w live middle)
    {w₀ : World Value Thread Bound} {os : Nat → Runner.Os} {raw : Nat}
    {orphans : Prop} (nonnull : raw ≠ 0)
    (served : Ledger.Served value thread [raw] ledger middle)
    (created : w.created (.thread value thread) = true)
    (avoids : ∀ i, (os i).Avoids (w.others fam (.runs (.thread value thread))))
    (bounded : idx < tlsRunClassCount)
    (run : ∃ allocation ∈ middle.runs (.thread value thread),
      allocation.payload = raw ∧ tlsClassBytes idx ≤ room allocation)
    (lost : orphans ↔ fam.mode = MemoryMode.dynamic ∧ ∃ exn,
      (World.refill fam value thread (.thread value thread) os idx
        (tlsRefillBatch - 1) w).2 = .error exn) :
    RunOutcome fam w₀ live ledger value thread (.thread value thread)
      (tlsClassBytes idx) orphans
      (w.refillAndHandOut fam value thread (.thread value thread) os idx
        raw) := by
  have adrift : middle.place raw = some .adrift :=
    (served.loose raw).mpr (Or.inr List.mem_cons_self)
  unfold World.refillAndHandOut
  split
  · rename_i dynamic
    obtain ⟨next, refilled, done⟩ :=
      ok.refill created avoids bounded (tlsRefillBatch - 1)
    have both : Ledger.Served value thread [raw] ledger next :=
      served.trans refilled
    obtain ⟨allocation, member, payload, enough⟩ := run
    have kept : allocation ∈ next.runs (.thread value thread) := by
      apply refilled.runs _ allocation member .adrift
      · rw [payload]
        exact adrift
      · simp
    have same : (World.refill fam value thread (.thread value thread) os idx
        (tlsRefillBatch - 1) w).1.created = w.created :=
      World.refill_created os (tlsRefillBatch - 1) w
    generalize World.refill fam value thread (.thread value thread) os idx
      (tlsRefillBatch - 1) w = outcome at *
    obtain ⟨w', exn | done'⟩ := outcome
    · refine .throws done both ?_ ?_
      · intro q listed
        rw [List.mem_singleton.mp listed]
        exact ⟨allocation, kept, payload⟩
      · rw [lost]
        exact iff_of_true (by simp) ⟨dynamic, exn, rfl⟩
    · dsimp only at same
      exact .given nonnull done both (by rw [same]; exact created)
        ⟨allocation, kept, payload, enough⟩
  · exact .given nonnull ok served created run

theorem obtained (ok : WorldOk fam w live ledger) {os : Runner.Os}
    {w' : World Value Thread Bound} {raw : Nat} (nonnull : raw ≠ 0)
    (created : w.created site = true)
    (avoids : os.Avoids (w.others fam (.runs site)))
    (word : bytes < 2 ^ 64) (alignment : Nat)
    (result : w.allocateBytes fam site os bytes alignment = (w', .ok raw)) :
    WorldOk fam w' live (ledger.acquire site raw bytes) ∧
      Ledger.Served value thread [raw] ledger (ledger.acquire site raw bytes) ∧
      ∃ allocation ∈ (ledger.acquire site raw bytes).runs site,
        allocation.payload = raw ∧ bytes ≤ room allocation := by
  obtain ⟨after, fresh⟩ := ok.allocateBytes alignment created avoids word
  rw [result] at after fresh
  unfold Ledger.afterAllocation at after
  dsimp only at after
  rw [if_neg nonnull] at after
  refine ⟨after, Ledger.acquire_served (fresh raw rfl nonnull),
    ⟨raw, bytes, 0⟩, ?_, rfl, ?_⟩
  · unfold Ledger.acquire
    rw [Ledger.setRuns_self]
    exact List.mem_cons_self
  · unfold room
    dsimp only
    omega

theorem refused (ok : WorldOk fam w live ledger) {os : Runner.Os}
    (created : w.created site = true)
    (avoids : os.Avoids (w.others fam (.runs site)))
    (word : bytes < 2 ^ 64) (alignment : Nat)
    (result : (w.allocateBytes fam site os bytes alignment).2 = .ok 0 ∨
      ∃ exn, (w.allocateBytes fam site os bytes alignment).2 = .error exn) :
    WorldOk fam (w.allocateBytes fam site os bytes alignment).1 live ledger := by
  obtain ⟨after, _⟩ := ok.allocateBytes alignment created avoids word
  rcases result with null | ⟨exn, thrown⟩
  · rw [null] at after
    exact after
  · rw [thrown] at after
    exact after

/-- A call of a runner as the outcome of a request. -/
theorem allocateBytes_outcome (ok : WorldOk fam w live ledger) {os : Runner.Os}
    (created : w.created site = true)
    (avoids : os.Avoids (w.others fam (.runs site)))
    (word : bytes < 2 ^ 64) (alignment : Nat) :
    RunOutcome fam w live ledger value thread site bytes False
      (w.allocateBytes fam site os bytes alignment) := by
  have confined : Confined fam site w
      (w.allocateBytes fam site os bytes alignment).1 :=
    allocateBytes_confined _ _ _
  cases result : w.allocateBytes fam site os bytes alignment with
  | mk w' outcome =>
    rw [result] at confined
    cases outcome with
    | error exn =>
        have none := ok.refused created avoids word alignment
          (Or.inr ⟨exn, by rw [result]⟩)
        rw [result] at none
        exact .throws none (.refl ledger) (by simp) (by simp)
    | ok raw =>
        by_cases null : raw = 0
        · subst null
          have none := ok.refused created avoids word alignment
            (Or.inl (by rw [result]))
          rw [result] at none
          exact .null none (.refl ledger) (by rw [confined.created]; exact created)
            confined id
        · obtain ⟨after, served, run⟩ :=
            ok.obtained null created avoids word alignment result
          exact .given null after served
            (by rw [confined.created]; exact created) run

theorem obtain (ok : WorldOk fam w live ledger) {os : Nat → Runner.Os}
    (created : w.created (.thread value thread) = true)
    (avoids : ∀ i, (os i).Avoids (w.others fam (.runs (.thread value thread))))
    (bounded : idx < tlsRunClassCount) :
    RunOutcome fam w live ledger value thread (.thread value thread)
      (tlsClassBytes idx) False
      (w.obtain fam value thread (.thread value thread) os idx) := by
  have word := tlsClassBytes_lt bounded
  have first : RunOutcome fam w live ledger value thread (.thread value thread)
      (tlsClassBytes idx) False
      (w.allocateBytes fam (.thread value thread) (os 0) (tlsClassBytes idx)
        (fam.alignOf value)) :=
    ok.allocateBytes_outcome created (avoids 0) word (fam.alignOf value)
  unfold World.obtain
  generalize w.allocateBytes fam (.thread value thread) (os 0)
    (tlsClassBytes idx) (fam.alignOf value) = outcome at first ⊢
  cases first with
  | throws after served owned lost => exact .throws after served owned lost
  | given nonnull after served created run =>
      dsimp only
      rw [if_neg nonnull]
      exact .given nonnull after served created run
  | @null w₁ next after served made confined intact =>
      dsimp only
      rw [if_pos rfl]
      obtain ⟨gone, last, returned, drained, cached⟩ :=
        after.tlsDrainAll value thread
      have evicted : Ledger.Served value thread [] next last :=
        returned.served fun q listed => by
          obtain ⟨idx, _, here⟩ := (cached q).mp listed
          exact ⟨idx, here⟩
      have quiet : Confined fam (.thread value thread) w
          (w₁.tlsDrainAll fam value thread) :=
        confined.trans tlsDrainAll_confined
      have again : RunOutcome fam (w₁.tlsDrainAll fam value thread) live last
          value thread (.thread value thread) (tlsClassBytes idx) False
          ((w₁.tlsDrainAll fam value thread).allocateBytes fam
            (.thread value thread) (os 1) (tlsClassBytes idx)
            (fam.alignOf value)) :=
        drained.allocateBytes_outcome (by rw [quiet.created]; exact created)
          (by rw [quiet.others]; exact avoids 1) word (fam.alignOf value)
      exact again.before (served.trans evicted) quiet

theorem allocateForCache (ok : WorldOk fam w live ledger)
    {os : Nat → Runner.Os}
    (created : w.created (.thread value thread) = true)
    (avoids : ∀ i, (os i).Avoids (w.others fam (.runs (.thread value thread))))
    (bounded : idx < tlsRunClassCount) :
    RunOutcome fam w live ledger value thread (.thread value thread)
      (tlsClassBytes idx)
      (w.RefillFails fam value thread (.thread value thread) os idx)
      (w.allocateForCache fam value thread (.thread value thread) os idx) := by
  have obtained := ok.obtain created avoids bounded
  have confined : Confined fam (.thread value thread) w
      (w.obtain fam value thread (.thread value thread) os idx).1 :=
    World.obtain_confined
  rw [World.allocateForCache_eq]
  unfold World.RefillFails
  generalize w.obtain fam value thread (.thread value thread) os idx = outcome
    at obtained confined ⊢
  cases obtained with
  | throws after served owned lost =>
      exact .throws after served owned (lost.trans (by simp))
  | null after served made confined intact =>
      dsimp only
      rw [if_pos rfl]
      refine .null after served made confined ?_
      rintro ⟨_, raw, w', nonnull, same, _⟩
      cases same
      exact nonnull rfl
  | @given w₁ raw next nonnull after served made run =>
      dsimp only at confined ⊢
      rw [if_neg nonnull]
      refine after.refillAndHandOut nonnull served made
        (fun i => by rw [confined.others]; exact avoids i) bounded run ?_
      constructor
      · rintro ⟨dynamic, raw', w', _, same, failed⟩
        cases same
        exact ⟨dynamic, failed⟩
      · rintro ⟨dynamic, failed⟩
        exact ⟨dynamic, raw, w₁, nonnull, rfl, failed⟩

end WorldOk

end Suballocated

end Allocazam
