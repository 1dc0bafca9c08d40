import Allocazam.SuballocatedInvariant

/-!
# Steps of the suballocated allocator

Each call of a runner or of a pool, each change of a class list and each write
of a user keeps the invariant, with the ledger brought up to date.
-/

namespace Allocazam

namespace Suballocated

variable {Value Thread Bound : Type} [DecidableEq Value] [DecidableEq Thread]
  [DecidableEq Bound] {fam : Family Value Thread Bound}
  {w : World Value Thread Bound} {live : List (Item fam)}
  {ledger : Ledger Value Thread Bound} {site other : Site Value Thread Bound}
  {p : Nat}

namespace World

theorem setRuns_pool (s : Runner.State) :
    ((w.setRuns site s).states other).pool = (w.states other).pool := by
  unfold setRuns
  dsimp only
  by_cases same : other = site
  · subst same
    rw [Function.update_self]
  · rw [Function.update_of_ne same]

theorem setRuns_runs_self (s : Runner.State) :
    ((w.setRuns site s).states site).runs = s.toAllocator := by
  unfold setRuns
  dsimp only
  rw [Function.update_self]

theorem setRuns_runs_of_ne (s : Runner.State) (distinct : other ≠ site) :
    ((w.setRuns site s).states other).runs = (w.states other).runs := by
  unfold setRuns
  dsimp only
  rw [Function.update_of_ne distinct]

theorem setRuns_runs (s : Runner.State) : (w.setRuns site s).runs site = s := by
  unfold runs
  rw [setRuns_runs_self]
  rfl

theorem setPool_runs (s : Pool.State) :
    ((w.setPool site s).states other).runs = (w.states other).runs := by
  unfold setPool
  dsimp only
  by_cases same : other = site
  · subst same
    rw [Function.update_self]
  · rw [Function.update_of_ne same]

theorem setPool_pool_self (s : Pool.State) :
    ((w.setPool site s).states site).pool = s.toMembers := by
  unfold setPool
  dsimp only
  rw [Function.update_self]

theorem setPool_pool_of_ne (s : Pool.State) (distinct : other ≠ site) :
    ((w.setPool site s).states other).pool = (w.states other).pool := by
  unfold setPool
  dsimp only
  rw [Function.update_of_ne distinct]

end World

def World.callRuns (fam : Family Value Thread Bound)
    (w : World Value Thread Bound) (ledger : Ledger Value Thread Bound)
    (site : Site Value Thread Bound) (operation : Runner.Operation) :
    Runner.Session :=
  (w.runsSession ledger site).perform (fam.runsConfig site) operation

def Ledger.setRuns (ledger : Ledger Value Thread Bound)
    (site : Site Value Thread Bound) (runs : List Runner.Allocation)
    (place : Nat → Option (Place Value Thread)) : Ledger Value Thread Bound :=
  { ledger with runs := Function.update ledger.runs site runs, place }

theorem Ledger.setRuns_self (runs : List Runner.Allocation)
    (place : Nat → Option (Place Value Thread)) :
    (ledger.setRuns site runs place).runs site = runs :=
  Function.update_self _ _ _

theorem Ledger.setRuns_of_ne (runs : List Runner.Allocation)
    (place : Nat → Option (Place Value Thread)) (distinct : other ≠ site) :
    (ledger.setRuns site runs place).runs other = ledger.runs other :=
  Function.update_of_ne distinct _ _

structure Callable (fam : Family Value Thread Bound)
    (w : World Value Thread Bound) (ledger : Ledger Value Thread Bound)
    (site : Site Value Thread Bound) (operation : Runner.Operation) : Prop where
  created : w.created site = true
  allows : (w.runsSession ledger site).Allows operation
  avoids : operation.Avoids (w.others fam (.runs site))
  /-- What is given back is with nobody. -/
  adrift : ∀ p, operation.Releases p → ledger.place p = some .adrift

namespace WorldOk

variable {operation : Runner.Operation}

section Call

variable (ok : WorldOk fam w live ledger)
  (callable : Callable fam w ledger site operation)
  (place : Nat → Option (Place Value Thread))

include ok callable

theorem call_moves :
    (w.tenancy fam ledger).Moves
      ((w.setRuns site (w.callRuns fam ledger site operation).state).tenancy fam
        (ledger.setRuns site (w.callRuns fam ledger site operation).live place))
      (.runs site) w.mem (w.callRuns fam ledger site operation).state.mem where
  owns := by
    rintro (other | other) distinct
    · show Pool.Members.footprint _ _ = Pool.Members.footprint _ _
      rw [World.setRuns_pool]
    · show Runner.Allocator.footprint _ = Runner.Allocator.footprint _
      rw [World.setRuns_runs_of_ne _ fun same => distinct (by rw [same])]
  holds := by
    rintro (other | other) distinct mem holds
    · intro created
      obtain ⟨slots, deferred, free, parked, pool⟩ := holds created
      refine ⟨slots, deferred, free, parked, ?_⟩
      unfold World.poolSession World.pool at pool ⊢
      rw [World.setRuns_pool]
      exact pool
    · have apart : other ≠ site := fun same => distinct (by rw [same])
      show Runner.SessionOk _ _
      have runs : Runner.SessionOk _ _ := holds
      unfold World.runsSession World.runs at *
      rw [World.setRuns_runs_of_ne _ apart, Ledger.setRuns_of_ne _ _ apart]
      exact runs
  acquires := by
    intro addr owned
    have footprint : addr ∈
        (w.callRuns fam ledger site operation).state.footprint := by
      have member : addr ∈ Runner.Allocator.footprint _ := owned
      rw [World.setRuns_runs_self] at member
      exact member
    rcases Runner.perform_footprint callable.avoids footprint with old | apart
    · exact Or.inl old
    · by_cases old : addr ∈ w.territory fam (.runs site)
      · exact Or.inl old
      · refine Or.inr ?_
        rintro ⟨tenant, owned⟩
        by_cases same : tenant = .runs site
        · rw [same] at owned
          exact old owned
        · exact apart ⟨tenant, same, owned⟩
  writes := by
    intro addr foreign
    apply (ok.runsOk site).perform_writes callable.allows
    intro footprint
    apply foreign
    show addr ∈ Runner.Allocator.footprint _
    rw [World.setRuns_runs_self]
    exact footprint

theorem call_tenants :
    ((w.setRuns site (w.callRuns fam ledger site operation).state).tenancy fam
      (ledger.setRuns site (w.callRuns fam ledger site operation).live place)).Ok
        (w.callRuns fam ledger site operation).state.mem := by
  apply ok.tenants.moved (ok.call_moves callable place)
  show Runner.SessionOk _ _
  have called := (ok.runsOk site).perform callable.allows
  unfold World.runsSession World.runs
  rw [World.setRuns_runs_self, Ledger.setRuns_self]
  exact called

/-- A call leaves every run that is with a user or in a cache given out, with
its contents. -/
theorem call_kept {allocation : Runner.Allocation} {owner}
    (member : allocation ∈ ledger.runs owner)
    (settled : ledger.place allocation.payload ≠ some .adrift) :
    (∃ kept ∈ (ledger.setRuns site
        (w.callRuns fam ledger site operation).live place).runs owner,
      kept.payload = allocation.payload ∧ room kept = room allocation) ∧
    ∀ word, allocation.payload - 8 ≤ word → word < allocation.payload + 32 →
      (w.callRuns fam ledger site operation).state.mem word = w.mem word := by
  obtain ⟨large, _, _, _, _, inside⟩ := (ok.runsOk owner).payload_spec member
  by_cases same : owner = site
  · subst same
    have spared : ¬ operation.Releases allocation.payload := fun releases =>
      settled (callable.adrift _ releases)
    obtain ⟨⟨kept, keptMember, payload, requested⟩, contents⟩ :=
      (ok.runsOk owner).perform_kept callable.allows member spared
    constructor
    · rw [Ledger.setRuns_self]
      exact ⟨kept, keptMember, payload, by unfold room; rw [requested]⟩
    · intro word lower upper
      exact contents word lower (by unfold Runner.Session.stop; omega)
  · constructor
    · rw [Ledger.setRuns_of_ne _ _ same]
      exact ⟨allocation, member, rfl, rfl⟩
    · intro word lower upper
      apply ok.tenants.kept (ok.call_moves callable ledger.place)
        (j := .runs owner)
      · rintro ⟨⟩
        exact same rfl
      · apply inside
        · omega
        · unfold Runner.Session.stop
          omega

theorem call_class
    (settled : ∀ p x, x ≠ Place.adrift →
      (place p = some x ↔ ledger.place p = some x))
    {value : Value} {thread : Thread} {idx : Nat} {entries : List Nat}
    (cls : ClassOk fam w ledger value thread idx entries) :
    ClassOk fam (w.setRuns site (w.callRuns fam ledger site operation).state)
      (ledger.setRuns site (w.callRuns fam ledger site operation).live place)
      value thread idx entries := by
  have entryKept : ∀ q ∈ entries, ∀ word, q ≤ word → word < q + 32 →
      (w.callRuns fam ledger site operation).state.mem word = w.mem word := by
    intro q listed word lower upper
    obtain ⟨owner, allocation, member, rfl, _⟩ := cls.entry q listed
    have cached := (cls.place _).mp listed
    exact (ok.call_kept callable ledger.place member
      (by rw [cached]; simp)).2 word (by omega) upper
  exact
    { chain := cls.chain.congr fun q listed =>
        entryKept q listed q le_rfl (by omega)
      count := cls.count
      entry := by
        intro q listed
        obtain ⟨owner, allocation, member, rfl, enough, stamp⟩ :=
          cls.entry q listed
        have cached := (cls.place _).mp listed
        obtain ⟨⟨kept, keptMember, same, sameRoom⟩, _⟩ :=
          ok.call_kept callable place member (by rw [cached]; simp)
        refine ⟨owner, kept, keptMember, same, by rw [sameRoom]; exact enough,
          ?_⟩
        rw [← stamp]
        exact entryKept _ listed _ (by omega) (by omega)
      place := fun q => (cls.place q).trans (settled q _ (by simp)).symm }

/-- A call of a runner keeps the invariant, if the new places account for the
runs given out now and agree with the old ones on what is with a user or in a
cache. -/
theorem call
    (placed : ∀ p, place p ≠ none ↔ (ledger.setRuns site
      (w.callRuns fam ledger site operation).live place).Out p)
    (settled : ∀ p x, x ≠ Place.adrift →
      (place p = some x ↔ ledger.place p = some x)) :
    WorldOk fam (w.setRuns site (w.callRuns fam ledger site operation).state)
      live
      (ledger.setRuns site (w.callRuns fam ledger site operation).live place)
      where
  tenants := ok.call_tenants callable place
  unborn other missing := by
    have distinct : other ≠ site := by
      rintro rfl
      exact absurd (callable.created.symm.trans missing) (by decide)
    have unborn := ok.unborn other missing
    exact
      { pool := by
          rw [World.setRuns_pool]
          exact unborn.pool
        chunks := by
          rw [World.setRuns_runs_of_ne _ distinct]
          exact unborn.chunks
        nodes := unborn.nodes
        runs := by
          rw [Ledger.setRuns_of_ne _ _ distinct]
          exact unborn.runs }
  placed := placed
  nodes other q node value thread idx cached :=
    ok.nodes other q node value thread idx ((settled q _ (by simp)).mp cached)
  held q := (settled q _ (by simp)).trans (ok.held q)
  distinct := ok.distinct
  items item member := by
    have item_ok := ok.items item member
    have isHeld := (ok.held item.ptr).mpr ⟨item, member, rfl⟩
    exact
      { item_ok with
        node := item_ok.node
        run := by
          intro notNode
          obtain ⟨owner, allocation, listed, payload, covers, draws⟩ :=
            item_ok.run notNode
          obtain ⟨⟨kept, keptMember, same, sameRoom⟩, _⟩ :=
            ok.call_kept callable place listed
              (by rw [payload, isHeld]; simp)
          exact ⟨owner, kept, keptMember, same.trans payload,
            by rw [sameRoom]; exact covers, draws⟩ }
  classes value thread idx := by
    obtain ⟨entries, cls⟩ := ok.classes value thread idx
    exact ⟨entries, ok.call_class callable place settled cls⟩

/-- What a runner gives out after a call and had given out before, it had given
out itself. -/
theorem call_out {q : Nat} (out : ledger.Out q)
    (run : (ledger.setRuns site (w.callRuns fam ledger site operation).live
      place).HasRun site q) : ledger.HasRun site q := by
  have owned : q ∈
      (w.callRuns fam ledger site operation).state.footprint := by
    obtain ⟨allocation, member, rfl⟩ := run
    rw [Ledger.setRuns_self] at member
    obtain ⟨large, _, _, _, _, inside⟩ :=
      ((ok.runsOk site).perform callable.allows).payload_spec member
    apply inside
    · omega
    · unfold Runner.Session.stop
      exact Nat.lt_add_of_pos_right (by omega)
  have foreign : ∀ tenant, q ∈ w.territory fam tenant →
      tenant = .runs site := by
    intro tenant old
    by_contra distinct
    apply ok.tenants.foreign (ok.call_moves callable ledger.place)
      distinct old
    show q ∈ Runner.Allocator.footprint _
    rw [World.setRuns_runs_self]
    exact owned
  rcases out with ⟨owner, node⟩ | ⟨owner, old⟩
  · cases foreign _ (ok.node_territory node)
  · cases foreign _ (ok.run_territory old)
    exact old

end Call

end WorldOk

namespace Ledger

variable (ledger)

/-- The runner of the state gives out the run at `p`. -/
def acquire (site : Site Value Thread Bound) (p bytes : Nat) :
    Ledger Value Thread Bound :=
  ledger.setRuns site (⟨p, bytes, 0⟩ :: ledger.runs site)
    (Function.update ledger.place p (some .adrift))

/-- The run at `p` goes back to the runner of the state. -/
def giveBack (site : Site Value Thread Bound) (p : Nat) :
    Ledger Value Thread Bound :=
  ledger.setRuns site
    ((ledger.runs site).filter fun allocation => allocation.payload ≠ p)
    (Function.update ledger.place p none)

omit [DecidableEq Value] [DecidableEq Thread] [DecidableEq Bound] in
/-- The places of what is with a user or in a cache do not change with a pointer
that is neither before nor after. -/
theorem update_settled {ledger : Ledger Value Thread Bound}
    {y : Option (Place Value Thread)}
    (before : ∀ x, ledger.place p = some x → x = .adrift)
    (after : ∀ x, y = some x → x = .adrift) (q : Nat) (x : Place Value Thread)
    (settled : x ≠ .adrift) :
    Function.update ledger.place p y q = some x ↔ ledger.place q = some x := by
  by_cases same : q = p
  · subst same
    rw [Function.update_self]
    exact iff_of_false (fun new => settled (after x new))
      fun old => settled (before x old)
  · rw [Function.update_of_ne same]

/-- The ledger after `allocate_bytes`. -/
def afterAllocation (site : Site Value Thread Bound) (bytes : Nat) :
    Except Exn Nat → Ledger Value Thread Bound
  | .ok p => if p = 0 then ledger else ledger.acquire site p bytes
  | .error _ => ledger

variable {ledger}

theorem acquire_placed {bytes : Nat}
    (placed : ∀ q, ledger.place q ≠ none ↔ ledger.Out q) (q : Nat) :
    (ledger.acquire site p bytes).place q ≠ none ↔
      (ledger.acquire site p bytes).Out q := by
  have runs : ∀ owner, (ledger.acquire site p bytes).HasRun owner q ↔
      owner = site ∧ p = q ∨ ledger.HasRun owner q := by
    intro owner
    unfold HasRun acquire
    by_cases own : owner = site
    · subst own
      rw [setRuns_self]
      simp
    · rw [setRuns_of_ne _ _ own]
      simp [own]
  have places : (ledger.acquire site p bytes).place q ≠ none ↔
      p = q ∨ ledger.place q ≠ none := by
    unfold acquire setRuns
    dsimp only
    by_cases same : q = p
    · subst same
      simp
    · rw [Function.update_of_ne same]
      simp [Ne.symm same]
  rw [places, placed q]
  unfold Out
  simp only [runs]
  constructor
  · rintro (same | node | ⟨owner, run⟩)
    · exact Or.inr ⟨site, Or.inl ⟨rfl, same⟩⟩
    · exact Or.inl node
    · exact Or.inr ⟨owner, Or.inr run⟩
  · rintro (node | ⟨owner, ⟨_, same⟩ | run⟩)
    · exact Or.inr (Or.inl node)
    · exact Or.inl same
    · exact Or.inr (Or.inr ⟨owner, run⟩)

theorem giveBack_placed
    (placed : ∀ q, ledger.place q ≠ none ↔ ledger.Out q)
    (notNode : ∀ owner, p ∉ ledger.nodes owner)
    (unique : ∀ owner, ledger.HasRun owner p → owner = site) (q : Nat) :
    (ledger.giveBack site p).place q ≠ none ↔
      (ledger.giveBack site p).Out q := by
  have runs : ∀ owner, (ledger.giveBack site p).HasRun owner q ↔
      ledger.HasRun owner q ∧ q ≠ p := by
    intro owner
    unfold HasRun giveBack
    by_cases own : owner = site
    · subst own
      rw [setRuns_self]
      simp only [List.mem_filter]
      aesop
    · rw [setRuns_of_ne _ _ own]
      refine ⟨fun run => ⟨run, ?_⟩, And.left⟩
      rintro rfl
      exact own (unique owner run)
  have places : (ledger.giveBack site p).place q ≠ none ↔
      ledger.place q ≠ none ∧ q ≠ p := by
    unfold giveBack setRuns
    dsimp only
    by_cases same : q = p
    · subst same
      simp
    · rw [Function.update_of_ne same]
      simp [same]
  rw [places, placed q]
  unfold Out
  simp only [runs]
  constructor
  · rintro ⟨node | ⟨owner, run⟩, distinct⟩
    · exact Or.inl node
    · exact Or.inr ⟨owner, run, distinct⟩
  · rintro (⟨owner, node⟩ | ⟨owner, run, distinct⟩)
    · refine ⟨Or.inl ⟨owner, node⟩, ?_⟩
      rintro rfl
      exact notNode owner node
    · exact ⟨Or.inr ⟨owner, run⟩, distinct⟩

variable (ledger)

theorem setRuns_same (site : Site Value Thread Bound) :
    ledger.setRuns site (ledger.runs site) ledger.place = ledger := by
  unfold setRuns
  rw [Function.update_eq_self]

end Ledger

namespace WorldOk

variable (ok : WorldOk fam w live ledger)

include ok

theorem allocateBytes {os : Runner.Os} {bytes : Nat} (alignment : Nat)
    (created : w.created site = true)
    (avoids : os.Avoids (w.others fam (.runs site)))
    (word : bytes < 2 ^ 64) :
    WorldOk fam (w.allocateBytes fam site os bytes alignment).1 live
        (ledger.afterAllocation site bytes
          (w.allocateBytes fam site os bytes alignment).2) ∧
      ∀ p, (w.allocateBytes fam site os bytes alignment).2 = .ok p → p ≠ 0 →
        ledger.place p = none := by
  have callable : Callable fam w ledger site
      (.allocateBytes os bytes alignment) :=
    { created := created
      allows := word
      avoids := avoids
      adrift := by rintro p (⟨⟨⟩⟩ | ⟨⟨⟩⟩) }
  have state : (w.allocateBytes fam site os bytes alignment).1 = w.setRuns site
      (w.callRuns fam ledger site (.allocateBytes os bytes alignment)).state := by
    unfold World.allocateBytes World.callRuns Runner.Session.perform
      World.runsSession
    dsimp only
    generalize (w.runs site).allocateBytes _ _ _ _ = outcome
    obtain ⟨s, exn | p⟩ := outcome <;> rfl
  have result : (w.allocateBytes fam site os bytes alignment).2 =
      ((w.runs site).allocateBytes (fam.runsConfig site) os bytes
        alignment).2 := rfl
  rw [state, result]
  have runs : (w.callRuns fam ledger site
      (.allocateBytes os bytes alignment)).live =
        match ((w.runs site).allocateBytes (fam.runsConfig site) os bytes
          alignment).2 with
        | .ok p => if p = 0 then ledger.runs site
            else ⟨p, bytes, 0⟩ :: ledger.runs site
        | .error _ => ledger.runs site := by
    unfold World.callRuns Runner.Session.perform World.runsSession
    dsimp only
    generalize (w.runs site).allocateBytes _ _ _ _ = outcome
    obtain ⟨s, exn | p⟩ := outcome <;> rfl
  have unchanged : (w.callRuns fam ledger site
      (.allocateBytes os bytes alignment)).live = ledger.runs site →
      WorldOk fam (w.setRuns site (w.callRuns fam ledger site
        (.allocateBytes os bytes alignment)).state) live ledger := by
    intro same
    have called := ok.call callable ledger.place
      (by
        rw [same, Ledger.setRuns_same]
        exact ok.placed) (fun _ _ _ => Iff.rfl)
    rw [same, Ledger.setRuns_same] at called
    exact called
  generalize ((w.runs site).allocateBytes (fam.runsConfig site) os bytes
    alignment).2 = outcome at runs ⊢
  cases outcome with
  | error exn => exact ⟨unchanged runs, by simp⟩
  | ok p =>
      unfold Ledger.afterAllocation
      dsimp only at runs ⊢
      by_cases null : p = 0
      · rw [if_pos null] at runs ⊢
        refine ⟨unchanged runs, ?_⟩
        rintro q same nonnull
        exact absurd ((Except.ok.inj same).symm.trans null) nonnull
      rw [if_neg null] at runs ⊢
      have fresh : ledger.place p = none := by
        by_contra placed
        have out := (ok.placed p).mp placed
        have run := ok.call_out callable ledger.place out
          ⟨⟨p, bytes, 0⟩, by rw [Ledger.setRuns_self, runs]; simp, rfl⟩
        obtain ⟨_, _, _, held⟩ := (ok.runsOk site).perform callable.allows
        have nodup := held.nodup
        have listed : (w.callRuns fam ledger site
          (.allocateBytes os bytes alignment)).live = _ := runs
        unfold World.callRuns at listed
        rw [listed, List.map_cons, List.nodup_cons] at nodup
        obtain ⟨allocation, member, payload⟩ := run
        exact nodup.1 (List.mem_map.mpr ⟨allocation, member, payload⟩)
      have called := ok.call callable
        (Function.update ledger.place p (some .adrift))
        (by
          rw [runs]
          exact Ledger.acquire_placed ok.placed)
        (Ledger.update_settled (by simp [fresh]) (by simp))
      rw [runs] at called
      refine ⟨called, ?_⟩
      rintro q same _
      rw [← Except.ok.inj same]
      exact fresh

section Release

variable (run : ledger.HasRun site p) (adrift : ledger.place p = some .adrift)

include run adrift

omit [DecidableEq Value] [DecidableEq Thread] [DecidableEq Bound] in
theorem callable_deallocateBytes :
    Callable fam w ledger site (.deallocateBytes p) where
  created := ok.created_of_run run
  allows := run
  avoids := trivial
  adrift := by
    rintro q (⟨⟨⟩⟩ | ⟨⟨⟩⟩)
    exact adrift

omit [DecidableEq Value] [DecidableEq Thread] [DecidableEq Bound] in
theorem callable_remotePush :
    Callable fam w ledger site (.remotePush p) where
  created := ok.created_of_run run
  allows := run
  avoids := trivial
  adrift := by
    rintro q (⟨⟨⟩⟩ | ⟨⟨⟩⟩)
    exact adrift

theorem released {operation : Runner.Operation}
    (callable : Callable fam w ledger site operation)
    (runs : (w.callRuns fam ledger site operation).live =
      (ledger.runs site).filter fun allocation => allocation.payload ≠ p) :
    WorldOk fam (w.setRuns site (w.callRuns fam ledger site operation).state)
      live (ledger.giveBack site p) := by
  have called := ok.call callable (Function.update ledger.place p none)
    (by
      rw [runs]
      exact Ledger.giveBack_placed ok.placed
        (fun owner node => ok.node_not_run node run)
        fun owner again => ok.run_unique again run)
    (Ledger.update_settled (by simp [adrift]) (by simp))
  rw [runs] at called
  exact called

theorem deallocateBytes :
    WorldOk fam (w.deallocateBytes fam site p) live (ledger.giveBack site p) :=
  ok.released run adrift (ok.callable_deallocateBytes run adrift) rfl

theorem remotePush :
    WorldOk fam (w.remotePush site p) live (ledger.giveBack site p) :=
  ok.released run adrift (ok.callable_remotePush run adrift) rfl

variable {value : Value} {thread : Thread} {idx : Nat} {entries : List Nat}
  (cls : ClassOk fam w ledger value thread idx entries)

include cls

omit run in
theorem released_class {operation : Runner.Operation}
    (callable : Callable fam w ledger site operation)
    (runs : (w.callRuns fam ledger site operation).live =
      (ledger.runs site).filter fun allocation => allocation.payload ≠ p) :
    ClassOk fam (w.setRuns site (w.callRuns fam ledger site operation).state)
      (ledger.giveBack site p) value thread idx entries := by
  have kept := ok.call_class callable (Function.update ledger.place p none)
    (Ledger.update_settled (by simp [adrift]) (by simp)) cls
  rw [runs] at kept
  exact kept

theorem deallocateBytes_class :
    ClassOk fam (w.deallocateBytes fam site p) (ledger.giveBack site p) value
      thread idx entries :=
  ok.released_class adrift cls (ok.callable_deallocateBytes run adrift) rfl

theorem remotePush_class :
    ClassOk fam (w.remotePush site p) (ledger.giveBack site p) value thread idx
      entries :=
  ok.released_class adrift cls (ok.callable_remotePush run adrift) rfl

end Release

section Expansion

variable {minNewBytes : Nat}

omit [DecidableEq Value] [DecidableEq Thread] [DecidableEq Bound] in
theorem callable_expand (run : ledger.HasRun site p) (word : minNewBytes < 2 ^ 64) :
    Callable fam w ledger site (.expand p minNewBytes) where
  created := ok.created_of_run run
  allows := ⟨run, word⟩
  avoids := trivial
  adrift := by rintro q (⟨⟨⟩⟩ | ⟨⟨⟩⟩)

omit ok in
theorem expanded_runs (owner : Site Value Thread Bound) (q : Nat) :
    (ledger.setRuns site (w.callRuns fam ledger site (.expand p minNewBytes)).live
      ledger.place).HasRun owner q ↔ ledger.HasRun owner q := by
  unfold Ledger.HasRun
  by_cases own : owner = site
  · subst own
    rw [Ledger.setRuns_self]
    have runs : (w.callRuns fam ledger owner (.expand p minNewBytes)).live =
        (w.runsSession ledger owner).report p
          ((w.runs owner).expand (fam.runsConfig owner) p minNewBytes).2 := rfl
    have same := Runner.map_payload_report (w.runsSession ledger owner) p
      ((w.runs owner).expand (fam.runsConfig owner) p minNewBytes).2
    have listed := congrArg (q ∈ ·) same
    rw [runs]
    simpa [World.runsSession] using listed
  · rw [Ledger.setRuns_of_ne _ _ own]

theorem expanded (run : ledger.HasRun site p) (word : minNewBytes < 2 ^ 64) :
    WorldOk fam (w.expandRun fam site p minNewBytes).1 live
      (ledger.setRuns site (w.callRuns fam ledger site (.expand p minNewBytes)).live
        ledger.place) := by
  refine ok.call (ok.callable_expand run word) _ ?_ fun _ _ _ => Iff.rfl
  intro q
  rw [ok.placed q]
  unfold Ledger.Out
  simp only [expanded_runs]
  exact Iff.rfl

theorem expandRun (run : ledger.HasRun site p) (word : minNewBytes < 2 ^ 64) :
    ∃ runs, (∀ owner q, (ledger.setRuns site runs ledger.place).HasRun owner q ↔
        ledger.HasRun owner q) ∧
      WorldOk fam (w.expandRun fam site p minNewBytes).1 live
        (ledger.setRuns site runs ledger.place) :=
  ⟨_, expanded_runs, ok.expanded run word⟩

end Expansion

end WorldOk

end Suballocated

end Allocazam
