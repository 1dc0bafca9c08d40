import Allocazam.SuballocatedDrain

/-!
# States of the suballocated allocator

A state that comes into being, for a thread or by construction, joins the
others on memory that nobody uses.
-/

namespace Allocazam

namespace Suballocated

variable {Value Thread Bound : Type} [DecidableEq Value] [DecidableEq Thread]
  [DecidableEq Bound] {fam : Family Value Thread Bound}
  {w : World Value Thread Bound} {live : List (Item fam)}
  {ledger : Ledger Value Thread Bound} {site other : Site Value Thread Bound}

def World.withState (w : World Value Thread Bound)
    (site : Site Value Thread Bound) (pool : Pool.Members)
    (runs : Runner.State) : World Value Thread Bound :=
  { w with
    mem := runs.mem
    states := Function.update w.states site ⟨pool, runs.toAllocator⟩
    created := Function.update w.created site true }

theorem World.withState_self (pool : Pool.Members) (runs : Runner.State) :
    (w.withState site pool runs).states site = ⟨pool, runs.toAllocator⟩ :=
  Function.update_self _ _ _

theorem World.withState_created_self (pool : Pool.Members)
    (runs : Runner.State) : (w.withState site pool runs).created site = true :=
  Function.update_self _ _ _

theorem World.withState_created_of_ne (pool : Pool.Members)
    (runs : Runner.State) (distinct : other ≠ site) :
    (w.withState site pool runs).created other = w.created other :=
  Function.update_of_ne distinct _ _

theorem World.withState_of_ne (pool : Pool.Members) (runs : Runner.State)
    (distinct : other ≠ site) :
    (w.withState site pool runs).states other = w.states other :=
  Function.update_of_ne distinct _ _

/-- A pool and a runner that were built on unused memory. -/
structure Built (fam : Family Value Thread Bound)
    (w : World Value Thread Bound) (site : Site Value Thread Bound)
    (pool : Pool.State) (runs : Runner.State) : Prop where
  poolOk : ∃ slots deferred free, Pool.SessionOk (fam.poolConfig site) slots
    deferred ⟨pool, []⟩ free []
  runsOk : Runner.SessionOk (fam.runsConfig site) ⟨runs, []⟩
  poolUnused : ∀ addr ∈ pool.footprint (fam.poolConfig site),
    addr ∉ w.inUse fam
  runsUnused : ∀ addr ∈ runs.footprint, addr ∉ w.inUse fam ∧
    addr ∉ pool.footprint (fam.poolConfig site)
  poolWrites : ∀ addr ∉ pool.footprint (fam.poolConfig site),
    pool.mem addr = w.mem addr
  runsWrites : ∀ addr ∉ runs.footprint, runs.mem addr = pool.mem addr

omit [DecidableEq Value] [DecidableEq Thread] [DecidableEq Bound] in
theorem Built.kept {pool : Pool.State} {runs : Runner.State}
    (built : Built fam w site pool runs) {addr : Nat} (inUse : addr ∈ w.inUse fam) :
    runs.mem addr = w.mem addr := by
  rw [built.runsWrites addr fun inside => (built.runsUnused addr inside).1 inUse]
  exact built.poolWrites addr fun inside => built.poolUnused addr inside inUse

namespace Unborn

variable (unborn : Unborn fam w ledger site)

include unborn

omit [DecidableEq Value] [DecidableEq Thread] [DecidableEq Bound] in
theorem territory_pool : w.territory fam (.pool site) = ∅ :=
  unborn.pool.footprint

omit [DecidableEq Value] [DecidableEq Thread] [DecidableEq Bound] in
theorem territory_runs : w.territory fam (.runs site) = ∅ := by
  apply Set.eq_empty_of_forall_notMem
  rintro addr ⟨chunk, member, _⟩
  rw [unborn.chunks] at member
  cases member

end Unborn

namespace WorldOk

variable (ok : WorldOk fam w live ledger) {pool : Pool.State}
  {runs : Runner.State} (built : Built fam w site pool runs)
  (missing : w.created site = false)

include ok built missing

theorem born_pool :
    ((w.withState site pool.toMembers ⟨(w.states site).runs, pool.mem⟩).tenancy
      fam ledger).Ok pool.mem := by
  have unborn := ok.unborn site missing
  have moves : (w.tenancy fam ledger).Moves
      ((w.withState site pool.toMembers ⟨(w.states site).runs, pool.mem⟩).tenancy
        fam ledger) (.pool site) w.mem pool.mem :=
    { owns := by
        rintro (other | other) distinct
        · show Pool.Members.footprint _ _ = Pool.Members.footprint _ _
          rw [World.withState_of_ne _ _ fun same => distinct (by rw [same])]
        · show Runner.Allocator.footprint _ = Runner.Allocator.footprint _
          by_cases own : other = site
          · subst own
            rw [World.withState_self]
          · rw [World.withState_of_ne _ _ own]
      holds := by
        rintro (other | other) distinct mem holds
        · have apart : other ≠ site := fun same => distinct (by rw [same])
          intro created
          rw [World.withState_created_of_ne _ _ apart] at created
          obtain ⟨slots, deferred, free, parked, session⟩ := holds created
          refine ⟨slots, deferred, free, parked, ?_⟩
          unfold World.poolSession World.pool at session ⊢
          dsimp only at session ⊢
          rw [World.withState_of_ne _ _ apart]
          exact session
        · show Runner.SessionOk _ _
          have session : Runner.SessionOk _ _ := holds
          unfold World.runsSession World.runs at *
          dsimp only at session ⊢
          by_cases own : other = site
          · subst own
            rw [World.withState_self]
            exact session
          · rw [World.withState_of_ne _ _ own]
            exact session
      acquires := by
        intro addr owned
        have inside : addr ∈ Pool.Members.footprint _ _ := owned
        rw [World.withState_self] at inside
        exact Or.inr (built.poolUnused addr inside)
      writes := by
        intro addr foreign
        apply built.poolWrites
        intro inside
        apply foreign
        show addr ∈ Pool.Members.footprint _ _
        rw [World.withState_self]
        exact inside }
  apply ok.tenants.moved moves
  obtain ⟨slots, deferred, free, session⟩ := built.poolOk
  intro _
  refine ⟨slots, deferred, free, [], ?_⟩
  unfold World.poolSession World.pool
  dsimp only
  rw [World.withState_self, unborn.nodes]
  exact session

theorem born_tenants :
    ((w.withState site pool.toMembers runs).tenancy fam ledger).Ok runs.mem := by
  have unborn := ok.unborn site missing
  have first := ok.born_pool built missing
  apply first.moved
    (i := .runs site)
  · exact
      { owns := by
          rintro (other | other) distinct
          · show Pool.Members.footprint _ _ = Pool.Members.footprint _ _
            by_cases own : other = site
            · subst own
              rw [World.withState_self]
              dsimp only
              rw [World.withState_self]
            · rw [World.withState_of_ne _ _ own]
              rw [World.withState_of_ne _ _ own]
          · have apart : other ≠ site := fun same => distinct (by rw [same])
            show Runner.Allocator.footprint _ = Runner.Allocator.footprint _
            rw [World.withState_of_ne _ _ apart]
            rw [World.withState_of_ne _ _ apart]
        holds := by
          rintro (other | other) distinct mem holds
          · intro created
            obtain ⟨slots, deferred, free, parked, session⟩ := holds created
            refine ⟨slots, deferred, free, parked, ?_⟩
            unfold World.poolSession World.pool at session ⊢
            dsimp only at session ⊢
            by_cases own : other = site
            · subst own
              rw [World.withState_self] at session ⊢
              exact session
            · rw [World.withState_of_ne _ _ own] at session ⊢
              exact session
          · have apart : other ≠ site := fun same => distinct (by rw [same])
            show Runner.SessionOk _ _
            have session : Runner.SessionOk _ _ := holds
            unfold World.runsSession World.runs at *
            dsimp only at session ⊢
            rw [World.withState_of_ne _ _ apart] at session ⊢
            exact session
        acquires := by
          intro addr owned
          have inside : addr ∈ Runner.Allocator.footprint _ := owned
          rw [World.withState_self] at inside
          obtain ⟨unused, apart⟩ := built.runsUnused addr inside
          refine Or.inr ?_
          rintro ⟨other | other, old⟩
          · have old : addr ∈ Pool.Members.footprint _ _ := old
            by_cases own : other = site
            · subst own
              rw [World.withState_self] at old
              exact apart old
            · rw [World.withState_of_ne _ _ own] at old
              exact unused ⟨.pool other, old⟩
          · have old : addr ∈ Runner.Allocator.footprint _ := old
            by_cases own : other = site
            · subst own
              rw [World.withState_self] at old
              exact unused ⟨.runs other, old⟩
            · rw [World.withState_of_ne _ _ own] at old
              exact unused ⟨.runs other, old⟩
        writes := by
          intro addr foreign
          apply built.runsWrites
          intro inside
          apply foreign
          show addr ∈ Runner.Allocator.footprint _
          rw [World.withState_self]
          exact inside }
  · show Runner.SessionOk _ _
    unfold World.runsSession World.runs
    dsimp only
    rw [World.withState_self, unborn.runs]
    exact built.runsOk

theorem born : WorldOk fam (w.withState site pool.toMembers runs) live ledger
    where
  tenants := ok.born_tenants built missing
  unborn other unmade := by
    have distinct : other ≠ site := by
      rintro rfl
      rw [World.withState_created_self] at unmade
      cases unmade
    rw [World.withState_created_of_ne _ _ distinct] at unmade
    have unborn := ok.unborn other unmade
    exact
      { pool := by
          rw [World.withState_of_ne _ _ distinct]
          exact unborn.pool
        chunks := by
          rw [World.withState_of_ne _ _ distinct]
          exact unborn.chunks
        nodes := unborn.nodes
        runs := unborn.runs }
  placed := ok.placed
  nodes := ok.nodes
  held := ok.held
  distinct := ok.distinct
  items := ok.items
  classes value thread idx := by
    obtain ⟨entries, cls⟩ := ok.classes value thread idx
    have unborn := ok.unborn site missing
    have kept : ∀ tenant addr, addr ∈ w.territory fam tenant →
        runs.mem addr = w.mem addr :=
      fun tenant addr owned => built.kept ⟨tenant, owned⟩
    refine ⟨entries, cls.congr rfl ?_ fun _ => Iff.rfl⟩
    intro q listed
    obtain ⟨owner, allocation, member, rfl, _⟩ := cls.entry q listed
    obtain ⟨large, _, _, _, _, inside⟩ := (ok.runsOk _).payload_spec member
    exact ⟨kept (.runs _) _ (inside _ (by omega)
        (by unfold Runner.Session.stop; omega)),
      kept (.runs _) _ (inside _ (by omega)
        (by unfold Runner.Session.stop; omega))⟩

end WorldOk

omit [DecidableEq Value] [DecidableEq Thread] [DecidableEq Bound] in
theorem Family.lazyState_built (heapBacked : fam.heapBacked = true)
    (site : Site Value Thread Bound) {initialBytes : Nat}
    (word : initialBytes < 2 ^ 64) :
    Built fam w site (Pool.State.blank (fam.poolConfig site) w.mem 4096)
      (Runner.State.constructLazy w.mem initialBytes) where
  poolOk := by
    have starts : Pool.Starts (fam.poolConfig site) 4096 true
        ⟨Pool.State.blank (fam.poolConfig site) w.mem 4096, []⟩ :=
      .deferred w.mem heapBacked (by decide) rfl
    obtain ⟨free, session⟩ := Pool.starts_ok starts
    exact ⟨4096, true, free, session⟩
  runsOk := ⟨∅, [], Runner.starts_ok (.deferred word)⟩
  poolUnused := by
    rw [(Pool.blank_vacant w.mem 4096).footprint]
    simp
  runsUnused := by
    rintro addr ⟨chunk, member, _⟩
    cases member
  poolWrites _ _ := rfl
  runsWrites _ _ := rfl

namespace World

omit [DecidableEq Value] [DecidableEq Thread] [DecidableEq Bound] in
/-- The bytes that a lazily constructed runner starts with. -/
theorem lazyBytes_lt (site : Site Value Thread Bound) :
    (if fam.mode = MemoryMode.dynamic then 65536
      else max (4096 * fam.sizeOf (fam.valueOf site) % 2 ^ 64) 4096) <
        2 ^ 64 := by
  split <;> omega

/-- The calling thread's state, created or not, is one in which everything is
where it was. -/
structure Resolved (fam : Family Value Thread Bound)
    (w w' : World Value Thread Bound) : Prop where
  mem : w'.mem = w.mem
  classes : w'.classes = w.classes
  created : ∀ site, w.created site = true → w'.created site = true
  territory : ∀ tenant, w'.territory fam tenant = w.territory fam tenant

omit [DecidableEq Value] [DecidableEq Thread] [DecidableEq Bound] in
theorem Resolved.refl (w : World Value Thread Bound) : Resolved fam w w :=
  ⟨rfl, rfl, fun _ made => made, fun _ => rfl⟩

end World

namespace WorldOk

variable (ok : WorldOk fam w live ledger)

include ok

theorem lazyState (heapBacked : fam.heapBacked = true)
    (missing : w.created site = false) {initialBytes : Nat}
    (word : initialBytes < 2 ^ 64) :
    WorldOk fam (w.withState site
        (Pool.State.blank (fam.poolConfig site) w.mem 4096).toMembers
        (Runner.State.constructLazy w.mem initialBytes)) live ledger ∧
      World.Resolved fam w (w.withState site
        (Pool.State.blank (fam.poolConfig site) w.mem 4096).toMembers
        (Runner.State.constructLazy w.mem initialBytes)) := by
  have unborn := ok.unborn site missing
  refine ⟨ok.born (fam.lazyState_built heapBacked site word) missing, rfl, rfl,
    ?_, ?_⟩
  · intro other made
    by_cases own : other = site
    · subst own
      exact World.withState_created_self _ _
    · rw [World.withState_created_of_ne _ _ own]
      exact made
  · rintro (other | other)
    · show Pool.Members.footprint _ _ = Pool.Members.footprint _ _
      by_cases own : other = site
      · subst own
        rw [World.withState_self, (Pool.blank_vacant w.mem 4096).footprint]
        exact unborn.territory_pool.symm
      · rw [World.withState_of_ne _ _ own]
    · show Runner.Allocator.footprint _ = Runner.Allocator.footprint _
      by_cases own : other = site
      · subst own
        rw [World.withState_self]
        refine .trans ?_ unborn.territory_runs.symm
        apply Set.eq_empty_of_forall_notMem
        rintro addr ⟨chunk, member, _⟩
        cases member
      · rw [World.withState_of_ne _ _ own]

theorem threadState (value : Value) (thread : Thread) (room : Bool)
    (stateless : fam.stateless = true) :
    WorldOk fam (w.threadState fam value thread room).1 live ledger ∧
      World.Resolved fam w (w.threadState fam value thread room).1 ∧
      ∀ site, (w.threadState fam value thread room).2 = .ok site →
        site = .thread value thread ∧
          (w.threadState fam value thread room).1.created site = true := by
  have heapBacked : fam.heapBacked = true := by
    unfold Family.stateless at stateless
    simp only [Bool.and_eq_true] at stateless
    exact stateless.1
  unfold World.threadState
  dsimp only
  split
  · rename_i made
    refine ⟨ok, .refl w, ?_⟩
    rintro site ⟨⟩
    exact ⟨rfl, made⟩
  · rename_i missing
    have missing : w.created (.thread value thread) = false := by
      simpa using missing
    split
    · obtain ⟨born, resolved⟩ := ok.lazyState heapBacked missing
        (World.lazyBytes_lt (.thread value thread))
      refine ⟨born, resolved, ?_⟩
      rintro site ⟨⟩
      exact ⟨rfl, Function.update_self _ _ _⟩
    · exact ⟨ok, .refl w, by simp⟩

end WorldOk

omit [DecidableEq Value] [DecidableEq Thread] [DecidableEq Bound] in
theorem World.Resolved.others {w' : World Value Thread Bound}
    (resolved : World.Resolved fam w w') (tenant : Tenant Value Thread Bound) :
    w'.others fam tenant = w.others fam tenant := by
  apply Set.ext
  intro addr
  constructor
  · rintro ⟨other, distinct, owned⟩
    rw [resolved.territory] at owned
    exact ⟨other, distinct, owned⟩
  · rintro ⟨other, distinct, owned⟩
    rw [← resolved.territory] at owned
    exact ⟨other, distinct, owned⟩

omit [DecidableEq Value] [DecidableEq Thread] [DecidableEq Bound] in
theorem World.Resolved.inUse {w' : World Value Thread Bound}
    (resolved : World.Resolved fam w w') : w'.inUse fam = w.inUse fam := by
  apply Set.ext
  intro addr
  constructor
  · rintro ⟨tenant, owned⟩
    rw [resolved.territory] at owned
    exact ⟨tenant, owned⟩
  · rintro ⟨tenant, owned⟩
    rw [← resolved.territory] at owned
    exact ⟨tenant, owned⟩

/-- The state whose pool or runner an allocator draws from on a thread. -/
def Handle.siteOn {value : Value} (a : Handle fam value) (thread : Thread) :
    Site Value Thread Bound :=
  match a with
  | .defaultState _ => .thread value thread
  | .explicitState site _ => site
  | .runsOverride site => site

omit [DecidableEq Value] [DecidableEq Thread] [DecidableEq Bound] in
theorem Handle.drawsFrom_siteOn {value : Value} (a : Handle fam value)
    (thread : Thread) : a.DrawsFrom (a.siteOn thread) := by
  cases a with
  | defaultState stateless => exact ⟨thread, rfl⟩
  | explicitState site typed => rfl
  | runsOverride site => rfl

/-- The outcome of a resolution: nothing moved, and the state that an allocator
draws from exists if there was no exception. -/
structure Resolves (fam : Family Value Thread Bound)
    (w w' : World Value Thread Bound) (live : List (Item fam))
    (ledger : Ledger Value Thread Bound) (site : Site Value Thread Bound)
    (resolved : Prop) : Prop where
  ok : WorldOk fam w' live ledger
  same : World.Resolved fam w w'
  created : resolved → w'.created site = true

namespace WorldOk

variable (ok : WorldOk fam w live ledger) {value : Value}
  {a : Handle fam value} (thread : Thread) (room : Bool)

include ok

theorem runsPtr (usable : a.Usable w) :
    Resolves fam w (w.runsPtr fam a thread room).1 live ledger
        (a.siteOn thread) (∃ site, (w.runsPtr fam a thread room).2 = .ok site) ∧
      ∀ site, (w.runsPtr fam a thread room).2 = .ok site →
        site = a.siteOn thread := by
  cases a with
  | defaultState stateless =>
      obtain ⟨resolved, same, found⟩ :=
        ok.threadState value thread room stateless
      refine ⟨⟨resolved, same, ?_⟩, fun site result => (found site result).1⟩
      rintro ⟨site, result⟩
      obtain ⟨rfl, made⟩ := found site result
      exact made
  | explicitState site typed =>
      refine ⟨⟨ok, .refl w, fun _ => usable site (Or.inl rfl)⟩, ?_⟩
      rintro other ⟨⟩
      rfl
  | runsOverride site =>
      refine ⟨⟨ok, .refl w, fun _ => usable site (Or.inr rfl)⟩, ?_⟩
      rintro other ⟨⟩
      rfl

theorem allocState (usable : a.Usable w) :
    Resolves fam w (w.allocState fam a thread room).1 live ledger
        (a.siteOn thread) (∃ site, (w.allocState fam a thread room).2 = .ok site) ∧
      ∀ found, (w.allocState fam a thread room).2 = .ok found →
        found = if a.mode = .runsOverride then none
          else some (a.siteOn thread) := by
  cases a with
  | defaultState stateless =>
      obtain ⟨resolved, same, found⟩ :=
        ok.threadState value thread room stateless
      unfold World.allocState
      dsimp only
      generalize w.threadState fam value thread room = outcome at *
      obtain ⟨w', exn | site⟩ := outcome
      · exact ⟨⟨resolved, same, by simp⟩, by simp⟩
      · obtain ⟨rfl, made⟩ := found site rfl
        refine ⟨⟨resolved, same, fun _ => made⟩, ?_⟩
        rintro other ⟨⟩
        rfl
  | explicitState site typed =>
      refine ⟨⟨ok, .refl w, fun _ => usable site (Or.inl rfl)⟩, ?_⟩
      rintro other ⟨⟩
      rfl
  | runsOverride site =>
      refine ⟨⟨ok, .refl w, fun _ => usable site (Or.inr rfl)⟩, ?_⟩
      rintro other ⟨⟩
      rfl

end WorldOk

section Construction

variable {session : Session fam} {state : Bound} {heap : Pool.Heap} {os : Runner.Os}

/-- A construction with any of the constructors changes nothing, or it builds a pool and a
runner. -/
theorem Session.AllowsConstruction.builds {arguments : Arguments}
    (allowed : session.AllowsConstruction state heap os arguments) :
    (session.world.construct fam (.bound state) heap os arguments).1 = session.world ∨
      ∃ pool runs, Built fam session.world (.bound state) pool runs ∧
        (session.world.construct fam (.bound state) heap os arguments).1 =
          session.world.withState (.bound state) pool.toMembers runs := by
  cases arguments with
  | sized poolSize runnerBytes =>
      obtain ⟨heapBacked, poolWord, runnerWord, heapAvoids, osAvoids⟩ := allowed
      have poolBacked : (fam.poolConfig (.bound state)).heapBacked = true :=
        heapBacked
      unfold World.construct World.constructSized
      dsimp only
      have word : (if fam.mode = MemoryMode.fixed then
          max (poolSize * fam.sizeOf (fam.valueOf (.bound state)) % 2 ^ 64) 4096
        else runnerBytes) < 2 ^ 64 := by split <;> omega
      generalize (if fam.mode = MemoryMode.fixed then _ else runnerBytes) =
        initialBytes at word ⊢
      cases pooled : Pool.State.construct (fam.poolConfig (.bound state)) heap
          session.world.mem poolSize with
      | error exn => exact .inl rfl
      | ok pool =>
          dsimp only
          cases made : Runner.State.construct (fam.runsConfig (.bound state)) os
              pool.mem initialBytes with
          | error exn => exact .inl rfl
          | ok runs =>
              obtain ⟨poolUnused, poolWrites⟩ :=
                Pool.construct_footprint poolBacked pooled
              obtain ⟨acquired, runsWrites⟩ :=
                Runner.construct_footprint word made
              obtain ⟨free, pooledOk⟩ := Pool.starts_ok
                (.eager heap session.world.mem poolBacked poolWord pooled)
              have runsUnused : ∀ addr ∈ runs.footprint,
                  addr ∉ session.world.inUse fam ∪
                    pool.footprint (fam.poolConfig (.bound state)) := by
                rintro addr ⟨chunk, member, lower, upper⟩
                obtain ⟨chunks, granted⟩ := acquired chunk member
                exact osAvoids pool pooled chunks _ _ granted addr lower upper
              have built : Built fam session.world (.bound state) pool runs :=
                { poolOk := ⟨poolSize, false, free, pooledOk⟩
                  runsOk := ⟨∅, [], Runner.starts_ok (.eager word made)⟩
                  poolUnused := fun addr inside inUse =>
                    poolUnused addr inside (heapAvoids addr inUse)
                  runsUnused := fun addr inside =>
                    ⟨fun inUse => runsUnused addr inside (Or.inl inUse),
                      fun pool => runsUnused addr inside (Or.inr pool)⟩
                  poolWrites := poolWrites
                  runsWrites := runsWrites }
              exact .inr ⟨pool, runs, built, rfl⟩
  | deferred =>
      exact .inr ⟨_, _, fam.lazyState_built allowed (.bound state)
        (World.lazyBytes_lt (.bound state)), rfl⟩
  | backed nodeData nodeSize runData runSize =>
      obtain ⟨raw, nodePositive, nodeSpan, runPositive, runSpan, unused, apart⟩ :=
        allowed
      have poolRaw : (fam.poolConfig (.bound state)).heapBacked = false := raw
      unfold World.construct World.constructBacked
      dsimp only
      cases pooled : Pool.State.constructExternal
          (fam.poolConfig (.bound state)) session.world.mem nodeData nodeSize with
      | error exn => exact .inl rfl
      | ok pool =>
          dsimp only
          cases made : Runner.State.constructExternal pool.mem runData runSize with
          | error exn => exact .inl rfl
          | ok runs =>
              obtain ⟨poolInside, poolWrites⟩ :=
                Pool.constructExternal_footprint poolRaw nodePositive nodeSpan
                  pooled
              obtain ⟨_, runsWrites, chunk, chunks, first, bytes, _, last, _⟩ :=
                Runner.constructExternal_spec (fam.runsConfig (.bound state))
                  runPositive runSpan made
              have runsInside : ∀ addr ∈ runs.footprint,
                  runData ≤ addr ∧ addr < runData + runSize := by
                rintro addr ⟨other, member, lower, upper⟩
                rw [chunks, List.mem_singleton] at member
                subst member
                omega
              obtain ⟨free, pooledOk⟩ := Pool.starts_ok
                (.external session.world.mem nodeData nodeSize poolRaw nodePositive
                  nodeSpan pooled rfl)
              have built : Built fam session.world (.bound state) pool runs :=
                { poolOk := ⟨_, false, free, pooledOk⟩
                  runsOk := ⟨∅, [],
                    Runner.starts_ok (.external runPositive runSpan made)⟩
                  poolUnused := fun addr inside inUse =>
                    (unused addr inUse).1 (poolInside addr inside)
                  runsUnused := fun addr inside =>
                    ⟨fun inUse => (unused addr inUse).2 (runsInside addr inside),
                      fun pool => apart addr (poolInside addr pool).1
                        (poolInside addr pool).2 (runsInside addr inside)⟩
                  poolWrites := poolWrites
                  runsWrites := runsWrites }
              exact .inr ⟨pool, runs, built, rfl⟩

theorem WorldOk.construct (ok : WorldOk fam session.world live ledger)
    (missing : session.world.created (.bound state) = false) {arguments : Arguments}
    (allowed : session.AllowsConstruction state heap os arguments) :
    WorldOk fam
      (session.world.construct fam (.bound state) heap os arguments).1 live
      ledger := by
  rcases allowed.builds with same | ⟨pool, runs, built, made⟩
  · rw [same]
    exact ok
  · rw [made]
    exact ok.born built missing

end Construction

end Suballocated

end Allocazam
