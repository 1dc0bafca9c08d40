import Allocazam.PoolOwnership
import Allocazam.SuballocatedDeallocate

/-!
# Expansion of the suballocated allocator

`expand` reads a word in front of a pointer that need not be a run.  Whatever it
finds there, the ownership tests of the pool and the runner decide.
-/

namespace Allocazam

namespace Suballocated

variable {Value Thread Bound : Type} {fam : Family Value Thread Bound}
  {w : World Value Thread Bound} {live : List (Item fam)}
  {ledger : Ledger Value Thread Bound}
  {site other : Site Value Thread Bound} {value : Value} {thread : Thread}
  {p minNewBytes : Nat}

namespace WorldOk

variable (ok : WorldOk fam w live ledger)

include ok

theorem owns_node (node : p ∈ ledger.nodes site) :
    (w.pool site).owns (fam.poolConfig site) p = true := by
  obtain ⟨_, _, _, _, pool⟩ := ok.node_pool node
  exact pool.balanced.laid.owns_of_node (pool.live_node node)

theorem territory_of_owns
    (owned : (w.pool site).owns (fam.poolConfig site) p = true) :
    p ∈ w.territory fam (.pool site) := by
  cases created : w.created site with
  | true =>
      obtain ⟨_, _, _, _, pool⟩ := ok.poolOk created
      exact pool.balanced.laid.footprint_of_owns owned
  | false =>
      obtain ⟨chunk, member, contained⟩ := List.any_eq_true.mp owned
      rw [(ok.unborn site created).pool.chunks chunk member,
        Pool.Chunk.contains_empty] at contained
      contradiction

theorem not_owns_node (node : p ∈ ledger.nodes site) (distinct : other ≠ site) :
    (w.pool other).owns (fam.poolConfig other) p = false := by
  apply Bool.eq_false_iff.mpr
  intro owned
  cases ok.tenant_unique (ok.territory_of_owns owned) (ok.node_territory node)
  exact distinct rfl

theorem not_owns_run (run : ledger.HasRun site p) :
    (w.pool other).owns (fam.poolConfig other) p = false := by
  apply Bool.eq_false_iff.mpr
  intro owned
  cases ok.tenant_unique (ok.territory_of_owns owned) (ok.run_territory run)

theorem not_ownsRun_node (node : p ∈ ledger.nodes site) :
    (w.runs other).ownsRun p = false := by
  apply Bool.eq_false_iff.mpr
  intro owned
  have inside : p ∈ w.territory fam (.runs other) :=
    (Runner.ownsRun_iff.mp owned).2
  cases ok.tenant_unique inside (ok.node_territory node)

theorem ownsRun_run (run : ledger.HasRun site p) :
    (w.runs site).ownsRun p = true := by
  refine Runner.ownsRun_iff.mpr ⟨?_, ok.run_territory run⟩
  obtain ⟨allocation, member, rfl⟩ := run
  obtain ⟨_, _, positive, _⟩ := (ok.runsOk site).payload_spec member
  omega

theorem out_ne_zero (out : ledger.Out p) : p ≠ 0 := by
  rcases out with ⟨site, node⟩ | ⟨site, allocation, member, rfl⟩
  · obtain ⟨_, _, _, _, pool⟩ := ok.node_pool node
    have bounds := pool.balanced.laid.node_bounds (pool.live_node node)
    omega
  · obtain ⟨_, _, positive, _⟩ := (ok.runsOk site).payload_spec member
    omega

end WorldOk

variable [DecidableEq Value] [DecidableEq Thread] [DecidableEq Bound]

namespace WorldOk

variable (ok : WorldOk fam w live ledger)

include ok

section Default

variable (stateless : fam.stateless = true)

/-- A default allocator reports the size of a value for a node of the calling
thread, and nothing for the nodes of others. -/
theorem expand_node (node : p ∈ ledger.nodes site) :
    w.expand fam (Handle.defaultState stateless : Handle fam value) thread p
        minNewBytes =
      (w, if site = .thread value thread then fam.sizeOf value else 0) := by
  unfold World.expand
  rw [if_neg (ok.out_ne_zero (Or.inl ⟨site, node⟩))]
  dsimp only
  by_cases own : site = .thread value thread
  · subst own
    rw [if_pos (ok.created_of_node node), if_pos (ok.owns_node node),
      if_pos rfl]
  · rw [if_neg own]
    split
    · rw [ok.not_owns_node node (Ne.symm own), ok.not_ownsRun_node node]
      simp
    · rfl

/-- A default allocator expands the runs of the calling thread, and no other. -/
theorem expand_run (run : ledger.HasRun site p) :
    w.expand fam (Handle.defaultState stateless : Handle fam value) thread p
        minNewBytes =
      if site = .thread value thread then
        w.expandRun fam (.thread value thread) p minNewBytes
      else (w, 0) := by
  unfold World.expand
  rw [if_neg (ok.out_ne_zero (Or.inr ⟨site, run⟩))]
  dsimp only
  rw [ok.not_owns_run run]
  by_cases own : site = .thread value thread
  · subst own
    rw [if_pos (ok.created_of_run run), if_neg (by simp),
      if_pos ⟨ok.ownerOf_run run, ok.ownsRun_run run⟩, if_pos rfl]
  · have foreign : w.ownerOf p ≠ fam.runsAt (.thread value thread) := by
      rw [ok.ownerOf_run run]
      exact fun same => own (Family.owner_of_stamp same)
    rw [if_neg own]
    split
    · rw [if_neg (by simp), if_neg fun both => foreign both.1]
    · rfl

end Default

/-- Expanding an allocation is nothing, or expanding its run. -/
theorem expand_cases {item : Item fam} (member : item ∈ live)
    {b : Handle fam item.value} (equal : b.Equal item.handle)
    (minNewBytes : Nat) :
    (w.expand fam b thread item.ptr minNewBytes).1 = w ∨
      ∃ site, ledger.HasRun site item.ptr ∧
        (w.expand fam b thread item.ptr minNewBytes).1 =
          (w.expandRun fam site item.ptr minNewBytes).1 := by
  have fits := ok.items item member
  obtain rfl := equal.eq
  by_cases single : item.IsNode
  · obtain ⟨site, node, draws⟩ := fits.node single
    left
    cases handle : item.handle with
    | defaultState stateless => rw [ok.expand_node stateless node]
    | explicitState state typed =>
        rw [handle] at draws
        obtain rfl : site = state := draws
        unfold World.expand
        rw [if_neg (ok.ptr_ne_zero member)]
        dsimp only
        rw [if_pos (ok.owns_node node)]
    | runsOverride runs => exact absurd (by rw [handle]; rfl) single.2
  · obtain ⟨site, allocation, listed, payload, _, draws⟩ := fits.run single
    have run : ledger.HasRun site item.ptr := ⟨allocation, listed, payload⟩
    cases handle : item.handle with
    | defaultState stateless =>
        rw [ok.expand_run stateless run]
        split
        · rename_i own
          rw [← own]
          exact Or.inr ⟨site, run, rfl⟩
        · exact Or.inl rfl
    | explicitState state typed =>
        rw [handle] at draws
        obtain rfl : site = state := draws
        unfold World.expand
        rw [if_neg (ok.ptr_ne_zero member)]
        dsimp only
        rw [if_neg (by rw [ok.not_owns_run run]; simp)]
        exact Or.inr ⟨site, run, rfl⟩
    | runsOverride runs =>
        rw [handle] at draws
        obtain rfl : site = runs := draws
        unfold World.expand
        rw [if_neg (ok.ptr_ne_zero member)]
        exact Or.inr ⟨site, run, rfl⟩

/-- Expanding an allocation keeps the invariant and moves nothing. -/
theorem expand {item : Item fam} (member : item ∈ live)
    {b : Handle fam item.value} (equal : b.Equal item.handle)
    (word : minNewBytes < 2 ^ 64) :
    ∃ next, WorldOk fam (w.expand fam b thread item.ptr minNewBytes).1 live next ∧
      next.place = ledger.place := by
  rcases ok.expand_cases member equal minNewBytes with same | ⟨site, run, same⟩
  · rw [same]
    exact ⟨ledger, ok, rfl⟩
  · rw [same]
    obtain ⟨runs, _, after⟩ := ok.expandRun run word
    exact ⟨_, after, rfl⟩

end WorldOk

end Suballocated

end Allocazam
