import Allocazam.SuballocatedAllocate

/-!
# Deallocation of the suballocated allocator

What a user frees goes back to the pool or the runner it came from, or to the
cache of the calling thread with its owner's stamp.
-/

namespace Allocazam

namespace Suballocated

variable {Value Thread Bound : Type} {fam : Family Value Thread Bound}
  {w w' : World Value Thread Bound} {live : List (Item fam)}
  {ledger next : Ledger Value Thread Bound}
  {site : Site Value Thread Bound} {value : Value} {thread : Thread}
  {p : Nat}

/-- Allocators of one type that compare equal are the same. -/
theorem Handle.Equal.eq {a b : Handle fam value} (equal : a.Equal b) : a = b := by
  obtain ⟨state, override⟩ := equal
  cases a with
  | defaultState stateless =>
      cases b with
      | defaultState => rfl
      | explicitState => cases state
      | runsOverride => cases override
  | explicitState site typed =>
      cases b with
      | defaultState => cases state
      | explicitState =>
          cases state
          rfl
      | runsOverride => cases state
  | runsOverride site =>
      cases b with
      | defaultState => cases override
      | explicitState => cases override
      | runsOverride =>
          cases override
          rfl

/-- What a thread does to the ledger when it frees the pointer `p`, which is then
with its owner or in the thread's cache: everything else is where it was, or has
left the thread's cache for its owner. -/
structure Ledger.Freed (value : Value) (thread : Thread) (p : Nat)
    (ledger next : Ledger Value Thread Bound) : Prop where
  kept : ∀ q x, q ≠ p → ledger.place q = some x →
    (∀ idx, x ≠ .cached value thread idx) → next.place q = some x
  cached : ∀ q value' thread' idx',
    next.place q = some (.cached value' thread' idx') →
      ledger.place q = some (.cached value' thread' idx') ∨
        value' = value ∧ thread' = thread ∧ idx' < tlsRunClassCount
  adrift : ∀ q, next.place q = some .adrift → q ≠ p ∧
    ledger.place q = some .adrift

namespace WorldOk

variable (ok : WorldOk fam w live ledger)

include ok

theorem ptr_ne_zero {item : Item fam} (member : item ∈ live) : item.ptr ≠ 0 := by
  have fits := ok.items item member
  by_cases single : item.IsNode
  · obtain ⟨site, node, _⟩ := fits.node single
    obtain ⟨_, _, _, _, pool⟩ := ok.node_pool node
    have bounds := pool.balanced.laid.node_bounds (pool.live_node node)
    omega
  · obtain ⟨site, allocation, listed, payload, _⟩ := fits.run single
    obtain ⟨_, _, positive, _⟩ := (ok.runsOk site).payload_spec listed
    omega

/-- The word in front of a run tells its owner. -/
theorem ownerOf_run (run : ledger.HasRun site p) :
    w.ownerOf p = fam.runsAt site := by
  obtain ⟨allocation, member, rfl⟩ := run
  obtain ⟨_, _, _, _, stamp, _⟩ := (ok.runsOk site).payload_spec member
  exact stamp

end WorldOk

variable [DecidableEq Value] [DecidableEq Thread] [DecidableEq Bound]

/-- The class list of the calling thread with room for another entry. -/
def World.drainedForPush (fam : Family Value Thread Bound)
    (w : World Value Thread Bound) (value : Value) (thread : Thread)
    (idx : Nat) : World Value Thread Bound :=
  if (w.classes value thread idx).count ≥ tlsHighWatermark then
    w.tlsDrainClass fam value thread idx tlsDrainLowWatermark
  else w

namespace WorldOk

variable (ok : WorldOk fam w live ledger) {b : Handle fam value} {m : Nat}

include ok

/-- A node goes to its own pool: to the free list if the calling thread draws
from that pool, else to the remote stack. -/
theorem freeNodeRouted_eq (node : p ∈ ledger.nodes site) (draws : b.DrawsFrom site)
    (pooled : b.mode ≠ .runsOverride) :
    w.freeNodeRouted fam b thread p = w.setPool site
      (if site = b.siteOn thread then (w.pool site).deallocate p
        else (w.pool site).remotePush p) := by
  obtain ⟨_, _, _, _, pool⟩ := ok.node_pool node
  have inPool := pool.live_node node
  cases b with
  | defaultState stateless =>
      obtain ⟨owner, rfl⟩ := draws
      have headers : (fam.poolConfig (.thread value owner)).ownerHeaders = true := by
        unfold Family.stateless at stateless
        simp only [Bool.and_eq_true] at stateless
        exact stateless.1
      have found : w.mem (p &&& wordNot
          ((fam.poolConfig (.thread value thread)).granule - 1)) =
            fam.poolAt (.thread value owner) :=
        pool.balanced.toOk.header headers inPool
      unfold World.freeNodeRouted
      dsimp only
      rw [found, fam.poolOf_poolAt]
      unfold Handle.siteOn
      by_cases own : owner = thread
      · subst own
        rw [if_pos ⟨ok.created_of_node node, rfl⟩, if_pos rfl]
      · have distinct : (Site.thread value owner : Site Value Thread Bound) ≠
            .thread value thread := fun same => own (by cases same; rfl)
        have apart : fam.poolAt (.thread value owner) ≠
            fam.poolAt (.thread value thread) := by
          intro same
          apply distinct
          rw [← fam.poolOf_poolAt (.thread value owner), same, fam.poolOf_poolAt]
        rw [if_neg fun both => apart both.2, if_neg distinct]
  | explicitState state typed =>
      obtain rfl : site = state := draws
      unfold World.freeNodeRouted Handle.siteOn
      dsimp only
      rw [if_pos rfl]
  | runsOverride runs => exact absurd rfl pooled

/-- A run goes to its own runner: back to its bins if the calling thread draws
from that runner, else to its remote stack. -/
theorem freeRunRouted_eq (run : ledger.HasRun site p) (draws : b.DrawsFrom site) :
    w.freeRunRouted fam b thread p =
      if site = b.siteOn thread then w.deallocateBytes fam site p
      else w.remotePush site p := by
  cases b with
  | defaultState stateless =>
      obtain ⟨owner, rfl⟩ := draws
      unfold World.freeRunRouted World.returnRun Handle.siteOn
      dsimp only
      rw [ok.ownerOf_run run, fam.runsOf_runsAt]
      unfold World.localRunsOrNull
      by_cases own : owner = thread
      · subst own
        rw [if_pos (ok.created_of_run run), if_pos rfl, if_pos rfl]
      · have distinct : (Site.thread value owner : Site Value Thread Bound) ≠
            .thread value thread := fun same => own (by cases same; rfl)
        have apart : fam.runsAt (.thread value owner) ≠
            if w.created (.thread value thread) = true then
              fam.runsAt (.thread value thread) else 0 := by
          split
          · exact fun same => distinct (Family.owner_of_stamp same)
          · exact fam.runsNonnull _
        rw [if_neg apart, if_neg distinct]
  | explicitState state typed =>
      obtain rfl : site = state := draws
      unfold World.freeRunRouted Handle.siteOn
      dsimp only
      rw [if_pos rfl]
  | runsOverride runs =>
      obtain rfl : site = runs := draws
      unfold World.freeRunRouted Handle.siteOn
      dsimp only
      rw [if_pos rfl]

/-- Making room in the thread's class list disturbs nothing that is out of the
cache. -/
theorem drainedForPush (value : Value) (thread : Thread) (idx : Nat) :
    ∃ gone next, Ledger.Returned gone ledger next ∧
      WorldOk fam (w.drainedForPush fam value thread idx) live next ∧
      ∀ q ∈ gone, ledger.place q = some (.cached value thread idx) := by
  unfold World.drainedForPush
  split
  · obtain ⟨entries, cls⟩ := ok.classes value thread idx
    obtain ⟨next, returned, drained, _⟩ :=
      ok.tlsDrainClass tlsDrainLowWatermark cls
    exact ⟨_, next, returned, drained, fun q listed =>
      (cls.place q).mp (List.mem_of_mem_take listed)⟩
  · exact ⟨[], ledger, .refl ledger, ok, by simp⟩

/-- A cached run enters the thread's class list with its owner's stamp. -/
theorem deallocateToTlsRunCache_eq (run : ledger.HasRun site p)
    (elsewhere : ∀ idx, ledger.place p ≠ some (.cached value thread idx))
    (bytes : Nat) :
    w.deallocateToTlsRunCache fam value thread p bytes =
      (w.drainedForPush fam value thread (tlsClassIndexFor bytes)).tlsPush value
        thread (tlsClassIndexFor bytes) p (fam.runsAt site) := by
  obtain ⟨gone, next, returned, drained, cached⟩ :=
    ok.drainedForPush value thread (tlsClassIndexFor bytes)
  have still : next.HasRun site p := by
    obtain ⟨allocation, member, rfl⟩ := run
    exact ⟨allocation, (returned.runs site allocation).mpr ⟨member,
      fun listed => elsewhere _ (cached _ listed)⟩, rfl⟩
  rw [← drained.ownerOf_run still]
  rfl

end WorldOk

omit [DecidableEq Value] [DecidableEq Thread] [DecidableEq Bound] in
theorem Ledger.freed_of_gone (places : ∀ q, next.place q =
      Function.update (ledger.settle p .adrift).place p none q) :
    Ledger.Freed value thread p ledger next := by
  have elsewhere : ∀ q, q ≠ p → next.place q = ledger.place q := by
    intro q distinct
    rw [places q, Function.update_of_ne distinct, settle_of_ne _ distinct]
  have here : next.place p = none := by
    rw [places p, Function.update_self]
  exact
    { kept := fun q x distinct same _ => by rw [elsewhere q distinct, same]
      cached := by
        intro q value' thread' idx' new
        by_cases moved : q = p
        · subst moved
          rw [here] at new
          cases new
        · rw [elsewhere q moved] at new
          exact Or.inl new
      adrift := by
        intro q new
        by_cases moved : q = p
        · subst moved
          rw [here] at new
          cases new
        · rw [elsewhere q moved] at new
          exact ⟨moved, new⟩ }

/-- What freeing a pointer amounts to: a node goes back to its pool, a run goes
back to its runner, each directly or by way of the remote stack, or a run enters
the thread's cache. -/
inductive Frees (fam : Family Value Thread Bound)
    (w : World Value Thread Bound) (ledger : Ledger Value Thread Bound)
    (value : Value) (thread : Thread) (p : Nat) : World Value Thread Bound → Prop
  | node {site : Site Value Thread Bound} (node : p ∈ ledger.nodes site) :
      Frees fam w ledger value thread p
        (w.setPool site ((w.pool site).deallocate p))
  | parkNode {site : Site Value Thread Bound} (node : p ∈ ledger.nodes site)
      (headers : fam.heapBacked = true) :
      Frees fam w ledger value thread p
        (w.setPool site ((w.pool site).remotePush p))
  | run {site : Site Value Thread Bound} (run : ledger.HasRun site p) :
      Frees fam w ledger value thread p (w.deallocateBytes fam site p)
  | parkRun {site : Site Value Thread Bound} (run : ledger.HasRun site p) :
      Frees fam w ledger value thread p (w.remotePush site p)
  | cache {owner : Thread} {allocation : Runner.Allocation} {idx : Nat}
      (member : allocation ∈ ledger.runs (.thread value owner))
      (payload : allocation.payload = p) (inClasses : idx < tlsRunClassCount)
      (enough : tlsClassBytes idx ≤ room allocation) :
      Frees fam w ledger value thread p
        ((w.drainedForPush fam value thread idx).tlsPush value thread idx p
          (fam.runsAt (.thread value owner)))

namespace WorldOk

variable (ok : WorldOk fam w live ledger)

section Item

variable {item : Item fam} {b : Handle fam item.value} {m : Nat}
  (member : item ∈ live) (equal : b.Equal item.handle)
  (lower : item.requested ≤ m) (upper : m ≤ item.count)

include ok member equal lower upper

theorem deallocate_node (single : item.IsNode) :
    w.deallocate fam b thread item.ptr m =
      w.freeNodeRouted fam b thread item.ptr := by
  have asked := (ok.items item member).asked
  have one : m = 1 := by
    have count := single.1
    omega
  obtain rfl := equal.eq
  have pooled : item.handle.mode = .defaultState ∨ item.handle.state ≠ none := by
    have notOverride := single.2
    cases handle : item.handle with
    | defaultState => exact Or.inl rfl
    | explicitState => exact Or.inr (by simp [Handle.state])
    | runsOverride =>
        rw [handle] at notOverride
        exact absurd rfl notOverride
  unfold World.deallocate
  rw [if_neg (by
    rintro (null | none)
    · exact ok.ptr_ne_zero member null
    · omega), if_pos one, if_pos pooled]

/-- A run is freed as a run: through the cache if the request is one for it, else
directly. -/
theorem deallocate_run (several : ¬ item.IsNode) :
    w.deallocate fam b thread item.ptr m =
      if m ≠ 1 ∧ b.canUseTlsRunCache (m * fam.sizeOf item.value) = true then
        w.deallocateToTlsRunCache fam item.value thread item.ptr
          (m * fam.sizeOf item.value)
      else w.freeRunRouted fam b thread item.ptr := by
  have fits := ok.items item member
  obtain rfl := equal.eq
  have bounded : m ≤ fam.maxSize item.value := upper.trans fits.bounded
  have multiplied : checkedMul m (fam.sizeOf item.value) =
      some (m * fam.sizeOf item.value) :=
    checkedMul_eq_some.mpr ⟨Family.le_maxSize_iff.mp bounded, rfl⟩
  unfold World.deallocate
  rw [if_neg (by
    rintro (null | none)
    · exact ok.ptr_ne_zero member null
    · have asked := fits.asked
      omega)]
  by_cases one : m = 1
  · have single : item.count = 1 := by
      have asked := fits.asked
      exact fits.single (by omega)
    have override : item.handle.mode = .runsOverride := by
      by_contra pooled
      exact several ⟨single, pooled⟩
    have noPool : ¬ (item.handle.mode = .defaultState ∨
        item.handle.state ≠ none) := by
      cases handle : item.handle with
      | defaultState =>
          rw [handle] at override
          cases override
      | explicitState =>
          rw [handle] at override
          cases override
      | runsOverride => simp [Handle.mode, Handle.state]
    rw [if_pos one, if_neg noPool, if_neg fun both => both.1 one]
  · rw [if_neg one, multiplied]
    dsimp only
    by_cases cached :
        item.handle.canUseTlsRunCache (m * fam.sizeOf item.value) = true
    · rw [if_pos cached, if_pos ⟨one, cached⟩]
    · rw [if_neg cached, if_neg fun both => cached both.2]

theorem deallocate_frees :
    Frees fam w ledger item.value thread item.ptr
      (w.deallocate fam b thread item.ptr m) := by
  have fits := ok.items item member
  have held := (ok.held item.ptr).mpr ⟨item, member, rfl⟩
  obtain rfl := equal.eq
  by_cases single : item.IsNode
  · obtain ⟨site, node, draws⟩ := fits.node single
    rw [ok.deallocate_node member equal lower upper single,
      ok.freeNodeRouted_eq node draws single.2]
    by_cases direct : site = item.handle.siteOn thread
    · rw [if_pos direct]
      exact .node node
    · rw [if_neg direct]
      refine .parkNode node ?_
      -- Only default allocators free what other threads allocated.
      cases handle : item.handle with
      | defaultState stateless =>
          unfold Family.stateless at stateless
          simp only [Bool.and_eq_true] at stateless
          exact stateless.1
      | explicitState state typed =>
          rw [handle] at direct draws
          exact absurd draws direct
      | runsOverride runs =>
          rw [handle] at direct draws
          exact absurd draws direct
  · obtain ⟨site, allocation, listed, payload, covers, draws⟩ := fits.run single
    have run : ledger.HasRun site item.ptr := ⟨allocation, listed, payload⟩
    rw [ok.deallocate_run member equal lower upper single]
    by_cases cached : m ≠ 1 ∧
        item.handle.canUseTlsRunCache (m * fam.sizeOf item.value) = true
    · rw [if_pos cached]
      obtain ⟨own, cutoff⟩ := item.handle.canUse_spec cached.2 thread
      have positive : 0 < m * fam.sizeOf item.value :=
        Nat.mul_pos (by have := fits.asked; omega) (fam.sizePositive _)
      obtain ⟨inClasses, classBytes⟩ := tlsClass_spec positive cutoff
      obtain ⟨owner, rfl⟩ : ∃ owner, site = .thread item.value owner := by
        cases handle : item.handle with
        | defaultState stateless =>
            rw [handle] at draws
            exact draws
        | explicitState state typed =>
            have mode := cached.2
            rw [handle] at mode
            simp [Handle.canUseTlsRunCache, Handle.mode] at mode
        | runsOverride runs =>
            have mode := cached.2
            rw [handle] at mode
            simp [Handle.canUseTlsRunCache, Handle.mode] at mode
      rw [ok.deallocateToTlsRunCache_eq run (by simp [held])]
      refine .cache listed payload inClasses ?_
      have smaller := Nat.mul_le_mul_right (fam.sizeOf item.value) upper
      rw [classBytes]
      unfold room at covers ⊢
      omega
    · rw [if_neg cached, ok.freeRunRouted_eq run draws]
      split
      · exact .run run
      · exact .parkRun run

end Item

section Drained

variable {idx : Nat} {owner : Thread} {allocation : Runner.Allocation}
  (member : allocation ∈ ledger.runs (.thread value owner))
  (loose : ledger.place allocation.payload = some .adrift)
  (enough : tlsClassBytes idx ≤ room allocation)

include ok member loose enough

/-- A run that is with nobody enters the thread's cache. -/
theorem drainAndPush (thread : Thread) :
    ∃ gone next, Ledger.Returned gone ledger next ∧
      (∀ q ∈ gone, ledger.place q = some (.cached value thread idx)) ∧
      allocation.payload ∉ gone ∧
      WorldOk fam (w.drainedForPush fam value thread idx) live next ∧
      WorldOk fam ((w.drainedForPush fam value thread idx).tlsPush value thread
          idx allocation.payload (fam.runsAt (.thread value owner))) live
        (next.settle allocation.payload (.cached value thread idx)) := by
  obtain ⟨gone, next, returned, drained, evicted⟩ :=
    ok.drainedForPush value thread idx
  have spared : allocation.payload ∉ gone := by
    intro listed
    have cached := evicted _ listed
    rw [loose] at cached
    cases cached
  have stillLoose : next.place allocation.payload = some .adrift := by
    rw [returned.kept _ spared, loose]
  have still : allocation ∈ next.runs (.thread value owner) :=
    (returned.runs _ allocation).mpr ⟨member, spared⟩
  exact ⟨gone, next, returned, evicted, spared, drained,
    drained.tlsPush still stillLoose enough⟩

end Drained

section Item

variable {item : Item fam} {b : Handle fam item.value} {m : Nat}
  (member : item ∈ live) (equal : b.Equal item.handle)
  (lower : item.requested ≤ m) (upper : m ≤ item.count)

include ok member equal lower upper

theorem deallocate :
    ∃ next, WorldOk fam (w.deallocate fam b thread item.ptr m)
        (live.filter fun other => other.ptr ≠ item.ptr) next ∧
      Ledger.Freed item.value thread item.ptr ledger next := by
  have given := ok.takeBack member
  have loose : (ledger.settle item.ptr .adrift).place item.ptr = some .adrift :=
    Ledger.settle_self .adrift
  have frees : Frees fam w ledger item.value thread item.ptr
      (w.deallocate fam b thread item.ptr m) :=
    ok.deallocate_frees member equal lower upper
  generalize w.deallocate fam b thread item.ptr m = w' at frees ⊢
  cases frees with
  | node node =>
      exact ⟨_, given.deallocateNode node loose,
        Ledger.freed_of_gone fun _ => rfl⟩
  | parkNode node headers =>
      exact ⟨_, given.parkNode node loose headers,
        Ledger.freed_of_gone fun _ => rfl⟩
  | run run =>
      exact ⟨_, given.deallocateBytes run loose,
        Ledger.freed_of_gone fun _ => rfl⟩
  | parkRun run =>
      exact ⟨_, given.remotePush run loose, Ledger.freed_of_gone fun _ => rfl⟩
  | @cache owner allocation idx listed payload inClasses enough =>
      rw [← payload] at loose given ⊢
      obtain ⟨gone, next, returned, evicted, spared, _, pushed⟩ :=
        given.drainAndPush listed loose enough thread
      refine ⟨_, pushed, ?_⟩
      have settled : ∀ q, q ≠ allocation.payload → q ∉ gone →
          next.place q = ledger.place q := fun q distinct kept => by
        rw [returned.kept q kept, Ledger.settle_of_ne _ distinct]
      exact
        { kept := by
            intro q x distinct same elsewhere
            rw [Ledger.settle_of_ne _ distinct, settled q distinct, same]
            intro listed
            have cached := evicted q listed
            rw [Ledger.settle_of_ne _ distinct, same] at cached
            exact elsewhere _ (Option.some.inj cached)
          cached := by
            intro q value' thread' idx' new
            by_cases moved : q = allocation.payload
            · subst moved
              rw [Ledger.settle_self] at new
              cases new
              exact Or.inr ⟨rfl, rfl, inClasses⟩
            · rw [Ledger.settle_of_ne _ moved] at new
              by_cases out : q ∈ gone
              · rw [returned.freed q out] at new
                cases new
              · rw [settled q moved out] at new
                exact Or.inl new
          adrift := by
            intro q new
            by_cases moved : q = allocation.payload
            · subst moved
              rw [Ledger.settle_self] at new
              cases new
            · rw [Ledger.settle_of_ne _ moved] at new
              by_cases out : q ∈ gone
              · rw [returned.freed q out] at new
                cases new
              · rw [settled q moved out] at new
                exact ⟨moved, new⟩ }

end Item

end WorldOk

end Suballocated

end Allocazam
