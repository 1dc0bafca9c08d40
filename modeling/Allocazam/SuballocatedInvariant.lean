import Allocazam.SuballocatedSession

/-!
# The invariant of the suballocated allocator

All pools and runners are in order on disjoint memory, the class lists of the
run caches thread through allocated runs, and every node and every run that is
out of its owner's hands is in one place.
-/

namespace Allocazam

namespace Suballocated

variable {Value Thread Bound : Type} {fam : Family Value Thread Bound}
  {w : World Value Thread Bound}

/-- Where a pointer is that a pool or a runner gave out: with a user, in a class
list of a run cache, or nowhere. -/
inductive Place (Value Thread : Type) where
  | held
  | cached (value : Value) (thread : Thread) (idx : Nat)
  | adrift
  deriving DecidableEq

/-- The nodes and the runs that the pools and the runners gave out, and where
each of them is. -/
structure Ledger (Value Thread Bound : Type) where
  nodes : Site Value Thread Bound → List Nat
  runs : Site Value Thread Bound → List Runner.Allocation
  place : Nat → Option (Place Value Thread)

namespace Ledger

variable (ledger : Ledger Value Thread Bound)

/-- The payload belongs to a run given out by the runner of the state. -/
def HasRun (site : Site Value Thread Bound) (p : Nat) : Prop :=
  ∃ allocation ∈ ledger.runs site, allocation.payload = p

def Out (p : Nat) : Prop :=
  (∃ site, p ∈ ledger.nodes site) ∨ ∃ site, ledger.HasRun site p

end Ledger

def room (allocation : Runner.Allocation) : Nat :=
  (allocation.requested + 15) / 16 * 16

namespace World

variable (fam) (w)

def others (tenant : Tenant Value Thread Bound) : Set Nat :=
  {addr | ∃ other ≠ tenant, addr ∈ w.territory fam other}

theorem others_subset (tenant : Tenant Value Thread Bound) :
    w.others fam tenant ⊆ w.inUse fam := by
  rintro addr ⟨other, _, owned⟩
  exact ⟨other, owned⟩

def poolSession (ledger : Ledger Value Thread Bound)
    (site : Site Value Thread Bound) : Pool.Session :=
  ⟨w.pool site, ledger.nodes site⟩

def runsSession (ledger : Ledger Value Thread Bound)
    (site : Site Value Thread Bound) : Runner.Session :=
  ⟨w.runs site, ledger.runs site⟩

/-- What a pool or a runner owns and requires of the memory. -/
def tenancy (ledger : Ledger Value Thread Bound) :
    Tenancy (Tenant Value Thread Bound) Nat Nat where
  owns := w.territory fam
  holds
    | .pool site, mem => w.created site = true → ∃ slots deferred free parked,
        Pool.SessionOk (fam.poolConfig site) slots deferred
          (({ w with mem } : World Value Thread Bound).poolSession ledger site)
          free parked
    | .runs site, mem =>
        Runner.SessionOk (fam.runsConfig site)
          (({ w with mem } : World Value Thread Bound).runsSession ledger site)
  framed := by
    rintro (site | site) mem mem' holds agrees
    · intro created
      obtain ⟨slots, deferred, free, parked, ok⟩ := holds created
      exact ⟨slots, deferred, free, parked, ok.framed agrees⟩
    · exact holds.framed agrees

end World

/-- A state that has not been constructed owns nothing. -/
structure Unborn (fam : Family Value Thread Bound)
    (w : World Value Thread Bound) (ledger : Ledger Value Thread Bound)
    (site : Site Value Thread Bound) : Prop where
  pool : Pool.Vacant (fam.poolConfig site) (w.states site).pool
  chunks : (w.states site).runs.chunks = []
  nodes : ledger.nodes site = []
  runs : ledger.runs site = []

/-- The class list consists of the given entries, each with its owner's stamp
and room for the class. -/
structure ClassOk (fam : Family Value Thread Bound)
    (w : World Value Thread Bound) (ledger : Ledger Value Thread Bound)
    (value : Value) (thread : Thread) (idx : Nat) (entries : List Nat) :
    Prop where
  chain : IsStack w.mem (w.classes value thread idx).head entries
  count : (w.classes value thread idx).count = entries.length
  entry : ∀ p ∈ entries, ∃ owner, ∃ allocation ∈ ledger.runs (.thread value owner),
    allocation.payload = p ∧ tlsClassBytes idx ≤ room allocation ∧
      w.mem (p + 8) = fam.runsAt (.thread value owner)
  place : ∀ p, p ∈ entries ↔ ledger.place p = some (.cached value thread idx)

def Handle.DrawsFrom {value : Value} (a : Handle fam value)
    (site : Site Value Thread Bound) : Prop :=
  match a with
  | .defaultState _ => ∃ thread, site = .thread value thread
  | .explicitState state _ => site = state
  | .runsOverride runs => site = runs

/-- An allocator with a pool draws from states of its value type. -/
theorem Handle.DrawsFrom.typed {value : Value} {a : Handle fam value}
    {site : Site Value Thread Bound} (draws : a.DrawsFrom site)
    (pooled : a.mode ≠ .runsOverride) : fam.valueOf site = value := by
  cases a with
  | defaultState stateless =>
      obtain ⟨thread, rfl⟩ := draws
      rfl
  | explicitState state typed =>
      obtain rfl : site = state := draws
      exact typed
  | runsOverride runs => exact absurd rfl pooled

/-- An allocation is a node of a pool or a run with enough room. -/
structure ItemOk (ledger : Ledger Value Thread Bound) (item : Item fam) :
    Prop where
  asked : 1 ≤ item.requested
  returned : item.requested ≤ item.count
  bounded : item.count ≤ fam.maxSize item.value
  single : item.requested = 1 → item.count = 1
  node : item.IsNode → ∃ site, item.ptr ∈ ledger.nodes site ∧
    item.handle.DrawsFrom site
  run : ¬ item.IsNode → ∃ site, ∃ allocation ∈ ledger.runs site,
    allocation.payload = item.ptr ∧
      item.count * fam.sizeOf item.value ≤ room allocation ∧
      item.handle.DrawsFrom site

/-- The invariant. -/
structure WorldOk (fam : Family Value Thread Bound)
    (w : World Value Thread Bound) (live : List (Item fam))
    (ledger : Ledger Value Thread Bound) : Prop where
  tenants : (w.tenancy fam ledger).Ok w.mem
  unborn : ∀ site, w.created site = false → Unborn fam w ledger site
  placed : ∀ p, ledger.place p ≠ none ↔ ledger.Out p
  /-- No node enters a run cache. -/
  nodes : ∀ site, ∀ p ∈ ledger.nodes site, ∀ value thread idx,
    ledger.place p ≠ some (.cached value thread idx)
  held : ∀ p, ledger.place p = some .held ↔ ∃ item ∈ live, item.ptr = p
  distinct : (live.map Item.ptr).Nodup
  items : ∀ item ∈ live, ItemOk ledger item
  classes : ∀ value thread idx, ∃ entries,
    ClassOk fam w ledger value thread idx entries

namespace WorldOk

variable {live : List (Item fam)} {ledger : Ledger Value Thread Bound}
  {site other : Site Value Thread Bound} {p : Nat}

section Reading

variable (ok : WorldOk fam w live ledger)

include ok

theorem poolOk (created : w.created site = true) :
    ∃ slots deferred free parked, Pool.SessionOk (fam.poolConfig site) slots
      deferred (w.poolSession ledger site) free parked :=
  ok.tenants.holds (.pool site) created

theorem runsOk (site : Site Value Thread Bound) :
    Runner.SessionOk (fam.runsConfig site) (w.runsSession ledger site) :=
  ok.tenants.holds (.runs site)

theorem tenant_unique {tenant tenant' : Tenant Value Thread Bound}
    (first : p ∈ w.territory fam tenant) (second : p ∈ w.territory fam tenant') :
    tenant = tenant' :=
  ok.tenants.eq_of_owns first second

theorem created_of_node (node : p ∈ ledger.nodes site) :
    w.created site = true := by
  by_contra missing
  rw [(ok.unborn site (by simpa using missing)).nodes] at node
  simp at node

theorem node_pool (node : p ∈ ledger.nodes site) :
    ∃ slots deferred free parked, Pool.SessionOk (fam.poolConfig site) slots
      deferred (w.poolSession ledger site) free parked :=
  ok.poolOk (ok.created_of_node node)

theorem nodes_nodup (site : Site Value Thread Bound) :
    (ledger.nodes site).Nodup := by
  cases created : w.created site with
  | false =>
      rw [(ok.unborn site created).nodes]
      exact List.nodup_nil
  | true =>
      obtain ⟨_, _, _, _, pool⟩ := ok.poolOk created
      exact (List.nodup_append.mp pool.balanced.nodup).2.1

theorem node_territory (node : p ∈ ledger.nodes site) :
    p ∈ w.territory fam (.pool site) := by
  obtain ⟨_, _, _, _, pool⟩ := ok.node_pool node
  exact pool.mem_footprint (pool.live_node node)

theorem run_territory (run : ledger.HasRun site p) :
    p ∈ w.territory fam (.runs site) := by
  obtain ⟨allocation, member, rfl⟩ := run
  obtain ⟨large, _, _, _, _, inside⟩ := (ok.runsOk site).payload_spec member
  apply inside
  · omega
  · unfold Runner.Session.stop
    omega

theorem run_unique (run : ledger.HasRun site p) (again : ledger.HasRun other p) :
    site = other := by
  have same := ok.tenant_unique (ok.run_territory run)
    (ok.run_territory again)
  cases same
  rfl

theorem node_unique (node : p ∈ ledger.nodes site)
    (again : p ∈ ledger.nodes other) : site = other := by
  have same := ok.tenant_unique (ok.node_territory node)
    (ok.node_territory again)
  cases same
  rfl

theorem node_not_run (node : p ∈ ledger.nodes site) : ¬ ledger.HasRun other p := by
  intro run
  have same := ok.tenant_unique (ok.node_territory node)
    (ok.run_territory run)
  cases same

theorem payload_apart {one two : Runner.Allocation}
    (oneMember : one ∈ ledger.runs site) (twoMember : two ∈ ledger.runs other)
    (distinct : one.payload ≠ two.payload) {addr : Nat}
    (lower : one.payload ≤ addr)
    (upper : addr < one.payload + w.payloadBytes one.payload) :
    ¬ (two.payload ≤ addr ∧
      addr < two.payload + w.payloadBytes two.payload) := by
  rintro ⟨above, below⟩
  obtain ⟨_, _, _, _, _, oneInside⟩ := (ok.runsOk site).payload_spec oneMember
  obtain ⟨_, _, _, _, _, twoInside⟩ := (ok.runsOk other).payload_spec twoMember
  have same := ok.tenant_unique
    (show addr ∈ w.territory fam (.runs site) from
      oneInside addr (by omega) upper)
    (show addr ∈ w.territory fam (.runs other) from
      twoInside addr (by omega) below)
  cases same
  obtain ⟨runs, parked, runner, held⟩ := ok.runsOk site
  have apart := Runner.payloads_apart runner held oneMember twoMember
    fun same => distinct (by rw [same])
  unfold Runner.Session.stop at apart
  change one.payload + w.payloadBytes one.payload ≤ two.payload ∨
    two.payload + w.payloadBytes two.payload ≤ one.payload at apart
  omega

theorem payload_large {allocation : Runner.Allocation}
    (member : allocation ∈ ledger.runs site) :
    32 ≤ w.payloadBytes allocation.payload ∧
      room allocation ≤ w.payloadBytes allocation.payload := by
  obtain ⟨large, covers, _⟩ := (ok.runsOk site).payload_spec member
  exact ⟨large, covers⟩

theorem created_of_run (run : ledger.HasRun site p) :
    w.created site = true := by
  by_contra missing
  obtain ⟨allocation, member, _⟩ := run
  rw [(ok.unborn site (by simpa using missing)).runs] at member
  simp at member

theorem run_of_cached {value : Value} {thread : Thread} {idx : Nat}
    (cached : ledger.place p = some (.cached value thread idx)) :
    ∃ site, ledger.HasRun site p := by
  rcases (ok.placed p).mp (by simp [cached]) with ⟨site, node⟩ | run
  · exact absurd cached (ok.nodes site p node value thread idx)
  · exact run

end Reading

end WorldOk

end Suballocated

end Allocazam
