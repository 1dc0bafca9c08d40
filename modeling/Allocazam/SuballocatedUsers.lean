import Allocazam.SuballocatedInvariant

/-!
# Users of the suballocated allocator

Users take over what was allocated, write to it and give it up.
-/

namespace Allocazam

namespace Suballocated

variable {Value Thread Bound : Type} {fam : Family Value Thread Bound}
  {w : World Value Thread Bound} {live : List (Item fam)}
  {ledger : Ledger Value Thread Bound} {site : Site Value Thread Bound}
  {value : Value} {thread : Thread} {idx p addr : Nat}

def Ledger.settle (ledger : Ledger Value Thread Bound) (p : Nat)
    (x : Place Value Thread) : Ledger Value Thread Bound :=
  { ledger with place := Function.update ledger.place p (some x) }

@[simp]
theorem Ledger.settle_self (x : Place Value Thread) :
    (ledger.settle p x).place p = some x :=
  Function.update_self _ _ _

theorem Ledger.settle_of_ne {q : Nat} (x : Place Value Thread)
    (distinct : q ≠ p) : (ledger.settle p x).place q = ledger.place q :=
  Function.update_of_ne distinct _ _

/-- Moving something that is out does not change what is out. -/
theorem Ledger.settle_placed (placed : ∀ q, ledger.place q ≠ none ↔ ledger.Out q)
    (present : ledger.place p ≠ none) (x : Place Value Thread) (q : Nat) :
    (ledger.settle p x).place q ≠ none ↔ (ledger.settle p x).Out q := by
  have out : (ledger.settle p x).Out q ↔ ledger.Out q := Iff.rfl
  rw [out, ← placed q]
  by_cases same : q = p
  · subst same
    simp [present]
  · rw [settle_of_ne x same]

theorem ClassOk.congr {w' : World Value Thread Bound} {entries : List Nat}
    {place : Nat → Option (Place Value Thread)}
    (cls : ClassOk fam w ledger value thread idx entries)
    (classes : w'.classes value thread idx = w.classes value thread idx)
    (words : ∀ q ∈ entries, w'.mem q = w.mem q ∧ w'.mem (q + 8) = w.mem (q + 8))
    (places : ∀ q, place q = some (.cached value thread idx) ↔
      ledger.place q = some (.cached value thread idx)) :
    ClassOk fam w' { ledger with place } value thread idx entries where
  chain := by
    rw [classes]
    exact cls.chain.congr fun q listed => (words q listed).1
  count := by
    rw [classes]
    exact cls.count
  entry := by
    intro q listed
    obtain ⟨owner, allocation, member, payload, enough, stamp⟩ :=
      cls.entry q listed
    exact ⟨owner, allocation, member, payload, enough,
      (words q listed).2.trans stamp⟩
  place := fun q => (cls.place q).trans (places q).symm

namespace WorldOk

variable (ok : WorldOk fam w live ledger)

include ok

/-- A write to the payload of a run that is out disturbs no pool and no
runner. -/
theorem write_tenants {allocation : Runner.Allocation}
    (member : allocation ∈ ledger.runs site) (lower : allocation.payload ≤ addr)
    (upper : addr < allocation.payload + w.payloadBytes allocation.payload)
    (written : Nat) :
    ((w.write addr written).tenancy fam ledger).Ok
      (w.write addr written).mem := by
  have owned : addr ∈ w.territory fam (.runs site) := by
    obtain ⟨_, _, _, _, _, inside⟩ := (ok.runsOk site).payload_spec member
    exact inside addr (by omega) upper
  have moves : (w.tenancy fam ledger).Moves
      ((w.write addr written).tenancy fam ledger) (.runs site) w.mem
      (w.write addr written).mem :=
    { owns := fun _ _ => rfl
      holds := fun _ _ _ holds => holds
      acquires := fun _ owned => Or.inl owned
      writes := by
        intro word foreign
        apply Function.update_of_ne
        rintro rfl
        exact foreign owned }
  exact ok.tenants.moved moves
    ((Runner.sessionOk_inductive _).step _ _ (ok.runsOk site)
      (.store addr written ⟨allocation, member, lower, upper⟩))

/-- A write to a payload does not reach the words of another run in a class
list. -/
theorem write_words {allocation entry : Runner.Allocation}
    {owner : Site Value Thread Bound}
    (member : allocation ∈ ledger.runs site) (lower : allocation.payload ≤ addr)
    (upper : addr < allocation.payload + w.payloadBytes allocation.payload)
    (written : Nat) (entryMember : entry ∈ ledger.runs owner)
    (distinct : allocation.payload ≠ entry.payload) :
    (w.write addr written).mem entry.payload = w.mem entry.payload ∧
      (w.write addr written).mem (entry.payload + 8) =
        w.mem (entry.payload + 8) := by
  have apart := ok.payload_apart member entryMember distinct lower upper
  have large := (ok.payload_large entryMember).1
  constructor
  · apply Function.update_of_ne
    rintro rfl
    exact apart ⟨le_rfl, by omega⟩
  · apply Function.update_of_ne
    rintro rfl
    exact apart ⟨by omega, by omega⟩

theorem storeRun {allocation : Runner.Allocation}
    (member : allocation ∈ ledger.runs site)
    (notCached : ∀ value thread idx,
      ledger.place allocation.payload ≠ some (.cached value thread idx))
    (lower : allocation.payload ≤ addr)
    (upper : addr < allocation.payload + w.payloadBytes allocation.payload)
    (written : Nat) : WorldOk fam (w.write addr written) live ledger where
  tenants := ok.write_tenants member lower upper written
  unborn site missing :=
    have unborn := ok.unborn site missing
    ⟨unborn.pool, unborn.chunks, unborn.nodes, unborn.runs⟩
  placed := ok.placed
  nodes := ok.nodes
  held := ok.held
  distinct := ok.distinct
  items := ok.items
  classes value thread idx := by
    obtain ⟨entries, cls⟩ := ok.classes value thread idx
    refine ⟨entries, cls.congr rfl ?_ fun _ => Iff.rfl⟩
    intro q listed
    obtain ⟨owner, entry, entryMember, rfl, _⟩ := cls.entry q listed
    apply ok.write_words member lower upper written entryMember
    intro same
    apply notCached value thread idx
    rw [same]
    exact (cls.place _).mp listed

/-- A write outside all runs that are out, to a node or to memory nobody owns,
that disturbs no pool. -/
theorem storeElsewhere (written : Nat)
    (tenants : ((w.write addr written).tenancy fam ledger).Ok
      (w.write addr written).mem)
    (outside : ∀ site, addr ∉ w.territory fam (.runs site)) :
    WorldOk fam (w.write addr written) live ledger where
  tenants := tenants
  unborn site missing :=
    have unborn := ok.unborn site missing
    ⟨unborn.pool, unborn.chunks, unborn.nodes, unborn.runs⟩
  placed := ok.placed
  nodes := ok.nodes
  held := ok.held
  distinct := ok.distinct
  items := ok.items
  classes value thread idx := by
    obtain ⟨entries, cls⟩ := ok.classes value thread idx
    refine ⟨entries, cls.congr rfl ?_ fun _ => Iff.rfl⟩
    intro q listed
    obtain ⟨owner, entry, entryMember, rfl, _⟩ := cls.entry q listed
    obtain ⟨large, _, _, _, _, inside⟩ := (ok.runsOk _).payload_spec entryMember
    have apart : ∀ word, entry.payload ≤ word → word < entry.payload + 32 →
        word ≠ addr := by
      rintro word lower upper rfl
      apply outside (.thread value owner)
      apply inside
      · omega
      · unfold Runner.Session.stop
        omega
    exact ⟨Function.update_of_ne (apart _ le_rfl (by omega)) _ _,
      Function.update_of_ne (apart _ (by omega) (by omega)) _ _⟩

theorem storeNode (node : p ∈ ledger.nodes site)
    (inNode : addr ∈ (fam.poolConfig site).nodeRange p) (written : Nat) :
    WorldOk fam (w.write addr written) live ledger := by
  obtain ⟨slots, deferred, free, parked, pool⟩ := ok.node_pool node
  have owned : addr ∈ w.territory fam (.pool site) :=
    pool.balanced.laid.nodeRange_subset (pool.live_node node) inNode
  apply ok.storeElsewhere
  · have moves : (w.tenancy fam ledger).Moves
        ((w.write addr written).tenancy fam ledger) (.pool site) w.mem
        (w.write addr written).mem :=
      { owns := fun _ _ => rfl
        holds := fun _ _ _ holds => holds
        acquires := fun _ owned => Or.inl owned
        writes := by
          intro word foreign
          apply Function.update_of_ne
          rintro rfl
          exact foreign owned }
    exact ok.tenants.moved moves
      fun _ => ⟨slots, deferred, free, parked, pool.store written node inNode⟩
  · intro owner again
    cases ok.tenant_unique owned again

/-- Somebody writes to memory that no pool and no runner owns. -/
theorem storeUnused (unused : addr ∉ w.inUse fam) (written : Nat) :
    WorldOk fam (w.write addr written) live ledger := by
  apply ok.storeElsewhere
  · apply ok.tenants.elsewhere
    intro word used
    apply Function.update_of_ne
    rintro rfl
    exact unused used
  · intro owner owned
    exact unused ⟨.runs owner, owned⟩

theorem handOver {item : Item fam} (adrift : ledger.place item.ptr = some .adrift)
    (fits : ItemOk ledger item) :
    WorldOk fam w (item :: live) (ledger.settle item.ptr .held) where
  tenants := ok.tenants
  unborn site missing :=
    have unborn := ok.unborn site missing
    ⟨unborn.pool, unborn.chunks, unborn.nodes, unborn.runs⟩
  placed := Ledger.settle_placed ok.placed (by simp [adrift]) _
  nodes site q node value thread idx := by
    by_cases same : q = item.ptr
    · subst same
      simp
    · rw [Ledger.settle_of_ne _ same]
      exact ok.nodes site q node value thread idx
  held q := by
    by_cases same : q = item.ptr
    · subst same
      simp
    · rw [Ledger.settle_of_ne _ same, ok.held q]
      simp [Ne.symm same]
  distinct := by
    refine List.nodup_cons.mpr ⟨fun again => ?_, ok.distinct⟩
    obtain ⟨other, member, same⟩ := List.mem_map.mp again
    have held := (ok.held item.ptr).mpr ⟨other, member, same⟩
    rw [adrift] at held
    simp at held
  items other member := by
    rcases List.mem_cons.mp member with rfl | later
    · exact ⟨fits.asked, fits.returned, fits.bounded, fits.single, fits.node, fits.run⟩
    · have old := ok.items other later
      exact ⟨old.asked, old.returned, old.bounded, old.single, old.node, old.run⟩
  classes value thread idx := by
    obtain ⟨entries, cls⟩ := ok.classes value thread idx
    refine ⟨entries, cls.congr rfl (fun _ _ => ⟨rfl, rfl⟩) fun q => ?_⟩
    by_cases same : q = item.ptr
    · subst same
      simp [adrift]
    · rw [Function.update_of_ne same]

theorem takeBack {item : Item fam} (member : item ∈ live) :
    WorldOk fam w (live.filter fun other => other.ptr ≠ item.ptr)
      (ledger.settle item.ptr .adrift) where
  tenants := ok.tenants
  unborn site missing :=
    have unborn := ok.unborn site missing
    ⟨unborn.pool, unborn.chunks, unborn.nodes, unborn.runs⟩
  placed := by
    have held := (ok.held item.ptr).mpr ⟨item, member, rfl⟩
    exact Ledger.settle_placed ok.placed (by simp [held]) _
  nodes site q node value thread idx := by
    by_cases same : q = item.ptr
    · subst same
      simp
    · rw [Ledger.settle_of_ne _ same]
      exact ok.nodes site q node value thread idx
  held q := by
    by_cases same : q = item.ptr
    · subst same
      simp
    · rw [Ledger.settle_of_ne _ same, ok.held q]
      constructor
      · rintro ⟨other, listed, rfl⟩
        exact ⟨other, List.mem_filter.mpr ⟨listed, by simpa using same⟩, rfl⟩
      · rintro ⟨other, listed, rfl⟩
        exact ⟨other, (List.mem_filter.mp listed).1, rfl⟩
  distinct := ok.distinct.sublist (List.filter_sublist.map _)
  items other listed := by
    have old := ok.items other (List.mem_filter.mp listed).1
    exact ⟨old.asked, old.returned, old.bounded, old.single, old.node, old.run⟩
  classes value thread idx := by
    have held := (ok.held item.ptr).mpr ⟨item, member, rfl⟩
    obtain ⟨entries, cls⟩ := ok.classes value thread idx
    refine ⟨entries, cls.congr rfl (fun _ _ => ⟨rfl, rfl⟩) fun q => ?_⟩
    by_cases same : q = item.ptr
    · subst same
      simp [held]
    · rw [Function.update_of_ne same]

end WorldOk

end Suballocated

end Allocazam
