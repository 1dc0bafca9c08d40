import Allocazam.NumberedSlots
import Allocazam.PoolLoans

/-!
# Pools as numbered slots

A pool is a stack of numbered slots: what its nodes and links in memory come to is what
`Slots` says, with the number of a slot for the address of its node.
-/

namespace Allocazam

namespace Pool

/-- Whether the memory for a chunk of `count` nodes can be had, and what is thrown if not. -/
def Config.supply (cfg : Config) (heap : Heap) (count : Nat) : Except Exn Unit :=
  match cfg.chunkBytes count with
  | none => .error .badArrayNewLength
  | some bytes =>
      match heap.grant bytes cfg.chunkAlign with
      | none => .error .refused
      | some _ => .ok ()

def Config.policy (cfg : Config) : Policy Exn where
  bounded := cfg.fixedLike
  limit := 2 ^ 64
  overflow := .badAlloc

@[simp]
theorem policy_bounded (cfg : Config) : cfg.policy.bounded = cfg.fixedLike :=
  rfl

@[simp]
theorem policy_limit (cfg : Config) : cfg.policy.limit = 2 ^ 64 :=
  rfl

variable {cfg : Config} {s t u : State} {heap : Heap} {count : Nat} {free parked : List Nat}
  {session : Session} {ledger : Slots}

theorem addChunk_supply (cfg : Config) (s : State) (heap : Heap) (count : Nat) :
    (s.addChunk cfg heap count).2 = cfg.supply heap count := by
  unfold State.addChunk State.constructChunk Config.supply
  cases cfg.chunkBytes count with
  | none => rfl
  | some bytes =>
      dsimp only
      cases heap.grant bytes cfg.chunkAlign with
      | none => rfl
      | some base =>
          dsimp only
          by_cases headers : cfg.ownerHeaders = true
          · rw [if_pos headers]
          · rw [if_neg headers]

/-- How a request for more nodes ends: it throws, or the last node of the new chunk is
handed out. -/
inductive Stocks (cfg : Config) (heap : Heap) (s : State) (count : Nat) :
    State × Except Exn Nat → Prop
  | refused {exn : Exn} (denied : cfg.supply heap count = .error exn) :
      Stocks cfg heap s count (s, .error exn)
  | stocked {chunk : Chunk} {t : State} {n : Nat} {free : List Nat}
      (supplied : cfg.supply heap count = .ok ())
      (grows : Grown cfg heap count chunk s t [])
      (nodes : (chunk.list cfg).reverse = n :: free) :
      Stocks cfg heap s count (t.handed n, .ok n)

theorem addChunk_stocks (ok : Ok cfg s []) (inUse : ∀ addr ∈ s.footprint cfg, heap.inUse addr)
    (heapBacked : cfg.heapBacked = true) (single : cfg.fixedLike = true → s.capacity = 0)
    (positive : 0 < count) :
    (∃ exn, s.addChunk cfg heap count = (s, .error exn) ∧
        Stocks cfg heap s count (s, .error exn)) ∨
      ∃ t n, s.addChunk cfg heap count = (t, .ok ()) ∧ n ≠ 0 ∧
        t.popFreeNode = ({ t with freeHead := t.mem n }, n) ∧
        Stocks cfg heap s count (t.handed n, .ok n) := by
  have supplied := addChunk_supply cfg s heap count
  rcases addChunk_spec ok inUse heapBacked single count with
    ⟨_, exn, failed⟩ | ⟨chunk, t, added, grows⟩
  · rw [failed] at supplied
    exact .inl ⟨exn, failed, .refused supplied.symm⟩
  · rw [added] at supplied
    obtain ⟨n, free, nodes, nonnull, popped⟩ := grows.provide positive
    exact .inr ⟨t, n, added, nonnull, popped, .stocked supplied.symm grows nodes⟩

/-- The end of an allocation that finds no node, by what the pool may do about it. -/
inductive Ends (cfg : Config) (heap : Heap) (s : State) : State × Except Exn Nat → Prop
  | deferred {outcome : State × Except Exn Nat} (empty : s.capacity = 0)
      (some : s.nextGrowth ≠ 0) (stocks : Stocks cfg heap s s.nextGrowth outcome) :
      Ends cfg heap s outcome
  | exhausted (populated : ¬ (s.capacity = 0 ∧ s.nextGrowth ≠ 0))
      (fixedLike : cfg.fixedLike = true) : Ends cfg heap s (s, .ok 0)
  | overflow (populated : ¬ (s.capacity = 0 ∧ s.nextGrowth ≠ 0))
      (dynamic : cfg.fixedLike = false) (large : 2 ^ 64 ≤ 2 * s.nextGrowth) :
      Ends cfg heap s (s, .error .badAlloc)
  | grown {outcome : State × Except Exn Nat}
      (populated : ¬ (s.capacity = 0 ∧ s.nextGrowth ≠ 0))
      (dynamic : cfg.fixedLike = false) (small : 2 * s.nextGrowth < 2 ^ 64)
      (stocks : Stocks cfg heap { s with nextGrowth := 2 * s.nextGrowth } (2 * s.nextGrowth)
        outcome) :
      Ends cfg heap s outcome

theorem provide_ends (ok : Ok cfg s []) (inUse : ∀ addr ∈ s.footprint cfg, heap.inUse addr)
    (growing : cfg.heapBacked = true → 0 < s.nextGrowth)
    (unbacked : cfg.heapBacked = false → s.nextGrowth = 0) :
    Ends cfg heap s (s.provide cfg heap) := by
  unfold State.provide
  rw [State.popFreeNode_nil ok.stack]
  dsimp only
  unfold State.resumeAllocate State.allocateDeferred
  rw [if_pos rfl]
  by_cases deferred : cfg.heapBacked = true ∧ s.capacity = 0 ∧ s.nextGrowth ≠ 0
  · rw [if_pos deferred]
    obtain ⟨heapBacked, empty, some⟩ := deferred
    rcases addChunk_stocks ok inUse heapBacked (fun _ => empty) (growing heapBacked) with
      ⟨exn, failed, stocks⟩ | ⟨t, n, added, nonnull, popped, stocks⟩
    · rw [failed]
      exact .deferred empty some stocks
    · rw [added]
      dsimp only
      rw [popped]
      dsimp only
      rw [if_neg nonnull]
      exact .deferred empty some stocks
  · have populated : ¬ (s.capacity = 0 ∧ s.nextGrowth ≠ 0) := by
      rintro ⟨empty, some⟩
      refine deferred ⟨?_, empty, some⟩
      cases backed : cfg.heapBacked with
      | true => rfl
      | false => exact absurd (unbacked backed) some
    rw [if_neg deferred]
    dsimp only
    rw [if_pos rfl]
    unfold State.allocateGrown
    by_cases fixedLike : cfg.fixedLike = true
    · rw [if_pos fixedLike]
      exact .exhausted populated fixedLike
    · rw [if_neg fixedLike]
      have heapBacked : cfg.heapBacked = true := by
        unfold Config.fixedLike at fixedLike
        unfold Config.heapBacked
        cases mode : cfg.mode <;> simp_all
      have positive := growing heapBacked
      have dynamic : cfg.fixedLike = false := by simpa using fixedLike
      unfold State.grow
      cases doubled : checkedMul s.nextGrowth 2 with
      | none =>
          have large := checkedMul_eq_none.mp doubled
          exact .overflow populated dynamic (by omega)
      | some doubledGrowth =>
          obtain ⟨small, rfl⟩ := checkedMul_eq_some.mp doubled
          dsimp only
          rw [max_eq_right (by omega), Nat.mul_comm]
          rcases addChunk_stocks (ok.withMembers (2 * s.nextGrowth) s.remoteHead) inUse
              heapBacked (fun contra => absurd contra fixedLike)
              (show 0 < 2 * s.nextGrowth by omega) with
            ⟨exn, failed, stocks⟩ | ⟨t, n, added, nonnull, popped, stocks⟩
          · rw [failed]
            exact .grown populated dynamic (by omega) stocks
          · rw [added]
            dsimp only
            rw [popped]
            dsimp only
            rw [if_neg nonnull]
            exact .grown populated dynamic (by omega) stocks

/-- The free list and the remote stack once the latter has been dealt with. -/
def drained (free parked : List Nat) : List Nat × List Nat :=
  if free = [] then (parked.reverse, []) else (free, parked)

theorem Balanced.allocate_drained {out : List Nat} (heap : Heap)
    (inv : Balanced cfg s 0 free parked [] out)
    (raw : cfg.ownerHeaders = false → parked = []) :
    ∃ u, s.allocate cfg heap = u.provide cfg heap ∧
      Balanced cfg u 0 (drained free parked).1 (drained free parked).2 [] out ∧
      u.chunks = s.chunks ∧ u.nextGrowth = s.nextGrowth ∧ u.capacity = s.capacity := by
  unfold State.allocate drained
  cases free with
  | cons n free =>
      refine ⟨s, ?_, inv, rfl, rfl, rfl⟩
      unfold State.provide
      rw [State.popFreeNode_cons inv.stack]
      dsimp only
      rw [if_neg fun both => inv.stack.2.1 both.1]
  | nil =>
      have provided : s.provide cfg heap = s.resumeAllocate cfg heap 0 := by
        unfold State.provide
        rw [State.popFreeNode_nil inv.stack]
      rw [State.popFreeNode_nil inv.stack, if_pos rfl]
      dsimp only
      by_cases headers : cfg.ownerHeaders = true
      · rw [if_pos ⟨rfl, headers⟩]
        obtain ⟨found, inv', chunks, growth, capacity, _⟩ := inv.drainRemote
        rw [List.append_nil] at inv'
        generalize s.drainRemote = outcome at *
        obtain ⟨u, some⟩ := outcome
        refine ⟨u, ?_, inv', chunks, growth, capacity⟩
        cases some with
        | true => rfl
        | false =>
            have empty : parked = [] := by simpa using found.symm
            rw [empty] at inv'
            unfold State.provide
            rw [State.popFreeNode_nil inv'.stack]
      · rw [if_neg fun both => headers both.2, ← provided]
        obtain rfl := raw (by simpa using headers)
        exact ⟨s, rfl, inv, rfl, rfl, rfl⟩

/-- The node of a slot: slots are numbered through the chunks in their order. -/
def Members.slotNode (cfg : Config) (m : Members) (slot : Nat) : Nat :=
  (m.nodes cfg)[slot]?.getD 0

def Members.answer (cfg : Config) (m : Members) (result : Except Exn (Option Nat)) :
    Except Exn Nat :=
  result.map fun slot => slot.elim 0 (m.slotNode cfg)

theorem slotNode_injective {m : Members} (laid : Laid cfg m.chunks) {one two : Nat}
    (inside : one < (m.nodes cfg).length) (inside' : two < (m.nodes cfg).length)
    (same : m.slotNode cfg one = m.slotNode cfg two) : one = two := by
  unfold Members.slotNode at same
  rw [List.getElem?_eq_getElem inside, List.getElem?_eq_getElem inside'] at same
  exact (List.Nodup.getElem_inj_iff laid.nodes_nodup).mp same

section Appended

variable {m m' : Members} {listed : List Nat} (appended : m'.nodes cfg = m.nodes cfg ++ listed)

include appended

theorem slotNode_old {slot : Nat} (inside : slot < (m.nodes cfg).length) :
    m'.slotNode cfg slot = m.slotNode cfg slot := by
  unfold Members.slotNode
  rw [appended, List.getElem?_append_left inside]

theorem map_slotNode_old {slots : List Nat}
    (inside : ∀ slot ∈ slots, slot < (m.nodes cfg).length) :
    slots.map (m'.slotNode cfg) = slots.map (m.slotNode cfg) :=
  List.map_congr_left fun slot member => slotNode_old appended (inside slot member)

theorem map_slotNode_new :
    (List.range' (m.nodes cfg).length listed.length).map (m'.slotNode cfg) = listed := by
  apply List.ext_getElem
  · simp
  · intro i inside inside'
    rw [List.getElem_map, List.getElem_range']
    unfold Members.slotNode
    rw [appended, List.getElem?_append_right (by omega)]
    simp [inside']

end Appended

/-- The lists and numbers of the pool are those of the slots. -/
structure Stands (cfg : Config) (s : State) (ledger : Slots) : Prop where
  balanced : Balanced cfg s 0 (ledger.free.map (s.slotNode cfg))
    (ledger.parked.map (s.slotNode cfg)) [] (ledger.live.map (s.slotNode cfg))
  raw : cfg.ownerHeaders = false → ledger.parked = []
  count : s.capacity = ledger.count
  step : s.nextGrowth = ledger.step
  unbacked : cfg.heapBacked = false → ledger.step = 0
  conserved : ledger.Conserved

namespace Stands

theorem withLists {ledger : Slots} (chunks : t.chunks = s.chunks)
    (balanced : Balanced cfg t 0 (ledger.free.map (s.slotNode cfg))
      (ledger.parked.map (s.slotNode cfg)) [] (ledger.live.map (s.slotNode cfg)))
    (raw : cfg.ownerHeaders = false → ledger.parked = [])
    (count : t.capacity = ledger.count) (step : t.nextGrowth = ledger.step)
    (unbacked : cfg.heapBacked = false → ledger.step = 0) (conserved : ledger.Conserved) :
    Stands cfg t ledger where
  balanced := by
    have same : t.slotNode cfg = s.slotNode cfg := by
      unfold Members.slotNode Members.nodes
      rw [chunks]
    rw [same]
    exact balanced
  raw := raw
  count := count
  step := step
  unbacked := unbacked
  conserved := conserved

variable (stands : Stands cfg s ledger)

include stands

theorem length_nodes : (s.nodes cfg).length = ledger.count := by
  rw [← stands.balanced.capacity, stands.count]

theorem inside {slot : Nat}
    (member : slot ∈ ledger.free ∨ slot ∈ ledger.parked ∨ slot ∈ ledger.live) :
    slot < (s.nodes cfg).length := by
  rw [stands.length_nodes]
  exact stands.conserved.lt_of_mem member

theorem growing : cfg.heapBacked = true → 0 < s.nextGrowth :=
  stands.balanced.growing

/-- The drain of the pool is the return of the parked slots. -/
theorem reclaim (heap : Heap) :
    ∃ u, s.allocate cfg heap = u.provide cfg heap ∧ Stands cfg u ledger.reclaim ∧
      u.chunks = s.chunks := by
  obtain ⟨u, result, balanced, chunks, growth, capacity⟩ :=
    stands.balanced.allocate_drained heap fun headers => by rw [stands.raw headers]; rfl
  have conserved := stands.conserved.reclaim
  refine ⟨u, result, ?_, chunks⟩
  unfold drained at balanced
  unfold Slots.reclaim at conserved ⊢
  by_cases empty : ledger.free = []
  · rw [if_pos (by rw [empty]; rfl), ← List.map_reverse] at balanced
    rw [if_pos empty] at conserved ⊢
    exact withLists chunks balanced (fun _ => rfl) (capacity.trans stands.count)
      (growth.trans stands.step) stands.unbacked conserved
  · rw [if_neg (by simpa using empty)] at balanced
    rw [if_neg empty] at conserved ⊢
    exact withLists chunks balanced stands.raw (capacity.trans stands.count)
      (growth.trans stands.step) stands.unbacked conserved

theorem handOut (heap : Heap) {slot : Nat} {rest : List Nat}
    (listed : ledger.free = slot :: rest) :
    s.provide cfg heap = (s.handed (s.slotNode cfg slot), .ok (s.slotNode cfg slot)) ∧
      Stands cfg (s.handed (s.slotNode cfg slot)) ledger.handOut.1 := by
  have balanced := stands.balanced
  have conserved := stands.conserved.handOut
  rw [listed, List.map_cons] at balanced
  constructor
  · unfold State.provide
    rw [State.popFreeNode_cons balanced.stack]
    dsimp only
    unfold State.resumeAllocate
    rw [if_neg balanced.stack.2.1]
    rfl
  · unfold Slots.handOut at conserved ⊢
    rw [listed] at conserved ⊢
    exact withLists rfl balanced.handed stands.raw stands.count stands.step
      stands.unbacked conserved

theorem stock {outcome : State × Except Exn Nat} (empty : ledger.free = [])
    (inUse : ∀ addr ∈ s.footprint cfg, heap.inUse addr) (backed : cfg.heapBacked = true)
    (stocks : Stocks cfg heap s count outcome) :
    Stands cfg outcome.1 (ledger.stock (cfg.supply heap) count).1 ∧
      outcome.2 = outcome.1.answer cfg (ledger.stock (cfg.supply heap) count).2 ∧
      ∃ added, outcome.1.nodes cfg = s.nodes cfg ++ added := by
  have conserved := stands.conserved.stock (cfg.supply heap) count
  unfold Slots.stock at conserved ⊢
  cases stocks with
  | refused denied =>
      rw [denied]
      exact ⟨stands, rfl, [], (List.append_nil _).symm⟩
  | @stocked chunk t n free supplied grows nodes =>
      rw [supplied] at conserved ⊢
      dsimp only at conserved ⊢
      have counted : (chunk.list cfg).length = count := by
        rw [Chunk.length_list, grows.fresh.count]
      have new := map_slotNode_new (m := s.toMembers) grows.nodes
      rw [counted, stands.length_nodes] at new
      have old : ∀ slots : List Nat, (∀ slot ∈ slots, slot < (s.nodes cfg).length) →
          slots.map (t.slotNode cfg) = slots.map (s.slotNode cfg) :=
        fun slots => map_slotNode_old grows.nodes
      have balanced := stands.balanced
      rw [empty, List.map_nil] at balanced
      have grown := balanced.grown inUse grows (stands.growing backed) nodes
      have freeEq : (ledger.extend count).free =
          (List.range' ledger.count count).reverse := by
        unfold Slots.extend
        rw [empty, List.append_nil]
      have mapped : (ledger.extend count).free.map (t.slotNode cfg) = n :: free := by
        rw [freeEq, List.map_reverse, new, nodes]
      cases listed : (ledger.extend count).free with
      | nil =>
          rw [listed] at mapped
          cases mapped
      | cons slot rest =>
          rw [listed, List.map_cons, List.cons.injEq] at mapped
          obtain ⟨first, others⟩ := mapped
          have handed : (ledger.extend count).handOut =
              ({ ledger.extend count with free := rest, live := slot :: ledger.live },
                some slot) := by
            unfold Slots.handOut
            rw [listed]
            rfl
          rw [handed] at conserved ⊢
          refine ⟨?_, ?_, _, grows.nodes⟩
          · exact
              { balanced := by
                  show Balanced cfg (t.handed n) 0 (rest.map (t.slotNode cfg))
                    (ledger.parked.map (t.slotNode cfg)) []
                    ((slot :: ledger.live).map (t.slotNode cfg))
                  rw [others, List.map_cons, first,
                    old ledger.parked fun slot member => stands.inside (.inr (.inl member)),
                    old ledger.live fun slot member => stands.inside (.inr (.inr member))]
                  exact grown
                raw := stands.raw
                count := by
                  show t.capacity = ledger.count + count
                  rw [grows.ok.capacity, grows.nodes, List.length_append, counted,
                    stands.length_nodes]
                step := grows.members.2.1.trans stands.step
                unbacked := stands.unbacked
                conserved := conserved }
          · show Except.ok n = .ok (t.slotNode cfg slot)
            rw [first]

theorem demand {outcome : State × Except Exn Nat} (empty : ledger.free = [])
    (inUse : ∀ addr ∈ s.footprint cfg, heap.inUse addr) (ends : Ends cfg heap s outcome) :
    Stands cfg outcome.1 (ledger.demand cfg.policy (cfg.supply heap)).1 ∧
      outcome.2 = outcome.1.answer cfg (ledger.demand cfg.policy (cfg.supply heap)).2 ∧
      ∃ added, outcome.1.nodes cfg = s.nodes cfg ++ added := by
  have count := stands.count
  have step := stands.step
  unfold Slots.demand
  rw [policy_bounded, policy_limit]
  cases ends with
  | deferred none some stocks =>
      rw [if_pos ⟨count.symm.trans none, by rwa [← step]⟩, ← step]
      refine stands.stock empty inUse ?_ stocks
      cases backed : cfg.heapBacked with
      | true => rfl
      | false => exact absurd (step.trans (stands.unbacked backed)) some
  | exhausted populated fixedLike =>
      rw [count, step] at populated
      rw [if_neg populated, if_pos fixedLike]
      exact ⟨stands, rfl, [], (List.append_nil _).symm⟩
  | overflow populated dynamic large =>
      rw [count, step] at populated
      rw [step] at large
      rw [if_neg populated, if_neg (by simp [dynamic]), if_pos large]
      exact ⟨stands, rfl, [], (List.append_nil _).symm⟩
  | grown populated dynamic small stocks =>
      rw [count, step] at populated
      rw [step] at small stocks
      rw [if_neg populated, if_neg (by simp [dynamic]), if_neg (Nat.not_le.mpr small)]
      have backed : cfg.heapBacked = true := by
        unfold Config.fixedLike at dynamic
        unfold Config.heapBacked
        cases mode : cfg.mode <;> simp_all
      have positive := stands.growing backed
      have raised : Stands cfg { s with nextGrowth := 2 * ledger.step }
          { ledger with step := 2 * ledger.step } :=
        withLists rfl (stands.balanced.withGrowth fun _ => by omega) stands.raw count rfl
          (fun raw => by rw [stands.unbacked raw]) stands.conserved
      exact raised.stock empty inUse backed stocks

theorem allocate (inUse : ∀ addr ∈ s.footprint cfg, heap.inUse addr) :
    Stands cfg (s.allocate cfg heap).1 (ledger.allocate cfg.policy (cfg.supply heap)).1 ∧
      (s.allocate cfg heap).2 = (s.allocate cfg heap).1.answer cfg
        (ledger.allocate cfg.policy (cfg.supply heap)).2 ∧
      ∃ added, (s.allocate cfg heap).1.nodes cfg = s.nodes cfg ++ added := by
  obtain ⟨u, result, reclaimed, chunks⟩ := stands.reclaim heap
  have nodes : u.nodes cfg = s.nodes cfg := by
    unfold Members.nodes
    rw [chunks]
  have inUse' : ∀ addr ∈ u.footprint cfg, heap.inUse addr := by
    unfold Members.footprint
    rw [chunks]
    exact inUse
  rw [result, ← nodes]
  unfold Slots.allocate
  cases listed : ledger.reclaim.free with
  | nil =>
      have none : ledger.reclaim.handOut = (ledger.reclaim, Option.none) := by
        unfold Slots.handOut
        rw [listed]
      have ok := reclaimed.balanced.toOk
      rw [listed] at ok
      have ends := provide_ends ok inUse' reclaimed.growing fun raw =>
        reclaimed.step.trans (reclaimed.unbacked raw)
      rw [none]
      exact reclaimed.demand listed inUse' ends
  | cons slot rest =>
      obtain ⟨provided, handed⟩ := reclaimed.handOut heap listed
      have some : ledger.reclaim.handOut = (ledger.reclaim.handOut.1, Option.some slot) := by
        unfold Slots.handOut
        rw [listed]
      rw [provided, some]
      exact ⟨handed, rfl, [], (List.append_nil _).symm⟩

theorem nonnull {slot : Nat} (held : slot ∈ ledger.live) : s.slotNode cfg slot ≠ 0 := by
  apply stands.balanced.nonnull
  exact stands.balanced.mem_nodes_iff.mpr (.inr (.inr (.inr (List.mem_map_of_mem held))))

theorem map_erase {slot : Nat} (held : slot ∈ ledger.live) :
    (ledger.live.map (s.slotNode cfg)).erase (s.slotNode cfg slot) =
      (ledger.live.erase slot).map (s.slotNode cfg) := by
  have injective : ∀ one ∈ ledger.live, ∀ two ∈ ledger.live,
      s.slotNode cfg one = s.slotNode cfg two → one = two := fun one listed two listed' =>
    slotNode_injective stands.balanced.laid (stands.inside (.inr (.inr listed)))
      (stands.inside (.inr (.inr listed')))
  generalize ledger.live = live at held injective
  induction live with
  | nil => rfl
  | cons first later ih =>
      by_cases same : first = slot
      · rw [same, List.map_cons, List.erase_cons_head, List.erase_cons_head]
      · have inLater : slot ∈ later := by
          rcases List.mem_cons.mp held with rfl | inLater
          · exact absurd rfl same
          · exact inLater
        have distinct : s.slotNode cfg first ≠ s.slotNode cfg slot := fun equal =>
          same (injective first (by simp) slot held equal)
        rw [List.map_cons, List.erase_cons_tail (by simpa using distinct),
          List.erase_cons_tail (by simpa using same), List.map_cons,
          ih inLater fun one listed two listed' =>
            injective one (by simp [listed]) two (by simp [listed'])]

theorem atFront {slot : Nat} (held : slot ∈ ledger.live) :
    Balanced cfg s 0 (ledger.free.map (s.slotNode cfg)) (ledger.parked.map (s.slotNode cfg)) []
      (s.slotNode cfg slot :: (ledger.live.erase slot).map (s.slotNode cfg)) := by
  refine stands.balanced.reorder ?_
  rw [← stands.map_erase held]
  exact List.perm_cons_erase (List.mem_map_of_mem held)

theorem release {slot : Nat} (held : slot ∈ ledger.live) :
    Stands cfg (s.spliceNode (s.slotNode cfg slot)) (ledger.release slot) := by
  rw [State.spliceNode_eq]
  exact withLists rfl (stands.atFront held).freed stands.raw stands.count stands.step
    stands.unbacked (stands.conserved.release held)

theorem park (headers : cfg.ownerHeaders = true) {slot : Nat} (held : slot ∈ ledger.live) :
    Stands cfg (s.remotePush (s.slotNode cfg slot)) (ledger.park slot) := by
  have linked := (stands.atFront held).store List.mem_cons_self
    (cfg.self_mem_nodeRange (s.slotNode cfg slot)) s.remoteHead
  exact withLists rfl (linked.published (Function.update_self _ _ _))
    (fun raw => by rw [headers] at raw; cases raw) stands.count stands.step stands.unbacked
    (stands.conserved.park held)

/-- Writes to a node in use do not matter. -/
theorem store {slot addr : Nat} (held : slot ∈ ledger.live)
    (inNode : addr ∈ cfg.nodeRange (s.slotNode cfg slot)) (value : Nat) :
    Stands cfg (s.write addr value) ledger :=
  withLists rfl (stands.balanced.store (List.mem_map_of_mem held) inNode value) stands.raw
    stands.count stands.step stands.unbacked stands.conserved

end Stands

/-- The nodes in use are those of the slots in use. -/
structure Represents (cfg : Config) (session : Session) (ledger : Slots) : Prop
    extends Stands cfg session.state ledger where
  live : session.live = ledger.live.map (session.state.slotNode cfg)

namespace Represents

variable (represents : Represents cfg session ledger)

include represents

theorem length_live : session.live.length = ledger.live.length := by
  rw [represents.live, List.length_map]

theorem held {n : Nat} (holds : n ∈ session.live) :
    ∃ slot ∈ ledger.live, session.state.slotNode cfg slot = n := by
  rw [represents.live] at holds
  exact List.mem_map.mp holds

theorem allocate (allowed : session.Allows cfg (.allocate heap)) :
    Represents cfg (session.perform cfg (.allocate heap))
        (ledger.allocate cfg.policy (cfg.supply heap)).1 ∧
      (session.state.allocate cfg heap).2 =
        (session.perform cfg (.allocate heap)).state.answer cfg
          (ledger.allocate cfg.policy (cfg.supply heap)).2 := by
  obtain ⟨stands, result, added, nodes⟩ := represents.toStands.allocate allowed
  rw [Session.perform_allocate]
  refine ⟨⟨stands, ?_⟩, result⟩
  have kept : session.live =
      ledger.live.map ((session.state.allocate cfg heap).1.slotNode cfg) := by
    rw [represents.live]
    exact (map_slotNode_old nodes fun slot member =>
      represents.toStands.inside (.inr (.inr member))).symm
  have live := Slots.allocate_live cfg.policy (cfg.supply heap) ledger
  have nonnull : ∀ slot ∈ (ledger.allocate cfg.policy (cfg.supply heap)).1.live,
      (session.state.allocate cfg heap).1.slotNode cfg slot ≠ 0 := fun slot =>
    stands.nonnull
  show handedOut (session.state.allocate cfg heap).2 ++ session.live = _
  rw [result, kept]
  rw [live] at nonnull ⊢
  generalize (ledger.allocate cfg.policy (cfg.supply heap)).2 = answer at nonnull ⊢
  obtain exn | slot | slot := answer
  · rfl
  · rfl
  · exact congrArg (· ++ _) (if_neg (nonnull slot (by simp [Slots.given])))

theorem deallocate {slot : Nat} (held : slot ∈ ledger.live) :
    Represents cfg
      (session.perform cfg (.deallocate (session.state.slotNode cfg slot)))
      (ledger.release slot) := by
  rw [Session.perform_deallocate (represents.toStands.nonnull held)]
  refine ⟨represents.toStands.release held, ?_⟩
  show session.live.erase _ = (ledger.live.erase slot).map (session.state.slotNode cfg)
  rw [represents.live]
  exact represents.toStands.map_erase held

theorem remotePush (headers : cfg.ownerHeaders = true) {slot : Nat}
    (held : slot ∈ ledger.live) :
    Represents cfg
      (session.perform cfg (.remotePush (session.state.slotNode cfg slot)))
      (ledger.park slot) := by
  refine ⟨represents.toStands.park headers held, ?_⟩
  show session.live.erase _ = (ledger.live.erase slot).map (session.state.slotNode cfg)
  rw [represents.live]
  exact represents.toStands.map_erase held

theorem store {n addr : Nat} (value : Nat) (holds : n ∈ session.live)
    (inNode : addr ∈ cfg.nodeRange n) :
    Represents cfg { session with state := session.state.write addr value } ledger := by
  obtain ⟨slot, held, rfl⟩ := represents.held holds
  exact ⟨represents.toStands.store held inNode value, represents.live⟩

end Represents

/-- The slots of a pool that has only its first chunk. -/
theorem Stands.first {chunk : Chunk} {step : Nat}
    (balanced : Balanced cfg s 0 (chunk.list cfg).reverse [] [] [])
    (nodes : s.nodes cfg = chunk.list cfg) (growth : s.nextGrowth = step)
    (unbacked : cfg.heapBacked = false → step = 0) :
    Stands cfg s ((Slots.blank step).extend chunk.count) := by
  let nothing : Members := { s.toMembers with chunks := [] }
  have appended : s.nodes cfg = nothing.nodes cfg ++ chunk.list cfg := nodes
  have new := map_slotNode_new appended
  rw [Chunk.length_list] at new
  have free : ((Slots.blank step).extend chunk.count).free =
      (List.range' 0 chunk.count).reverse := List.append_nil _
  exact
    { balanced := by
        rw [free, List.map_reverse]
        have listed : (List.range' 0 chunk.count).map (s.slotNode cfg) = chunk.list cfg := new
        rw [listed]
        exact balanced
      raw := fun _ => rfl
      count := by
        show s.capacity = 0 + chunk.count
        rw [balanced.capacity, nodes, Chunk.length_list, Nat.zero_add]
      step := growth
      unbacked := unbacked
      conserved := (Slots.Conserved.blank step).extend chunk.count }

theorem constructExternal_growth {mem : Nat → Nat} {data size : Nat}
    (constructed : State.constructExternal cfg mem data size = .ok s) : s.nextGrowth = 0 := by
  unfold State.constructExternal at constructed
  dsimp only at constructed
  split at constructed
  · cases constructed
  split at constructed
  · cases constructed
  split at constructed
  · cases constructed
  generalize (Chunk.mk _ _ _) = chunk at constructed
  obtain rfl := Except.ok.inj constructed
  show (List.foldl State.pushFreeNode _ (chunk.list cfg)).nextGrowth = 0
  rw [congrArg Members.nextGrowth (foldl_pushFreeNode_members _ _)]
  rfl

/-- How many slots a pool has at first, and how many it asked for last. -/
def Config.firstSlots (cfg : Config) (slots : Nat) (deferred : Bool) : Nat × Nat :=
  (if deferred then 0 else slots, if cfg.heapBacked then slots else 0)

theorem starts_represents {slots : Nat} {deferred : Bool}
    (starts : Starts cfg slots deferred session) :
    Represents cfg session
      ((Slots.blank (cfg.firstSlots slots deferred).2).extend
        (cfg.firstSlots slots deferred).1) := by
  unfold Config.firstSlots
  cases starts with
  | eager heap mem heapBacked word constructed =>
      obtain ⟨positive, capacity, growth, chunk, balanced, grows⟩ :=
        construct_ok heapBacked constructed
      have nodes := grows.nodes
      rw [(blank_vacant mem slots).nodes, List.nil_append] at nodes
      have stands := Stands.first balanced nodes growth
        (fun raw => by rw [heapBacked] at raw; cases raw)
      rw [grows.fresh.count] at stands
      rw [if_pos heapBacked]
      exact ⟨stands, rfl⟩
  | deferred mem heapBacked word constructed =>
      obtain ⟨positive, rfl⟩ := constructLazy_ok constructed
      rw [if_pos heapBacked]
      exact
        { balanced := blank_balanced mem fun _ => positive
          raw := fun _ => rfl
          count := rfl
          step := rfl
          unbacked := fun raw => by rw [heapBacked] at raw; cases raw
          conserved := (Slots.Conserved.blank slots).extend 0
          live := rfl }
  | @external built mem data size raw positive span constructed count =>
      obtain ⟨chunk, _, _, _, chunks, capacity, _, _, balanced⟩ :=
        constructExternal_ok raw positive span constructed
      have nodes : built.nodes cfg = chunk.list cfg := by
        unfold Members.nodes
        rw [chunks, List.flatMap_singleton]
      have stands := Stands.first balanced nodes (constructExternal_growth constructed)
        fun _ => rfl
      rw [← capacity, count] at stands
      have unbacked : ¬ cfg.heapBacked = true := by simp [raw]
      rw [if_neg unbacked]
      exact ⟨stands, rfl⟩

/-- What a pool does is what its slots do. -/
structure Mirrors (cfg : Config) (session : Session) (ledger : Slots) : Prop where
  allocate : ∀ heap, session.Allows cfg (.allocate heap) →
    Represents cfg (session.perform cfg (.allocate heap))
        (ledger.allocate cfg.policy (cfg.supply heap)).1 ∧
      (session.state.allocate cfg heap).2 =
        (session.perform cfg (.allocate heap)).state.answer cfg
          (ledger.allocate cfg.policy (cfg.supply heap)).2
  deallocate : ∀ n ∈ session.live, ∃ slot ∈ ledger.live, session.state.slotNode cfg slot = n ∧
    Represents cfg (session.perform cfg (.deallocate n)) (ledger.release slot)
  remotePush : cfg.ownerHeaders = true → ∀ n ∈ session.live,
    ∃ slot ∈ ledger.live, session.state.slotNode cfg slot = n ∧
      Represents cfg (session.perform cfg (.remotePush n)) (ledger.park slot)

theorem Represents.mirrors (represents : Represents cfg session ledger) :
    Mirrors cfg session ledger where
  allocate heap allowed := represents.allocate allowed
  deallocate n holds := by
    obtain ⟨slot, held, rfl⟩ := represents.held holds
    exact ⟨slot, held, rfl, represents.deallocate held⟩
  remotePush headers n holds := by
    obtain ⟨slot, held, rfl⟩ := represents.held holds
    exact ⟨slot, held, rfl, represents.remotePush headers held⟩

/-- A step of a pool and the same call of slots, with the number of a slot for its node. -/
inductive Shadows (cfg : Config) : Session × Slots → Session × Slots → Prop
  | allocate {session : Session} {ledger : Slots} (heap : Heap)
      (allowed : session.Allows cfg (.allocate heap)) :
      Shadows cfg (session, ledger)
        (session.perform cfg (.allocate heap),
          (ledger.allocate cfg.policy (cfg.supply heap)).1)
  | deallocate {session : Session} {ledger : Slots} {slot : Nat} (held : slot ∈ ledger.live)
      (allowed : session.Allows cfg (.deallocate (session.state.slotNode cfg slot))) :
      Shadows cfg (session, ledger)
        (session.perform cfg (.deallocate (session.state.slotNode cfg slot)),
          ledger.release slot)
  | remotePush {session : Session} {ledger : Slots} {slot : Nat} (held : slot ∈ ledger.live)
      (allowed : session.Allows cfg (.remotePush (session.state.slotNode cfg slot))) :
      Shadows cfg (session, ledger)
        (session.perform cfg (.remotePush (session.state.slotNode cfg slot)),
          ledger.park slot)
  | store {session : Session} {ledger : Slots} {n addr : Nat} (value : Nat)
      (holds : n ∈ session.live) (inNode : addr ∈ cfg.nodeRange n) :
      Shadows cfg (session, ledger)
        ({ session with state := session.state.write addr value }, ledger)

/-- The runs of a pool beside those of its slots. -/
def shadowed (cfg : Config) (slots : Nat) (deferred : Bool) :
    TransitionSystem (Session × Slots) where
  start pair := Starts cfg slots deferred pair.1 ∧
    pair.2 = (Slots.blank (cfg.firstSlots slots deferred).2).extend
      (cfg.firstSlots slots deferred).1
  step := Shadows cfg

theorem shadowed_slots {slots : Nat} {deferred : Bool} {pair : Session × Slots}
    (reachable : (shadowed cfg slots deferred).Reachable pair) :
    (Slots.runs cfg.policy (cfg.firstSlots slots deferred).1
      (cfg.firstSlots slots deferred).2).Reachable pair.2 := by
  induction reachable with
  | start begins => exact .start begins.2
  | step _ shadows run =>
      cases shadows with
      | allocate heap _ => exact .step run (.allocate _)
      | deallocate held _ => exact .step run (.release held)
      | remotePush held _ => exact .step run (.park held)
      | store => exact run

/-- In such a run the pool always stands for its slots. -/
theorem shadowed_inductive {slots : Nat} {deferred : Bool} :
    (shadowed cfg slots deferred).Inductive fun pair => Represents cfg pair.1 pair.2 where
  start pair := by
    obtain ⟨session, ledger⟩ := pair
    rintro ⟨starts, rfl⟩
    exact starts_represents starts
  step pair next represents shadows := by
    cases shadows with
    | allocate heap allowed => exact (represents.allocate allowed).1
    | deallocate held _ => exact represents.deallocate held
    | remotePush held allowed => exact represents.remotePush allowed.1 held
    | store value holds inNode => exact represents.store value holds inNode

/-- Every run of a pool is a run of numbered slots, call by call. -/
theorem refines_slots {slots : Nat} {deferred : Bool}
    (reachable : (sessions cfg slots deferred).Reachable session) :
    ∃ ledger, (shadowed cfg slots deferred).Reachable (session, ledger) ∧
      (Slots.runs cfg.policy (cfg.firstSlots slots deferred).1
        (cfg.firstSlots slots deferred).2).Reachable ledger ∧
      Represents cfg session ledger ∧ Mirrors cfg session ledger := by
  have accompanied : ∃ ledger,
      (shadowed cfg slots deferred).Reachable (session, ledger) := by
    induction reachable with
    | start begins => exact ⟨_, .start ⟨begins, rfl⟩⟩
    | step _ moves ih =>
        obtain ⟨ledger, run⟩ := ih
        have represents := shadowed_inductive.reachable run
        cases moves with
        | call operation allowed =>
            cases operation with
            | allocate heap => exact ⟨_, .step run (.allocate heap allowed)⟩
            | deallocate n =>
                obtain ⟨slot, held, rfl⟩ := represents.held allowed
                exact ⟨_, .step run (.deallocate held allowed)⟩
            | remotePush n =>
                obtain ⟨slot, held, rfl⟩ := represents.held allowed.2
                exact ⟨_, .step run (.remotePush held allowed)⟩
        | store value holds inNode => exact ⟨_, .step run (.store value holds inNode)⟩
  obtain ⟨ledger, run⟩ := accompanied
  have represents := shadowed_inductive.reachable run
  exact ⟨ledger, run, shadowed_slots run, represents, represents.mirrors⟩

/-- The pool has grown, with a node parked, others free and two in use. -/
theorem headerSession_refines :
    headerSession.live = [131552, 65568] ∧
      ∃ ledger, (shadowed headerPool 2 true).Reachable (headerSession, ledger) ∧
        (Slots.runs headerPool.policy 0 2).Reachable ledger ∧
        Represents headerPool headerSession ledger ∧
        Mirrors headerPool headerSession ledger :=
  ⟨headerSession_state.1, refines_slots headerSession_reachable⟩

end Pool

end Allocazam
