import Allocazam.PoolConservation
import Allocazam.TransitionSystem

/-!
# Sessions of one pool

A session is a pool together with the nodes its users hold.  Users allocate,
free and park nodes, and write to the nodes they hold as they like.
-/

namespace Allocazam

namespace Pool

/-- A pool and the nodes that are neither deallocated nor parked. -/
structure Session where
  state : State
  live : List Nat

/-- A call of a public operation. -/
inductive Operation where
  | allocate (heap : Heap)
  | deallocate (n : Nat)
  | remotePush (n : Nat)

namespace Operation

def argument : Operation → Option Nat
  | .allocate _ => none
  | .deallocate n => some n
  | .remotePush n => some n

end Operation

namespace Session

variable (cfg : Config) (session : Session)

/-- The calls users may make.  The heap grants no address of the pool again. -/
def Allows : Operation → Prop
  | .allocate heap => ∀ addr ∈ session.state.footprint cfg, heap.inUse addr
  | .deallocate n => n ∈ session.live
  | .remotePush n => cfg.ownerHeaders = true ∧ n ∈ session.live

def perform : Operation → Session
  | .allocate heap =>
      match session.state.allocate cfg heap with
      | (s, .ok n) => ⟨s, if n = 0 then session.live else n :: session.live⟩
      | (s, .error _) => ⟨s, session.live⟩
  | .deallocate n => ⟨session.state.deallocate n, session.live.erase n⟩
  | .remotePush n => ⟨session.state.remotePush n, session.live.erase n⟩

end Session

/-- A call, or a holder writing to a node. -/
inductive Steps (cfg : Config) : Session → Session → Prop
  | call {session : Session} (operation : Operation)
      (allowed : session.Allows cfg operation) :
      Steps cfg session (session.perform cfg operation)
  | store {session : Session} {n addr : Nat} (value : Nat)
      (holds : n ∈ session.live) (inNode : addr ∈ cfg.nodeRange n) :
      Steps cfg session { session with state := session.state.write addr value }

/-- A pool of `slots` nodes right after its construction.  A heap-backed pool is
constructed with its first chunk or without; a `noheap` pool on a span of the
address space. -/
inductive Starts (cfg : Config) (slots : Nat) : Bool → Session → Prop
  | eager {s : State} (heap : Heap) (mem : Nat → Nat)
      (heapBacked : cfg.heapBacked = true) (word : slots < 2 ^ 64)
      (constructed : State.construct cfg heap mem slots = .ok s) :
      Starts cfg slots false ⟨s, []⟩
  | deferred {s : State} (mem : Nat → Nat)
      (heapBacked : cfg.heapBacked = true) (word : slots < 2 ^ 64)
      (constructed : State.constructLazy cfg mem slots = .ok s) :
      Starts cfg slots true ⟨s, []⟩
  | external {s : State} (mem : Nat → Nat) (data size : Nat)
      (raw : cfg.heapBacked = false) (positive : 0 < data)
      (span : data + size ≤ 2 ^ 64)
      (constructed : State.constructExternal cfg mem data size = .ok s)
      (count : s.capacity = slots) :
      Starts cfg slots false ⟨s, []⟩

/-- The runs of a pool, eagerly constructed or not. -/
def sessions (cfg : Config) (slots : Nat) (deferred : Bool) :
    TransitionSystem Session where
  start := Starts cfg slots deferred
  step := Steps cfg

/-- The invariant of a session with the given free list and remote stack. -/
structure SessionOk (cfg : Config) (slots : Nat) (deferred : Bool)
    (session : Session) (free parked : List Nat) : Prop where
  balanced : Balanced cfg session.state 0 free parked [] session.live
  raw : cfg.ownerHeaders = false → parked = []
  positive : 0 < slots
  /-- A pool that cannot grow keeps its first growth step. -/
  growth : cfg.fixedLike = true → cfg.heapBacked = true →
    session.state.nextGrowth = slots
  populated : session.state.capacity ≠ 0 ∨
    deferred = true ∧ cfg.heapBacked = true
  requested : cfg.fixedLike = true → session.state.capacity ≠ 0 →
    session.state.capacity = slots

variable {cfg : Config} {slots : Nat} {deferred : Bool} {s : State}
  {session : Session} {free parked : List Nat}

theorem noheap_raw (noheap : cfg.heapBacked = false) :
    cfg.ownerHeaders = false ∧ cfg.fixedLike = true := by
  have mode : cfg.mode = MemoryMode.noheap := by
    simpa [Config.heapBacked] using noheap
  refine ⟨?_, by simp [Config.fixedLike, mode]⟩
  cases headers : cfg.ownerHeaders with
  | false => rfl
  | true => exact absurd mode (cfg.headersHeap headers)

/-- The members of a pool that owns nothing. -/
structure Vacant (cfg : Config) (m : Members) : Prop where
  chunks : ∀ chunk ∈ m.chunks, chunk = Chunk.empty cfg
  size : m.size = 0
  capacity : m.capacity = 0
  freeHead : m.freeHead = 0
  remoteHead : m.remoteHead = 0

namespace Vacant

variable {m : Members} (vacant : Vacant cfg m)

include vacant

theorem nodes : m.nodes cfg = [] := by
  apply List.flatMap_eq_nil_iff.mpr
  intro chunk member
  rw [vacant.chunks chunk member]
  rfl

theorem footprint : m.footprint cfg = ∅ := by
  apply footprint_eq_empty
  intro chunk member
  rw [vacant.chunks chunk member]
  rfl

theorem balanced (mem : Nat → Nat)
    (growing : cfg.heapBacked = true → 0 < m.nextGrowth) :
    Balanced cfg ⟨m, mem⟩ 0 [] [] [] [] where
  laid :=
    { placed := fun chunk member => Or.inl (vacant.chunks chunk member)
      apart := by
        apply List.pairwise_of_forall_mem_list
        intro chunk member other _
        rw [vacant.chunks chunk member, Chunk.range_empty]
        exact Set.disjoint_left.mpr fun _ none => absurd none (by simp) }
  stamped headers chunk member granule inside := by
    rw [vacant.chunks chunk member] at inside
    have header := Chunk.header_mem_range inside (show 0 < 16 by decide)
    rw [Chunk.range_empty] at header
    exact absurd header (Set.notMem_empty _)
  capacity := by
    show m.capacity = (m.nodes cfg).length
    rw [vacant.nodes, vacant.capacity]
    rfl
  stack := vacant.freeHead
  listed := by simp
  size := by
    show m.size + 0 = m.capacity
    rw [vacant.size, vacant.capacity]
  remote := vacant.remoteHead
  chain := rfl
  growing := growing
  perm := by
    show List.Perm _ (m.nodes cfg)
    rw [vacant.nodes]
    exact List.Perm.refl _

end Vacant

theorem blank_vacant (mem : Nat → Nat) (nextGrowth : Nat) :
    Vacant cfg (State.blank cfg mem nextGrowth).toMembers where
  chunks := by
    unfold State.blank
    dsimp only
    split <;> simp
  size := rfl
  capacity := rfl
  freeHead := rfl
  remoteHead := rfl

theorem blank_balanced (mem : Nat → Nat) {nextGrowth : Nat}
    (growing : cfg.heapBacked = true → 0 < nextGrowth) :
    Balanced cfg (State.blank cfg mem nextGrowth) 0 [] [] [] [] :=
  (blank_vacant mem nextGrowth).balanced mem growing

theorem Balanced.first {heap : Heap} {chunk : Chunk} {t : State}
    {nextGrowth : Nat} {mem : Nat → Nat}
    (growing : cfg.heapBacked = true → 0 < nextGrowth)
    (grows : Grown cfg heap slots chunk (State.blank cfg mem nextGrowth) t []) :
    Balanced cfg t 0 (chunk.list cfg).reverse [] [] [] ∧ t.capacity = slots ∧
      t.nextGrowth = nextGrowth := by
  obtain ⟨_, growth, remote⟩ := grows.members
  have ok := grows.ok
  rw [List.append_nil] at ok
  have nodes : t.nodes cfg = chunk.list cfg := by
    rw [grows.nodes, (blank_vacant mem nextGrowth).nodes, List.nil_append]
  refine ⟨?_, ?_, growth⟩
  · exact
      { toOk := ok
        remote := remote
        chain := rfl
        growing := fun heapBacked => by
          rw [growth]
          exact growing heapBacked
        perm := by
          rw [nodes, List.append_nil, List.append_nil, List.append_nil]
          exact List.reverse_perm _ }
  · rw [ok.capacity, nodes, Chunk.length_list, grows.fresh.count]

theorem hasSingleBit_pos {value : Nat} (single : hasSingleBit value ≠ false) :
    0 < value := by
  rcases Nat.eq_zero_or_pos value with rfl | positive
  · exact absurd rfl single
  · exact positive

theorem construct_ok {heap : Heap} {mem : Nat → Nat} {poolSize : Nat}
    (heapBacked : cfg.heapBacked = true)
    (constructed : State.construct cfg heap mem poolSize = .ok s) :
    0 < poolSize ∧ s.capacity = poolSize ∧ s.nextGrowth = poolSize ∧
      ∃ chunk, Balanced cfg s 0 (chunk.list cfg).reverse [] [] [] ∧
        Grown cfg heap poolSize chunk (State.blank cfg mem poolSize) s [] := by
  unfold State.construct at constructed
  split at constructed
  · simp at constructed
  · rename_i single
    have positive := hasSingleBit_pos single
    have inUse : ∀ addr ∈ (State.blank cfg mem poolSize).footprint cfg,
        heap.inUse addr := by
      rw [(blank_vacant mem poolSize).footprint]
      simp
    rcases addChunk_spec (blank_balanced mem fun _ => positive).toOk inUse
        heapBacked
        (fun _ => rfl) poolSize with
      ⟨_, exn, failed⟩ | ⟨chunk, t, added, grows⟩
    · rw [failed] at constructed
      simp at constructed
    · rw [added] at constructed
      obtain rfl : t = s := by simpa using constructed
      obtain ⟨balanced, capacity, growth⟩ :=
        Balanced.first (fun _ => positive) grows
      exact ⟨positive, capacity, growth, chunk, balanced, grows⟩

theorem constructLazy_ok {mem : Nat → Nat} {poolSize : Nat}
    (constructed : State.constructLazy cfg mem poolSize = .ok s) :
    0 < poolSize ∧ s = State.blank cfg mem poolSize := by
  unfold State.constructLazy at constructed
  split at constructed
  · simp at constructed
  · rename_i single
    exact ⟨hasSingleBit_pos single, by simpa using constructed.symm⟩

/-- Where the nodes on a span begin and how many they are. -/
def alignedData (cfg : Config) (data : Nat) : Nat :=
  (data + (cfg.nodeAlignment - 1)) / cfg.nodeAlignment * cfg.nodeAlignment

theorem alignedData_spec (cfg : Config) (data : Nat) :
    cfg.nodeAlignment ∣ alignedData cfg data ∧
    data ≤ alignedData cfg data ∧
      alignedData cfg data < data + cfg.nodeAlignment := by
  have positive := cfg.nodeAlignment_ge
  unfold alignedData
  generalize cfg.nodeAlignment = unit at *
  have divided := Nat.div_add_mod (data + (unit - 1)) unit
  have remainder := Nat.mod_lt (data + (unit - 1)) (show 0 < unit by omega)
  rw [Nat.mul_comm] at divided
  exact ⟨Dvd.intro_left _ rfl, by omega, by omega⟩

theorem constructExternal_ok {mem : Nat → Nat} {data size : Nat}
    (raw : cfg.heapBacked = false) (positive : 0 < data)
    (span : data + size ≤ 2 ^ 64)
    (constructed : State.constructExternal cfg mem data size = .ok s) :
    ∃ chunk : Chunk, chunk.nodes = alignedData cfg data ∧
      chunk.count = (size - (alignedData cfg data - data)) / cfg.nodeBytes ∧
      0 < chunk.count ∧ s.chunks = [chunk] ∧ s.capacity = chunk.count ∧
      alignedData cfg data + chunk.count * cfg.nodeBytes ≤ data + size ∧
      (∀ addr ∉ chunk.range cfg, s.mem addr = mem addr) ∧
      Balanced cfg s 0 (chunk.list cfg).reverse [] [] [] := by
  obtain ⟨headers, fixedLike⟩ := noheap_raw raw
  obtain ⟨aligned, after, near⟩ := alignedData_spec cfg data
  unfold State.constructExternal at constructed
  dsimp only at constructed
  have alignedEq : (data + (cfg.nodeAlignment - 1)) / cfg.nodeAlignment *
      cfg.nodeAlignment = alignedData cfg data := rfl
  rw [alignedEq] at constructed
  split at constructed
  · simp at constructed
  split at constructed
  · simp at constructed
  rename_i room
  split at constructed
  · simp at constructed
  rename_i some
  have fits := Nat.div_mul_le_self (size - (alignedData cfg data - data))
    cfg.nodeBytes
  generalize countEq :
    (size - (alignedData cfg data - data)) / cfg.nodeBytes = count at *
  have within : alignedData cfg data + count * cfg.nodeBytes ≤ data + size := by
    omega
  let chunk : Chunk := ⟨count, cfg.nodeAlignment, alignedData cfg data⟩
  have bytesEq : chunk.bytes cfg = count * cfg.nodeBytes := by
    unfold Chunk.bytes
    rw [headers]
    rfl
  have fresh : Fresh cfg ⟨fun _ => False, fun _ _ => none, by simp⟩ count chunk :=
    { count := rfl
      placed :=
        { granule := fun contra => by simp [headers] at contra
          aligned := aligned
          positive := show 0 < alignedData cfg data by omega
          bounded := by
            rw [bytesEq]
            show alignedData cfg data + _ ≤ _
            omega }
      granules := fun contra => by simp [headers] at contra
      unused := fun _ _ => id }
  have vacant : Vacant cfg (State.blank cfg mem 0).toMembers :=
    blank_vacant mem 0
  have blank : Balanced cfg (State.blank cfg mem 0) 0 [] [] [] [] :=
    blank_balanced mem fun contra => by simp [raw] at contra
  have chunksNew : [chunk] = if cfg.fixedLike = true then [chunk]
      else (State.blank cfg mem 0).chunks ++ [chunk] := by
    rw [if_pos fixedLike]
  have grows := blank.toOk.seed
    (by rw [vacant.footprint]; simp) fresh chunksNew
    (fun _ => rfl) (fun _ _ => rfl) (fun contra => by simp [headers] at contra)
  obtain ⟨balanced, capacity, _⟩ :=
    Balanced.first (fun contra => by simp [raw] at contra) grows
  obtain rfl : State.seed cfg { State.blank cfg mem 0 with chunks := [chunk] }
    chunk = s := by simpa using constructed
  have chunksEq := grows.chunks
  rw [if_pos fixedLike] at chunksEq
  exact ⟨chunk, rfl, rfl, Nat.pos_of_ne_zero some, chunksEq, capacity, within,
    grows.kept, balanced⟩

theorem starts_ok {session : Session} (starts : Starts cfg slots deferred session) :
    ∃ free, SessionOk cfg slots deferred session free [] := by
  cases starts with
  | eager heap mem heapBacked word constructed =>
      obtain ⟨positive, capacity, growth, chunk, balanced, _⟩ :=
        construct_ok heapBacked constructed
      exact ⟨_,
        { balanced := balanced
          raw := fun _ => rfl
          positive := positive
          growth := fun _ _ => growth
          populated := Or.inl (by rw [capacity]; exact positive.ne')
          requested := fun _ _ => capacity }⟩
  | deferred mem heapBacked word constructed =>
      obtain ⟨positive, rfl⟩ := constructLazy_ok constructed
      exact ⟨[],
        { balanced := blank_balanced mem fun _ => positive
          raw := fun _ => rfl
          positive := positive
          growth := fun _ _ => rfl
          populated := Or.inr ⟨rfl, heapBacked⟩
          requested := fun _ some => absurd rfl some }⟩
  | external mem data size raw positive span constructed count =>
      obtain ⟨chunk, _, _, some, _, capacity, _, _, balanced⟩ :=
        constructExternal_ok raw positive span constructed
      refine ⟨_,
        { balanced := balanced
          raw := fun _ => rfl
          positive := by
            rw [← count, capacity]
            exact some
          growth := fun _ contra => by simp [raw] at contra
          populated := Or.inl (by rw [capacity]; exact some.ne')
          requested := fun _ _ => count }⟩

theorem Session.perform_allocate (heap : Heap) :
    session.perform cfg (.allocate heap) =
      ⟨(session.state.allocate cfg heap).1,
        handedOut (session.state.allocate cfg heap).2 ++ session.live⟩ := by
  unfold Session.perform handedOut
  dsimp only
  generalize session.state.allocate cfg heap = outcome
  obtain ⟨t, exn | n⟩ := outcome
  · rfl
  · dsimp only
    split <;> rfl

theorem Session.perform_deallocate {n : Nat} (nonnull : n ≠ 0) :
    session.perform cfg (.deallocate n) =
      ⟨session.state.spliceNode n, session.live.erase n⟩ := by
  unfold Session.perform State.deallocate
  dsimp only
  rw [if_neg nonnull]
  rfl

namespace SessionOk

variable (inv : SessionOk cfg slots deferred session free parked)

include inv

/-- What an allocation does: a drain if the free list is empty, and then one of
the outcomes of `Provides`. -/
theorem allocates {heap : Heap}
    (inUse : ∀ addr ∈ session.state.footprint cfg, heap.inUse addr) :
    ∃ u free' parked', Balanced cfg u 0 free' parked' [] session.live ∧
      Provides cfg heap u free' (session.state.allocate cfg heap) ∧
      (∀ addr ∈ u.footprint cfg, heap.inUse addr) ∧
      u.chunks = session.state.chunks ∧
      u.nextGrowth = session.state.nextGrowth ∧
      u.capacity = session.state.capacity ∧
      (∀ addr ∉ parked, u.mem addr = session.state.mem addr) ∧
      (∀ m ∈ parked', m ∈ parked) ∧
      (free' = [] → free = [] ∧ parked = [] ∧ parked' = []) := by
  obtain ⟨u, free', parked', result, balanced, chunks, growth, capacity, kept,
    subset, empty⟩ := Balanced.allocate heap inv.balanced inv.raw
  have inUse' : ∀ addr ∈ u.footprint cfg, heap.inUse addr := by
    intro addr member
    apply inUse
    unfold Members.footprint at member ⊢
    rw [chunks] at member
    exact member
  refine ⟨u, free', parked', balanced, ?_, inUse', chunks, growth, capacity,
    kept, subset, empty⟩
  rw [result]
  exact provide_spec balanced.toOk inUse' balanced.growing

theorem allocate {heap : Heap}
    (inUse : ∀ addr ∈ session.state.footprint cfg, heap.inUse addr) :
    ∃ free' parked', SessionOk cfg slots deferred
      (session.perform cfg (.allocate heap)) free' parked' := by
  obtain ⟨u, free', parked', balanced, provides, inUse', chunks, growth,
    capacity, kept, subset, empty⟩ := inv.allocates inUse
  have raw : cfg.ownerHeaders = false → parked' = [] := fun headers =>
    List.eq_nil_iff_forall_not_mem.mpr fun m listed => by
      have none := subset m listed
      rw [inv.raw headers] at none
      simp at none
  have growthKept := inv.growth
  have populated := inv.populated
  have requested := inv.requested
  rw [← growth] at growthKept
  rw [← capacity] at populated requested
  unfold Session.perform
  dsimp only
  generalize session.state.allocate cfg heap = outcome at provides
  cases provides with
  | @taken n free =>
      have nonnull := balanced.stack.2.1
      dsimp only
      rw [if_neg nonnull]
      exact ⟨free, parked',
        { balanced := balanced.handed
          raw := raw
          positive := inv.positive
          growth := growthKept
          populated := populated
          requested := requested }⟩
  | exhausted fixedLike _ =>
      exact ⟨[], parked',
        { balanced := balanced
          raw := raw
          positive := inv.positive
          growth := growthKept
          populated := populated
          requested := requested }⟩
  | @failed nextGrowth exn grown =>
      have kept : cfg.fixedLike = true → nextGrowth = u.nextGrowth := by
        intro fixedLike
        rcases grown with ⟨same, _⟩ | ⟨_, _, dynamic, _⟩
        · exact same
        · simp [fixedLike] at dynamic
      have positive : cfg.heapBacked = true → 0 < nextGrowth := by
        intro heapBacked
        have before := balanced.growing heapBacked
        omega
      exact ⟨[], parked',
        { balanced := balanced.withGrowth positive
          raw := raw
          positive := inv.positive
          growth := fun fixedLike heapBacked =>
            (kept fixedLike).trans (growthKept fixedLike heapBacked)
          populated := populated
          requested := requested }⟩
  | @grown nextGrowth chunk t n free grown grows nodes =>
      have positive : 0 < nextGrowth := by
        have counted := congrArg List.length nodes
        rw [List.length_reverse, Chunk.length_list, grows.fresh.count] at counted
        simp at counted
        omega
      have balanced' := balanced.grown inUse' grows positive nodes
      have nonnull : n ≠ 0 := balanced'.nonnull
        (balanced'.mem_nodes_iff.mpr (Or.inr (Or.inr (Or.inr (by simp)))))
      have growth' : t.nextGrowth = nextGrowth := grows.members.2.1
      have capacity' : t.capacity = u.capacity + nextGrowth := by
        rw [grows.ok.capacity, grows.nodes, List.length_append,
          Chunk.length_list, grows.fresh.count, balanced.capacity]
        rfl
      dsimp only
      rw [if_neg nonnull]
      exact ⟨free, parked',
        { balanced := balanced'
          raw := raw
          positive := inv.positive
          growth := fun fixedLike heapBacked => by
            rcases grown with ⟨_, same⟩ | ⟨_, dynamic, _⟩
            · exact growth'.trans (same.trans (growthKept fixedLike heapBacked))
            · simp [fixedLike] at dynamic
          populated := Or.inl (by
            show t.capacity ≠ 0
            omega)
          requested := fun fixedLike _ => by
            show t.capacity = slots
            rcases grown with ⟨empty, same⟩ | ⟨_, dynamic, _⟩
            · by_cases heapBacked : cfg.heapBacked = true
              · rw [capacity', empty, Nat.zero_add, same]
                exact growthKept fixedLike heapBacked
              · rcases populated with some | ⟨_, contra⟩
                · exact absurd empty some
                · exact absurd contra heapBacked
            · simp [fixedLike] at dynamic }⟩

theorem atFront {n : Nat} (holds : n ∈ session.live) :
    Balanced cfg session.state 0 free parked [] (n :: session.live.erase n) :=
  inv.balanced.reorder (List.perm_cons_erase holds)

theorem deallocate {n : Nat} (holds : n ∈ session.live) :
    SessionOk cfg slots deferred (session.perform cfg (.deallocate n))
      (n :: free) parked := by
  have nonnull : n ≠ 0 := inv.balanced.nonnull
    (inv.balanced.mem_nodes_iff.mpr (Or.inr (Or.inr (Or.inr holds))))
  rw [Session.perform_deallocate nonnull]
  exact
    { balanced := (inv.atFront holds).freed
      raw := inv.raw
      positive := inv.positive
      growth := inv.growth
      populated := inv.populated
      requested := inv.requested }

theorem remotePush {n : Nat} (headers : cfg.ownerHeaders = true)
    (holds : n ∈ session.live) :
    SessionOk cfg slots deferred (session.perform cfg (.remotePush n)) free
      (n :: parked) := by
  have linked := (inv.atFront holds).store (List.mem_cons_self)
    (cfg.self_mem_nodeRange n) session.state.remoteHead
  exact
    { balanced := linked.published (Function.update_self _ _ _)
      raw := fun contra => by simp [headers] at contra
      positive := inv.positive
      growth := inv.growth
      populated := inv.populated
      requested := inv.requested }

theorem store {n addr : Nat} (value : Nat) (holds : n ∈ session.live)
    (inNode : addr ∈ cfg.nodeRange n) :
    SessionOk cfg slots deferred
      { session with state := session.state.write addr value } free parked where
  balanced := inv.balanced.store holds inNode value
  raw := inv.raw
  positive := inv.positive
  growth := inv.growth
  populated := inv.populated
  requested := inv.requested

end SessionOk

theorem sessions_inductive : (sessions cfg slots deferred).Inductive
    fun session => ∃ free parked,
      SessionOk cfg slots deferred session free parked where
  start session starts := by
    obtain ⟨free, inv⟩ := starts_ok starts
    exact ⟨free, [], inv⟩
  step session session' := by
    rintro ⟨free, parked, inv⟩ step
    cases step with
    | call operation allowed =>
        cases operation with
        | allocate heap => exact inv.allocate allowed
        | deallocate n => exact ⟨_, _, inv.deallocate allowed⟩
        | remotePush n => exact ⟨_, _, inv.remotePush allowed.1 allowed.2⟩
    | store value holds inNode => exact ⟨_, _, inv.store value holds inNode⟩

end Pool

end Allocazam
