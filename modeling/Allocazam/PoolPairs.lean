import Allocazam.PoolRefinement

/-!
# Two pools side by side

The users of two pools make the same calls, told without addresses.  They get the nodes of
the same slots, whether or not one of the pools has deferred its first chunk and whatever
addresses the heap chooses.
-/

namespace Allocazam

namespace Pool

/-- The instances of the template and the page size agree. -/
structure SameKind (cfg cfg' : Config) : Prop where
  sizeT : cfg'.sizeT = cfg.sizeT
  alignT : cfg'.alignT = cfg.alignT
  mode : cfg'.mode = cfg.mode
  ownerHeaders : cfg'.ownerHeaders = cfg.ownerHeaders
  pageSize : cfg'.pageSize = cfg.pageSize

/-- A call of a public operation, told without addresses: a node by its place among those
in use, the null pointer by a place where there is none. -/
inductive Request where
  | allocate
  | deallocate (place : Nat)
  | remotePush (place : Nat)

def Request.asks : Request → Bool
  | .allocate => true
  | _ => false

namespace Session

variable (cfg : Config) (session : Session)

def nodeAt (place : Nat) : Nat :=
  session.live[place]?.getD 0

def operation (heap : Heap) : Request → Operation
  | .allocate => .allocate heap
  | .deallocate place => .deallocate (session.nodeAt place)
  | .remotePush place => .remotePush (session.nodeAt place)

/-- Null is deallocated without effect; only a node in use can be parked. -/
def Permits (heap : Heap) : Request → Prop
  | .allocate => session.Allows cfg (.allocate heap)
  | .deallocate _ => True
  | .remotePush place => cfg.ownerHeaders = true ∧ place < session.live.length

end Session

/-- Two sessions, and whether the two pools are to agree from now on. -/
structure Duo where
  left : Session
  right : Session
  settled : Bool

namespace Duo

variable (cfg cfg' : Config) (duo : Duo)

def perform (heap heap' : Heap) (request : Request) : Duo where
  left := duo.left.perform cfg (duo.left.operation heap request)
  right := duo.right.perform cfg' (duo.right.operation heap' request)
  settled := duo.settled || request.asks

/-- The heap refuses no chunk during the call, on either side. -/
def Granted (heap heap' : Heap) : Request → Prop
  | .allocate => (duo.left.state.allocate cfg heap).2 ≠ .error .refused ∧
      (duo.right.state.allocate cfg' heap').2 ≠ .error .refused
  | _ => True

/-- Writes at the same offset of the same node, of any values. -/
def store (place offset value value' : Nat) : Duo where
  left := { duo.left with
    state := duo.left.state.write (duo.left.nodeAt place + offset) value }
  right := { duo.right with
    state := duo.right.state.write (duo.right.nodeAt place + offset) value' }
  settled := duo.settled

end Duo

/-- A step of a duo: the same call, or the same store of the users. -/
inductive Advances (cfg cfg' : Config) : Duo → Duo → Prop
  | request {duo : Duo} (heap heap' : Heap) (request : Request)
      (permitted : duo.left.Permits cfg heap request)
      (permitted' : duo.right.Permits cfg' heap' request)
      (granted : duo.Granted cfg cfg' heap heap' request) :
      Advances cfg cfg' duo (duo.perform cfg cfg' heap heap' request)
  | store {duo : Duo} (place offset value value' : Nat) (held : place < duo.left.live.length)
      (inside : offset < cfg.nodeBytes) :
      Advances cfg cfg' duo (duo.store place offset value value')

/-- Two pools of one kind and first size: constructed in one way, or the one lazily and
the other eagerly. -/
inductive Begins (cfg cfg' : Config) (slots : Nat) : Duo → Prop
  | alike {deferred : Bool} {left right : Session} (starts : Starts cfg slots deferred left)
      (starts' : Starts cfg' slots deferred right) : Begins cfg cfg' slots ⟨left, right, true⟩
  | deferral {left right : Session} (starts : Starts cfg slots true left)
      (starts' : Starts cfg' slots false right) : Begins cfg cfg' slots ⟨left, right, false⟩

def duos (cfg cfg' : Config) (slots : Nat) : TransitionSystem Duo where
  start := Begins cfg cfg' slots
  step := Advances cfg cfg'

variable {cfg cfg' : Config} {session : Session} {ledger : Slots} {duo : Duo}
  {heap heap' : Heap} {slots place : Nat}

namespace SameKind

variable (same : SameKind cfg cfg')

include same

theorem nodeBytes : cfg'.nodeBytes = cfg.nodeBytes := by
  unfold Config.nodeBytes
  rw [same.sizeT, same.alignT]

theorem fixedLike : cfg'.fixedLike = cfg.fixedLike := by
  unfold Config.fixedLike
  rw [same.mode]

theorem heapBacked : cfg'.heapBacked = cfg.heapBacked := by
  unfold Config.heapBacked
  rw [same.mode]

theorem policy : cfg'.policy = cfg.policy := by
  unfold Config.policy
  rw [same.fixedLike]

theorem chunkBytes (count : Nat) : cfg'.chunkBytes count = cfg.chunkBytes count := by
  unfold Config.chunkBytes Config.nodesPerGranule Config.granule Config.headerOffset
  rw [same.nodeBytes, same.ownerHeaders, same.pageSize, same.alignT]

theorem supply (count : Nat) : cfg.supply heap count = .error .refused ∨
    cfg'.supply heap' count = .error .refused ∨
      cfg'.supply heap' count = cfg.supply heap count := by
  unfold Config.supply
  rw [same.chunkBytes]
  cases cfg.chunkBytes count with
  | none => exact .inr (.inr rfl)
  | some bytes =>
      dsimp only
      cases heap.grant bytes cfg.chunkAlign with
      | none => exact .inl rfl
      | some base =>
          cases heap'.grant bytes cfg'.chunkAlign with
          | none => exact .inr (.inl rfl)
          | some base' => exact .inr (.inr rfl)

end SameKind

namespace Represents

variable (represents : Represents cfg session ledger)

include represents

theorem nodeAt_of_lt (listed : place < ledger.live.length) :
    session.nodeAt place = session.state.slotNode cfg ledger.live[place] := by
  unfold Session.nodeAt
  rw [represents.live, List.getElem?_map, List.getElem?_eq_getElem listed]
  rfl

theorem deallocate_null (beyond : ¬ place < ledger.live.length) (heap : Heap) :
    session.perform cfg (session.operation heap (.deallocate place)) = session := by
  have null : session.nodeAt place = 0 := by
    unfold Session.nodeAt
    rw [List.getElem?_eq_none (by rw [represents.length_live]; omega)]
    rfl
  have unheld : (0 : Nat) ∉ session.live := by
    intro holds
    obtain ⟨slot, held, isNull⟩ := represents.held holds
    exact represents.toStands.nonnull held isNull
  show Session.mk (session.state.deallocate (session.nodeAt place))
    (session.live.erase (session.nodeAt place)) = session
  rw [null, List.erase_of_not_mem unheld]
  rfl

theorem perform_deallocate (listed : place < ledger.live.length) (heap : Heap) :
    Represents cfg (session.perform cfg (session.operation heap (.deallocate place)))
      (ledger.release ledger.live[place]) := by
  have performed := represents.deallocate (List.getElem_mem listed)
  rw [← represents.nodeAt_of_lt listed] at performed
  exact performed

theorem perform_remotePush (headers : cfg.ownerHeaders = true)
    (listed : place < ledger.live.length) (heap : Heap) :
    Represents cfg (session.perform cfg (session.operation heap (.remotePush place)))
      (ledger.park ledger.live[place]) := by
  have performed := represents.remotePush headers (List.getElem_mem listed)
  rw [← represents.nodeAt_of_lt listed] at performed
  exact performed

theorem perform_store (listed : place < ledger.live.length) {offset : Nat}
    (inside : offset < cfg.nodeBytes) (value : Nat) :
    Represents cfg
      { session with state := session.state.write (session.nodeAt place + offset) value }
      ledger := by
  refine represents.store value (n := session.nodeAt place) ?_
    ⟨Nat.le_add_right _ _, Nat.add_lt_add_left inside _⟩
  rw [represents.nodeAt_of_lt listed, represents.live]
  exact List.mem_map_of_mem (List.getElem_mem listed)

end Represents

/-- The slots of a pool that has deferred its first chunk, and those of one that has not. -/
inductive Behind (cfg : Config) : Slots → Slots → Prop
  | mk {slots : Nat} (positive : 0 < slots) (sized : cfg.chunkBytes slots ≠ none) :
      Behind cfg (Slots.blank slots) ((Slots.blank slots).extend slots)

/-- The pools have the same slots, or the left one is behind. -/
structure InStep (cfg cfg' : Config) (duo : Duo) (ledger ledger' : Slots) : Prop where
  left : Represents cfg duo.left ledger
  right : Represents cfg' duo.right ledger'
  same : ledger' = ledger ∨ duo.settled = false ∧ Behind cfg ledger ledger'

namespace InStep

variable {ledger ledger' : Slots} (inStep : InStep cfg cfg' duo ledger ledger')
  (same : SameKind cfg cfg')

include inStep

theorem live : ledger'.live = ledger.live := by
  rcases inStep.same with rfl | ⟨_, behind⟩
  · rfl
  · cases behind with
    | mk => rfl

include same

/-- Both pools get the same answer, and agree afterwards. -/
theorem allocate (permitted : duo.left.Permits cfg heap .allocate)
    (permitted' : duo.right.Permits cfg' heap' .allocate)
    (granted : duo.Granted cfg cfg' heap heap' .allocate) :
    ledger'.allocate cfg'.policy (cfg'.supply heap') =
      ledger.allocate cfg.policy (cfg.supply heap) := by
  have agree : ∀ count, cfg.supply heap count = .error .refused ∨
      cfg'.supply heap' count = .error .refused ∨
        cfg'.supply heap' count = cfg.supply heap count := fun count => same.supply count
  have answered := (inStep.left.allocate permitted).2
  have answered' := (inStep.right.allocate permitted').2
  have unrefused : (ledger.allocate cfg.policy (cfg.supply heap)).2 ≠ .error .refused := by
    intro refused
    rw [refused] at answered
    exact granted.1 answered
  have unrefused' : (ledger'.allocate cfg'.policy (cfg'.supply heap')).2 ≠
      .error .refused := by
    intro refused
    rw [refused] at answered'
    exact granted.2 answered'
  rw [same.policy] at unrefused' ⊢
  rcases inStep.same with rfl | ⟨_, behind⟩
  · exact Slots.allocate_agree agree unrefused unrefused'
  · cases behind with
    | @mk slots positive sized =>
        have supplied : cfg.supply heap slots = .ok () := by
          by_contra denied
          refine unrefused ?_
          have refused : cfg.supply heap slots = .error .refused := by
            unfold Config.supply at denied ⊢
            cases bytes : cfg.chunkBytes slots with
            | none => exact absurd bytes sized
            | some length =>
                rw [bytes] at denied
                dsimp only at denied ⊢
                cases given : heap.grant length cfg.chunkAlign with
                | none => rfl
                | some base =>
                    rw [given] at denied
                    exact absurd rfl denied
          rw [Slots.allocate_blank _ _ positive]
          unfold Slots.stock
          rw [refused]
        exact (Slots.allocate_deferred cfg.policy _ _ positive supplied).symm

theorem request {request : Request} (permitted : duo.left.Permits cfg heap request)
    (permitted' : duo.right.Permits cfg' heap' request)
    (granted : duo.Granted cfg cfg' heap heap' request) :
    ∃ ledger ledger', InStep cfg cfg' (duo.perform cfg cfg' heap heap' request) ledger
      ledger' := by
  have live := inStep.live
  cases request with
  | allocate =>
      have agree := inStep.allocate same permitted permitted' granted
      have right := (inStep.right.allocate permitted').1
      rw [agree] at right
      exact ⟨_, _, (inStep.left.allocate permitted).1, right, .inl rfl⟩
  | deallocate place =>
      have settled : (duo.perform cfg cfg' heap heap' (.deallocate place)).settled =
          duo.settled := Bool.or_false _
      by_cases listed : place < ledger.live.length
      · have listed' : place < ledger'.live.length := by rwa [live]
        rcases inStep.same with rfl | ⟨_, behind⟩
        · exact ⟨_, _, inStep.left.perform_deallocate listed heap,
            inStep.right.perform_deallocate listed heap', .inl rfl⟩
        · cases behind with
          | mk => cases listed
      · have left := inStep.left.deallocate_null listed heap
        have right := inStep.right.deallocate_null (by rwa [live]) heap'
        refine ⟨ledger, ledger', ?_, ?_, by rw [settled]; exact inStep.same⟩
        · show Represents cfg
            (duo.left.perform cfg (duo.left.operation heap (.deallocate place))) ledger
          rw [left]
          exact inStep.left
        · show Represents cfg'
            (duo.right.perform cfg' (duo.right.operation heap' (.deallocate place))) ledger'
          rw [right]
          exact inStep.right
  | remotePush place =>
      obtain ⟨headers, held⟩ := permitted
      rw [inStep.left.length_live] at held
      rcases inStep.same with rfl | ⟨_, behind⟩
      · exact ⟨_, _, inStep.left.perform_remotePush headers held heap,
          inStep.right.perform_remotePush permitted'.1 held heap', .inl rfl⟩
      · cases behind with
        | mk => cases held

theorem store {place offset : Nat} (value value' : Nat)
    (held : place < duo.left.live.length) (inside : offset < cfg.nodeBytes) :
    InStep cfg cfg' (duo.store place offset value value') ledger ledger' where
  left := inStep.left.perform_store (by rwa [← inStep.left.length_live]) inside value
  right := by
    refine inStep.right.perform_store ?_ (by rwa [same.nodeBytes]) value'
    rw [inStep.live]
    rwa [← inStep.left.length_live]
  same := inStep.same

end InStep

theorem construct_sized {mem : Nat → Nat} {s : State}
    (constructed : State.construct cfg heap mem slots = .ok s) :
    cfg.chunkBytes slots ≠ none := by
  intro none
  unfold State.construct at constructed
  split at constructed
  · cases constructed
  have supplied := addChunk_supply cfg (State.blank cfg mem slots) heap slots
  unfold Config.supply at supplied
  rw [none] at supplied
  generalize (State.blank cfg mem slots).addChunk cfg heap slots = outcome
    at supplied constructed
  obtain ⟨t, exn | done⟩ := outcome
  · cases constructed
  · cases supplied

theorem begins_inStep (same : SameKind cfg cfg') (begins : Begins cfg cfg' slots duo) :
    ∃ ledger ledger', InStep cfg cfg' duo ledger ledger' := by
  cases begins with
  | @alike deferred left right starts starts' =>
      have represents := starts_represents starts'
      unfold Config.firstSlots at represents
      rw [same.heapBacked] at represents
      exact ⟨_, _, starts_represents starts, represents, .inl rfl⟩
  | @deferral left right starts starts' =>
      have behind := starts_represents starts
      have ahead := starts_represents starts'
      unfold Config.firstSlots at behind ahead
      rw [same.heapBacked] at ahead
      cases starts with
      | deferred mem heapBacked word constructed =>
          rw [if_pos heapBacked] at behind ahead
          refine ⟨_, _, behind, ahead, .inr ⟨rfl, .mk ?_ ?_⟩⟩
          · exact (constructLazy_ok constructed).1
          · cases starts' with
            | eager heap mem' heapBacked' word' constructed' =>
                have sized := construct_sized constructed'
                rwa [same.chunkBytes] at sized
            | external mem' data size raw =>
                rw [same.heapBacked, heapBacked] at raw
                cases raw

theorem reachable_inStep (same : SameKind cfg cfg')
    (reachable : (duos cfg cfg' slots).Reachable duo) :
    ∃ ledger ledger', InStep cfg cfg' duo ledger ledger' := by
  induction reachable with
  | start begins => exact begins_inStep same begins
  | step _ advances ih =>
      obtain ⟨ledger, ledger', inStep⟩ := ih
      cases advances with
      | request heap heap' request permitted permitted' granted =>
          exact inStep.request same permitted permitted' granted
      | store place offset value value' held inside =>
          exact ⟨ledger, ledger', inStep.store same value value' held inside⟩

/-- Neither the deferral of the first chunk nor the addresses that the heap chooses can be
told: the users of the two pools get the nodes of the same slots, hold those of the same
slots, and once a node has been asked for the pools have the same slots throughout. -/
theorem pools_unobservable (same : SameKind cfg cfg')
    (reachable : (duos cfg cfg' slots).Reachable duo) :
    (∀ heap heap', duo.left.Permits cfg heap .allocate →
      duo.right.Permits cfg' heap' .allocate →
      duo.Granted cfg cfg' heap heap' .allocate →
        ∃ result, (duo.left.state.allocate cfg heap).2 =
            (duo.perform cfg cfg' heap heap' .allocate).left.state.answer cfg result ∧
          (duo.right.state.allocate cfg' heap').2 =
            (duo.perform cfg cfg' heap heap' .allocate).right.state.answer cfg' result) ∧
      (∃ live : List Nat, duo.left.live = live.map (duo.left.state.slotNode cfg) ∧
        duo.right.live = live.map (duo.right.state.slotNode cfg')) ∧
      (duo.settled = true →
        ∃ ledger, Represents cfg duo.left ledger ∧ Represents cfg' duo.right ledger) := by
  obtain ⟨ledger, ledger', inStep⟩ := reachable_inStep same reachable
  refine ⟨fun heap heap' permitted permitted' granted => ?_, ?_, fun settled => ?_⟩
  · have agree := inStep.allocate same permitted permitted' granted
    have right := (inStep.right.allocate permitted').2
    rw [agree] at right
    exact ⟨_, (inStep.left.allocate permitted).2, right⟩
  · refine ⟨ledger.live, inStep.left.live, ?_⟩
    rw [← inStep.live]
    exact inStep.right.live
  · rcases inStep.same with rfl | ⟨unsettled, _⟩
    · exact ⟨_, inStep.left, inStep.right⟩
    · rw [settled] at unsettled
      cases unsettled

def otherPool : Config :=
  { headerPool with self := 128 }

theorem otherPool_same : SameKind headerPool otherPool :=
  ⟨rfl, rfl, rfl, rfl, rfl⟩

def otherState : State :=
  match State.construct otherPool (memoryAt 196608 (by decide)) (fun _ => 7) 2 with
  | .ok s => s
  | .error _ => State.blank otherPool (fun _ => 0) 0

/-- A lazy and an eager pool, each asked for two nodes. -/
def filledDuo : Duo :=
  ((Duo.mk ⟨State.blank headerPool (fun _ => 0) 2, []⟩ ⟨otherState, []⟩ false).perform
    headerPool otherPool onePage exhausted .allocate).perform headerPool otherPool exhausted
      exhausted .allocate

/-- Both have grown, and each has a node parked and another free. -/
def sampleDuo : Duo :=
  (((filledDuo.perform headerPool otherPool nextPage (memoryAt 262144 (by decide))
    .allocate).perform headerPool otherPool exhausted exhausted .allocate).perform
      headerPool otherPool exhausted exhausted (.remotePush 3)).perform
        headerPool otherPool exhausted exhausted (.deallocate 1)

theorem filledDuo_state :
    filledDuo.left.state.chunks = [⟨2, 4096, 65536⟩] ∧
      filledDuo.right.state.chunks = [⟨2, 4096, 196608⟩] := by
  decide +kernel

theorem filledDuo_reachable : (duos headerPool otherPool 2).Reachable filledDuo := by
  have eager : Starts otherPool 2 false ⟨otherState, []⟩ :=
    .eager (memoryAt 196608 (by decide)) (fun _ => 7) rfl (by decide) rfl
  refine .step (.step (.start (.deferral headerStart eager))
    (.request onePage exhausted .allocate headerStart_inUse ?_ ?_))
    (.request exhausted exhausted .allocate ?_ ?_ ?_)
  · exact fun _ _ => trivial
  · constructor <;> decide +kernel
  · exact fun _ _ => trivial
  · exact fun _ _ => trivial
  · constructor <;> decide +kernel

theorem sampleDuo_reachable : (duos headerPool otherPool 2).Reachable sampleDuo := by
  refine .step (.step (.step (.step filledDuo_reachable (.request _ _ .allocate ?_ ?_ ?_))
    (.request exhausted exhausted .allocate (fun _ _ => trivial) (fun _ _ => trivial) ?_))
    (.request _ _ (.remotePush 3) ⟨rfl, ?_⟩ ⟨rfl, ?_⟩ trivial))
    (.request _ _ (.deallocate 1) trivial trivial trivial)
  · rintro addr ⟨chunk, member, _, upper⟩
    rw [filledDuo_state.1] at member
    obtain rfl := List.mem_singleton.mp member
    exact upper.trans_le (by decide)
  · rintro addr ⟨chunk, member, _, upper⟩
    rw [filledDuo_state.2] at member
    obtain rfl := List.mem_singleton.mp member
    exact upper.trans_le (by decide)
  · constructor <;> decide +kernel
  · constructor <;> decide +kernel
  · decide +kernel
  · decide +kernel

theorem sampleDuo_unobservable :
    sampleDuo.left.live = [131232, 65568] ∧ sampleDuo.right.live = [262304, 196640] ∧
      ∃ ledger, Represents headerPool sampleDuo.left ledger ∧
        Represents otherPool sampleDuo.right ledger :=
  ⟨by decide +kernel, by decide +kernel,
    (pools_unobservable otherPool_same sampleDuo_reachable).2.2 rfl⟩

end Pool

end Allocazam
