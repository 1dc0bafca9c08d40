import Allocazam.SuballocatedClassifier
import Allocazam.SuballocatedConfinement

/-!
# Isolation of users and threads

What the users of a program hold never overlaps and is never written by the allocator, and
a thread that calls it keeps its hands off the states of all other threads: of them it
moves the heads of the remote stacks, and it writes to blocks that nobody else has.
-/

namespace Allocazam

namespace Suballocated

variable {Value Thread Bound : Type} {fam : Family Value Thread Bound}
  {w : World Value Thread Bound} {live : List (Item fam)} {session : Session fam}
  {ledger : Ledger Value Thread Bound} {site : Site Value Thread Bound} {value : Value}
  {thread : Thread} {p : Nat}

def Item.Covers (item : Item fam) (w : World Value Thread Bound) (addr : Nat) : Prop :=
  item.ptr ≤ addr ∧
    (item.IsNode ∧ addr < item.ptr +
        Pool.nodeBytes (fam.sizeOf item.value) (fam.alignOf item.value) ∨
      ¬ item.IsNode ∧ addr < item.ptr + w.payloadBytes item.ptr)

namespace WorldOk

variable (ok : WorldOk fam w live ledger)

include ok

theorem item_extent {item : Item fam} (member : item ∈ live) :
    (∃ site, item.ptr ∈ ledger.nodes site ∧
      ∀ {w' : World Value Thread Bound} {addr}, item.Covers w' addr ↔
        addr ∈ (fam.poolConfig site).nodeRange item.ptr) ∨
      ∃ site, ledger.HasRun site item.ptr ∧
        ∀ {w' : World Value Thread Bound} {addr}, item.Covers w' addr ↔
          item.ptr ≤ addr ∧ addr < item.ptr + w'.payloadBytes item.ptr := by
  have fits := ok.items item member
  by_cases single : item.IsNode
  · obtain ⟨site, node, draws⟩ := fits.node single
    refine .inl ⟨site, node, fun {w' addr} => ?_⟩
    have typed := draws.typed single.2
    unfold Item.Covers
    rw [← typed]
    refine and_congr_right fun _ => ?_
    simp only [single, true_and, not_true_eq_false, false_and, or_false]
    exact Iff.rfl
  · obtain ⟨site, allocation, listed, payload, _⟩ := fits.run single
    refine .inr ⟨site, ⟨allocation, listed, payload⟩, fun {w' addr} => ?_⟩
    unfold Item.Covers
    simp only [single, not_false_eq_true, true_and, false_and, false_or]

theorem items_apart {one two : Item fam} (oneMember : one ∈ live) (twoMember : two ∈ live)
    (distinct : one.ptr ≠ two.ptr) {addr : Nat} (covered : one.Covers w addr) :
    ¬ two.Covers w addr := by
  intro again
  rcases ok.item_extent oneMember with ⟨site, node, extent⟩ | ⟨site, run, extent⟩
  · have inside := extent.mp covered
    have owned := ok.nodeRange_territory node inside
    rcases ok.item_extent twoMember with ⟨other, node', extent'⟩ | ⟨other, run', extent'⟩
    · have inside' := extent'.mp again
      cases ok.tenant_unique owned (ok.nodeRange_territory node' inside')
      obtain ⟨_, _, _, _, pool⟩ := ok.node_pool node
      exact Set.disjoint_left.mp (pool.balanced.laid.nodes_apart (pool.live_node node)
        (pool.live_node node') distinct) inside inside'
    · obtain ⟨lower, upper⟩ := extent'.mp again
      cases ok.tenant_unique owned (ok.payload_territory run' (by omega) upper)
  · obtain ⟨lower, upper⟩ := extent.mp covered
    have owned := ok.payload_territory run (by omega) upper
    rcases ok.item_extent twoMember with ⟨other, node', extent'⟩ | ⟨other, run', extent'⟩
    · cases ok.tenant_unique owned (ok.nodeRange_territory node' (extent'.mp again))
    · obtain ⟨allocation, listed, payload⟩ := run
      obtain ⟨allocation', listed', payload'⟩ := run'
      rw [← payload] at lower upper
      have inside := extent'.mp again
      rw [← payload'] at inside
      exact ok.payload_apart listed listed' (by rw [payload, payload']; exact distinct)
        lower upper inside

theorem item_room {item : Item fam} (member : item ∈ live) {addr : Nat}
    (lower : item.ptr ≤ addr)
    (upper : addr < item.ptr + item.count * fam.sizeOf item.value) :
    item.Covers w addr := by
  refine ⟨lower, ?_⟩
  have fits := ok.items item member
  by_cases single : item.IsNode
  · refine .inl ⟨single, ?_⟩
    obtain ⟨site, _, draws⟩ := fits.node single
    have large : fam.sizeOf (fam.valueOf site) ≤
        Pool.nodeBytes (fam.sizeOf (fam.valueOf site)) (fam.alignOf (fam.valueOf site)) :=
      (fam.poolConfig site).nodeBytes_spec.1
    rw [draws.typed single.2] at large
    rw [single.1, Nat.one_mul] at upper
    omega
  · refine .inr ⟨single, ?_⟩
    obtain ⟨site, allocation, listed, payload, covers, _⟩ := fits.run single
    have large := ok.payload_covers listed covers
    rw [payload] at large
    omega

theorem item_left {w' : World Value Thread Bound} {next : Ledger Value Thread Bound}
    {item : Item fam} (member : item ∈ live) (left : Leaves fam w ledger w' next item.ptr)
    {addr : Nat} (covered : item.Covers w addr) :
    item.Covers w' addr ∧ w'.mem addr = w.mem addr := by
  rcases ok.item_extent member with ⟨site, node, extent⟩ | ⟨site, run, extent⟩
  · have inside := extent.mp covered
    exact ⟨extent.mpr inside, (left.node site node).2 addr inside⟩
  · obtain ⟨lower, upper⟩ := extent.mp covered
    obtain ⟨_, grown, same⟩ := left.run site run
    exact ⟨extent.mpr ⟨lower, by omega⟩, same addr lower upper⟩

end WorldOk

namespace World

variable (fam) (w)

/-- The pool of the state has given out the node, which is neither free nor parked. -/
def GivesNode (site : Site Value Thread Bound) (p : Nat) : Prop :=
  w.HoldsNode fam site p ∧ ∀ entries,
    IsStack w.mem (w.states site).pool.freeHead entries ∨
      IsStack w.mem (w.states site).pool.remoteHead entries → p ∉ entries

omit fam in
/-- The runner of the state has given out the run, which is not parked. -/
def GivesRun (w : World Value Thread Bound) (site : Site Value Thread Bound) (p : Nat) :
    Prop :=
  w.HoldsRun site p ∧ ¬ w.Parked site p

end World

namespace WorldOk

variable (ok : WorldOk fam w live ledger)

include ok

theorem givesNode (node : p ∈ ledger.nodes site) : w.GivesNode fam site p := by
  refine ⟨ok.holdsNode_of_node node, ?_⟩
  obtain ⟨_, _, free, parked, pool⟩ := ok.node_pool node
  have apart := List.nodup_append.mp pool.balanced.nodup
  rintro entries (stack | stack) listed
  · rw [stack.unique pool.balanced.stack] at listed
    exact apart.2.2 p (by simp [listed]) p node rfl
  · rw [stack.unique pool.balanced.remote] at listed
    exact apart.2.2 p (by simp [listed]) p node rfl

theorem givesRun (run : ledger.HasRun site p) : w.GivesRun site p :=
  ⟨ok.holdsRun_iff.mpr (.inl run), fun parked => ok.parked_not_run parked run⟩

end WorldOk

/-- The thread, the value type and the state that a call works with. -/
inductive Operation.ServedBy :
    Operation fam → Value → Thread → Site Value Thread Bound → Prop
  | construct (state : Bound) (heap : Pool.Heap) (os : Runner.Os) (arguments : Arguments)
      (value : Value) (thread : Thread) :
      ServedBy (.construct state heap os arguments) value thread (.bound state)
  | allocate {value : Value} (a : Handle fam value) (thread : Thread) (env : Environment)
      (n : Nat) : ServedBy (.allocate a thread env n) value thread (a.siteOn thread)
  | allocateAtLeast {value : Value} (a : Handle fam value) (thread : Thread)
      (env : Environment) (n : Nat) :
      ServedBy (.allocateAtLeast a thread env n) value thread (a.siteOn thread)
  | deallocate (item : Item fam) (b : Handle fam item.value) (thread : Thread) (m : Nat) :
      ServedBy (.deallocate item b thread m) item.value thread (b.siteOn thread)
  | expand (item : Item fam) (b : Handle fam item.value) (thread : Thread)
      (minNewBytes : Nat) :
      ServedBy (.expand item b thread minNewBytes) item.value thread (b.siteOn thread)
  | exit (value : Value) (thread : Thread) :
      ServedBy (.exit value thread) value thread (.thread value thread)

def Session.Keeps (session after : Session fam) (item : Item fam) : Prop :=
  item ∈ session.live ∧ item ∈ after.live

/-- Nobody but the thread has the pointer: no user keeps it and no other cache has it. -/
def Session.Loose (session after : Session fam) (value : Value) (thread : Thread) (p : Nat) :
    Prop :=
  (∀ item, session.Keeps after item → item.ptr ≠ p) ∧
    ∀ value' thread' idx, session.world.Cached value' thread' idx p →
      value' = value ∧ thread' = thread

/-- What a thread leaves as it is while the state `site` serves it. -/
structure Session.Confined (session after : Session fam) (value : Value) (thread : Thread)
    (site : Site Value Thread Bound) : Prop where
  pool : ∀ other ≠ site, ∃ head, (after.world.states other).pool =
    { (session.world.states other).pool with remoteHead := head }
  runs : ∀ other ≠ site, ∃ head, (after.world.states other).runs =
    { (session.world.states other).runs with remoteHead := head }
  created : ∀ other ≠ site, after.world.created other = session.world.created other
  classes : ∀ value' thread', ¬ (value' = value ∧ thread' = thread) →
    after.world.classes value' thread' = session.world.classes value' thread'
  /-- Memory of other states is written in the first words of what is in the hands of
  the thread. -/
  writes : ∀ other ≠ site, ∀ addr,
    addr ∈ session.world.territory fam (.pool other) ∨
      addr ∈ session.world.territory fam (.runs other) →
    after.world.mem addr = session.world.mem addr ∨
      ∃ p, session.Loose after value thread p ∧
        (session.world.GivesNode fam other p ∧ addr = p ∨
          session.world.GivesRun other p ∧ (addr = p ∨ addr = p + 8))

/-- The call was served discreetly, as far as the allocations go that are kept. -/
def Session.ServedDiscreetly (session after : Session fam) (value : Value)
    (thread : Thread) (site : Site Value Thread Bound) : Prop :=
  ∃ kept ledger next, (∀ item, item ∈ kept ↔ session.Keeps after item) ∧
    WorldOk fam session.world kept ledger ∧
    Discreet fam value thread site session.world ledger after.world next

namespace Session

variable {after : Session fam}

theorem ServedDiscreetly.confined
    (served : session.ServedDiscreetly after value thread site) :
    session.Confined after value thread site := by
  obtain ⟨kept, ledger, next, keeps, ok, discreet⟩ := served
  refine ⟨discreet.pool, discreet.runs, discreet.created, discreet.classes, ?_⟩
  intro other distinct addr owned
  refine (discreet.writes other distinct addr owned).imp_right ?_
  rintro ⟨p, word, loose⟩
  refine ⟨p, ⟨fun item keeping same => ?_, fun value' thread' idx cached => ?_⟩, ?_⟩
  · have held := (ok.held p).mpr ⟨item, (keeps item).mpr keeping, same⟩
    exact loose ⟨.held, held, by simp, by simp⟩
  · by_contra foreign
    refine loose ⟨_, ok.cached_iff.mp cached, by simp, fun idx' same => foreign ?_⟩
    cases same
    exact ⟨rfl, rfl⟩
  · exact word.imp (And.imp_left ok.givesNode) (And.imp_left ok.givesRun)

theorem ServedDiscreetly.left
    (served : session.ServedDiscreetly after value thread site) {item : Item fam}
    (keeping : session.Keeps after item) {addr : Nat}
    (covered : item.Covers session.world addr) :
    item.Covers after.world addr ∧ after.world.mem addr = session.world.mem addr := by
  obtain ⟨kept, ledger, next, keeps, ok, discreet⟩ := served
  have member := (keeps item).mpr keeping
  have held := (ok.held item.ptr).mpr ⟨item, member, rfl⟩
  exact ok.item_left member
    (discreet.leaves item.ptr ⟨.held, held, by simp, by simp⟩) covered

end Session

variable [DecidableEq Value] [DecidableEq Thread] [DecidableEq Bound] {operation : Operation fam}

omit [DecidableEq Value] [DecidableEq Thread] [DecidableEq Bound] in
theorem Session.finish_live {a : Handle fam value} {n count : Nat}
    (result : World Value Thread Bound × Except Exn Nat) {item : Item fam}
    (member : item ∈ session.live) : item ∈ (session.finish a n count result).live := by
  obtain ⟨w, exn | p⟩ := result
  · exact member
  · unfold Session.finish Session.record
    dsimp only
    split
    · exact member
    · exact List.mem_cons_of_mem _ member

namespace SessionOk

variable (ok : SessionOk session ledger)

include ok

omit [DecidableEq Value] [DecidableEq Thread] [DecidableEq Bound] in
theorem keeps_all {after : Session fam} {next : Ledger Value Thread Bound}
    (all : ∀ item ∈ session.live, item ∈ after.live)
    (discreet : Discreet fam value thread site session.world ledger after.world next) :
    session.ServedDiscreetly after value thread site :=
  ⟨session.live, ledger, next, fun item => ⟨fun member => ⟨member, all item member⟩, And.left⟩,
    ok.world, discreet⟩

omit [DecidableEq Value] [DecidableEq Thread] [DecidableEq Bound] in
theorem finish_discreet {a : Handle fam value} {n count : Nat}
    {result : World Value Thread Bound × Except Exn Nat}
    (served : Serves fam session.live value thread site session.world ledger result.1) :
    session.ServedDiscreetly (session.finish a n count result) value thread site := by
  obtain ⟨next, _, discreet⟩ := served
  rw [← Session.finish_world n count result] at discreet
  exact ok.keeps_all (fun _ => Session.finish_live result) discreet

theorem call_discreet (allowed : session.Allows operation)
    (served : operation.ServedBy value thread site) :
    session.ServedDiscreetly (session.perform operation) value thread site := by
  cases served with
  | construct state heap os arguments value thread =>
      obtain ⟨missing, allowed⟩ := allowed
      have discreet : Discreet fam value thread (.bound state) session.world ledger
          (session.world.construct fam (.bound state) heap os arguments).1 ledger := by
        rcases allowed.builds with same | ⟨pool, runs, built, made⟩
        · rw [same]
          exact .refl _ _
        · rw [made]
          exact .withState ok.world built
      exact ok.keeps_all (fun _ member => member) discreet
  | allocate a thread env n =>
      obtain ⟨_, usable, avoids, _⟩ := allowed
      rw [Session.perform_allocate]
      exact ok.finish_discreet (ok.world.allocate_discreet usable avoids n)
  | @allocateAtLeast value a thread env n =>
      obtain ⟨_, usable, avoids, _⟩ := allowed
      by_cases none : n = 0
      · subst none
        rw [Session.perform_allocateAtLeast_zero]
        exact ok.keeps_all (fun _ member => member) (.refl _ _)
      · rw [Session.perform_allocateAtLeast none]
        exact ok.finish_discreet (ok.world.allocate_discreet usable avoids
          (World.growthCount fam value n))
  | deallocate item b thread m =>
      obtain ⟨_, member, equal, lower, upper⟩ := allowed
      obtain ⟨next, _, discreet⟩ : Serves fam _ item.value thread (b.siteOn thread)
          session.world (ledger.settle item.ptr .adrift)
          (session.world.deallocate fam b thread item.ptr m) :=
        ok.world.deallocate_discreet member equal lower upper
      refine ⟨_, _, next, fun other => ?_, ok.world.takeBack member, discreet⟩
      constructor
      · exact fun listed => ⟨(List.mem_filter.mp listed).1, listed⟩
      · exact And.right
  | expand item b thread minNewBytes =>
      obtain ⟨_, member, equal, word⟩ := allowed
      obtain ⟨next, _, discreet⟩ := ok.world.expand_discreet member equal word
      exact ok.keeps_all (fun _ member => member) discreet
  | exit value thread =>
      obtain ⟨next, _, discreet⟩ : Serves fam session.live value thread
          (.thread value thread) session.world ledger
          (session.world.destroyCache fam value thread) :=
        ok.world.destroyCache_discreet
      rw [Session.perform_exit]
      generalize session.world.destroyCache fam value thread = w at discreet ⊢
      exact ok.keeps_all (fun _ member => member) discreet

theorem call_left (allowed : session.Allows operation) {item : Item fam}
    (keeping : session.Keeps (session.perform operation) item) {addr : Nat}
    (covered : item.Covers session.world addr) :
    item.Covers (session.perform operation).world addr ∧
      (session.perform operation).world.mem addr = session.world.mem addr := by
  cases operation with
  | construct state heap os arguments =>
      obtain ⟨missing, building⟩ := allowed
      have left : Leaves fam session.world ledger
          (session.world.construct fam (.bound state) heap os arguments).1 ledger
          item.ptr := by
        rcases building.builds with same | ⟨pool, runs, built, made⟩
        · rw [same]
          exact .refl _
        · rw [made]
          exact ok.world.born_leaves built _
      exact ok.world.item_left keeping.1 left covered
  | allocate a thread env n =>
      exact (ok.call_discreet allowed (.allocate a thread env n)).left keeping covered
  | allocateAtLeast a thread env n =>
      exact (ok.call_discreet allowed (.allocateAtLeast a thread env n)).left keeping covered
  | deallocate other b thread m =>
      exact (ok.call_discreet allowed (.deallocate other b thread m)).left keeping covered
  | expand other b thread minNewBytes =>
      exact (ok.call_discreet allowed (.expand other b thread minNewBytes)).left keeping
        covered
  | exit value thread =>
      exact (ok.call_discreet allowed (.exit value thread)).left keeping covered

end SessionOk

namespace WorldOk

variable (ok : WorldOk fam w live ledger) {item : Item fam} (member : item ∈ live)
  {addr : Nat}

include ok member

omit [DecidableEq Value] [DecidableEq Thread] [DecidableEq Bound] in
theorem write_leaves (foreign : ¬ item.Covers w addr)
    (header : ∀ site, ledger.HasRun site item.ptr → addr ≠ item.ptr - 16) (written : Nat) :
    Leaves fam w ledger (w.write addr written) ledger item.ptr where
  node site node := by
    refine ⟨node, fun other inNode => Function.update_of_ne ?_ _ _⟩
    rintro rfl
    rcases ok.item_extent member with ⟨owner, given, extent⟩ | ⟨owner, run, _⟩
    · obtain rfl := ok.node_unique node given
      exact foreign (extent.mpr inNode)
    · exact ok.node_not_run node run
  run site run := by
    have same : (w.write addr written).payloadBytes item.ptr = w.payloadBytes item.ptr := by
      unfold World.payloadBytes
      rw [show (w.write addr written).mem (item.ptr - 16) = w.mem (item.ptr - 16) from
        Function.update_of_ne (header site run).symm _ _]
    refine ⟨run, same.ge, fun other lower upper => Function.update_of_ne ?_ _ _⟩
    rintro rfl
    rcases ok.item_extent member with ⟨_, node, _⟩ | ⟨_, _, extent⟩
    · exact ok.node_not_run node run
    · exact foreign (extent.mpr ⟨lower, upper⟩)

omit [DecidableEq Value] [DecidableEq Thread] [DecidableEq Bound] in
theorem header_not_covered (run : ledger.HasRun site p) (covered : item.Covers w addr) :
    addr ≠ p - 16 := by
  rintro rfl
  obtain ⟨allocation, listed, rfl⟩ := run
  have large := (ok.payload_large listed).1
  have owned : allocation.payload - 16 ∈ w.territory fam (.runs site) :=
    ok.payload_territory ⟨allocation, listed, rfl⟩ le_rfl (by omega)
  rcases ok.item_extent member with ⟨other, node, extent⟩ | ⟨other, run, extent⟩
  · cases ok.tenant_unique owned (ok.nodeRange_territory node (extent.mp covered))
  · obtain ⟨lower, upper⟩ := extent.mp covered
    cases ok.tenant_unique owned (ok.payload_territory run (by omega) upper)
    obtain ⟨other, listed', payload⟩ := run
    obtain ⟨runs, parked, runner, held⟩ := ok.runsOk site
    rw [← payload] at lower upper
    exact Runner.header_not_payload runner held listed listed' rfl lower upper

end WorldOk

/-- A step of a session in which an allocation is neither freed nor written to by its
user. -/
inductive Session.Spares (item : Item fam) : Session fam → Session fam → Prop
  | call {session : Session fam} (operation : Operation fam)
      (allowed : session.Allows operation)
      (kept : item ∈ (session.perform operation).live) :
      Spares item session (session.perform operation)
  | store {session : Session fam} (addr value : Nat) (writable : session.Writable addr)
      (foreign : ¬ item.Covers session.world addr) :
      Spares item session { session with world := session.world.write addr value }
  | elsewhere {session : Session fam} (addr value : Nat)
      (unused : addr ∉ session.world.inUse fam) :
      Spares item session { session with world := session.world.write addr value }

namespace Session.Spares

variable {after : Session fam} {item : Item fam}

theorem steps (spares : Spares item session after) : Steps fam session after := by
  cases spares with
  | call operation allowed _ => exact .call operation allowed
  | store addr value writable _ => exact .store addr value writable
  | elsewhere addr value unused => exact .elsewhere addr value unused

/-- The allocation is still there, with its bytes and what is in them. -/
theorem left (spares : Spares item session after) (ok : SessionOk session ledger)
    (member : item ∈ session.live) :
    item ∈ after.live ∧ ∀ addr, item.Covers session.world addr →
      item.Covers after.world addr ∧ after.world.mem addr = session.world.mem addr := by
  cases spares with
  | call operation allowed kept =>
      exact ⟨kept, fun addr covered => ok.call_left allowed ⟨member, kept⟩ covered⟩
  | store addr value writable foreign =>
      obtain ⟨other, otherMember, covered⟩ := writable
      have left := ok.world.write_leaves member foreign
        (fun site run => ok.world.header_not_covered otherMember run covered) value
      exact ⟨member, fun addr covered => ok.world.item_left member left covered⟩
  | elsewhere addr value unused =>
      have apart : ∀ tenant, addr ∉ session.world.territory fam tenant :=
        fun tenant owned => unused ⟨tenant, owned⟩
      have foreign : ¬ item.Covers session.world addr := by
        intro covered
        rcases ok.world.item_extent member with ⟨_, node, extent⟩ | ⟨_, run, extent⟩
        · exact apart _ (ok.world.nodeRange_territory node (extent.mp covered))
        · obtain ⟨lower, upper⟩ := extent.mp covered
          exact apart _ (ok.world.payload_territory run (by omega) upper)
      have header : ∀ site, ledger.HasRun site item.ptr → addr ≠ item.ptr - 16 := by
        rintro site ⟨allocation, listed, payload⟩ rfl
        have large := (ok.world.payload_large listed).1
        rw [payload] at large
        exact apart (.runs site) (ok.world.payload_territory ⟨allocation, listed, payload⟩
          le_rfl (by omega))
      have left := ok.world.write_leaves member foreign header value
      exact ⟨member, fun addr covered => ok.world.item_left member left covered⟩

end Session.Spares

/-- What users hold is apart and has room for their values, and however a program goes on,
an allocation has the bytes and the contents that its user left it with. -/
theorem users_undisturbed (reachable : (sessions fam).Reachable session) :
    (session.live.Pairwise fun one two =>
      ∀ addr, one.Covers session.world addr → ¬ two.Covers session.world addr) ∧
    ∀ item ∈ session.live,
      (∀ addr, item.ptr ≤ addr →
        addr < item.ptr + item.count * fam.sizeOf item.value →
          item.Covers session.world addr) ∧
      ∀ later, Relation.ReflTransGen (Session.Spares item) session later →
        item ∈ later.live ∧ ∀ addr, item.Covers session.world addr →
          item.Covers later.world addr ∧ later.world.mem addr = session.world.mem addr := by
  obtain ⟨ledger, ok⟩ := sessions_inductive.reachable reachable
  refine ⟨?_, fun item member => ⟨fun addr => ok.world.item_room member, ?_⟩⟩
  · refine (List.pairwise_map.mp ok.world.distinct).imp_of_mem ?_
    exact fun oneMember twoMember distinct addr =>
      ok.world.items_apart oneMember twoMember distinct
  · intro later spared
    -- Every state on the way is reachable, and so far nothing has changed.
    suffices still : (sessions fam).Reachable later ∧ item ∈ later.live ∧
        ∀ addr, item.Covers session.world addr →
          item.Covers later.world addr ∧
            later.world.mem addr = session.world.mem addr from still.2
    induction spared with
    | refl => exact ⟨reachable, member, fun addr covered => ⟨covered, rfl⟩⟩
    | tail _ step still =>
        obtain ⟨reached, stillMember, same⟩ := still
        obtain ⟨_, okNow⟩ := sessions_inductive.reachable reached
        obtain ⟨nextMember, left⟩ := step.left okNow stillMember
        refine ⟨.step reached step.steps, nextMember, fun addr covered => ?_⟩
        obtain ⟨stillCovered, sameYet⟩ := same addr covered
        obtain ⟨nextCovered, sameNext⟩ := left addr stillCovered
        exact ⟨nextCovered, sameNext.trans sameYet⟩

/-- The other thread has freed the second run to its cache, and the first has refilled
another class list. -/
def refilledSession : Session dynamicFamily :=
  (pairedSession.perform (.deallocate (dynamicItem 65696) dynamicHandle true 16)).perform
    (.allocate dynamicHandle false refusingEnvironment 32)

/-- Both have exited, which returns what is in their caches. -/
def returnedSession : Session dynamicFamily :=
  (refilledSession.perform (.exit false true)).perform (.exit false false)

/-- Meanwhile the first run stays as it is. -/
theorem pairedSession_undisturbed :
    (dynamicItem 65552).Covers pairedSession.world 65560 ∧
      ¬ (dynamicItem 65696).Covers pairedSession.world 65560 ∧
      returnedSession.world.mem 65560 = pairedSession.world.mem 65560 := by
  obtain ⟨apart, undisturbed⟩ := users_undisturbed pairedSession_reachable
  have member : dynamicItem 65552 ∈ pairedSession.live := by
    rw [pairedSession_live]
    decide
  obtain ⟨room, stays⟩ := undisturbed _ member
  have kept : dynamicItem 65552 ∈ (pairedSession.perform
      (.deallocate (dynamicItem 65696) dynamicHandle true 16)).live :=
    Session.kept_perform_deallocate member (by decide)
  have still : dynamicItem 65552 ∈ refilledSession.live := by
    rw [refilledSession]
    exact Session.kept_perform_allocate kept
  have before : ∀ value thread, (pairedSession.perform (.deallocate (dynamicItem 65696)
      dynamicHandle true 16)).exited value thread = false :=
    fun value thread => Session.alive_perform_deallocate (pairedSession_alive value thread)
  have alive : ∀ thread, refilledSession.exited false thread = false := by
    rw [refilledSession]
    exact fun thread => Session.alive_perform_allocate (before false thread)
  have freed : Session.Spares (dynamicItem 65552) pairedSession _ :=
    .call _ pairedSession_frees kept
  have refilled : Session.Spares (dynamicItem 65552) _ refilledSession :=
    .call _ (dynamicHandle_allows _ (before false false) (by decide)) still
  have exits : Session.Spares (dynamicItem 65552) refilledSession _ :=
    .call (.exit false true) (alive true) (Session.kept_perform_exit still)
  have ends : Session.Spares (dynamicItem 65552) _ returnedSession :=
    .call (.exit false false) (Session.alive_perform_exit (alive false) (by decide))
      (Session.kept_perform_exit (Session.kept_perform_exit still))
  have covered := room 65560 (by decide) (by decide)
  rw [pairedSession_live, List.pairwise_cons] at apart
  refine ⟨covered, fun other => apart.1 _ (by simp) 65560 other covered, ?_⟩
  exact ((stays _ (.tail (.tail (.tail (.single freed) refilled) exits) ends)).2 65560
    covered).2

/-- A thread that calls the allocator keeps its hands off the states of others. -/
theorem threads_confined (reachable : (sessions fam).Reachable session)
    (allowed : session.Allows operation) (served : operation.ServedBy value thread site) :
    session.Confined (session.perform operation) value thread site := by
  obtain ⟨ledger, ok⟩ := sessions_inductive.reachable reachable
  exact (ok.call_discreet allowed served).confined

/-- Another thread frees the run, which makes no difference to the runner it is from. -/
theorem fixedSession_confined : ∃ head,
    ((fixedSession.perform (.deallocate ⟨false, fixedHandle, 2, 2, 65552⟩ fixedHandle true
      2)).world.states (.thread false false)).runs =
    { (fixedSession.world.states (.thread false false)).runs with remoteHead := head } := by
  have served : Operation.ServedBy
      (.deallocate ⟨false, fixedHandle, 2, 2, 65552⟩ fixedHandle true 2) false true
      (.thread false true) :=
    .deallocate ⟨false, fixedHandle, 2, 2, 65552⟩ fixedHandle true 2
  exact (threads_confined fixedSession_reachable fixedSession_frees served).runs
    (.thread false false) (by decide)

end Suballocated

end Allocazam
