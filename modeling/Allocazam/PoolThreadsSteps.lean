import Allocazam.PoolThreadsInvariant

/-!
# Steps of the threads

Every step of a thread, and every write of a holder, keeps the invariant.
-/

namespace Allocazam

namespace Pool

namespace WorldOk

variable {Thread : Type} {crew : Crew Thread} {w : World Thread}
  {shares : Thread → Share} {thread owner : Thread} {n : Nat}
  (ok : WorldOk crew w shares)

include ok

theorem rewrite {mem : Nat → Nat}
    (fits : ∀ other, (shares other).Fits (crew.cfg other) { w.pool other with mem }
      (w.phases other).walk)
    (linked : ∀ other owner n head, w.phases other = .exchanging owner n head →
      mem n = head) :
    WorldOk crew { w with mem } shares where
  fits := fits
  apart := ok.apart
  starved := ok.starved
  created := ok.created
  custody := ok.custody
  linked := linked

variable [DecidableEq Thread] {phase : Phase Thread} {held : List Nat}

theorem rephase (walk : phase.walk = (w.phases thread).walk)
    (starved : phase.Allocates → (shares thread).free = [])
    (created : phase.Allocates → w.created thread = true)
    (linked : ∀ owner n head, phase = .exchanging owner n head → w.mem n = head)
    (custody : Custody held (w.setPhase thread phase).phases
      fun other n => n ∈ (shares other).out) :
    WorldOk crew { w.setPhase thread phase with held } shares where
  fits other := by
    show (shares other).Fits _ (w.pool other)
      ((w.setPhase thread phase).phases other).walk
    by_cases same : other = thread
    · subst same
      rw [World.setPhase_self, walk]
      exact ok.fits other
    · rw [World.setPhase_of_ne same]
      exact ok.fits other
  apart := ok.apart
  starved other := by
    show ((w.setPhase thread phase).phases other).Allocates → _
    by_cases same : other = thread
    · subst same
      rw [World.setPhase_self]
      exact starved
    · rw [World.setPhase_of_ne same]
      exact ok.starved other
  created other none := by
    refine ⟨(ok.created other none).1, ?_⟩
    show ¬ ((w.setPhase thread phase).phases other).Allocates
    by_cases same : other = thread
    · subst same
      rw [World.setPhase_self]
      exact fun allocates =>
        Bool.false_ne_true (none.symm.trans (created allocates))
    · rw [World.setPhase_of_ne same]
      exact (ok.created other none).2
  custody := custody
  linked other owner n head := by
    show (w.setPhase thread phase).phases other = _ → _
    by_cases same : other = thread
    · subst same
      rw [World.setPhase_self]
      exact linked owner n head
    · rw [World.setPhase_of_ne same]
      exact ok.linked other owner n head

/-- A pool changes, and a thread goes on to its next step. -/
theorem replace {s : State} {share : Share} (minds : Minds crew w owner s)
    (fits : share.Fits (crew.cfg owner) s
      ((w.setPhase thread phase).phases owner).walk)
    (walk : thread ≠ owner → phase.walk = (w.phases thread).walk)
    (starved : ((w.setPhase thread phase).phases owner).Allocates → share.free = [])
    (elsewhere : thread ≠ owner → ¬ phase.Allocates)
    (created : w.created owner = false → s.nodes (crew.cfg owner) = [] ∧
      ¬ ((w.setPhase thread phase).phases owner).Allocates)
    (custody : Custody held (w.setPhase thread phase).phases
      fun other n => n ∈ (Function.update shares owner share other).out)
    (linked : ∀ other owner n head,
      (w.setPhase thread phase).phases other = .exchanging owner n head →
        s.mem n = head) :
    WorldOk crew { (w.setPool owner s).setPhase thread phase with held }
      (Function.update shares owner share) where
  fits other := by
    show (Function.update shares owner share other).Fits _
      ((w.setPool owner s).pool other) ((w.setPhase thread phase).phases other).walk
    by_cases same : other = owner
    · subst same
      rw [Function.update_self, World.setPool_self]
      exact fits
    · have walks : ((w.setPhase thread phase).phases other).walk =
          (w.phases other).walk := by
        by_cases moves : other = thread
        · subst moves
          rw [World.setPhase_self]
          exact walk same
        · rw [World.setPhase_of_ne moves]
      rw [Function.update_of_ne same, walks]
      exact ok.fits_elsewhere minds same
  apart := ok.apart_after minds
  starved other := by
    show ((w.setPhase thread phase).phases other).Allocates → _
    by_cases same : other = owner
    · subst same
      rw [Function.update_self]
      exact starved
    · rw [Function.update_of_ne same]
      by_cases moves : other = thread
      · subst moves
        rw [World.setPhase_self]
        exact fun allocates => absurd allocates (elsewhere same)
      · rw [World.setPhase_of_ne moves]
        exact ok.starved other
  created other none := by
    show (Function.update w.pools owner s.toMembers other).nodes _ = [] ∧
      ¬ ((w.setPhase thread phase).phases other).Allocates
    by_cases same : other = owner
    · subst same
      rw [Function.update_self]
      exact created none
    · rw [Function.update_of_ne same]
      refine ⟨(ok.created other none).1, ?_⟩
      by_cases moves : other = thread
      · subst moves
        rw [World.setPhase_self]
        exact elsewhere same
      · rw [World.setPhase_of_ne moves]
        exact (ok.created other none).2
  custody := custody
  linked := linked

theorem create (thread : Thread) : WorldOk crew
    { w with created := Function.update w.created thread true } shares where
  fits := ok.fits
  apart := ok.apart
  starved := ok.starved
  created other none := by
    replace none : Function.update w.created thread true other = false := none
    apply ok.created other
    by_cases same : other = thread
    · subst same
      rw [Function.update_self] at none
      cases none
    · rwa [Function.update_of_ne same] at none
  custody := ok.custody
  linked := ok.linked

/-- A node that a thread is about to publish keeps its link. -/
theorem links_kept {s : State} (minds : Minds crew w owner s)
    (kept : ∀ n ∈ (shares owner).out, s.mem n = w.mem n) {other target : Thread}
    {head : Nat} (phase : w.phases other = .exchanging target n head) :
    s.mem n = head := by
  rw [← ok.linked other target n head phase]
  have isOut := (ok.custody.pushed other target n (by rw [phase]; exact ⟨rfl, rfl⟩)).1
  by_cases same : target = owner
  · exact kept n (same ▸ isOut)
  · exact ok.kept_elsewhere minds same (ok.node_footprint (ok.out_node isOut))

omit ok in
theorem linked_after {s : State}
    (kept : ∀ other target n head, other ≠ thread →
      w.phases other = .exchanging target n head → s.mem n = head)
    (ends : ∀ target n head, phase ≠ .exchanging target n head)
    (other target : Thread) (n head : Nat)
    (now : (w.setPhase thread phase).phases other = .exchanging target n head) :
    s.mem n = head := by
  by_cases same : other = thread
  · subst same
    rw [World.setPhase_self] at now
    exact absurd now (ends target n head)
  · rw [World.setPhase_of_ne same] at now
    exact kept other target n head same now

/-- An allocation ends with nodes that were in the pool or are new. -/
theorem finish {outcome : State × Except Exn Nat} (free parked : List Nat)
    (minds : Minds crew w thread outcome.1)
    (fits : Balanced (crew.cfg thread) outcome.1 0 free parked []
      (handedOut outcome.2 ++ (shares thread).out))
    (quiet : ∀ owner n, ¬ (w.phases thread).Pushes owner n)
    (created : w.created thread = true)
    (kept : ∀ n ∈ (shares thread).out, outcome.1.mem n = w.mem n) :
    ∃ shares', WorldOk crew (w.finish thread outcome) shares' := by
  refine ⟨Function.update shares thread
    ⟨free, parked, [], handedOut outcome.2 ++ (shares thread).out⟩, ?_⟩
  have nodup := (List.nodup_append.mp fits.nodup).2.1
  have fresh : ∀ m ∈ handedOut outcome.2, ∀ other, m ∉ (shares other).out := by
    intro m new other isOut
    by_cases same : other = thread
    · subst same
      exact (List.nodup_append.mp nodup).2.2 m new m isOut rfl
    · have inside := fits.laid.nodeRange_subset (fits.mem_nodes_iff.mpr
        (Or.inr (Or.inr (Or.inr (List.mem_append_left _ new)))))
          ((crew.cfg thread).self_mem_nodeRange m)
      have owned := ok.node_footprint (ok.out_node isOut)
      rcases minds.acquires m inside with before | unused
      · exact same (ok.owner_unique owned before)
      · exact unused ⟨other, owned⟩
  apply ok.replace minds
  · rw [World.setPhase_self]
    exact fits
  · exact fun different => absurd rfl different
  · rw [World.setPhase_self]
    exact False.elim
  · exact fun _ => id
  · intro none
    rw [created] at none
    cases none
  · have provided := ok.custody.provide thread
      (List.nodup_append.mp nodup).1 fresh fun _ _ => Iff.rfl
    refine provided.congr (fun other owner m => ?_) fun other m => ?_
    · by_cases same : other = thread
      · subst same
        rw [World.setPhase_self]
        exact iff_of_false id (quiet owner m)
      · rw [World.setPhase_of_ne same]
    · by_cases same : other = thread
      · subst same
        rw [Function.update_self]
        simp [or_comm]
      · rw [Function.update_of_ne same]
        simp [same]
  · exact linked_after (fun _ _ _ _ _ phase => ok.links_kept minds kept phase)
      fun _ _ _ => nofun

/-- The end of an allocation, from a pool whose remote stack has been dealt with. -/
theorem provide {u : State} {free parked : List Nat} (heap : Heap)
    (avoids : ∀ addr, w.InUse crew addr → heap.inUse addr)
    (fits : Balanced (crew.cfg thread) u 0 free parked [] (shares thread).out)
    (chunks : u.chunks = (w.pools thread).chunks)
    (kept : ∀ addr ∉ (shares thread).batch, u.mem addr = w.mem addr)
    (allocates : (w.phases thread).Allocates) :
    ∃ shares', WorldOk crew (w.finish thread (u.provide (crew.cfg thread) heap))
      shares' := by
  have footprint : u.footprint (crew.cfg thread) =
      (w.pools thread).footprint (crew.cfg thread) := by
    unfold Members.footprint
    rw [chunks]
  have inUse : ∀ addr ∈ u.footprint (crew.cfg thread), heap.inUse addr := by
    intro addr owned
    exact avoids addr ⟨thread, footprint ▸ owned⟩
  obtain ⟨⟨free', balanced⟩, writes, grows, acquires⟩ :=
    (provide_spec fits.toOk inUse fits.growing).balanced fits inUse
  have batchInside : ∀ addr ∈ (shares thread).batch,
      addr ∈ u.footprint (crew.cfg thread) := by
    intro addr listed
    rw [footprint]
    exact ok.node_footprint ((ok.fits thread).mem_nodes_iff.mpr
      (Or.inr (Or.inr (Or.inl listed))))
  apply ok.finish free' parked ⟨?_, ?_⟩ balanced
  · intro owner n pushes
    revert allocates pushes
    cases w.phases thread <;> simp [Phase.Allocates, Phase.Pushes]
  · by_contra none
    exact (ok.created thread (by simpa using none)).2 allocates
  · intro n isOut
    have node := ok.node_footprint (ok.out_node isOut)
    rw [← footprint] at node
    rw [writes n (Or.inr node)]
    apply kept
    exact ((ok.fits thread).out_apart isOut).2.2
  · intro addr outside
    rw [writes addr (Or.inl outside)]
    exact kept addr fun listed => outside (grows (batchInside addr listed))
  · intro addr inside
    rw [← footprint]
    exact (acquires addr inside).imp_right fun unused used => unused (avoids addr used)

theorem custody_quiet (before : ∀ owner n, ¬ (w.phases thread).Pushes owner n)
    (after : ∀ owner n, ¬ phase.Pushes owner n) {shares' : Thread → Share}
    (out : ∀ other, (shares' other).out = (shares other).out) :
    Custody w.held (w.setPhase thread phase).phases
      fun other n => n ∈ (shares' other).out := by
  refine ok.custody.congr (fun other owner n => ?_) fun other n => by rw [out]
  by_cases same : other = thread
  · subst same
    rw [World.setPhase_self]
    exact iff_of_false (after owner n) (before owner n)
  · rw [World.setPhase_of_ne same]

theorem pop (idle : w.phases thread = .idle) :
    ∃ shares', WorldOk crew (w.pop thread) shares' := by
  have ready := ok.create thread
  have fits : Balanced _ _ _ _ _ _ _ := ok.fits thread
  rw [idle] at fits
  have quiet : ∀ owner n, ¬ (w.phases thread).Pushes owner n := by
    rw [idle]
    exact fun _ _ => id
  unfold World.pop
  dsimp only
  cases listed : (shares thread).free with
  | nil =>
      rw [listed] at fits
      have popped : State.popFreeNode (World.pool { w with
          created := Function.update w.created thread true } thread) = _ :=
        State.popFreeNode_nil fits.stack
      rw [popped]
      refine ⟨shares, ready.rephase ?_ (fun _ => listed) (fun _ => ?_) nofun ?_⟩
      · show 0 = (w.phases thread).walk
        rw [idle]
        rfl
      · exact Function.update_self _ _ _
      · exact ready.custody_quiet quiet (fun _ _ => id) fun _ => rfl
  | cons n free =>
      rw [listed] at fits
      have popped : State.popFreeNode (World.pool { w with
          created := Function.update w.created thread true } thread) = _ :=
        State.popFreeNode_cons fits.stack
      rw [popped]
      have nonnull := fits.stack.2.1
      dsimp only
      rw [if_neg nonnull]
      have handed : handedOut (.ok n) = [n] := if_neg nonnull
      have taken := fits.handed
      have batch : (shares thread).batch = [] := fits.chain.eq_nil_iff.mpr rfl
      rw [batch] at taken
      refine ready.finish free (shares thread).parked ⟨?_, ?_⟩ ?_
        quiet (Function.update_self _ _ _) fun _ _ => rfl
      · exact fun _ _ => rfl
      · exact fun _ => Or.inl
      · rw [show handedOut (State.handOut _ n).2 = [n] from handed]
        exact taken

theorem exchange (phase : w.phases thread = .draining) :
    ∃ shares', WorldOk crew (w.exchange thread) shares' := by
  have fits : Balanced _ _ _ _ _ _ _ := ok.fits thread
  have starved := ok.starved thread (by rw [phase]; trivial)
  have created := fun none => ok.created thread none
  rw [phase] at fits created
  have batch : (shares thread).batch = [] := fits.chain.eq_nil_iff.mpr rfl
  rw [batch, starved] at fits
  have exchanged := fits.exchanged
  have pushed : w.phases thread = .draining →
      ∀ owner n, ¬ (w.phases thread).Pushes owner n := by
    intro draining
    rw [draining]
    exact fun _ _ => id
  generalize nextPhase : (if (w.pools thread).remoteHead = 0 then Phase.growing
    else .splicing (w.pools thread).remoteHead : Phase Thread) = next
  have walk : next.walk = (w.pools thread).remoteHead := by
    rw [← nextPhase]
    split
    · rename_i none
      exact none.symm
    · rfl
  have quiet : ∀ owner n, ¬ next.Pushes owner n := by
    rw [← nextPhase]
    split <;> exact fun _ _ => id
  refine ⟨Function.update shares thread
    ⟨[], [], (shares thread).parked, (shares thread).out⟩, ?_⟩
  unfold World.exchange
  dsimp only
  rw [nextPhase]
  show WorldOk crew { (w.setPool thread { w.pool thread with remoteHead := 0 }).setPhase
    thread next with held := w.held } _
  apply ok.replace
  · exact ⟨fun _ _ => rfl, fun _ => Or.inl⟩
  · rw [World.setPhase_self, walk]
    exact exchanged
  · exact fun apart => absurd rfl apart
  · exact fun _ => rfl
  · exact fun apart => absurd rfl apart
  · exact fun none => absurd trivial (created none).2
  · refine ok.custody_quiet (pushed phase) quiet fun other => ?_
    by_cases same : other = thread
    · subst same
      rw [Function.update_self]
    · rw [Function.update_of_ne same]
  · apply linked_after (fun other target n head _ => ok.linked other target n head)
    rintro target n head rfl
    exact quiet target n ⟨rfl, rfl⟩

theorem splice {head : Nat} (heap : Heap) (phase : w.phases thread = .splicing head)
    (avoids : ∀ addr, w.InUse crew addr → heap.inUse addr) :
    ∃ shares', WorldOk crew (w.splice crew thread heap head) shares' := by
  have fits : Balanced _ _ _ _ _ _ _ := ok.fits thread
  have allocates : (w.phases thread).Allocates := by
    rw [phase]
    trivial
  rw [phase] at fits
  have enough : (shares thread).batch.length ≤ (w.pools thread).capacity := by
    have total : (w.pools thread).capacity = _ := fits.capacity_eq
    omega
  obtain ⟨walked, chunks, _, _, kept⟩ := fits.spliceWalk enough
  exact ok.provide heap avoids walked chunks kept allocates

theorem grow (heap : Heap) (phase : w.phases thread = .growing)
    (avoids : ∀ addr, w.InUse crew addr → heap.inUse addr) :
    ∃ shares', WorldOk crew (w.grow crew thread heap) shares' := by
  have fits : Balanced _ _ _ _ _ _ _ := ok.fits thread
  have allocates : (w.phases thread).Allocates := by
    rw [phase]
    trivial
  rw [phase, ok.starved thread allocates] at fits
  have batch : (shares thread).batch = [] := fits.chain.eq_nil_iff.mpr rfl
  have provided : (w.pool thread).provide (crew.cfg thread) heap =
      (w.pool thread).resumeAllocate (crew.cfg thread) heap 0 := by
    unfold State.provide
    rw [State.popFreeNode_nil fits.stack]
  rw [batch] at fits
  unfold World.grow
  rw [← provided]
  exact ok.provide heap avoids fits rfl (fun _ _ => rfl) allocates

theorem mem_out_returned (isOut : n ∈ (shares owner).out) {share : Share}
    (returned : share.out = (shares owner).out.erase n) (other : Thread) (m : Nat) :
    m ∈ (Function.update shares owner share other).out ↔
      m ∈ (shares other).out ∧ m ≠ n := by
  by_cases same : other = owner
  · subst same
    rw [Function.update_self, returned, ok.out_nodup.mem_erase_iff, and_comm]
  · rw [Function.update_of_ne same]
    refine ⟨fun listed => ⟨listed, ?_⟩, And.left⟩
    rintro rfl
    exact same (ok.out_unique listed isOut)

omit [DecidableEq Thread] in
theorem fits_first (isOut : n ∈ (shares owner).out) :
    Balanced (crew.cfg owner) (w.pool owner) (w.phases owner).walk
      (shares owner).free (shares owner).parked (shares owner).batch
      (n :: (shares owner).out.erase n) :=
  Balanced.reorder (ok.fits owner) (List.perm_cons_erase isOut)

omit [DecidableEq Thread] in
theorem minds_write (isOut : n ∈ (shares owner).out) (value : Nat) :
    Minds crew w owner ((w.pool owner).write n value) where
  writes addr outside := by
    apply Function.update_of_ne
    rintro rfl
    exact outside (ok.node_footprint (ok.out_node isOut))
  acquires _ := Or.inl

theorem deallocate (idle : w.phases thread = .idle) (holds : n ∈ w.held) :
    ∃ shares', WorldOk crew (w.deallocate crew thread n) shares' := by
  obtain ⟨owner, isOut⟩ := ok.custody.owned n holds
  have node := ok.out_node isOut
  have quiet : ∀ owner n, ¬ (w.phases thread).Pushes owner n := by
    rw [idle]
    exact fun _ _ => id
  unfold World.deallocate
  dsimp only
  rw [ok.header node]
  split
  · rename_i here
    obtain rfl : owner = thread := by
      have same := congrArg crew.poolOf here.2
      rwa [crew.poolOf_poolAt, crew.poolOf_poolAt] at same
    have nonnull := (ok.fits owner).nonnull node
    have freed := (ok.fits_first isOut).freed
    have spliced : (w.pool owner).deallocate n = (w.pool owner).spliceNode n :=
      if_neg nonnull
    have stays : w.phases = (w.setPhase owner .idle).phases := by
      unfold World.setPhase
      rw [← idle, Function.update_eq_self]
    refine ⟨Function.update shares owner ⟨n :: (shares owner).free,
      (shares owner).parked, (shares owner).batch, (shares owner).out.erase n⟩, ?_⟩
    show WorldOk crew { w.setPool owner ((w.pool owner).deallocate n) with
      phases := w.phases, held := w.held.erase n } _
    rw [stays, spliced]
    show WorldOk crew { (w.setPool owner ((w.pool owner).spliceNode n)).setPhase owner
      .idle with held := w.held.erase n } _
    apply ok.replace
    · exact
        { writes := (ok.minds_write isOut (w.pool owner).freeHead).writes
          acquires := fun _ => Or.inl }
    · rw [World.setPhase_self]
      rw [idle] at freed
      exact freed
    · exact fun apart => absurd rfl apart
    · rw [World.setPhase_self]
      exact False.elim
    · exact fun apart => absurd rfl apart
    · intro none
      rw [(ok.created owner none).1] at node
      cases node
    · rw [← stays]
      exact ok.custody.release holds (ok.mem_out_returned isOut rfl)
    · refine linked_after ?_ fun _ _ _ => nofun
      intro other target m head _ phase
      have linked := ok.linked other target m head phase
      have notHeld := (ok.custody.pushed other target m (by
        rw [phase]
        exact ⟨rfl, rfl⟩)).2
      refine (Function.update_of_ne ?_ _ _).trans linked
      rintro rfl
      exact notHeld holds
  · rw [crew.poolOf_poolAt]
    refine ⟨shares, ?_⟩
    show WorldOk crew { w.setPhase thread (.loading owner n) with
      held := w.held.erase n } shares
    apply ok.rephase
    · rw [idle]
      rfl
    · exact False.elim
    · exact False.elim
    · nofun
    · exact ok.custody.depart holds isOut quiet fun other m =>
        and_congr eq_comm eq_comm

theorem load {target : Thread} (phase : ∀ owner m,
      (w.phases thread).Pushes owner m ↔ target = owner ∧ n = m)
    (walk : (w.phases thread).walk = 0) :
    WorldOk crew (w.load thread target n) shares := by
  show WorldOk crew { w.setPhase thread
    (.linking target n (w.pools target).remoteHead) with held := w.held } shares
  apply ok.rephase
  · exact walk.symm
  · exact False.elim
  · exact False.elim
  · nofun
  · refine ok.custody.congr (fun other owner m => ?_) fun _ _ => Iff.rfl
    by_cases same : other = thread
    · subst same
      rw [World.setPhase_self, phase]
      rfl
    · rw [World.setPhase_of_ne same]

/-- A thread that pushes the node `n` to the pool of `owner` changes that pool. -/
theorem push {s : State} {share : Share} (minds : Minds crew w owner s)
    (fits : share.Fits (crew.cfg owner) s (w.phases owner).walk)
    (free : share.free = (shares owner).free)
    (nodes : s.nodes (crew.cfg owner) = (w.pools owner).nodes (crew.cfg owner))
    (before : (w.phases thread).Pushes owner n)
    (walk : phase.walk = 0) (allocates : ¬ phase.Allocates)
    (custody : Custody w.held (w.setPhase thread phase).phases
      fun other n => n ∈ (Function.update shares owner share other).out)
    (linked : ∀ other owner n head,
      (w.setPhase thread phase).phases other = .exchanging owner n head →
        s.mem n = head) :
    WorldOk crew ((w.setPool owner s).setPhase thread phase)
      (Function.update shares owner share) := by
  have walks : phase.walk = (w.phases thread).walk := by
    rw [walk]
    revert before
    cases w.phases thread <;> simp [Phase.Pushes, Phase.walk]
  have allocations : phase.Allocates = (w.phases thread).Allocates := by
    rw [eq_false allocates]
    revert before
    cases w.phases thread <;> simp [Phase.Pushes, Phase.Allocates]
  have owners := World.setPhase_congr Phase.Allocates allocations owner
  show WorldOk crew { (w.setPool owner s).setPhase thread phase with held := w.held } _
  apply ok.replace minds _ (fun _ => walks) _ (fun _ => allocates) _ custody linked
  · rw [World.setPhase_congr Phase.walk walks]
    exact fits
  · rw [owners, free]
    exact ok.starved owner
  · rw [owners, nodes]
    exact ok.created owner

theorem link {head : Nat} (phase : w.phases thread = .linking owner n head) :
    ∃ shares', WorldOk crew (w.link thread owner n head) shares' := by
  have pushes : (w.phases thread).Pushes owner n := by
    rw [phase]
    exact ⟨rfl, rfl⟩
  have isOut := (ok.custody.pushed thread owner n pushes).1
  refine ⟨Function.update shares owner (shares owner), ?_⟩
  apply ok.push (ok.minds_write isOut head) _ rfl rfl pushes rfl id
  · rw [Function.update_eq_self]
    refine ok.custody.congr (fun other owner' m => ?_) fun _ _ => Iff.rfl
    rw [World.setPhase_congr (fun phase => phase.Pushes owner' m)]
    rw [phase]
    rfl
  · intro other target m head' now
    by_cases same : other = thread
    · subst same
      rw [World.setPhase_self] at now
      cases now
      exact Function.update_self _ _ _
    · rw [World.setPhase_of_ne same] at now
      refine (Function.update_of_ne ?_ _ _).trans (ok.linked other target m head' now)
      rintro rfl
      exact same (ok.custody.single other thread target owner m
        (by rw [now]; exact ⟨rfl, rfl⟩) pushes)
  · exact Balanced.store (ok.fits owner) isOut ((crew.cfg owner).self_mem_nodeRange n)
      head

theorem publish (phase : w.phases thread =
      .exchanging owner n (w.pools owner).remoteHead) :
    ∃ shares', WorldOk crew (w.publish thread owner n) shares' := by
  have pushes : (w.phases thread).Pushes owner n := by
    rw [phase]
    exact ⟨rfl, rfl⟩
  have isOut := (ok.custody.pushed thread owner n pushes).1
  have linked := ok.linked thread owner n _ phase
  refine ⟨Function.update shares owner ⟨(shares owner).free,
    n :: (shares owner).parked, (shares owner).batch, (shares owner).out.erase n⟩, ?_⟩
  refine ok.push ⟨fun _ _ => rfl, fun _ => Or.inl⟩
    ((ok.fits_first isOut).published linked) rfl rfl pushes rfl id ?_ ?_
  · refine ok.custody.arrive pushes (fun _ _ => id) (fun other m pushed => ?_)
      (ok.mem_out_returned isOut rfl)
    rw [phase] at pushed
    exact pushed.2.symm
  · exact linked_after (fun other target m head _ => ok.linked other target m head)
      fun _ _ _ => nofun

omit [DecidableEq Thread] in
theorem store (holds : n ∈ w.held) {addr : Nat} (inNode : addr ∈ crew.base.nodeRange n)
    (value : Nat) :
    WorldOk crew { w with mem := Function.update w.mem addr value } shares := by
  obtain ⟨owner, isOut⟩ := ok.custody.owned n holds
  have owned := ok.node_range (ok.out_node isOut) inNode
  apply ok.rewrite
  · intro other
    by_cases same : other = owner
    · subst same
      exact Balanced.store (ok.fits other) isOut inNode value
    · refine Balanced.frame (ok.fits other) fun word inside => ?_
      apply Function.update_of_ne
      rintro rfl
      exact same (ok.owner_unique inside owned)
  · intro other target m head phase
    obtain ⟨mOut, notHeld⟩ := ok.custody.pushed other target m (by
      rw [phase]
      exact ⟨rfl, rfl⟩)
    refine (Function.update_of_ne ?_ _ _).trans (ok.linked other target m head phase)
    rintro rfl
    have node := ok.node_footprint (ok.out_node mOut)
    obtain rfl := ok.owner_unique node owned
    have different : n ≠ m := by
      rintro rfl
      exact notHeld holds
    exact Set.disjoint_left.mp ((ok.fits target).laid.nodes_apart (ok.out_node isOut)
      (ok.out_node mOut) different) inNode ((crew.cfg target).self_mem_nodeRange m)

omit [DecidableEq Thread] in
theorem elsewhere {addr : Nat} (unused : ¬ w.InUse crew addr) (value : Nat) :
    WorldOk crew { w with mem := Function.update w.mem addr value } shares := by
  have kept : ∀ other, ∀ word ∈ (w.pools other).footprint (crew.cfg other),
      Function.update w.mem addr value word = w.mem word := by
    intro other word inside
    apply Function.update_of_ne
    rintro rfl
    exact unused ⟨other, inside⟩
  apply ok.rewrite
  · exact fun other => Balanced.frame (ok.fits other) (kept other)
  · intro other target m head phase
    obtain ⟨isOut, _⟩ := ok.custody.pushed other target m (by
      rw [phase]
      exact ⟨rfl, rfl⟩)
    exact (kept target m (ok.node_footprint (ok.out_node isOut))).trans
      (ok.linked other target m head phase)

end WorldOk

section Runs

variable {Thread : Type} [DecidableEq Thread] {crew : Crew Thread}

omit [DecidableEq Thread] in
theorem initial_ok (mem : Nat → Nat) :
    WorldOk crew (World.initial crew mem) fun _ => ⟨[], [], [], []⟩ where
  fits thread := blank_balanced mem fun _ => crew.positive
  apart one other _ := by
    have footprint : ((World.initial crew mem).pools one).footprint (crew.cfg one) =
        ∅ := (blank_vacant mem crew.slots).footprint
    show Disjoint (((World.initial crew mem).pools one).footprint (crew.cfg one)) _
    rw [footprint]
    exact Set.empty_disjoint _
  starved _ allocates := allocates.elim
  created thread _ := ⟨(blank_vacant mem crew.slots).nodes, id⟩
  custody :=
    { unique := fun _ _ _ isOut => by cases isOut
      nodup := List.nodup_nil
      owned := fun _ holds => by cases holds
      pushed := fun _ _ _ pushes => pushes.elim
      single := fun _ _ _ _ _ pushes => pushes.elim
      covered := fun _ _ isOut => by cases isOut }
  linked _ _ _ _ := nofun

theorem threads_inductive :
    (threads crew).Inductive fun w => ∃ shares, WorldOk crew w shares where
  start w := by
    rintro ⟨mem, rfl⟩
    exact ⟨_, initial_ok mem⟩
  step w next := by
    rintro ⟨shares, ok⟩ moves
    cases moves with
    | pop thread idle => exact ok.pop idle
    | exchange thread phase => exact ok.exchange phase
    | splice thread heap phase avoids => exact ok.splice heap phase avoids
    | grow thread heap phase avoids => exact ok.grow heap phase avoids
    | deallocate thread idle holds => exact ok.deallocate idle holds
    | load thread phase =>
        refine ⟨shares, ok.load (fun owner m => ?_) ?_⟩ <;> rw [phase] <;> rfl
    | link thread phase => exact ok.link phase
    | publish thread phase => exact ok.publish phase
    | retry thread phase =>
        refine ⟨shares, ok.load (fun owner m => ?_) ?_⟩ <;> rw [phase] <;> rfl
    | store value holds inNode => exact ⟨shares, ok.store holds inNode value⟩
    | elsewhere value unused => exact ⟨shares, ok.elsewhere unused value⟩

end Runs

end Pool

end Allocazam
