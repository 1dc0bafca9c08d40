import Allocazam.PoolSession
import Allocazam.PoolThreads

/-!
# The invariant of the threads

Each pool is balanced, what a thread does to one pool does not concern the others,
and the nodes that are out of their pools are those in use and those that some thread
is pushing, each of them once.
-/

namespace Allocazam

namespace Pool

variable {Thread : Type}

/-- The nodes of a pool, by the place they are in. -/
structure Share where
  free : List Nat
  parked : List Nat
  batch : List Nat
  out : List Nat

def Share.Fits (share : Share) (cfg : Config) (s : State) (walk : Nat) : Prop :=
  Balanced cfg s walk share.free share.parked share.batch share.out

/-- The nodes that are out of their pools are those in use and those that some thread
is pushing, each of them once. -/
structure Custody (held : List Nat) (phases : Thread → Phase Thread)
    (out : Thread → Nat → Prop) : Prop where
  unique : ∀ one other n, out one n → out other n → one = other
  nodup : held.Nodup
  owned : ∀ n ∈ held, ∃ owner, out owner n
  pushed : ∀ thread owner n, (phases thread).Pushes owner n → out owner n ∧ n ∉ held
  single : ∀ thread other owner owner' n, (phases thread).Pushes owner n →
    (phases other).Pushes owner' n → thread = other
  covered : ∀ owner n, out owner n →
    n ∈ held ∨ ∃ thread, (phases thread).Pushes owner n

namespace Custody

variable {held : List Nat} {phases phases' : Thread → Phase Thread}
  {out out' : Thread → Nat → Prop} {thread owner : Thread} {n : Nat}
  (custody : Custody held phases out)

include custody

theorem congr
    (pushes : ∀ thread owner n,
      (phases' thread).Pushes owner n ↔ (phases thread).Pushes owner n)
    (same : ∀ owner n, out' owner n ↔ out owner n) : Custody held phases' out' := by
  obtain rfl : out' = out := funext fun owner => funext fun n => propext (same owner n)
  exact
    { unique := custody.unique
      nodup := custody.nodup
      owned := custody.owned
      pushed := fun thread owner n pushes' =>
        custody.pushed thread owner n ((pushes thread owner n).mp pushes')
      single := fun thread other owner owner' n first second =>
        custody.single thread other owner owner' n ((pushes _ _ _).mp first)
          ((pushes _ _ _).mp second)
      covered := fun owner n isOut => by
        simp only [pushes]
        exact custody.covered owner n isOut }

/-- Nodes that were in their pool are handed out. -/
theorem provide (owner : Thread) {handed : List Nat} (distinct : handed.Nodup)
    (fresh : ∀ m ∈ handed, ∀ owner, ¬ out owner m)
    (same : ∀ other m, out' other m ↔ out other m ∨ other = owner ∧ m ∈ handed) :
    Custody (handed ++ held) phases out' where
  unique one other m first second := by
    rw [same] at first second
    rcases first with before | ⟨rfl, now⟩ <;>
      rcases second with before' | ⟨rfl, now'⟩
    · exact custody.unique one other m before before'
    · exact absurd before (fresh m now' one)
    · exact absurd before' (fresh m now other)
    · rfl
  nodup := by
    refine List.nodup_append.mpr ⟨distinct, custody.nodup, ?_⟩
    rintro m new _ old rfl
    obtain ⟨owner, isOut⟩ := custody.owned m old
    exact fresh m new owner isOut
  owned m member := by
    rcases List.mem_append.mp member with new | old
    · exact ⟨owner, (same _ _).mpr (Or.inr ⟨rfl, new⟩)⟩
    · obtain ⟨other, isOut⟩ := custody.owned m old
      exact ⟨other, (same _ _).mpr (Or.inl isOut)⟩
  pushed thread other m pushes := by
    obtain ⟨isOut, notHeld⟩ := custody.pushed thread other m pushes
    refine ⟨(same _ _).mpr (Or.inl isOut), fun member => ?_⟩
    rcases List.mem_append.mp member with new | old
    · exact fresh m new other isOut
    · exact notHeld old
  single := custody.single
  covered other m isOut := by
    rcases (same _ _).mp isOut with before | ⟨rfl, new⟩
    · exact (custody.covered other m before).imp_left (List.mem_append_right _)
    · exact Or.inl (List.mem_append_left _ new)

/-- A node in use goes back to its pool. -/
theorem release (holds : n ∈ held)
    (same : ∀ other m, out' other m ↔ out other m ∧ m ≠ n) :
    Custody (held.erase n) phases out' where
  unique one other m first second :=
    custody.unique one other m ((same _ _).mp first).1 ((same _ _).mp second).1
  nodup := custody.nodup.erase n
  owned m member := by
    obtain ⟨different, listed⟩ := custody.nodup.mem_erase_iff.mp member
    obtain ⟨owner, isOut⟩ := custody.owned m listed
    exact ⟨owner, (same _ _).mpr ⟨isOut, different⟩⟩
  pushed thread owner m pushes := by
    obtain ⟨isOut, notHeld⟩ := custody.pushed thread owner m pushes
    refine ⟨(same _ _).mpr ⟨isOut, ?_⟩, fun member =>
      notHeld (List.mem_of_mem_erase member)⟩
    rintro rfl
    exact notHeld holds
  single := custody.single
  covered owner m isOut := by
    obtain ⟨before, different⟩ := (same _ _).mp isOut
    exact (custody.covered owner m before).imp_left fun listed =>
      custody.nodup.mem_erase_iff.mpr ⟨different, listed⟩

variable [DecidableEq Thread] {phase : Phase Thread}

/-- A thread that pushes nothing begins to push a node in use. -/
theorem depart (holds : n ∈ held) (isOut : out owner n)
    (idle : ∀ owner m, ¬ (phases thread).Pushes owner m)
    (pushes : ∀ other m, phase.Pushes other m ↔ other = owner ∧ m = n) :
    Custody (held.erase n) (Function.update phases thread phase) out where
  unique := custody.unique
  nodup := custody.nodup.erase n
  owned m member := custody.owned m (List.mem_of_mem_erase member)
  pushed other owner' m pushed := by
    by_cases same : other = thread
    · subst same
      rw [Function.update_self, pushes] at pushed
      obtain ⟨rfl, rfl⟩ := pushed
      exact ⟨isOut, custody.nodup.not_mem_erase⟩
    · rw [Function.update_of_ne same] at pushed
      obtain ⟨isOut, notHeld⟩ := custody.pushed other owner' m pushed
      exact ⟨isOut, fun member => notHeld (List.mem_of_mem_erase member)⟩
  single one other owner one' m first second := by
    have elsewhere : ∀ other ≠ thread, ∀ owner,
        (Function.update phases thread phase other).Pushes owner n → False := by
      intro other different owner pushed
      rw [Function.update_of_ne different] at pushed
      exact (custody.pushed other owner n pushed).2 holds
    by_cases oneSame : one = thread <;> by_cases otherSame : other = thread
    · rw [oneSame, otherSame]
    · subst oneSame
      rw [Function.update_self, pushes] at first
      obtain ⟨rfl, rfl⟩ := first
      exact (elsewhere other otherSame _ second).elim
    · subst otherSame
      rw [Function.update_self, pushes] at second
      obtain ⟨rfl, rfl⟩ := second
      exact (elsewhere one oneSame _ first).elim
    · rw [Function.update_of_ne oneSame] at first
      rw [Function.update_of_ne otherSame] at second
      exact custody.single one other owner one' m first second
  covered owner' m isOut' := by
    by_cases moved : m = n
    · subst moved
      obtain rfl := custody.unique _ _ _ isOut isOut'
      refine Or.inr ⟨thread, ?_⟩
      rw [Function.update_self, pushes]
      exact ⟨rfl, rfl⟩
    · rcases custody.covered owner' m isOut' with listed | ⟨other, pushed⟩
      · exact Or.inl (custody.nodup.mem_erase_iff.mpr ⟨moved, listed⟩)
      · refine Or.inr ⟨other, ?_⟩
        have different : other ≠ thread := by
          rintro rfl
          exact idle owner' m pushed
        rwa [Function.update_of_ne different]

/-- The node that a thread is pushing arrives in its pool. -/
theorem arrive (pushing : (phases thread).Pushes owner n)
    (pushes : ∀ other m, ¬ phase.Pushes other m)
    (only : ∀ other m, (phases thread).Pushes other m → m = n)
    (same : ∀ other m, out' other m ↔ out other m ∧ m ≠ n) :
    Custody held (Function.update phases thread phase) out' := by
  have elsewhere : ∀ other owner m,
      (Function.update phases thread phase other).Pushes owner m →
        other ≠ thread ∧ (phases other).Pushes owner m := by
    intro other owner m pushed
    have different : other ≠ thread := by
      rintro rfl
      rw [Function.update_self] at pushed
      exact pushes owner m pushed
    rw [Function.update_of_ne different] at pushed
    exact ⟨different, pushed⟩
  have notHeld := (custody.pushed thread owner n pushing).2
  exact
    { unique := fun one other m first second =>
        custody.unique one other m ((same _ _).mp first).1 ((same _ _).mp second).1
      nodup := custody.nodup
      owned := fun m member => by
        obtain ⟨owner, isOut⟩ := custody.owned m member
        refine ⟨owner, (same _ _).mpr ⟨isOut, ?_⟩⟩
        rintro rfl
        exact notHeld member
      pushed := fun other owner' m pushed => by
        obtain ⟨different, before⟩ := elsewhere other owner' m pushed
        obtain ⟨isOut, free⟩ := custody.pushed other owner' m before
        refine ⟨(same _ _).mpr ⟨isOut, ?_⟩, free⟩
        rintro rfl
        exact different (custody.single other thread owner' owner m before pushing)
      single := fun one other _ _ m first second =>
        custody.single one other _ _ m (elsewhere _ _ _ first).2
          (elsewhere _ _ _ second).2
      covered := fun owner' m isOut => by
        obtain ⟨before, different⟩ := (same _ _).mp isOut
        refine (custody.covered owner' m before).imp_right fun ⟨other, pushed⟩ => ?_
        refine ⟨other, ?_⟩
        have apart : other ≠ thread := by
          rintro rfl
          exact different (only owner' m pushed)
        rwa [Function.update_of_ne apart] }

end Custody

/-- The invariant of the threads, whose pools have the given shares. -/
structure WorldOk (crew : Crew Thread) (w : World Thread)
    (shares : Thread → Share) : Prop where
  fits : ∀ thread,
    (shares thread).Fits (crew.cfg thread) (w.pool thread) (w.phases thread).walk
  apart : Pairwise fun one other =>
    Disjoint ((w.pools one).footprint (crew.cfg one))
      ((w.pools other).footprint (crew.cfg other))
  starved : ∀ thread, (w.phases thread).Allocates → (shares thread).free = []
  created : ∀ thread, w.created thread = false →
    (w.pools thread).nodes (crew.cfg thread) = [] ∧ ¬ (w.phases thread).Allocates
  custody : Custody w.held w.phases fun thread n => n ∈ (shares thread).out
  linked : ∀ thread owner n head, w.phases thread = .exchanging owner n head →
    w.mem n = head

namespace WorldOk

variable {crew : Crew Thread} {w : World Thread} {shares : Thread → Share}
  {owner other : Thread} {n : Nat} (ok : WorldOk crew w shares)

include ok

theorem out_node (isOut : n ∈ (shares owner).out) :
    n ∈ (w.pools owner).nodes (crew.cfg owner) :=
  (ok.fits owner).mem_nodes_iff.mpr (Or.inr (Or.inr (Or.inr isOut)))

theorem node_range (node : n ∈ (w.pools owner).nodes (crew.cfg owner)) {addr : Nat}
    (inNode : addr ∈ crew.base.nodeRange n) :
    addr ∈ (w.pools owner).footprint (crew.cfg owner) :=
  (ok.fits owner).laid.nodeRange_subset node inNode

theorem node_footprint (node : n ∈ (w.pools owner).nodes (crew.cfg owner)) :
    n ∈ (w.pools owner).footprint (crew.cfg owner) :=
  ok.node_range node (crew.base.self_mem_nodeRange n)

theorem owner_unique {addr : Nat}
    (first : addr ∈ (w.pools owner).footprint (crew.cfg owner))
    (second : addr ∈ (w.pools other).footprint (crew.cfg other)) : owner = other := by
  by_contra different
  exact Set.disjoint_left.mp (ok.apart different) first second

theorem out_unique (first : n ∈ (shares owner).out) (second : n ∈ (shares other).out) :
    owner = other :=
  ok.owner_unique (ok.node_footprint (ok.out_node first))
    (ok.node_footprint (ok.out_node second))

theorem header (node : n ∈ (w.pools owner).nodes (crew.cfg owner)) :
    w.mem (crew.headerOf n) = crew.poolAt owner :=
  (ok.fits owner).toOk.header crew.headers node

theorem out_nodup : (shares owner).out.Nodup :=
  (List.nodup_append.mp (ok.fits owner).nodup).2.1

end WorldOk

variable [DecidableEq Thread]

namespace World

variable {w : World Thread} {thread other : Thread} {s : State}
  {phase : Phase Thread}

@[simp]
theorem setPhase_self : (w.setPhase thread phase).phases thread = phase :=
  Function.update_self _ _ _

theorem setPhase_of_ne (different : other ≠ thread) :
    (w.setPhase thread phase).phases other = w.phases other :=
  Function.update_of_ne different _ _

/-- What does not tell the phases of the thread apart cannot tell the worlds apart. -/
theorem setPhase_congr {Value : Type} (read : Phase Thread → Value)
    (same : read phase = read (w.phases thread)) (other : Thread) :
    read ((w.setPhase thread phase).phases other) = read (w.phases other) := by
  by_cases moves : other = thread
  · subst moves
    rw [setPhase_self]
    exact same
  · rw [setPhase_of_ne moves]

@[simp]
theorem setPool_self : (w.setPool thread s).pool thread = s := by
  unfold pool setPool
  dsimp only
  rw [Function.update_self]

theorem setPool_of_ne (different : other ≠ thread) :
    (w.setPool thread s).pool other = { w.pool other with mem := s.mem } := by
  unfold pool setPool
  dsimp only
  rw [Function.update_of_ne different]

end World

/-- The state `s` is one that the pool of `owner` may change to without harm to the
other pools. -/
structure Minds (crew : Crew Thread) (w : World Thread) (owner : Thread) (s : State) :
    Prop where
  writes : ∀ addr ∉ s.footprint (crew.cfg owner), s.mem addr = w.mem addr
  acquires : ∀ addr ∈ s.footprint (crew.cfg owner),
    addr ∈ (w.pools owner).footprint (crew.cfg owner) ∨ ¬ w.InUse crew addr

namespace WorldOk

variable {crew : Crew Thread} {w : World Thread} {shares : Thread → Share}
  {owner other : Thread} {s : State} (ok : WorldOk crew w shares)
  (minds : Minds crew w owner s)

include ok minds

omit [DecidableEq Thread] in
theorem kept_elsewhere {addr : Nat} (different : other ≠ owner)
    (owned : addr ∈ (w.pools other).footprint (crew.cfg other)) :
    s.mem addr = w.mem addr := by
  apply minds.writes
  intro inside
  rcases minds.acquires addr inside with before | unused
  · exact different (ok.owner_unique owned before)
  · exact unused ⟨other, owned⟩

theorem fits_elsewhere (different : other ≠ owner) :
    (shares other).Fits (crew.cfg other) ((w.setPool owner s).pool other)
      (w.phases other).walk := by
  rw [World.setPool_of_ne different]
  exact (ok.fits other).frame fun addr owned => ok.kept_elsewhere minds different owned

theorem apart_after : Pairwise fun one other =>
    Disjoint (((w.setPool owner s).pools one).footprint (crew.cfg one))
      (((w.setPool owner s).pools other).footprint (crew.cfg other)) := by
  have fresh : ∀ other ≠ owner, Disjoint (s.footprint (crew.cfg owner))
      ((w.pools other).footprint (crew.cfg other)) := by
    intro other different
    apply Set.disjoint_left.mpr
    intro addr inside owned
    rcases minds.acquires addr inside with before | unused
    · exact different (ok.owner_unique owned before)
    · exact unused ⟨other, owned⟩
  intro one other different
  unfold World.setPool
  dsimp only
  by_cases first : one = owner
  · subst first
    rw [Function.update_self, Function.update_of_ne different.symm]
    exact fresh other different.symm
  · rw [Function.update_of_ne first]
    by_cases second : other = owner
    · subst second
      rw [Function.update_self]
      exact (fresh one first).symm
    · rw [Function.update_of_ne second]
      exact ok.apart different

end WorldOk

end Pool

end Allocazam
