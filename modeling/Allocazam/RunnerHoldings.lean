import Allocazam.RunnerStarted
import Mathlib.Logic.Relation

/-!
# How a runner comes by its chunks

The chunks of a runner and the sizes of the next ones as a machine of their own.  Only
an allocation drives it: by the deferred chunk, by growth, or by both.
-/

namespace Allocazam

namespace Runner

variable {cfg : Config} {s t : State} {os : Os} {needed bytes alignment : Nat}

/-- The chunks of a runner, the size of the next one and that of the deferred one. -/
structure Holdings where
  chunks : List ChunkNode
  nextGrowth : Nat
  deferredBytes : Nat

def Allocator.holdings (members : Allocator) : Holdings :=
  ⟨members.chunks, members.nextGrowth, members.deferredBytes⟩

/-- The growth size after a chunk of `length` bytes. -/
def nextAfter (length : Nat) : Nat :=
  max ((checkedMul length 2).getD (2 ^ 64 - 1)) length

/-- A chunk is obtained: the deferred one, or one to grow by. -/
inductive Obtains (cfg : Config) (os : Os) : Holdings → Holdings → Prop
  | first {held : Holdings} {length base : Nat} (deferred : held.deferredBytes ≠ 0)
      (sized : State.ownedChunkBytesFor cfg held.deferredBytes = .ok length)
      (granted : os.grant held.chunks length = some base) :
      Obtains cfg os held ⟨ownedChunk base length :: held.chunks, length, 0⟩
  | grown {held : Holdings} {needed length base : Nat} (growable : cfg.canGrow = true)
      (undeferred : held.deferredBytes = 0)
      (sized : State.ownedChunkBytesFor cfg
        (max held.nextGrowth (needed + minChunkBytes)) = .ok length)
      (granted : os.grant held.chunks length = some base) :
      Obtains cfg os held ⟨ownedChunk base length :: held.chunks, nextAfter length, 0⟩

theorem holdings_of_sizing (chunks : t.chunks = s.chunks) (sizing : t.sizing = s.sizing) :
    t.holdings = s.holdings := by
  have next : t.nextGrowth = s.nextGrowth := congrArg Prod.fst sizing
  have deferred : t.deferredBytes = s.deferredBytes := congrArg Prod.snd sizing
  unfold Allocator.holdings
  rw [chunks, next, deferred]

theorem findFit_holdings (needed scanCount : Nat) :
    (s.findFit cfg needed scanCount).1.holdings = s.holdings :=
  holdings_of_sizing (findFit_chunks needed scanCount) (findFit_sizing needed scanCount)

theorem withChunk_holdings (chunk : ChunkNode) :
    (s.withChunk chunk).holdings =
      ⟨chunk :: s.chunks, s.nextGrowth, s.deferredBytes⟩ := by
  have outer := withChunk_outer (s := s) chunk
  have chunks : (s.withChunk chunk).chunks = chunk :: s.chunks :=
    congrArg (fun members => members.1) outer
  have next : (s.withChunk chunk).nextGrowth = s.nextGrowth :=
    congrArg (fun members => members.2.1) outer
  have deferred : (s.withChunk chunk).deferredBytes = s.deferredBytes :=
    congrArg (fun members => members.2.2.1) outer
  unfold Allocator.holdings
  rw [chunks, next, deferred]

theorem findOrDefer_obtains (cfg : Config) (os : Os) (s : State)
    (needed h scanCount : Nat) :
    (State.findOrDefer cfg os needed (s, h, scanCount)).1.holdings = s.holdings ∧
        (∀ count, (State.findOrDefer cfg os needed (s, h, scanCount)).2 = .ok (0, count) →
          s.deferredBytes = 0) ∨
      Obtains cfg os s.holdings
          (State.findOrDefer cfg os needed (s, h, scanCount)).1.holdings ∧
        (State.findOrDefer cfg os needed (s, h, scanCount)).1.deferredBytes = 0 := by
  unfold State.findOrDefer
  dsimp only
  by_cases missing : h = 0 ∧ s.deferredBytes ≠ 0
  · rw [if_pos missing]
    have added := addOwnedChunk_added cfg s os s.deferredBytes
    generalize s.addOwnedChunk cfg os s.deferredBytes = outcome at added ⊢
    cases added with
    | overflow sized => exact Or.inl ⟨rfl, fun _ served => by cases served⟩
    | refused sized refuses => exact Or.inl ⟨rfl, fun _ served => by cases served⟩
    | @added length base sized granted =>
        have outer := withChunk_outer (s := s) (ownedChunk base length)
        have chunks : (s.withChunk (ownedChunk base length)).chunks =
            ownedChunk base length :: s.chunks :=
          congrArg (fun members => members.1) outer
        have obtained : Obtains cfg os s.holdings
            ({ s.withChunk (ownedChunk base length) with
              nextGrowth := length, deferredBytes := 0 } : State).holdings := by
          unfold Allocator.holdings
          rw [chunks]
          exact .first missing.2 sized granted
        dsimp only
        rw [findFit_holdings]
        exact Or.inr ⟨obtained, congrArg Holdings.deferredBytes
          (@findFit_holdings cfg _ needed scanCount)⟩
  · rw [if_neg missing]
    refine Or.inl ⟨rfl, fun count served => ?_⟩
    obtain ⟨null, _⟩ := Prod.mk.inj (Except.ok.inj served)
    by_contra deferred
    exact missing ⟨null, deferred⟩

theorem growFor_obtains (os : Os) (growable : cfg.canGrow = true)
    (undeferred : s.deferredBytes = 0) (needed : Nat) :
    (s.growFor cfg os needed).1.holdings = s.holdings ∨
      Obtains cfg os s.holdings (s.growFor cfg os needed).1.holdings := by
  unfold State.growFor
  dsimp only
  have recorded : (s.record cfg fun stats =>
      { stats with growCalls := wrapAdd stats.growCalls 1 }).holdings = s.holdings :=
    holdings_of_sizing (record_chunks _) (record_sizing _)
  generalize (s.record cfg fun stats =>
    { stats with growCalls := wrapAdd stats.growCalls 1 }) = u at recorded ⊢
  rw [← recorded]
  have undeferred : u.deferredBytes = 0 :=
    (congrArg Holdings.deferredBytes recorded).trans undeferred
  cases summed : checkedAdd needed minChunkBytes with
  | none => exact Or.inl rfl
  | some overhead =>
      obtain ⟨_, rfl⟩ := (checkedAdd_eq_some (by decide)).mp summed
      dsimp only
      have added := addOwnedChunk_added cfg u os
        (max u.nextGrowth (needed + minChunkBytes))
      generalize u.addOwnedChunk cfg os (max u.nextGrowth (needed + minChunkBytes)) =
        outcome at added ⊢
      cases added with
      | overflow => exact Or.inl rfl
      | refused => exact Or.inl rfl
      | @added length base sized granted =>
          right
          have same := withChunk_holdings (s := u) (ownedChunk base length)
          have chunks := congrArg Holdings.chunks same
          have deferred := (congrArg Holdings.deferredBytes same).trans undeferred
          unfold Allocator.holdings at chunks deferred ⊢
          dsimp only at chunks deferred ⊢
          rw [chunks, deferred]
          exact .grown growable undeferred sized granted

theorem findOrGrow_obtains (cfg : Config) (os : Os) {h : Nat}
    (undeferred : h = 0 → s.deferredBytes = 0) (needed scanCount : Nat) :
    (s.findOrGrow cfg os needed h scanCount).1.holdings = s.holdings ∨
      Obtains cfg os s.holdings (s.findOrGrow cfg os needed h scanCount).1.holdings := by
  unfold State.findOrGrow
  by_cases missing : h = 0 ∧ cfg.canGrow = true
  · rw [if_pos missing]
    have grown := growFor_obtains os missing.2 (undeferred missing.1) needed
    generalize s.growFor cfg os needed = outcome at grown ⊢
    obtain ⟨u, exn | done⟩ := outcome
    · exact grown
    · dsimp only at grown ⊢
      rw [findFit_holdings]
      exact grown
  · rw [if_neg missing]
    exact Or.inl rfl

theorem obtains_suffix {held next : Holdings}
    (obtained : Relation.ReflTransGen (Obtains cfg os) held next) :
    held.chunks <:+ next.chunks := by
  induction obtained with
  | refl => exact List.suffix_rfl
  | tail _ last ih =>
      cases last with
      | first => exact ih.trans (List.suffix_cons _ _)
      | grown => exact ih.trans (List.suffix_cons _ _)

theorem allocateBytes_obtains (cfg : Config) (os : Os) (s : State) (bytes alignment : Nat) :
    Relation.ReflTransGen (Obtains cfg os) s.holdings
      (s.allocateBytes cfg os bytes alignment).1.holdings := by
  have after : ∀ {held next : Holdings}, next = held ∨ Obtains cfg os held next →
      Relation.ReflTransGen (Obtains cfg os) held next := by
    rintro held next (rfl | obtained)
    · exact .refl
    · exact .single obtained
  unfold State.allocateBytes
  dsimp only
  split
  · exact .refl
  generalize (if bytes = 0 then 1 else bytes) = request
  have recorded : (s.record cfg fun stats =>
      { stats with
        allocateCalls := wrapAdd stats.allocateCalls 1
        requestedBytes := wrapAdd stats.requestedBytes request }).holdings =
        s.holdings := holdings_of_sizing (record_chunks _) (record_sizing _)
  rw [← recorded]
  generalize s.record cfg (fun stats =>
    { stats with
      allocateCalls := wrapAdd stats.allocateCalls 1
      requestedBytes := wrapAdd stats.requestedBytes request }) = u
  cases normalizedRunBytesForPayload request with
  | none =>
      exact after (Or.inl (holdings_of_sizing (record_chunks _) (record_sizing _)))
  | some needed =>
      dsimp only
      have searched : (u.findOrDrain cfg needed).1.holdings = u.holdings :=
        holdings_of_sizing (findOrDrain_chunks needed) (findOrDrain_sizing needed)
      rw [← searched]
      generalize u.findOrDrain cfg needed = found
      obtain ⟨v, h, count⟩ := found
      unfold State.resumeAllocate
      have first := findOrDefer_obtains cfg os v needed h count
      generalize State.findOrDefer cfg os needed (v, h, count) = stage at first ⊢
      obtain ⟨w, exn | ⟨h, count⟩⟩ := stage
      · exact after (first.imp And.left And.left)
      · dsimp only at first ⊢
        have undeferred : h = 0 → w.deferredBytes = 0 := by
          rintro rfl
          rcases first with ⟨same, none⟩ | ⟨_, none⟩
          · exact (congrArg Holdings.deferredBytes same).trans (none count rfl)
          · exact none
        have grown := findOrGrow_obtains cfg os undeferred needed count
        refine (after (first.imp And.left And.left)).trans ?_
        generalize w.findOrGrow cfg os needed h count = stage at grown ⊢
        obtain ⟨r, exn | h⟩ := stage
        · exact after grown
        · have finished : (r.finishAllocate cfg h needed).1.holdings = r.holdings :=
            holdings_of_sizing (finishAllocate_chunks h needed)
              (finishAllocate_sizing h needed)
          dsimp only at grown ⊢
          rw [finished]
          exact after grown

theorem allocateBytes_suffix (cfg : Config) (os : Os) (s : State)
    (bytes alignment : Nat) :
    s.chunks <:+ (s.allocateBytes cfg os bytes alignment).1.chunks :=
  obtains_suffix (allocateBytes_obtains cfg os s bytes alignment)

/-- A runner on a span is the blank one with the aligned part of the span. -/
theorem constructExternal_eq {mem : Nat → Nat} {data size : Nat} (nonnull : 0 < data)
    (bounded : data + size ≤ 2 ^ 64)
    (built : State.constructExternal mem data size = .ok s) :
    ∃ chunk, s = (State.blank mem 0 0).withChunk chunk ∧ Fresh [] chunk ∧
      chunk.bytes = (size - ((data + 15) / 16 * 16 - data)) / 16 * 16 ∧
      chunk.mappingBase = 0 ∧ chunk.mappingBytes = 0 := by
  unfold State.constructExternal State.addExternalChunk at built
  simp only [runAlignment_eq, minChunkBytes_eq, Nat.add_one_sub_one] at built
  split at built
  · cases built
  split at built
  · cases built
  rename_i room
  split at built
  · cases built
  rename_i large
  obtain rfl := Except.ok.inj built
  refine ⟨_, rfl, ⟨?_, ?_, ?_, ?_, ?_, by simp⟩, ?_, rfl, rfl⟩
  all_goals
    dsimp only
    omega

/-- What a runner has at first: a chunk of the OS, a deferred one, or one on the caller's
span. -/
inductive Endowed (cfg : Config) : Holdings → Prop
  | eager {os : Os} {initialBytes length base : Nat} (word : initialBytes < 2 ^ 64)
      (sized : State.ownedChunkBytesFor cfg initialBytes = .ok length)
      (granted : os.grant [] length = some base) :
      Endowed cfg ⟨[ownedChunk base length], length, 0⟩
  | deferred {initialBytes : Nat} (word : initialBytes < 2 ^ 64) :
      Endowed cfg ⟨[], max initialBytes 65536, max initialBytes 1⟩
  | external {chunk : ChunkNode} (unmapped : chunk.mappingBase = 0)
      (mapping : chunk.mappingBytes = 0) (bounded : chunk.bytes < 2 ^ 64) :
      Endowed cfg ⟨[chunk], 0, 0⟩

/-- The chunks of a runner as a machine of their own. -/
def provisions (cfg : Config) : TransitionSystem Holdings where
  start := Endowed cfg
  step held next := ∃ os, Obtains cfg os held next

theorem Starts.endowed {session : Session} (starts : Starts cfg session) :
    Endowed cfg session.state.holdings := by
  cases starts with
  | @eager os mem initialBytes s word built =>
      have added := addOwnedChunk_added cfg
        (State.blank mem (max initialBytes 65536) 0) os initialBytes
      unfold State.construct at built
      generalize (State.blank mem (max initialBytes 65536) 0).addOwnedChunk cfg os
        initialBytes = outcome at built added
      cases added with
      | overflow => cases built
      | refused => cases built
      | @added length base sized granted =>
          obtain rfl := Except.ok.inj built
          have same := withChunk_holdings
            (s := State.blank mem (max initialBytes 65536) 0) (ownedChunk base length)
          have chunks := congrArg Holdings.chunks same
          have deferred := congrArg Holdings.deferredBytes same
          unfold Allocator.holdings at chunks deferred ⊢
          dsimp only at chunks deferred ⊢
          rw [chunks, deferred]
          exact .eager word sized granted
  | deferred word => exact .deferred word
  | @external mem data size s nonnull bounded built =>
      obtain ⟨chunk, rfl, fresh, bytes, unmapped, mapping⟩ :=
        constructExternal_eq nonnull bounded built
      rw [withChunk_holdings]
      exact .external unmapped mapping (by omega)

/-- A step of a session obtains no chunk, one or two. -/
theorem Moves.obtains {session next : Session} (moves : Moves cfg session next) :
    ∃ os, Relation.ReflTransGen (Obtains cfg os) session.state.holdings
      next.state.holdings := by
  cases moves with
  | call operation allowed =>
      cases operation with
      | allocateBytes os bytes alignment =>
          refine ⟨os, ?_⟩
          have obtained := allocateBytes_obtains cfg os session.state bytes alignment
          unfold Session.perform
          dsimp only
          generalize session.state.allocateBytes cfg os bytes alignment = outcome
            at obtained ⊢
          obtain ⟨t, exn | p⟩ := outcome <;> exact obtained
      | deallocateBytes payload =>
          have outer : (session.state.deallocateBytes cfg payload).outer =
              session.state.outer := deallocateBytes_outer payload
          have same : (session.state.deallocateBytes cfg payload).holdings =
              session.state.holdings := holdings_of_sizing (State.chunks_of_outer outer)
            (State.sizing_of_outer outer)
          refine ⟨refusing, ?_⟩
          show Relation.ReflTransGen _ _ (session.state.deallocateBytes cfg payload).holdings
          rw [same]
      | expand payload minNewBytes =>
          have same : (session.state.expand cfg payload minNewBytes).1.holdings =
              session.state.holdings := holdings_of_sizing (expand_chunks _ _)
            (expand_sizing _ _)
          refine ⟨refusing, ?_⟩
          show Relation.ReflTransGen _ _
            (session.state.expand cfg payload minNewBytes).1.holdings
          rw [same]
      | remotePush payload => exact ⟨refusing, .refl⟩
  | store word value writable => exact ⟨refusing, .refl⟩

/-- What the sessions of a runner do to its chunks, the machine does. -/
theorem holdings_reachable {session : Session} (reachable : (sessions cfg).Reachable session) :
    (provisions cfg).Reachable session.state.holdings := by
  induction reachable with
  | start begins => exact .start (Starts.endowed begins)
  | step _ moves ih =>
      obtain ⟨os, run⟩ := Moves.obtains moves
      exact ih.steps (Relation.ReflTransGen.mono (fun _ _ obtained => ⟨os, obtained⟩) _ _ run)

end Runner

end Allocazam

