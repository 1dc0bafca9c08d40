import Allocazam.RunnerAllocationSafety
import Allocazam.RunnerPairs
import Allocazam.RunnerProvision

/-!
# Pairs of runners stay in step

Once two runners are twins every further call of their users keeps them so, and what
they return is alike.  Before its first search a runner with a deferred chunk returns
null, and so does its counterpart.
-/

namespace Allocazam

namespace Runner

variable {cfg cfg' : Config} {s t : State} {os os' : Os} {session : Session}
  {pair : Pair} {place : Nat} {parked : List Nat}

theorem RunnerOk.unique {runs runs' : Set Block} {parked parked' : List Nat}
    (ok : RunnerOk cfg s runs parked) (other : RunnerOk cfg s runs' parked') :
    runs = runs' ∧ parked = parked' := by
  have used : ∀ {runs parked}, RunnerOk cfg s runs parked → ∀ run,
      run ∈ runs ↔ run.kind = .used ∧ s.Allocated run.addr run.size := by
    intro runs parked ok run
    obtain ⟨blocks, heap, rfl⟩ := ok.heap
    rw [heap.allocated_iff]
    constructor
    · intro member
      refine ⟨member.2, ?_⟩
      rw [← member.2]
      exact member
    · rintro ⟨kind, member⟩
      rw [← kind] at member
      exact member
  refine ⟨Set.ext fun run => ?_, ok.stack.unique other.stack⟩
  rw [used ok, used other]

/-- A held payload belongs to an allocated run that is not parked. -/
theorem SessionOk.holds (ok : SessionOk cfg session)
    (runner : ∃ runs, RunnerOk cfg session.state runs parked)
    (listed : place < session.live.length) :
    session.state.Holds (session.payloadAt place) ∧ session.payloadAt place ∉ parked := by
  obtain ⟨runs, stack, sessionRunner, held⟩ := ok
  obtain ⟨runs', runner⟩ := runner
  obtain ⟨rfl, rfl⟩ := sessionRunner.unique runner
  obtain ⟨run, member, same, notParked⟩ := held.run (Session.holds_payloadAt listed)
  exact ⟨runner.holds_iff.mpr ⟨run, member, same⟩, notParked⟩

theorem Alike.grown {chunks chunks' later later' : List ChunkNode} {addr addr' : Nat}
    (alike : Alike chunks chunks' addr addr') (same : SameLengths chunks chunks')
    (sameLater : SameLengths later later') (suffix : chunks <:+ later)
    (suffix' : chunks' <:+ later') : Alike later later' addr addr' := by
  obtain ⟨front, rfl⟩ := suffix
  obtain ⟨front', rfl⟩ := suffix'
  have lengths := same.length_eq
  have lengthsLater := sameLater.length_eq
  rw [List.length_append, List.length_append] at lengthsLater
  obtain ⟨pair, member, rest⟩ := alike
  refine ⟨pair, ?_, rest⟩
  rw [List.zip_append (by omega)]
  exact List.mem_append_right _ member

/-- The runners are twins and their users hold alike payloads. -/
structure Matched (cfg cfg' : Config) (pair : Pair) : Prop where
  ok : SessionOk cfg pair.left
  ok' : SessionOk cfg' pair.right
  twins : ∃ parked parked', Twins cfg cfg' pair.left.state pair.right.state parked parked'
  live : List.Forall₂ (AllocationAlike pair.left.state.chunks pair.right.state.chunks)
    pair.left.live pair.right.live

namespace Matched

variable (matched : Matched cfg cfg' pair)

include matched

theorem payloadAt (listed : place < pair.left.live.length) :
    Alike pair.left.state.chunks pair.right.state.chunks (pair.left.payloadAt place)
      (pair.right.payloadAt place) := by
  obtain ⟨lengths, alike⟩ := List.forall₂_iff_get.mp matched.live
  have listed' : place < pair.right.live.length := by omega
  rw [Session.payloadAt_of_lt listed, Session.payloadAt_of_lt listed']
  exact (alike place listed listed').payload

theorem payloadAt_null (beyond : ¬ place < pair.left.live.length) :
    pair.left.payloadAt place = 0 ∧ pair.right.payloadAt place = 0 := by
  have lengths := matched.live.length_eq
  exact ⟨Session.payloadAt_of_le (by omega), Session.payloadAt_of_le (by omega)⟩

theorem same : SameLengths pair.left.state.chunks pair.right.state.chunks := by
  obtain ⟨parked, parked', twins⟩ := matched.twins
  exact twins.chunks

/-- Equal payloads have equal counterparts. -/
theorem payload_iff {payload payload' : Nat} {allocation allocation' : Allocation}
    (alike : Alike pair.left.state.chunks pair.right.state.chunks payload payload')
    (same : AllocationAlike pair.left.state.chunks pair.right.state.chunks allocation
      allocation') :
    allocation.payload = payload ↔ allocation'.payload = payload' := by
  obtain ⟨parked, parked', twins⟩ := matched.twins
  exact Relator.rel_eq twins.biUnique same.payload alike

/-- What remains after alike payloads have been given up. -/
theorem release {payload payload' : Nat}
    (alike : Alike pair.left.state.chunks pair.right.state.chunks payload payload') :
    List.Forall₂ (AllocationAlike pair.left.state.chunks pair.right.state.chunks)
      (pair.left.release payload) (pair.right.release payload') := by
  refine List.rel_filter (fun allocation allocation' same => ?_) matched.live
  have iff := matched.payload_iff alike same
  simp only [ne_eq, decide_not, Bool.not_eq_true', decide_eq_false_iff_not]
  exact not_congr iff

theorem report {payload payload' : Nat} (reported : Nat)
    (alike : Alike pair.left.state.chunks pair.right.state.chunks payload payload') :
    List.Forall₂ (AllocationAlike pair.left.state.chunks pair.right.state.chunks)
      (pair.left.report payload reported) (pair.right.report payload' reported) := by
  refine List.rel_map (fun allocation allocation' same => ?_) matched.live
  have iff := matched.payload_iff alike same
  by_cases named : allocation.payload = payload
  · rw [if_pos named, if_pos (iff.mp named)]
    exact ⟨same.payload, same.requested, rfl⟩
  · rw [if_neg named, if_neg fun named' => named (iff.mpr named')]
    exact same

end Matched

def Session.afterAllocate (session : Session) (bytes : Nat) :
    Except Exn Nat → List Allocation
  | .ok payload => if payload = 0 then session.live else ⟨payload, bytes, 0⟩ :: session.live
  | .error _ => session.live

theorem perform_allocateBytes {bytes alignment : Nat} :
    session.perform cfg (.allocateBytes os bytes alignment) =
      ⟨(session.state.allocateBytes cfg os bytes alignment).1,
        session.afterAllocate bytes
          (session.state.allocateBytes cfg os bytes alignment).2⟩ := by
  unfold Session.perform
  dsimp only
  generalize session.state.allocateBytes cfg os bytes alignment = outcome
  obtain ⟨s, exn | payload⟩ := outcome <;> rfl

theorem ResultAlike.afterAllocate {chunks chunks' : List ChunkNode} {bytes : Nat}
    {left right : Session} {result result' : Except Exn Nat}
    (alike : ResultAlike chunks chunks' result result')
    (null : ∀ p p', PointerAlike chunks chunks' p p' → (p = 0 ↔ p' = 0))
    (live : List.Forall₂ (AllocationAlike chunks chunks') left.live right.live) :
    List.Forall₂ (AllocationAlike chunks chunks') (left.afterAllocate bytes result)
      (right.afterAllocate bytes result') := by
  cases alike with
  | throws exn => exact live
  | @pointers p p' alike =>
      unfold Session.afterAllocate
      dsimp only
      by_cases isNull : p = 0
      · rw [if_pos isNull, if_pos ((null p p' alike).mp isNull)]
        exact live
      · rw [if_neg isNull, if_neg fun isNull' => isNull ((null p p' alike).mpr isNull')]
        exact .cons ⟨alike.alike isNull, rfl, rfl⟩ live

theorem matched_of_allocated {left right : Session} {bytes alignment : Nat}
    {settled : Bool} {parked parked' : List Nat}
    (ok : SessionOk cfg (left.perform cfg (.allocateBytes os bytes alignment)))
    (ok' : SessionOk cfg' (right.perform cfg' (.allocateBytes os' bytes alignment)))
    (twins : Twins cfg cfg' (left.state.allocateBytes cfg os bytes alignment).1
      (right.state.allocateBytes cfg' os' bytes alignment).1 parked parked')
    (alike : ResultAlike (left.state.allocateBytes cfg os bytes alignment).1.chunks
      (right.state.allocateBytes cfg' os' bytes alignment).1.chunks
      (left.state.allocateBytes cfg os bytes alignment).2
      (right.state.allocateBytes cfg' os' bytes alignment).2)
    (live : List.Forall₂
      (AllocationAlike (left.state.allocateBytes cfg os bytes alignment).1.chunks
        (right.state.allocateBytes cfg' os' bytes alignment).1.chunks)
      left.live right.live) :
    Matched cfg cfg' ⟨left.perform cfg (.allocateBytes os bytes alignment),
      right.perform cfg' (.allocateBytes os' bytes alignment), settled⟩ := by
  rw [perform_allocateBytes] at ok ok' ⊢
  rw [perform_allocateBytes]
  exact ⟨ok, ok', ⟨parked, parked', twins⟩,
    alike.afterAllocate (fun _ _ pointers => twins.pointer_eq_zero_iff pointers) live⟩

namespace Matched

variable (matched : Matched cfg cfg' pair) (same : SameTemplate cfg cfg')

include matched same

/-- A request keeps the sides matched and is answered alike. -/
theorem request {request : Request} (permitted : pair.left.Permits request)
    (granted : pair.Granted cfg cfg' os os' request) :
    Matched cfg cfg' (pair.perform cfg cfg' os os' request) ∧
      AnswerAlike (pair.perform cfg cfg' os os' request).left.state.chunks
        (pair.perform cfg cfg' os os' request).right.state.chunks
        (pair.left.answer cfg (pair.left.operation os request))
        (pair.right.answer cfg' (pair.right.operation os' request)) := by
  have permitted' : pair.right.Permits request := by
    cases request with
    | allocateBytes => exact permitted
    | deallocateBytes => exact permitted
    | expand => exact permitted
    | remotePush place =>
        show place < pair.right.live.length
        rw [← matched.live.length_eq]
        exact permitted
  have ok := matched.ok.request os permitted
  have ok' := matched.ok'.request os' permitted'
  obtain ⟨parked, parked', twins⟩ := matched.twins
  cases request with
  | allocateBytes bytes alignment =>
      have unrefused : (pair.left.state.allocateBytes cfg os bytes alignment).2 ≠
          .error .refused := fun refused => granted.1 (congrArg Answer.pointer refused)
      have unrefused' : (pair.right.state.allocateBytes cfg' os' bytes alignment).2 ≠
          .error .refused := fun refused => granted.2 (congrArg Answer.pointer refused)
      obtain ⟨⟨left, left', after⟩, alike⟩ :=
        twins.allocateBytes same permitted unrefused unrefused'
      have suffix := allocateBytes_suffix cfg os pair.left.state bytes alignment
      have suffix' := allocateBytes_suffix cfg' os' pair.right.state bytes alignment
      refine ⟨matched_of_allocated ok ok' after alike ?_, .pointer ?_⟩
      · exact matched.live.imp fun _ _ allocation =>
          ⟨allocation.payload.grown twins.chunks after.chunks suffix suffix',
            allocation.requested, allocation.reported⟩
      · show ResultAlike (pair.left.perform cfg (.allocateBytes os bytes alignment)).state.chunks
          (pair.right.perform cfg' (.allocateBytes os' bytes alignment)).state.chunks _ _
        rw [perform_allocateBytes, perform_allocateBytes]
        exact alike
  | deallocateBytes place =>
      refine ⟨?_, .nothing⟩
      by_cases listed : place < pair.left.live.length
      · have alike := matched.payloadAt listed
        obtain ⟨held, notParked⟩ := matched.ok.holds twins.ok listed
        refine ⟨ok, ok', ⟨parked, parked', twins.deallocateBytes held alike notParked⟩, ?_⟩
        show List.Forall₂ (AllocationAlike (pair.left.state.deallocateBytes cfg _).chunks
          (pair.right.state.deallocateBytes cfg' _).chunks) _ _
        rw [State.chunks_of_outer (deallocateBytes_outer _),
          State.chunks_of_outer (deallocateBytes_outer _)]
        exact matched.release alike
      · obtain ⟨null, null'⟩ := matched.payloadAt_null listed
        show Matched cfg cfg'
          ⟨pair.left.perform cfg (.deallocateBytes (pair.left.payloadAt place)),
            pair.right.perform cfg' (.deallocateBytes (pair.right.payloadAt place)), _⟩
        rw [null, null', matched.ok.perform_null.1, matched.ok'.perform_null.1]
        exact ⟨matched.ok, matched.ok', matched.twins, matched.live⟩
  | expand place minNewBytes =>
      by_cases listed : place < pair.left.live.length
      · have alike := matched.payloadAt listed
        obtain ⟨held, notParked⟩ := matched.ok.holds twins.ok listed
        obtain ⟨reported, after⟩ := twins.expand held alike permitted
        refine ⟨⟨ok, ok', ⟨parked, parked', after⟩, ?_⟩, ?_⟩
        · show List.Forall₂ (AllocationAlike (pair.left.state.expand cfg _ _).1.chunks
            (pair.right.state.expand cfg' _ _).1.chunks)
            (pair.left.report _ (pair.left.state.expand cfg _ _).2)
            (pair.right.report _ (pair.right.state.expand cfg' _ _).2)
          rw [expand_chunks, expand_chunks, reported]
          exact matched.report _ alike
        · show AnswerAlike _ _ (.bytes _) (.bytes _)
          rw [reported]
          exact .bytes _
      · obtain ⟨null, null'⟩ := matched.payloadAt_null listed
        refine ⟨?_, ?_⟩
        · show Matched cfg cfg'
            ⟨pair.left.perform cfg (.expand (pair.left.payloadAt place) minNewBytes),
              pair.right.perform cfg' (.expand (pair.right.payloadAt place) minNewBytes), _⟩
          rw [null, null', matched.ok.perform_null.2, matched.ok'.perform_null.2]
          exact ⟨matched.ok, matched.ok', matched.twins, matched.live⟩
        · show AnswerAlike _ _
            (.bytes (pair.left.state.expand cfg (pair.left.payloadAt place) minNewBytes).2)
            (.bytes (pair.right.state.expand cfg' (pair.right.payloadAt place) minNewBytes).2)
          rw [null, null']
          exact .bytes 0
  | remotePush place =>
      have alike := matched.payloadAt permitted
      obtain ⟨held, notParked⟩ := matched.ok.holds twins.ok permitted
      exact ⟨⟨ok, ok', ⟨_, _, twins.remotePush held alike notParked⟩,
        matched.release alike⟩, .nothing⟩

omit same

theorem store {offset : Nat} (listed : place < pair.left.live.length)
    (inside : offset < pair.left.state.payloadBytes (pair.left.payloadAt place))
    (value value' : Nat) :
    Matched cfg cfg' (pair.store place offset value value') := by
  obtain ⟨parked, parked', twins⟩ := matched.twins
  have alike := matched.payloadAt listed
  obtain ⟨held, notParked⟩ := matched.ok.holds twins.ok listed
  have inside' : offset < pair.right.state.payloadBytes (pair.right.payloadAt place) := by
    rw [(twins.payloadBytes held alike).1]
    exact inside
  have listed' : place < pair.right.live.length := by
    rw [← matched.live.length_eq]
    exact listed
  have stored : ∀ {cfg : Config} {session : Session} (value : Nat), SessionOk cfg session →
      place < session.live.length →
      offset < session.state.payloadBytes (session.payloadAt place) →
        SessionOk cfg { session with
          state := session.state.write (session.payloadAt place + offset) value } := by
    intro cfg session value ok listed inside
    refine (sessionOk_inductive cfg).step _ _ ok (.store _ value
      ⟨session.live[place], List.getElem_mem listed, ?_⟩)
    rw [Session.payloadAt_of_lt listed] at inside ⊢
    exact ⟨by omega, by omega⟩
  exact ⟨stored value matched.ok listed inside, stored value' matched.ok' listed' inside',
    ⟨parked, parked', twins.write held alike notParked inside value value'⟩, matched.live⟩

end Matched

/-- Nothing is held, and the right runner has the chunk that the left one has deferred. -/
structure Unsettled (cfg cfg' : Config) (pair : Pair) : Prop where
  live : pair.left.live = []
  live' : pair.right.live = []
  awaiting : ∃ base' length,
    Awaiting cfg cfg' pair.left.state pair.right.state base' length

theorem searches_iff {bytes alignment : Nat} :
    (Request.allocateBytes bytes alignment).searches = true ↔
      ∃ needed, Searches bytes alignment needed := by
  unfold Request.searches Searches
  rw [Bool.and_eq_true, decide_eq_true_eq, Option.isSome_iff_exists]
  simp

namespace Unsettled

variable (unsettled : Unsettled cfg cfg' pair)

include unsettled

theorem payloadAt : pair.left.payloadAt place = 0 ∧ pair.right.payloadAt place = 0 := by
  constructor
  · exact Session.payloadAt_of_le (by rw [unsettled.live]; exact Nat.zero_le _)
  · exact Session.payloadAt_of_le (by rw [unsettled.live']; exact Nat.zero_le _)

theorem ok : SessionOk cfg pair.left ∧ SessionOk cfg' pair.right := by
  obtain ⟨base', length, awaiting⟩ := unsettled.awaiting
  refine ⟨⟨∅, [], awaiting.ok, ?_⟩, ⟨∅, [], awaiting.ok', ?_⟩⟩
  · rw [unsettled.live]
    exact held_nil
  · rw [unsettled.live']
    exact held_nil

/-- The first request that searches matches the sides; the others return null. -/
theorem request (same : SameTemplate cfg cfg') {request : Request}
    (permitted : pair.left.Permits request)
    (granted : pair.Granted cfg cfg' os os' request) :
    (if request.searches then Matched cfg cfg' (pair.perform cfg cfg' os os' request)
      else Unsettled cfg cfg' (pair.perform cfg cfg' os os' request)) ∧
      AnswerAlike (pair.perform cfg cfg' os os' request).left.state.chunks
        (pair.perform cfg cfg' os os' request).right.state.chunks
        (pair.left.answer cfg (pair.left.operation os request))
        (pair.right.answer cfg' (pair.right.operation os' request)) := by
  obtain ⟨base', length, awaiting⟩ := unsettled.awaiting
  obtain ⟨ok, ok'⟩ := unsettled.ok
  have kept : Unsettled cfg cfg' ⟨pair.left, pair.right, pair.settled || false⟩ :=
    ⟨unsettled.live, unsettled.live', base', length, awaiting⟩
  cases request with
  | allocateBytes bytes alignment =>
      have unrefused : (pair.left.state.allocateBytes cfg os bytes alignment).2 ≠
          .error .refused := fun refused => granted.1 (congrArg Answer.pointer refused)
      have unrefused' : (pair.right.state.allocateBytes cfg' os' bytes alignment).2 ≠
          .error .refused := fun refused => granted.2 (congrArg Answer.pointer refused)
      have left := @perform_allocateBytes cfg os pair.left bytes alignment
      have right := @perform_allocateBytes cfg' os' pair.right bytes alignment
      by_cases searches : (Request.allocateBytes bytes alignment).searches = true
      · rw [if_pos searches]
        obtain ⟨needed, searched⟩ := searches_iff.mp searches
        obtain ⟨twins, alike⟩ := awaiting.allocateBytes same permitted searched unrefused
          unrefused'
        refine ⟨matched_of_allocated (ok.request os permitted)
          (ok'.request os' (show pair.right.Permits (.allocateBytes bytes alignment) from
            permitted)) twins alike ?_, .pointer ?_⟩
        · rw [unsettled.live, unsettled.live']
          exact .nil
        · show ResultAlike (pair.left.perform cfg (.allocateBytes os bytes alignment)).state.chunks
            (pair.right.perform cfg' (.allocateBytes os' bytes alignment)).state.chunks _ _
          rw [left, right]
          exact alike
      · rw [if_neg searches]
        obtain ⟨after, null, null'⟩ := @Awaiting.allocateBytes_unsearched cfg cfg' _ _ os os'
          base' length bytes alignment awaiting fun needed searched =>
            searches (searches_iff.mpr ⟨needed, searched⟩)
        refine ⟨⟨?_, ?_, base', length, ?_⟩, .pointer ?_⟩
        · show (pair.left.perform cfg (.allocateBytes os bytes alignment)).live = []
          rw [left, null]
          exact unsettled.live
        · show (pair.right.perform cfg' (.allocateBytes os' bytes alignment)).live = []
          rw [right, null']
          exact unsettled.live'
        · show Awaiting cfg cfg'
            (pair.left.perform cfg (.allocateBytes os bytes alignment)).state
            (pair.right.perform cfg' (.allocateBytes os' bytes alignment)).state base' length
          rw [left, right]
          exact after
        · rw [null, null']
          exact .pointers (Or.inl ⟨rfl, rfl⟩)
  | deallocateBytes place =>
      obtain ⟨null, null'⟩ := @payloadAt _ _ _ place unsettled
      refine ⟨?_, .nothing⟩
      show Unsettled cfg cfg'
        ⟨pair.left.perform cfg (.deallocateBytes (pair.left.payloadAt place)),
          pair.right.perform cfg' (.deallocateBytes (pair.right.payloadAt place)), _⟩
      rw [null, null', ok.perform_null.1, ok'.perform_null.1]
      exact kept
  | expand place minNewBytes =>
      obtain ⟨null, null'⟩ := @payloadAt _ _ _ place unsettled
      refine ⟨?_, ?_⟩
      · show Unsettled cfg cfg'
          ⟨pair.left.perform cfg (.expand (pair.left.payloadAt place) minNewBytes),
            pair.right.perform cfg' (.expand (pair.right.payloadAt place) minNewBytes), _⟩
        rw [null, null', ok.perform_null.2, ok'.perform_null.2]
        exact kept
      · show AnswerAlike _ _
          (.bytes (pair.left.state.expand cfg (pair.left.payloadAt place) minNewBytes).2)
          (.bytes (pair.right.state.expand cfg' (pair.right.payloadAt place) minNewBytes).2)
        rw [null, null']
        exact .bytes 0
  | remotePush place =>
      have listed : place < pair.left.live.length := permitted
      rw [unsettled.live] at listed
      exact absurd listed (Nat.not_lt_zero _)

end Unsettled

theorem Mirrors.concur (mirrors : Mirrors cfg cfg' s t) : Concur s t := by
  have unique := mirrors.biUnique
  have blockUnique := BlockAlike.biUnique unique
  obtain ⟨blocks, blocks', heap, heap', matched⟩ := mirrors.layouts
  refine ⟨mirrors.chunks, fun addr addr' alike size => ⟨?_, ?_⟩, fun idx bound => ?_,
    fun word bound => mirrors.mask bound, mirrors.nextGrowth, mirrors.deferred⟩
  · have same : BlockAlike s.chunks t.chunks ⟨addr, size, .free⟩ ⟨addr', size, .free⟩ :=
      ⟨alike, rfl, rfl⟩
    rw [heap.freeRun_iff, heap'.freeRun_iff, mem_freeRuns, mem_freeRuns]
    exact and_congr (List.rel_mem blockUnique same matched) Iff.rfl
  · have same : BlockAlike s.chunks t.chunks ⟨addr, size, .used⟩ ⟨addr', size, .used⟩ :=
      ⟨alike, rfl, rfl⟩
    rw [heap.allocated_iff, heap'.allocated_iff, mem_usedRuns, mem_usedRuns]
    exact and_congr (List.rel_mem blockUnique same matched) Iff.rfl
  · rw [binCount_eq] at bound
    exact mirrors.bins idx bound

theorem blank_twins {mem mem' : Nat → Nat} {nextGrowth deferredBytes : Nat}
    (growth : nextGrowth < 2 ^ 64) (deferred : deferredBytes < 2 ^ 64) :
    Twins cfg cfg' (State.blank mem nextGrowth deferredBytes)
      (State.blank mem' nextGrowth deferredBytes) [] [] := by
  have ok : RunnerOk cfg (State.blank mem nextGrowth deferredBytes) ∅ [] :=
    blank_ok growth deferred
  have ok' : RunnerOk cfg' (State.blank mem' nextGrowth deferredBytes) ∅ [] :=
    blank_ok growth deferred
  obtain ⟨heap, bins⟩ := ok.chunkless rfl
  obtain ⟨heap', bins'⟩ := ok'.chunkless rfl
  refine ⟨⟨.nil, ⟨[], [], heap, heap', .nil⟩, fun idx bound => ?_, rfl, rfl⟩, ⟨_, ok⟩,
    ⟨_, ok'⟩, .nil⟩
  rw [bins idx bound, bins' idx bound]
  exact .nil

theorem construct_twins (same : SameTemplate cfg cfg') {mem mem' : Nat → Nat}
    {initialBytes : Nat} (word : initialBytes < 2 ^ 64)
    (built : State.construct cfg os mem initialBytes = .ok s)
    (built' : State.construct cfg' os' mem' initialBytes = .ok t) :
    Twins cfg cfg' s t [] [] := by
  have blank : Twins cfg cfg' (State.blank mem (max initialBytes 65536) 0)
      (State.blank mem' (max initialBytes 65536) 0) [] [] :=
    blank_twins (by omega) (by decide)
  have added := fun granted granted' =>
    @Twins.addOwnedChunk cfg cfg' _ _ os os' _ _ blank same _ word granted granted'
  obtain ⟨runs, ok⟩ := blank.ok
  have bound := (@addOwnedChunk_step cfg _ _ _ os _ ok word).2
  unfold State.construct at built built'
  generalize (State.blank mem (max initialBytes 65536) 0).addOwnedChunk cfg os
    initialBytes = outcome at built added bound
  generalize (State.blank mem' (max initialBytes 65536) 0).addOwnedChunk cfg' os'
    initialBytes = outcome' at built' added
  obtain ⟨u, exn | chunkBytes⟩ := outcome
  · cases built
  obtain ⟨v, exn | chunkBytes'⟩ := outcome'
  · cases built'
  obtain rfl := Except.ok.inj built
  obtain rfl := Except.ok.inj built'
  obtain ⟨result, twins⟩ := added (by simp) (by simp)
  obtain rfl := Except.ok.inj result
  exact twins.resize (bound _ rfl)

theorem alikened_matched (same : SameTemplate cfg cfg') (begins : Alikened cfg cfg' pair) :
    pair.settled = true ∧ Matched cfg cfg' pair := by
  cases begins with
  | eager word built built' =>
      exact ⟨rfl, ⟨∅, [], construct_ok word built, held_nil⟩,
        ⟨∅, [], construct_ok word built', held_nil⟩,
        ⟨[], [], construct_twins same word built built'⟩, .nil⟩
  | deferred word =>
      exact ⟨rfl, ⟨∅, [], constructLazy_ok word, held_nil⟩,
        ⟨∅, [], constructLazy_ok word, held_nil⟩,
        ⟨[], [], blank_twins (by omega) (by omega)⟩, .nil⟩
  | @external mem mem' data data' size s t nonnull bounded nonnull' bounded' placed built
      built' =>
      have ok : RunnerOk cfg s ∅ [] := constructExternal_ok nonnull bounded built
      have ok' : RunnerOk cfg' t ∅ [] := constructExternal_ok nonnull' bounded' built'
      obtain ⟨chunk, rfl, fresh, bytes, _, mapping⟩ :=
        constructExternal_eq nonnull bounded built
      obtain ⟨chunk', rfl, fresh', bytes', _, mapping'⟩ :=
        constructExternal_eq nonnull' bounded' built'
      rw [runAlignment_eq] at placed
      have blank : Twins cfg cfg' (State.blank mem 0 0) (State.blank mem' 0 0) [] [] :=
        blank_twins (by decide) (by decide)
      have mirrors := blank.toMirrors.withChunk fresh fresh' (by omega)
        (mapping'.trans mapping.symm)
      exact ⟨rfl, ⟨∅, [], ok, held_nil⟩, ⟨∅, [], ok', held_nil⟩,
        ⟨[], [], mirrors, ⟨_, ok⟩, ⟨_, ok'⟩, .nil⟩, .nil⟩

def InStep (cfg cfg' : Config) (pair : Pair) : Prop :=
  if pair.settled then Matched cfg cfg' pair else Unsettled cfg cfg' pair

theorem InStep.request (same : SameTemplate cfg cfg') (inStep : InStep cfg cfg' pair)
    {request : Request} (permitted : pair.left.Permits request)
    (granted : pair.Granted cfg cfg' os os' request) :
    InStep cfg cfg' (pair.perform cfg cfg' os os' request) ∧
      AnswerAlike (pair.perform cfg cfg' os os' request).left.state.chunks
        (pair.perform cfg cfg' os os' request).right.state.chunks
        (pair.left.answer cfg (pair.left.operation os request))
        (pair.right.answer cfg' (pair.right.operation os' request)) := by
  have flag : (pair.perform cfg cfg' os os' request).settled =
      (pair.settled || request.searches) := rfl
  unfold InStep at inStep ⊢
  rw [flag]
  cases settled : pair.settled with
  | true =>
      rw [settled, if_pos rfl] at inStep
      rw [Bool.true_or, if_pos rfl]
      exact inStep.request same permitted granted
  | false =>
      rw [settled, if_neg Bool.false_ne_true] at inStep
      rw [Bool.false_or]
      exact inStep.request same permitted granted

theorem InStep.step (same : SameTemplate cfg cfg') {next : Pair}
    (inStep : InStep cfg cfg' pair) (advances : Advances cfg cfg' pair next) :
    InStep cfg cfg' next := by
  cases advances with
  | request os os' request permitted granted =>
      exact (inStep.request same permitted granted).1
  | store place offset value value' held inside =>
      unfold InStep at inStep ⊢
      cases settled : pair.settled with
      | true =>
          rw [settled, if_pos rfl] at inStep
          rw [if_pos (show (pair.store place offset value value').settled = true from settled)]
          exact inStep.store held inside value value'
      | false =>
          rw [settled, if_neg Bool.false_ne_true] at inStep
          rw [inStep.live] at held
          exact absurd held (Nat.not_lt_zero _)

theorem InStep.live (inStep : InStep cfg cfg' pair) :
    List.Forall₂ (AllocationAlike pair.left.state.chunks pair.right.state.chunks)
      pair.left.live pair.right.live := by
  unfold InStep at inStep
  split at inStep
  · exact inStep.live
  · rw [inStep.live, inStep.live']
    exact .nil

theorem InStep.concur (inStep : InStep cfg cfg' pair) (settled : pair.settled = true) :
    Concur pair.left.state pair.right.state := by
  unfold InStep at inStep
  rw [if_pos settled] at inStep
  obtain ⟨parked, parked', twins⟩ := inStep.twins
  exact twins.concur

theorem deferral_inductive (same : SameTemplate cfg cfg') :
    (pairs cfg cfg' (Deferral cfg cfg')).Inductive (InStep cfg cfg') where
  start := by
    rintro _ ⟨word, built⟩
    obtain ⟨base', length, awaiting⟩ := awaiting_of_constructed same word built
    exact ⟨rfl, rfl, base', length, awaiting⟩
  step _ _ inStep advances := inStep.step same advances

theorem alikened_inductive (same : SameTemplate cfg cfg') :
    (pairs cfg cfg' (Alikened cfg cfg')).Inductive fun pair =>
      pair.settled = true ∧ InStep cfg cfg' pair where
  start _ begins := by
    obtain ⟨settled, matched⟩ := alikened_matched same begins
    refine ⟨settled, ?_⟩
    unfold InStep
    rw [if_pos settled]
    exact matched
  step := by
    rintro pair next ⟨settled, inStep⟩ advances
    refine ⟨?_, inStep.step same advances⟩
    cases advances with
    | request os os' request =>
        show (pair.settled || request.searches) = true
        rw [settled, Bool.true_or]
    | store => exact settled

/-- Lazy construction cannot be told from eager construction: the users of the two
runners get the same answers and hold the same payloads up to the addresses of the
chunks, and from the first search on all that the runners keep is the same too. -/
theorem deferral_unobservable (same : SameTemplate cfg cfg')
    (reachable : (pairs cfg cfg' (Deferral cfg cfg')).Reachable pair) :
    (∀ os os' request, pair.left.Permits request →
      pair.Granted cfg cfg' os os' request →
        AnswerAlike (pair.perform cfg cfg' os os' request).left.state.chunks
          (pair.perform cfg cfg' os os' request).right.state.chunks
          (pair.left.answer cfg (pair.left.operation os request))
          (pair.right.answer cfg' (pair.right.operation os' request))) ∧
      List.Forall₂ (AllocationAlike pair.left.state.chunks pair.right.state.chunks)
        pair.left.live pair.right.live ∧
      (pair.settled = true → Concur pair.left.state pair.right.state) := by
  have inStep := (deferral_inductive same).reachable reachable
  exact ⟨fun os os' request permitted granted => (inStep.request same permitted granted).2,
    inStep.live, inStep.concur⟩

def otherConfig : Config :=
  { sampleConfig with self := 128, selfNonnull := by decide, collectStats := false }

theorem otherConfig_same : SameTemplate sampleConfig otherConfig := ⟨rfl, rfl, rfl⟩

def otherState : State :=
  match State.construct otherConfig highOs (fun _ => 7) 5000 with
  | .ok s => s
  | .error _ => State.blank (fun _ => 0) 0 0

theorem otherState_built :
    State.construct otherConfig highOs (fun _ => 7) 5000 = .ok otherState := by
  have served : (State.construct otherConfig highOs (fun _ => 7) 5000).isOk = true := by
    decide +kernel
  unfold otherState
  generalize State.construct otherConfig highOs (fun _ => 7) 5000 = outcome at served ⊢
  cases outcome with
  | ok s => rfl
  | error exn => cases served

/-- A call that searches nothing, and one that brings the deferred chunk. -/
def samplePair : Pair :=
  ((Pair.mk ⟨State.constructLazy (fun _ => 0) 5000, []⟩ ⟨otherState, []⟩ false).perform
    sampleConfig otherConfig lowOs refusing (.allocateBytes 24 32)).perform
      sampleConfig otherConfig lowOs refusing (.allocateBytes 24 16)

theorem granted_of_isOk {pair : Pair} {bytes alignment : Nat}
    (left : (pair.left.state.allocateBytes cfg os bytes alignment).2.isOk = true)
    (right : (pair.right.state.allocateBytes cfg' os' bytes alignment).2.isOk = true) :
    pair.Granted cfg cfg' os os' (.allocateBytes bytes alignment) := by
  constructor
  · intro refused
    rw [Answer.pointer.inj refused] at left
    cases left
  · intro refused
    rw [Answer.pointer.inj refused] at right
    cases right

theorem samplePair_reachable :
    (pairs sampleConfig otherConfig (Deferral sampleConfig otherConfig)).Reachable
      samplePair := by
  refine .step (.step (.start ⟨by decide, otherState_built⟩)
    (.request lowOs refusing (.allocateBytes 24 32) (show 24 < 2 ^ 64 by decide) ?_))
    (.request lowOs refusing (.allocateBytes 24 16) (show 24 < 2 ^ 64 by decide) ?_)
  · exact granted_of_isOk (by decide +kernel) (by decide +kernel)
  · exact granted_of_isOk (by decide +kernel) (by decide +kernel)

theorem samplePair_unobservable :
    samplePair.left.live = [⟨4112, 24, 0⟩] ∧
      samplePair.right.live = [⟨2 ^ 30 + 16, 24, 0⟩] ∧
      Concur samplePair.left.state samplePair.right.state :=
  ⟨by decide +kernel, by decide +kernel,
    (deferral_unobservable otherConfig_same samplePair_reachable).2.2 (by decide +kernel)⟩

/-- The addresses that the OS chooses, the contents of its memory and the statistics make
no difference: runners constructed in one way answer alike and keep the same. -/
theorem placement_unobservable (same : SameTemplate cfg cfg')
    (reachable : (pairs cfg cfg' (Alikened cfg cfg')).Reachable pair) :
    (∀ os os' request, pair.left.Permits request →
      pair.Granted cfg cfg' os os' request →
        AnswerAlike (pair.perform cfg cfg' os os' request).left.state.chunks
          (pair.perform cfg cfg' os os' request).right.state.chunks
          (pair.left.answer cfg (pair.left.operation os request))
          (pair.right.answer cfg' (pair.right.operation os' request))) ∧
      List.Forall₂ (AllocationAlike pair.left.state.chunks pair.right.state.chunks)
        pair.left.live pair.right.live ∧
      Concur pair.left.state pair.right.state := by
  obtain ⟨settled, inStep⟩ := (alikened_inductive same).reachable reachable
  exact ⟨fun os os' request permitted granted => (inStep.request same permitted granted).2,
    inStep.live, inStep.concur settled⟩

/-- Two lazy runners that bring their chunks from different places. -/
def otherPair : Pair :=
  (Pair.mk ⟨State.constructLazy (fun _ => 0) 5000, []⟩
    ⟨State.constructLazy (fun _ => 7) 5000, []⟩ true).perform sampleConfig otherConfig lowOs
      highOs (.allocateBytes 24 16)

theorem otherPair_unobservable :
    otherPair.left.live = [⟨4112, 24, 0⟩] ∧
      otherPair.right.live = [⟨2 ^ 30 + 16, 24, 0⟩] ∧
      Concur otherPair.left.state otherPair.right.state :=
  ⟨by decide +kernel, by decide +kernel,
    (placement_unobservable otherConfig_same (.step (.start (.deferred (by decide)))
      (.request lowOs highOs (.allocateBytes 24 16) (show 24 < 2 ^ 64 by decide)
        (granted_of_isOk (by decide +kernel) (by decide +kernel))))).2.2⟩

end Runner

end Allocazam
