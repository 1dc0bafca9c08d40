import Allocazam.RunnerCuts
import Allocazam.RunnerHoldings
import Allocazam.RunnerScanCount

/-!
# What serves requests of one size

Whether a runner serves a row of requests of one size depends on how many of them it can
serve without a new chunk, on the sizes it asks the OS for, and on the OS.
-/

namespace Allocazam

namespace Runner

variable {cfg : Config} {s t : State} {os : Os} {blocks : List Block} {runs : Set Block}
  {parked : List Nat} {needed : Nat} {later : List Os}

/-- The number of requests that need no chunk, and what the next chunk depends on. -/
structure Supply where
  stock : Nat
  chunks : List ChunkNode
  nextGrowth : Nat
  deferredBytes : Nat

/-- A supply that is used up is restocked with a chunk: the deferred first one, or one to
grow by. -/
inductive Supply.Restocked (cfg : Config) (os : Os) (needed : Nat) :
    Supply → Supply → Prop
  | first {chunks : List ChunkNode} {nextGrowth deferredBytes base length : Nat}
      (deferral : deferredBytes ≠ 0)
      (granted : ChunkGranted cfg os chunks deferredBytes base length) :
      Restocked cfg os needed ⟨0, chunks, nextGrowth, deferredBytes⟩
        ⟨cuts needed (length - epilogueSize), ownedChunk base length :: chunks, length, 0⟩
  | growth {chunks : List ChunkNode} {nextGrowth base length : Nat}
      (growable : cfg.canGrow = true) (bounded : needed + minChunkBytes < 2 ^ 64)
      (granted : ChunkGranted cfg os chunks (max nextGrowth (needed + minChunkBytes)) base
        length) :
      Restocked cfg os needed ⟨0, chunks, nextGrowth, 0⟩
        ⟨cuts needed (length - epilogueSize), ownedChunk base length :: chunks,
          nextAfter length, 0⟩

/-- A request is served from the stock, or after the supply has been restocked. -/
inductive Supply.Serves (cfg : Config) (os : Os) (needed : Nat) : Supply → Supply → Prop
  | stocked (stock : Nat) (chunks : List ChunkNode) (nextGrowth deferredBytes : Nat) :
      Serves cfg os needed ⟨stock + 1, chunks, nextGrowth, deferredBytes⟩
        ⟨stock, chunks, nextGrowth, deferredBytes⟩
  | restocked {supply richer next : Supply}
      (restocked : supply.Restocked cfg os needed richer)
      (serves : richer.Serves cfg os needed next) : Serves cfg os needed supply next

/-- One of the requests is not served, each under its own system. -/
def Supply.Starves (cfg : Config) (needed : Nat) : List Os → Supply → Prop
  | [], _ => False
  | os :: later, supply => (∀ next, ¬ supply.Serves cfg os needed next) ∨
      ∃ next, supply.Serves cfg os needed next ∧ next.Starves cfg needed later

def State.parkedSet (s : State) : Set Nat :=
  {p | ∃ parked, IsStack s.mem s.remoteHead parked ∧ p ∈ parked}

/-- What serves requests for runs of `needed` bytes: what fits into the free runs, and
what fits then into the gaps beside the runs that are not parked. -/
noncomputable def State.supply (needed : Nat) (s : State) : Supply where
  stock := tally needed s.FreeRun + tally needed (s.GapBeside needed s.parkedSet)
  chunks := s.chunks
  nextGrowth := s.nextGrowth
  deferredBytes := s.deferredBytes

theorem Supply.Restocked.unique {supply richer richer' : Supply}
    (one : supply.Restocked cfg os needed richer)
    (two : supply.Restocked cfg os needed richer') : richer = richer' := by
  cases one with
  | first deferral granted =>
      cases two with
      | first _ granted' => obtain ⟨rfl, rfl⟩ := granted.unique granted'; rfl
      | growth => exact absurd rfl deferral
  | growth _ _ granted =>
      cases two with
      | first deferral => exact absurd rfl deferral
      | growth _ _ granted' => obtain ⟨rfl, rfl⟩ := granted.unique granted'; rfl

theorem Supply.Serves.unique {supply next next' : Supply}
    (one : supply.Serves cfg os needed next) (two : supply.Serves cfg os needed next') :
    next = next' := by
  induction one with
  | stocked =>
      cases two with
      | stocked => rfl
      | restocked restocked => cases restocked
  | restocked restocked _ ih =>
      cases two with
      | stocked => cases restocked
      | restocked restocked' serves =>
          rw [restocked'.unique restocked] at serves
          exact ih serves

theorem Supply.Serves.starves_cons {supply next : Supply}
    (serves : supply.Serves cfg os needed next) :
    supply.Starves cfg needed (os :: later) ↔ next.Starves cfg needed later := by
  constructor
  · rintro (unserved | ⟨other, same, starves⟩)
    · exact absurd serves (unserved _)
    · rwa [serves.unique same]
  · exact fun starves => Or.inr ⟨_, serves, starves⟩

theorem Supply.unserved {supply : Supply} (empty : supply.stock = 0)
    (none : ∀ richer, ¬ supply.Restocked cfg os needed richer) (next : Supply) :
    ¬ supply.Serves cfg os needed next := by
  intro serves
  cases serves with
  | stocked => cases empty
  | restocked restocked => exact none _ restocked

/-- Under systems that grant nothing, requests starve when they are more than the stock. -/
theorem Supply.starves_iff_of_refused {supply : Supply}
    (refused : ∀ os ∈ later, ∀ chunks bytes, os.grant chunks bytes = none) :
    supply.Starves cfg needed later ↔ supply.stock < later.length := by
  induction later generalizing supply with
  | nil => simp [Supply.Starves]
  | cons os later ih =>
      replace ih := fun supply => @ih supply fun os listed => refused os (by simp [listed])
      have none : ∀ richer, ¬ supply.Restocked cfg os needed richer := by
        rintro richer restocked
        cases restocked with
        | first _ granted =>
            have grants := granted.2.2
            rw [refused os List.mem_cons_self] at grants
            cases grants
        | growth _ _ granted =>
            have grants := granted.2.2
            rw [refused os List.mem_cons_self] at grants
            cases grants
      obtain ⟨stock, chunks, nextGrowth, deferredBytes⟩ := supply
      cases stock with
      | zero => exact iff_of_true (Or.inl (Supply.unserved rfl none)) (Nat.zero_lt_succ _)
      | succ stock =>
          have serves : Supply.Serves cfg os needed ⟨stock + 1, chunks, nextGrowth, deferredBytes⟩
              ⟨stock, chunks, nextGrowth, deferredBytes⟩ := .stocked _ _ _ _
          rw [List.length_cons, Nat.succ_lt_succ_iff, serves.starves_cons, ih]

namespace RunnerOk

section Parked

variable (ok : RunnerOk cfg s runs parked)

include ok

theorem parkedSet_eq : s.parkedSet = {p | p ∈ parked} := by
  ext p
  constructor
  · rintro ⟨others, stack, listed⟩
    rwa [stack.unique ok.stack] at listed
  · exact fun listed => ⟨parked, ok.stack, listed⟩

theorem supply_congr {cfg' : Config} (other : RunnerOk cfg' t runs parked)
    (chunks : t.chunks = s.chunks) (next : t.nextGrowth = s.nextGrowth)
    (deferred : t.deferredBytes = s.deferredBytes) : t.supply needed = s.supply needed := by
  have clear : ∀ spared start stop, t.Clear spared start stop ↔ s.Clear spared start stop := by
    intro spared start stop
    unfold State.Clear
    simp only [chunks, other.allocated_iff, ok.allocated_iff]
  have free : t.FreeRun = s.FreeRun := by
    obtain ⟨_, heap, _⟩ := ok.heap
    obtain ⟨_, heap', _⟩ := other.heap
    funext addr size
    rw [heap.freeRun_iff_gap, heap'.freeRun_iff_gap]
    unfold State.Gap
    simp only [clear]
  have beside : t.GapBeside needed t.parkedSet = s.GapBeside needed s.parkedSet := by
    funext addr size
    unfold State.GapBeside State.ClearBeside
    simp only [clear, free, ok.parkedSet_eq, other.parkedSet_eq]
  unfold State.supply
  rw [free, beside, chunks, next, deferred]

theorem supply_unmeasured (same : t.unmeasured = s.unmeasured) :
    t.supply needed = s.supply needed :=
  ok.supply_congr (ok.of_unmeasured same) (congrArg (fun u => u.chunks) same)
    (congrArg (fun u => u.nextGrowth) same) (congrArg (fun u => u.deferredBytes) same)

end Parked

theorem idle_gaps (ok : RunnerOk cfg s runs []) (positive : 0 < needed) :
    tally needed (s.GapBeside needed s.parkedSet) = 0 := by
  obtain ⟨_, heap, _⟩ := ok.heap
  have none : {p | p ∈ ([] : List Nat)} = ∅ := by simp
  refine tally_eq_zero fun addr size gap => ?_
  rw [ok.parkedSet_eq, none] at gap
  exact heap.gapBeside_small positive gap

theorem drained_supply (ok : RunnerOk cfg s runs parked) (positive : 0 < needed)
    (full : s.NoFit needed) :
    (s.drainRemote cfg).1.supply needed = s.supply needed := by
  obtain ⟨_, _, drains⟩ := drainRemote_spec ok
  have after := drains.ok.idle_gaps positive
  have same : s.GapBeside needed s.parkedSet = (s.drainRemote cfg).1.FreeRun := by
    funext addr size
    rw [ok.parkedSet_eq, gapBeside_of_noFit full, ok.drained_gap]
  have sizing : (s.drainRemote cfg).1.sizing = s.sizing := drainRemote_sizing
  unfold State.supply
  rw [after, same, tally_eq_zero full, drainRemote_chunks, drainRemote_nextGrowth,
    drainRemote_deferred]
  congr 1
  omega

end RunnerOk

section Found

variable {h : Nat} (ok : RunnerOk cfg s runs parked)
  (candidate : Candidate cfg s runs needed h) (normalized : Normalized needed)
  (found : h ≠ 0)

include ok candidate normalized found

theorem finishAllocate_supply :
    ∃ t, s.finishAllocate cfg h needed = (t, .ok (h + 16)) ∧
      s.supply needed =
        { t.supply needed with stock := (t.supply needed).stock + 1 } := by
  have outcome : Outcome cfg s (s.finishAllocate cfg h needed).1 runs parked 0
      (s.finishAllocate cfg h needed).2 :=
    finishAllocate_outcome ok candidate normalized (by have := normalized.large; omega)
  rcases candidate with null | ⟨blocks, heap, rfl, run, ⟨member, free⟩, rfl, fits⟩
  · exact absurd null found
  obtain ⟨front, back, rfl⟩ := List.append_of_mem member
  have positive : 0 < needed := (by decide : 0 < 48).trans_le normalized.large
  have unspared : run.addr + 16 ∉ s.parkedSet := by
    rw [ok.parkedSet_eq]
    intro listed
    obtain ⟨other, used, same⟩ := ok.parkedRuns _ listed
    rw [heap.layout.eq_of_addr_eq used.1 member (by omega)] at used
    exact absurd (used.2.symm.trans free) (by decide)
  obtain ⟨pointer, exchanged⟩ := allocateFromFreeRun_exchanged heap free normalized fits
  unfold State.finishAllocate at outcome ⊢
  rw [if_neg found] at outcome ⊢
  generalize s.allocateFromFreeRun cfg run.addr needed = carvedOut
    at pointer exchanged outcome ⊢
  obtain ⟨u, out⟩ := carvedOut
  dsimp only at pointer exchanged outcome ⊢
  subst pointer
  refine ⟨_, rfl, ?_⟩
  have same := @record_unmeasured cfg u fun stats =>
    { stats with
      allocateSuccess := wrapAdd stats.allocateSuccess 1
      grantedBytes := wrapAdd stats.grantedBytes
        (wrapSub (u.runSize (headerFromPayload (run.addr + 16))) headerBytes) }
  generalize (u.record cfg fun stats =>
    { stats with
      allocateSuccess := wrapAdd stats.allocateSuccess 1
      grantedBytes := wrapAdd stats.grantedBytes
        (wrapSub (u.runSize (headerFromPayload (run.addr + 16))) headerBytes) }) = t
    at same outcome ⊢
  obtain ⟨bins, mask, outer, mem⟩ := unmeasured_eq_iff.mp same
  have outer' := outer.trans exchanged.outer
  have chunks := State.chunks_of_outer outer'
  have nextGrowth : t.nextGrowth = s.nextGrowth := congrArg (fun m => m.2.1) outer'
  have deferred : t.deferredBytes = s.deferredBytes := congrArg (fun m => m.2.2.1) outer'
  have after := exchanged.after.congr (State.chunks_of_outer outer) mem bins mask
  have spared : t.parkedSet = s.parkedSet := by
    cases outcome with
    | run _ _ _ step => rw [step.ok.parkedSet_eq, ok.parkedSet_eq]
  have stock := carved_tally heap free after positive fits
  have beside : s.GapBeside needed s.parkedSet = t.GapBeside needed t.parkedSet := by
    funext addr size
    unfold State.GapBeside
    simp only [spared, carved_clearBeside heap free after chunks positive fits unspared]
  unfold State.supply
  rw [stock, beside, chunks, nextGrowth, deferred]
  congr 1
  exact Nat.add_right_comm _ _ _

end Found

/-- How a call ends that has the supply at its disposal. -/
inductive Supply.Leads (cfg : Config) (os : Os) (needed : Nat) (supply : Supply) :
    State × Except Exn Nat → Prop
  | served {t : State} {p : Nat} (nonnull : p ≠ 0)
      (serves : supply.Serves cfg os needed (t.supply needed)) :
      Leads cfg os needed supply (t, .ok p)
  | exhausted {t : State} (unserved : ∀ next, ¬ supply.Serves cfg os needed next)
      (fixed : cfg.canGrow = false) : Leads cfg os needed supply (t, .ok 0)
  | thrown {t : State} {exn : Exn} (unserved : ∀ next, ¬ supply.Serves cfg os needed next) :
      Leads cfg os needed supply (t, .error exn)

section Leads

variable {supply richer : Supply}

theorem Supply.Leads.of_restocked {result : State × Except Exn Nat}
    (leads : richer.Leads cfg os needed result)
    (restocked : supply.Restocked cfg os needed richer) :
    supply.Leads cfg os needed result := by
  have unserved : (∀ next, ¬ richer.Serves cfg os needed next) →
      ∀ next, ¬ supply.Serves cfg os needed next := by
    intro none next serves
    cases serves with
    | stocked => cases restocked
    | restocked restocked' serves =>
        rw [restocked'.unique restocked] at serves
        exact none _ serves
  cases leads with
  | served nonnull serves => exact .served nonnull (.restocked restocked serves)
  | exhausted none fixed => exact .exhausted (unserved none) fixed
  | thrown none => exact .thrown (unserved none)

end Leads

theorem finishAllocate_leads {h : Nat} (ok : RunnerOk cfg s runs parked)
    (candidate : Candidate cfg s runs needed h) (normalized : Normalized needed)
    (found : h ≠ 0) :
    (s.supply needed).Leads cfg os needed (s.finishAllocate cfg h needed) := by
  obtain ⟨t, result, supply⟩ := finishAllocate_supply ok candidate normalized found
  rw [result, supply]
  exact .served (by omega) (.stocked _ _ _ _)

section Full

variable (ok : RunnerOk cfg s runs []) (normalized : Normalized needed)

include ok normalized

theorem RunnerOk.idle_stock : (s.supply needed).stock = tally needed s.FreeRun := by
  have beside := ok.idle_gaps ((by decide : 0 < 48).trans_le normalized.large)
  unfold State.supply
  rw [beside, Nat.add_zero]

theorem RunnerOk.idle_stock_eq_zero_iff : (s.supply needed).stock = 0 ↔ s.NoFit needed := by
  obtain ⟨_, heap, _⟩ := ok.heap
  rw [ok.idle_stock normalized, heap.tally_eq_zero_iff]

variable (full : s.NoFit needed)

include full

theorem RunnerOk.stock_withChunk {bytes base length : Nat} (after : RunnerOk cfg t runs [])
    (granted : ChunkGranted cfg os s.chunks bytes base length) (word : bytes < 2 ^ 64)
    (chunks : t.chunks = (s.withChunk (ownedChunk base length)).chunks)
    (mem : t.mem = (s.withChunk (ownedChunk base length)).mem)
    (bins : t.bins = (s.withChunk (ownedChunk base length)).bins)
    (mask : t.binNonemptyMask =
      (s.withChunk (ownedChunk base length)).binNonemptyMask) :
    (t.supply needed).stock = cuts needed (length - epilogueSize) := by
  obtain ⟨_, heap, _⟩ := ok.heap
  have whole := (granted.heap heap word).congr chunks mem bins mask
  have none := heap.tally_eq_zero_iff.mpr full
  rw [heap.tally_eq] at none
  rw [after.idle_stock normalized, whole.tally_eq, listTally_cons, listTally_cons, none]
  rfl

theorem RunnerOk.supply_of_full :
    s.supply needed = ⟨0, s.chunks, s.nextGrowth, s.deferredBytes⟩ := by
  rw [← (ok.idle_stock_eq_zero_iff normalized).mpr full]
  rfl

theorem addDeferred_restocked (deferral : s.deferredBytes ≠ 0) :
    match s.addDeferred cfg os with
    | (t, .ok ()) => (s.supply needed).Restocked cfg os needed (t.supply needed)
    | (_, .error _) => ∀ richer, ¬ (s.supply needed).Restocked cfg os needed richer := by
  have added := (addDeferred_step os ok).ok
  rw [ok.supply_of_full normalized full]
  unfold State.addDeferred at added ⊢
  rw [if_neg deferral] at added ⊢
  generalize outcomeEq : s.addOwnedChunk cfg os s.deferredBytes = outcome at added ⊢
  obtain ⟨t, exn | length⟩ := outcome
  · rintro richer restocked
    generalize deferredEq : s.deferredBytes = deferredBytes at *
    cases restocked with
    | growth => exact deferral rfl
    | first _ granted =>
        rw [← deferredEq] at outcomeEq granted
        rw [addOwnedChunk_of_granted ok.deferred granted] at outcomeEq
        cases outcomeEq
  · obtain ⟨base, granted, rfl⟩ := granted_of_addOwnedChunk ok.deferred outcomeEq
    dsimp only at added ⊢
    have stock := ok.stock_withChunk normalized full added granted ok.deferred rfl rfl rfl rfl
    have chunks : (s.withFirst base length).chunks = ownedChunk base length :: s.chunks :=
      congrArg (fun members => members.1) (withChunk_outer (ownedChunk base length))
    have richer : (s.withFirst base length).supply needed =
        ⟨cuts needed (length - epilogueSize), ownedChunk base length :: s.chunks, length,
          0⟩ := by
      rw [← stock, ← chunks]
      rfl
    exact richer ▸ .first deferral granted

theorem growFor_restocked (undeferred : s.deferredBytes = 0) (growable : cfg.canGrow = true) :
    match s.growFor cfg os needed with
    | (t, .ok ()) => (s.supply needed).Restocked cfg os needed (t.supply needed)
    | (_, .error _) => ∀ richer, ¬ (s.supply needed).Restocked cfg os needed richer := by
  have grown : RunnerOk cfg (s.growFor cfg os needed).1 runs [] :=
    (growFor_step ok normalized).ok
  have recorded : (s.record cfg fun stats =>
    { stats with growCalls := wrapAdd stats.growCalls 1 }).unmeasured =
      s.unmeasured := record_unmeasured _
  rw [← ok.supply_unmeasured recorded]
  unfold State.growFor at grown ⊢
  dsimp only at grown ⊢
  generalize (s.record cfg fun stats =>
    { stats with growCalls := wrapAdd stats.growCalls 1 }) = u at recorded grown ⊢
  have okU := ok.of_unmeasured recorded
  have fullU := (ok.noFit_congr recorded).mpr full
  have deferred : u.deferredBytes = 0 :=
    (congrArg (fun v => v.deferredBytes) recorded).trans undeferred
  rw [okU.supply_of_full normalized fullU, deferred]
  have next := okU.growth
  cases summed : checkedAdd needed minChunkBytes with
  | none =>
      have large := (checkedAdd_eq_none (by decide)).mp summed
      rintro richer restocked
      cases restocked with
      | first deferral => exact deferral rfl
      | growth _ bounded => omega
  | some overhead =>
      obtain ⟨bounded, rfl⟩ := (checkedAdd_eq_some (by decide)).mp summed
      rw [summed] at grown
      dsimp only at grown ⊢
      have word : max u.nextGrowth (needed + minChunkBytes) < 2 ^ 64 := by omega
      generalize outcomeEq : u.addOwnedChunk cfg os
        (max u.nextGrowth (needed + minChunkBytes)) = outcome at grown ⊢
      obtain ⟨t, exn | length⟩ := outcome
      · rintro richer restocked
        cases restocked with
        | first deferral => exact deferral rfl
        | growth _ _ granted =>
            rw [addOwnedChunk_of_granted word granted] at outcomeEq
            cases outcomeEq
      · obtain ⟨base, granted, rfl⟩ := granted_of_addOwnedChunk word outcomeEq
        dsimp only at grown ⊢
        have stock := okU.stock_withChunk normalized fullU grown granted word rfl rfl rfl rfl
        have outer := withChunk_outer (s := u) (ownedChunk base length)
        have chunks := congrArg (fun members => members.1) outer
        have kept : (u.withChunk (ownedChunk base length)).deferredBytes = 0 :=
          (congrArg (fun members => members.2.2.1) outer).trans deferred
        have richer : ({ u.withChunk (ownedChunk base length) with
              nextGrowth := nextAfter length } : State).supply needed =
            ⟨cuts needed (length - epilogueSize), ownedChunk base length :: u.chunks,
              nextAfter length, 0⟩ := by
          rw [← stock, ← kept, ← show _ = ownedChunk base length :: u.chunks from chunks]
          rfl
        exact richer ▸ .growth growable bounded granted

theorem growthStage_leads (undeferred : s.deferredBytes = 0) (scanCount : Nat) :
    (s.supply needed).Leads cfg os needed
      (match s.findOrGrow cfg os needed 0 scanCount with
        | (s, .error exn) => (s, .error exn)
        | (s, .ok h) => s.finishAllocate cfg h needed) := by
  have empty := (ok.idle_stock_eq_zero_iff normalized).mpr full
  unfold State.findOrGrow
  by_cases growable : cfg.canGrow = true
  swap
  · rw [if_neg fun both => growable both.2]
    dsimp only
    unfold State.finishAllocate
    rw [if_pos rfl]
    refine .exhausted (Supply.unserved empty fun richer restocked => ?_)
      (Bool.eq_false_iff.mpr growable)
    rw [ok.supply_of_full normalized full, undeferred] at restocked
    cases restocked with
    | first deferral => exact deferral rfl
    | growth grows => exact growable grows
  rw [if_pos ⟨rfl, growable⟩]
  have restocked := @growFor_restocked cfg s os runs needed ok normalized full undeferred
    growable
  have grown : RunnerOk cfg (s.growFor cfg os needed).1 runs [] :=
    (growFor_step ok normalized).ok
  have fits : (s.growFor cfg os needed).2 = .ok () →
      ¬ (s.growFor cfg os needed).1.NoFit needed := growFor_fits ok normalized
  generalize s.growFor cfg os needed = outcome at restocked grown fits ⊢
  obtain ⟨t, exn | done⟩ := outcome
  · exact .thrown (Supply.unserved empty restocked)
  · obtain ⟨searched, candidate⟩ := @findFit_step cfg t runs [] needed scanCount grown
      normalized
    have same := (@findFit_unmeasured cfg t needed scanCount 0).1
    have found : (t.findFit cfg needed scanCount).2.1 ≠ 0 := fun null =>
      fits rfl ((grown.findFit_eq_zero normalized scanCount).mp null)
    dsimp only at restocked ⊢
    refine .of_restocked ?_ restocked
    rw [← grown.supply_unmeasured same]
    exact finishAllocate_leads searched.ok candidate normalized found

theorem resumeAllocate_leads_of_full (scanCount : Nat) :
    (s.supply needed).Leads cfg os needed
      (State.resumeAllocate cfg os needed (s, 0, scanCount)) := by
  have empty := (ok.idle_stock_eq_zero_iff normalized).mpr full
  unfold State.resumeAllocate
  by_cases undeferred : s.deferredBytes = 0
  · have deferred : State.findOrDefer cfg os needed (s, 0, scanCount) =
        (s, .ok (0, scanCount)) := if_neg fun both => both.2 undeferred
    rw [deferred]
    exact growthStage_leads ok normalized full undeferred scanCount
  have restocked := @addDeferred_restocked cfg s os runs needed ok normalized full undeferred
  have added := (addDeferred_step os ok).ok
  unfold State.addDeferred at restocked added
  unfold State.findOrDefer
  dsimp only
  rw [if_neg undeferred] at restocked added
  rw [if_pos ⟨rfl, undeferred⟩]
  generalize s.addOwnedChunk cfg os s.deferredBytes = outcome at restocked added ⊢
  obtain ⟨u, exn | length⟩ := outcome
  · exact .thrown (Supply.unserved empty restocked)
  dsimp only at restocked added ⊢
  refine .of_restocked ?_ restocked
  generalize first : ({ u with nextGrowth := length, deferredBytes := 0 } : State) = v
    at added ⊢
  have reset : v.deferredBytes = 0 := by rw [← first]
  obtain ⟨searched, candidate⟩ := @findFit_step cfg v runs [] needed scanCount added
    normalized
  have same := (@findFit_unmeasured cfg v needed scanCount 0).1
  have missing := added.findFit_eq_zero normalized scanCount
  rw [← added.supply_unmeasured same]
  rw [← added.noFit_congr same] at missing
  replace reset : (v.findFit cfg needed scanCount).1.deferredBytes = 0 :=
    (congrArg (fun u => u.deferredBytes) same).trans reset
  generalize v.findFit cfg needed scanCount = found
    at searched candidate missing reset ⊢
  obtain ⟨w, h, count⟩ := found
  dsimp only at searched candidate missing reset ⊢
  by_cases null : h = 0
  · subst null
    exact growthStage_leads searched.ok normalized (missing.mp rfl) reset count
  · have kept : w.findOrGrow cfg os needed h count = (w, .ok h) :=
      if_neg fun both => null both.1
    rw [kept]
    exact finishAllocate_leads searched.ok candidate normalized null

end Full

theorem findOrDrain_supply (ok : RunnerOk cfg s runs parked) (normalized : Normalized needed) :
    (s.findOrDrain cfg needed).1.supply needed = s.supply needed := by
  have positive : 0 < needed := (by decide : 0 < 48).trans_le normalized.large
  have same := (@findFit_unmeasured cfg s needed 0 0).1
  have missing := ok.findFit_eq_zero normalized 0
  unfold State.findOrDrain
  rw [← ok.supply_unmeasured same]
  rw [← ok.noFit_congr same] at missing
  replace ok := ok.of_unmeasured same
  generalize s.findFit cfg needed 0 = found at ok missing ⊢
  obtain ⟨u, h, count⟩ := found
  dsimp only at ok missing ⊢
  by_cases null : h = 0
  swap
  · rw [if_neg null]
  rw [if_pos null]
  obtain ⟨_, _, drains⟩ := drainRemote_spec ok
  have drained := ok.drained_supply positive (missing.mp null)
  have ok' := drains.ok
  generalize u.drainRemote cfg = outcome at drained ok' ⊢
  obtain ⟨v, flag⟩ := outcome
  dsimp only at drained ok'
  cases flag with
  | true => exact (ok'.supply_unmeasured (findFit_unmeasured needed count 0).1).trans drained
  | false => exact drained

/-- The supply decides how a call ends that is neither over-aligned nor too large. -/
theorem allocateBytes_leads (os : Os) (ok : RunnerOk cfg s runs parked)
    {bytes alignment : Nat} (word : bytes < 2 ^ 64) (small : alignment ≤ 16)
    (sized : normalizedRunBytesForPayload (if bytes = 0 then 1 else bytes) = some needed) :
    (s.supply needed).Leads cfg os needed (s.allocateBytes cfg os bytes alignment) := by
  obtain ⟨aligned, large, _, bounded⟩ :=
    normalizedRunBytesForPayload_spec (by split <;> omega) sized
  have normalized : Normalized needed := ⟨aligned, large, bounded⟩
  unfold State.allocateBytes
  rw [if_neg (Nat.not_lt.mpr small)]
  dsimp only
  generalize (if bytes = 0 then 1 else bytes) = request at sized ⊢
  have same : (s.record cfg fun stats =>
    { stats with
      allocateCalls := wrapAdd stats.allocateCalls 1
      requestedBytes := wrapAdd stats.requestedBytes request }).unmeasured =
      s.unmeasured := record_unmeasured _
  rw [← ok.supply_unmeasured same]
  replace ok := ok.of_unmeasured same
  generalize s.record cfg (fun stats =>
    { stats with
      allocateCalls := wrapAdd stats.allocateCalls 1
      requestedBytes := wrapAdd stats.requestedBytes request }) = r at ok ⊢
  rw [sized]
  dsimp only
  rw [← findOrDrain_supply ok normalized]
  obtain ⟨missing, left⟩ := findOrDrain_eq_zero ok normalized
  obtain ⟨_, _, drains⟩ := drainRemote_spec ok
  obtain ⟨drained, step, candidate, idle⟩ := findOrDrain_step ok normalized
  have ok' := step.ok
  have full : (r.findOrDrain cfg needed).2.1 = 0 →
      (r.findOrDrain cfg needed).1.NoFit needed := fun null =>
    (drains.ok.noFit_congr (left null)).mpr (missing.mp null)
  generalize r.findOrDrain cfg needed = found at ok' candidate idle full ⊢
  obtain ⟨u, h, count⟩ := found
  dsimp only at ok' candidate idle full ⊢
  by_cases null : h = 0
  · subst null
    rw [idle rfl] at ok'
    exact resumeAllocate_leads_of_full ok' normalized (full rfl) count
  · have kept : u.findOrGrow cfg os needed h count = (u, .ok h) :=
      if_neg fun both => null both.1
    have deferred : State.findOrDefer cfg os needed (u, h, count) = (u, .ok (h, count)) :=
      if_neg fun both => null both.1
    unfold State.resumeAllocate
    rw [deferred]
    dsimp only
    rw [kept]
    exact finishAllocate_leads ok' candidate normalized null

/-- A user's write changes neither the legality of a runner nor its supply. -/
theorem SessionOk.write_supply {session : Session} (ok : SessionOk cfg session) {word : Nat}
    (writable : session.Writable word) (value needed : Nat) :
    SessionOk cfg { session with state := session.state.write word value } ∧
      (session.state.write word value).supply needed = session.state.supply needed := by
  obtain ⟨runs, parked, ok, held⟩ := ok
  obtain ⟨allocation, member, lower, upper⟩ := writable
  obtain ⟨run, runMember, addrEq, notParked, large, bytes⟩ :=
    held.run_spec ok ⟨allocation, member, rfl⟩
  rw [bytes, ← addrEq] at upper
  rw [← addrEq] at lower notParked
  have written := write_step ok runMember notParked value lower (by unfold Block.stop; omega)
  exact ⟨⟨runs, parked, written.ok, held⟩, ok.supply_congr written.ok rfl rfl rfl⟩

end Runner

end Allocazam
