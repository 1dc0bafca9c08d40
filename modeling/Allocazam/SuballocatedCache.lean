import Allocazam.SuballocatedNodes
import Allocazam.SuballocatedUsers

/-!
# Steps of the run cache

Pushing a run onto a class list, taking one off and returning one to its owner
keep the invariant.
-/

namespace Allocazam

namespace Suballocated

variable {Value Thread Bound : Type} {fam : Family Value Thread Bound}
  {w w' : World Value Thread Bound} {live : List (Item fam)}
  {ledger : Ledger Value Thread Bound} {site : Site Value Thread Bound}
  {value : Value} {thread owner : Thread} {idx p : Nat}

/-- The given runs went back to their runners, and nothing else changed. -/
structure Ledger.Returned (gone : List Nat)
    (ledger next : Ledger Value Thread Bound) : Prop where
  nodes : next.nodes = ledger.nodes
  freed : ∀ q ∈ gone, next.place q = none
  kept : ∀ q, q ∉ gone → next.place q = ledger.place q
  runs : ∀ site allocation, allocation ∈ next.runs site ↔
    allocation ∈ ledger.runs site ∧ allocation.payload ∉ gone

namespace Ledger.Returned

theorem refl (ledger : Ledger Value Thread Bound) : Returned [] ledger ledger :=
  ⟨rfl, by simp, fun _ _ => rfl, by simp⟩

theorem trans {middle next : Ledger Value Thread Bound} {gone later : List Nat}
    (first : Returned gone ledger middle) (second : Returned later middle next) :
    Returned (gone ++ later) ledger next where
  nodes := second.nodes.trans first.nodes
  freed q listed := by
    by_cases again : q ∈ later
    · exact second.freed q again
    · rw [second.kept q again]
      exact first.freed q ((List.mem_append.mp listed).resolve_right again)
  kept q absent := by
    rw [List.mem_append, not_or] at absent
    rw [second.kept q absent.2, first.kept q absent.1]
  runs site allocation := by
    rw [second.runs, first.runs, List.mem_append, not_or, and_assoc]

end Ledger.Returned

/-- No state is created, and only the runner of the given state acquires
memory. -/
structure Confined (fam : Family Value Thread Bound)
    (site : Site Value Thread Bound) (w w' : World Value Thread Bound) :
    Prop where
  created : w'.created = w.created
  territory : ∀ tenant ≠ .runs site,
    w'.territory fam tenant = w.territory fam tenant

namespace Confined

theorem refl (w : World Value Thread Bound) : Confined fam site w w :=
  ⟨rfl, fun _ _ => rfl⟩

theorem of_states (states : w'.states = w.states)
    (created : w'.created = w.created) : Confined fam site w w' where
  created := created
  territory := by
    rintro (other | other) _
    · show Pool.Members.footprint _ _ = Pool.Members.footprint _ _
      rw [states]
    · show Runner.Allocator.footprint _ = Runner.Allocator.footprint _
      rw [states]

theorem trans {w'' : World Value Thread Bound} (first : Confined fam site w w')
    (second : Confined fam site w' w'') : Confined fam site w w'' where
  created := second.created.trans first.created
  territory tenant distinct :=
    (second.territory tenant distinct).trans (first.territory tenant distinct)

theorem others (confined : Confined fam site w w') :
    w'.others fam (.runs site) = w.others fam (.runs site) := by
  apply Set.ext
  intro addr
  constructor
  · rintro ⟨tenant, distinct, owned⟩
    rw [confined.territory tenant distinct] at owned
    exact ⟨tenant, distinct, owned⟩
  · rintro ⟨tenant, distinct, owned⟩
    rw [← confined.territory tenant distinct] at owned
    exact ⟨tenant, distinct, owned⟩

end Confined

/-- The run behind an entry of a class list. -/
theorem ClassOk.owned {entries : List Nat}
    (cls : ClassOk fam w ledger value thread idx entries) (listed : p ∈ entries) :
    ∃ owner, ∃ allocation ∈ ledger.runs (.thread value owner),
      allocation.payload = p ∧ tlsClassBytes idx ≤ room allocation ∧
        w.mem (p + 8) = fam.runsAt (.thread value owner) ∧
        ledger.place p = some (.cached value thread idx) := by
  obtain ⟨owner, allocation, member, payload, enough, stamp⟩ :=
    cls.entry p listed
  exact ⟨owner, allocation, member, payload, enough, stamp,
    (cls.place p).mp listed⟩

theorem Family.owner_of_stamp {other : Site Value Thread Bound}
    (stamp : fam.runsAt site = fam.runsAt other) : site = other := by
  rw [← fam.runsOf_runsAt site, stamp, fam.runsOf_runsAt]

theorem WorldOk.entries_lt (ok : WorldOk fam w live ledger)
    {entries : List Nat} (cls : ClassOk fam w ledger value thread idx entries) :
    entries.length < 2 ^ 64 := by
  apply cls.chain.length_lt (by decide)
  intro q listed
  obtain ⟨owner, allocation, member, rfl, _⟩ := cls.entry q listed
  exact (ok.runsOk _).payload_lt member

variable [DecidableEq Value] [DecidableEq Thread]

namespace World

theorem setClass_self (cls : RunClass) :
    (w.setClass value thread idx cls).classes value thread idx = cls := by
  simp [setClass]

theorem setClass_of_ne {value' : Value} {thread' : Thread} {idx' : Nat}
    (cls : RunClass)
    (distinct : ¬ (value' = value ∧ thread' = thread ∧ idx' = idx)) :
    (w.setClass value thread idx cls).classes value' thread' idx' =
      w.classes value' thread' idx' := by
  unfold setClass
  dsimp only
  by_cases sameValue : value' = value
  · subst sameValue
    rw [Function.update_self]
    by_cases sameThread : thread' = thread
    · subst sameThread
      rw [Function.update_self]
      exact Function.update_of_ne (fun same => distinct ⟨rfl, rfl, same⟩) _ _
    · rw [Function.update_of_ne sameThread]
  · rw [Function.update_of_ne sameValue]

theorem setClass_setClass (first second : RunClass) :
    (w.setClass value thread idx first).setClass value thread idx second =
      w.setClass value thread idx second := by
  unfold World.setClass
  dsimp only
  simp

theorem setClass_same :
    w.setClass value thread idx (w.classes value thread idx) = w := by
  unfold World.setClass
  simp

end World

namespace WorldOk

section Reclass

variable (ok : WorldOk fam w live ledger) {x : Place Value Thread}

include ok

/-- A class list takes up or gives off one run, and no other run is disturbed. -/
theorem reclass (run : ∃ site, ledger.HasRun site p)
    (before : ledger.place p = some .adrift ∨
      ledger.place p = some (.cached value thread idx))
    (after : x = .adrift ∨ x = .cached value thread idx)
    (states : w'.states = w.states) (created : w'.created = w.created)
    (tenants : (w'.tenancy fam ledger).Ok w'.mem)
    (entries : List Nat)
    (others : ∀ value' thread' idx',
      ¬ (value' = value ∧ thread' = thread ∧ idx' = idx) →
        w'.classes value' thread' idx' = w.classes value' thread' idx')
    (words : ∀ q value' thread' idx',
      ¬ (value' = value ∧ thread' = thread ∧ idx' = idx) →
        ledger.place q = some (.cached value' thread' idx') →
          w'.mem q = w.mem q ∧ w'.mem (q + 8) = w.mem (q + 8))
    (new : ClassOk fam w' (ledger.settle p x) value thread idx entries) :
    WorldOk fam w' live (ledger.settle p x) where
  tenants := tenants
  unborn site missing := by
    rw [created] at missing
    have unborn := ok.unborn site missing
    exact
      { pool := by
          rw [states]
          exact unborn.pool
        chunks := by
          rw [states]
          exact unborn.chunks
        nodes := unborn.nodes
        runs := unborn.runs }
  placed := by
    apply Ledger.settle_placed ok.placed
    rcases before with before | before <;> simp [before]
  nodes site q node value' thread' idx' := by
    by_cases same : q = p
    · subst same
      obtain ⟨owner, run⟩ := run
      exact absurd run (ok.node_not_run node)
    · rw [Ledger.settle_of_ne _ same]
      exact ok.nodes site q node value' thread' idx'
  held q := by
    rw [← ok.held q]
    by_cases same : q = p
    · subst same
      rw [Ledger.settle_self]
      rcases before with before | before <;> rcases after with rfl | rfl <;>
        simp [before]
    · rw [Ledger.settle_of_ne _ same]
  distinct := ok.distinct
  items item member :=
    have old := ok.items item member
    ⟨old.asked, old.returned, old.bounded, old.single, old.node, old.run⟩
  classes value' thread' idx' := by
    by_cases same : value' = value ∧ thread' = thread ∧ idx' = idx
    · obtain ⟨rfl, rfl, rfl⟩ := same
      exact ⟨entries, new⟩
    · obtain ⟨old, cls⟩ := ok.classes value' thread' idx'
      refine ⟨old, cls.congr (others _ _ _ same) (fun q listed =>
        words q _ _ _ same ((cls.place q).mp listed)) fun q => ?_⟩
      by_cases moved : q = p
      · subst moved
        rw [Function.update_self]
        rcases before with before | before <;> rcases after with rfl | rfl <;>
          simp [before] <;> tauto
      · rw [Function.update_of_ne moved]

end Reclass

theorem tlsPush (ok : WorldOk fam w live ledger) {allocation : Runner.Allocation}
    (member : allocation ∈ ledger.runs (.thread value owner))
    (adrift : ledger.place allocation.payload = some .adrift)
    (enough : tlsClassBytes idx ≤ room allocation) :
    WorldOk fam
      (w.tlsPush value thread idx allocation.payload
        (fam.runsAt (.thread value owner))) live
      (ledger.settle allocation.payload (.cached value thread idx)) := by
  obtain ⟨entries, cls⟩ := ok.classes value thread idx
  have fresh : allocation.payload ∉ entries := by
    intro listed
    have cached := (cls.place _).mp listed
    rw [adrift] at cached
    simp at cached
  have large := (ok.payload_large member).1
  have nonnull : allocation.payload ≠ 0 := by
    obtain ⟨_, _, positive, _⟩ := (ok.runsOk _).payload_spec member
    omega
  have loose : ∀ value thread idx, ledger.place allocation.payload ≠
      some (.cached value thread idx) := by simp [adrift]
  -- The run is written to while it is with nobody.
  have linked := ok.storeRun member loose le_rfl (by omega)
    (w.classes value thread idx).head
  have largeLinked := (linked.payload_large member).1
  have stamped := linked.storeRun member loose
    (Nat.le_add_right allocation.payload 8) (by omega)
    (fam.runsAt (.thread value owner))
  have outside : ∀ q, q ∈ entries → ∀ word,
      q ≤ word → word < q + 32 →
        word < allocation.payload ∨ allocation.payload + 8 < word := by
    intro q listed word lower upper
    obtain ⟨_, entry, entryMember, rfl, _⟩ := cls.entry q listed
    have distinct : allocation.payload ≠ entry.payload := by
      rintro same
      exact fresh (same ▸ listed)
    have apart := ok.payload_apart entryMember member distinct.symm lower
      (by have := (ok.payload_large entryMember).1; omega)
    omega
  obtain ⟨pushed, pushedCls⟩ := stamped.classes value thread idx
  have same : pushed = entries := by
    apply pushedCls.chain.unique
    refine cls.chain.congr fun q listed => ?_
    have apart := outside q listed q le_rfl (by omega)
    unfold World.write
    dsimp only
    rw [Function.update_of_ne (by omega), Function.update_of_ne (by omega)]
  subst same
  have bounded := ok.entries_lt cls
  refine stamped.reclass ⟨_, allocation, member, rfl⟩ (Or.inl adrift)
    (Or.inr rfl) rfl rfl stamped.tenants (allocation.payload :: pushed)
    (fun _ _ _ distinct => World.setClass_of_ne _ distinct)
    (fun _ _ _ _ _ _ => ⟨rfl, rfl⟩) ?_
  exact
    { chain := by
        unfold World.tlsPush
        dsimp only
        rw [World.setClass_self]
        refine ⟨rfl, nonnull, ?_⟩
        have link : (((w.write allocation.payload
            (w.classes value thread idx).head).write (allocation.payload + 8)
              (fam.runsAt (.thread value owner))).setClass value thread idx
                ⟨allocation.payload, wrapAdd (w.classes value thread idx).count
                  1⟩).mem allocation.payload =
            (w.classes value thread idx).head := by
          unfold World.setClass World.write
          dsimp only
          rw [Function.update_of_ne (by omega), Function.update_self]
        rw [link]
        exact pushedCls.chain
      count := by
        unfold World.tlsPush
        dsimp only
        rw [World.setClass_self, cls.count]
        dsimp only
        rw [List.length_cons]
        unfold wrapAdd
        have grown : (allocation.payload :: pushed).length < 2 ^ 64 := by
          apply (cls.chain.push nonnull fresh).length_lt (by decide)
          intro q listed
          rcases List.mem_cons.mp listed with rfl | later
          · exact (ok.runsOk _).payload_lt member
          · obtain ⟨_, entry, entryMember, rfl, _⟩ := cls.entry q later
            exact (ok.runsOk _).payload_lt entryMember
        rw [List.length_cons] at grown
        exact Nat.mod_eq_of_lt grown
      entry := by
        intro q listed
        rcases List.mem_cons.mp listed with rfl | later
        · refine ⟨owner, allocation, member, rfl, enough, ?_⟩
          exact Function.update_self _ _ _
        · exact pushedCls.entry q later
      place := by
        intro q
        by_cases moved : q = allocation.payload
        · subst moved
          simp
        · rw [Ledger.settle_of_ne _ moved, List.mem_cons]
          simp only [moved, false_or]
          exact pushedCls.place q }

end WorldOk

theorem ClassOk.tail {back : List Nat}
    (cls : ClassOk fam w ledger value thread idx (p :: back)) :
    ClassOk fam (w.setClass value thread idx
      ⟨w.mem p, decrement (w.classes value thread idx).count⟩)
      (ledger.settle p .adrift) value thread idx back where
  chain := by
    rw [World.setClass_self]
    exact cls.chain.2.2
  count := by
    rw [World.setClass_self, cls.count]
    exact decrement_eq (Nat.succ_pos _)
  entry q listed := cls.entry q (List.mem_cons_of_mem _ listed)
  place q := by
    by_cases moved : q = p
    · subst moved
      simp [(List.nodup_cons.mp cls.chain.nodup).1]
    · rw [Ledger.settle_of_ne _ moved, ← cls.place q]
      simp [moved]

namespace WorldOk

section Pop

variable (ok : WorldOk fam w live ledger) {front back : List Nat}
  {before : Nat}

include ok

/-- The entry in front comes off a class list. -/
theorem popHead (cls : ClassOk fam w ledger value thread idx (p :: back)) :
    WorldOk fam (w.setClass value thread idx
      ⟨w.mem p, decrement (w.classes value thread idx).count⟩) live
      (ledger.settle p .adrift) := by
  obtain ⟨owner, allocation, member, payload, _, _, cached⟩ :=
    cls.owned List.mem_cons_self
  exact ok.reclass ⟨_, allocation, member, payload⟩ (Or.inr cached)
    (Or.inl rfl) rfl rfl ok.tenants back
    (fun _ _ _ distinct => World.setClass_of_ne _ distinct)
    (fun _ _ _ _ _ _ => ⟨rfl, rfl⟩) cls.tail

theorem popAfter
    (cls : ClassOk fam w ledger value thread idx (front ++ before :: p :: back)) :
    WorldOk fam ((w.write before (w.mem p)).setClass value thread idx
      ⟨(w.classes value thread idx).head,
        decrement (w.classes value thread idx).count⟩) live
      (ledger.settle p .adrift) := by
  have nodup := cls.chain.nodup
  obtain ⟨owner, allocation, member, payload, _, _, cached⟩ :=
    cls.owned (p := p) (by simp)
  obtain ⟨_, linking, linkingMember, rfl, _, _, linkingCached⟩ :=
    cls.owned (p := before) (by simp)
  have large := (ok.payload_large linkingMember).1
  have words : ∀ entry owner, entry ∈ ledger.runs owner →
      linking.payload ≠ entry.payload →
        (w.write linking.payload (w.mem p)).mem entry.payload =
            w.mem entry.payload ∧
          (w.write linking.payload (w.mem p)).mem (entry.payload + 8) =
            w.mem (entry.payload + 8) := fun entry owner entryMember distinct =>
    ok.write_words linkingMember le_rfl (by omega) _ entryMember distinct
  refine ok.reclass ⟨_, allocation, member, payload⟩ (Or.inr cached)
    (Or.inl rfl) rfl rfl
    (ok.write_tenants linkingMember le_rfl (by omega) (w.mem p))
    (front ++ linking.payload :: back)
    (fun _ _ _ distinct => World.setClass_of_ne _ distinct) ?_ ?_
  · intro q value' thread' idx' distinct elsewhere
    obtain ⟨entries, other⟩ := ok.classes value' thread' idx'
    obtain ⟨_, entry, entryMember, rfl, _⟩ :=
      other.entry q ((other.place q).mpr elsewhere)
    apply words entry _ entryMember
    intro same
    rw [same, elsewhere] at linkingCached
    cases linkingCached
    exact distinct ⟨rfl, rfl, rfl⟩
  · exact
      { chain := by
          rw [World.setClass_self]
          exact cls.chain.skip
        count := by
          rw [World.setClass_self, cls.count]
          simp only [List.length_append, List.length_cons]
          rw [decrement_eq (by omega)]
          omega
        entry := by
          intro q listed
          obtain ⟨owner, entry, entryMember, rfl, enough, stamp⟩ :=
            cls.entry q (by
              simp only [List.mem_append, List.mem_cons] at listed ⊢
              tauto)
          refine ⟨owner, entry, entryMember, rfl, enough, ?_⟩
          rw [← stamp]
          by_cases same : linking.payload = entry.payload
          · rw [← same]
            exact Function.update_of_ne (by omega) _ _
          · exact (words entry _ entryMember same).2
        place := by
          intro q
          by_cases moved : q = p
          · subst moved
            rw [Ledger.settle_self]
            have absent : q ∉ front ++ linking.payload :: back := by
              simp only [List.nodup_append, List.nodup_cons, List.mem_cons] at nodup
              simp only [List.mem_append, List.mem_cons]
              grind
            simp [absent]
          · rw [Ledger.settle_of_ne _ moved, ← cls.place q]
            simp [moved] }

end Pop

end WorldOk

/-- The outcome of a search for an entry with the owner's stamp. -/
inductive Popped (fam : Family Value Thread Bound) (w : World Value Thread Bound)
    (live : List (Item fam)) (ledger : Ledger Value Thread Bound) (owner : Nat)
    (entries : List Nat) : World Value Thread Bound × Nat → Prop
  | nothing (without : ∀ q ∈ entries, w.mem (q + 8) ≠ owner) :
      Popped fam w live ledger owner entries (w, 0)
  | entry {w' : World Value Thread Bound} {p : Nat} (listed : p ∈ entries)
      (stamp : w.mem (p + 8) = owner) (states : w'.states = w.states)
      (created : w'.created = w.created)
      (ok : WorldOk fam w' live (ledger.settle p .adrift)) :
      Popped fam w live ledger owner entries (w', p)

namespace WorldOk

/-- The walk of `_tls_pop_for_owner`, at the entries behind `front`. -/
theorem tlsPopWalk (ok : WorldOk fam w live ledger) {owner : Nat} {prev : Nat}
    {front rest : List Nat}
    (cls : ClassOk fam w ledger value thread idx (front ++ rest))
    (last : prev = front.getLast?.getD 0) {node fuel : Nat}
    (chain : IsStack w.mem node rest) (enough : rest.length ≤ fuel) :
    Popped fam w live ledger owner rest
      (w.tlsPopWalk value thread idx owner fuel prev node) := by
  induction rest generalizing front prev node fuel with
  | nil =>
      have ended : w.tlsPopWalk value thread idx owner fuel prev node = (w, 0) := by
        cases fuel with
        | zero => rfl
        | succ fuel => exact if_pos chain
      rw [ended]
      exact .nothing (by simp)
  | cons first rest ih =>
      obtain ⟨rfl, nonnull, later⟩ := chain
      obtain ⟨fuel, rfl⟩ : ∃ rounds, fuel = rounds + 1 :=
        ⟨fuel - 1, by rw [List.length_cons] at enough; omega⟩
      unfold World.tlsPopWalk
      rw [if_neg nonnull]
      by_cases stamp : w.mem (node + 8) = owner
      · rw [if_neg (not_not_intro stamp)]
        dsimp only
        induction front using List.reverseRecOn with
        | nil =>
            have first : prev = 0 := last
            rw [if_pos first]
            exact .entry List.mem_cons_self stamp rfl rfl (ok.popHead cls)
        | append_singleton front before =>
            have linked : prev = before := by simpa using last
            subst linked
            rw [List.append_assoc, List.singleton_append] at cls
            rw [if_neg (cls.chain.ne_zero prev (by simp))]
            exact .entry List.mem_cons_self stamp rfl rfl (ok.popAfter cls)
      · rw [if_pos stamp]
        rw [List.append_cons] at cls
        have lastPassed : node = (front ++ [node]).getLast?.getD 0 := by simp
        have found := ih cls lastPassed later
          (Nat.le_of_succ_le_succ enough)
        generalize w.tlsPopWalk value thread idx owner fuel node (w.mem node) =
          result at found ⊢
        cases found with
        | nothing without =>
            refine .nothing fun q listed => ?_
            rcases List.mem_cons.mp listed with rfl | behind
            · exact stamp
            · exact without q behind
        | entry listed stamped states created popped =>
            exact .entry (List.mem_cons_of_mem _ listed) stamped states created
              popped

theorem tlsPopForOwner (ok : WorldOk fam w live ledger) {owner : Nat}
    {entries : List Nat}
    (cls : ClassOk fam w ledger value thread idx entries) :
    Popped fam w live ledger owner entries
      (w.tlsPopForOwner value thread idx owner) :=
  have whole : ClassOk fam w ledger value thread idx ([] ++ entries) := cls
  ok.tlsPopWalk whole rfl cls.chain cls.count.ge

end WorldOk

variable [DecidableEq Bound]

theorem Confined.of_chunks {other : Site Value Thread Bound} {s : Runner.State}
    (same : s.chunks = (w.runs other).chunks) :
    Confined fam site w (w.setRuns other s) where
  created := rfl
  territory := by
    rintro (tenant | tenant) _
    · show Pool.Members.footprint _ _ = Pool.Members.footprint _ _
      rw [World.setRuns_pool]
    · show Runner.Allocator.footprint _ = Runner.Allocator.footprint _
      by_cases own : tenant = other
      · subst own
        rw [World.setRuns_runs_self]
        unfold Runner.Allocator.footprint
        rw [same]
        rfl
      · rw [World.setRuns_runs_of_ne _ own]

theorem returnRun_confined (owner : Nat) :
    Confined fam site w (w.returnRun fam value thread p owner) := by
  unfold World.returnRun
  split
  · exact .of_chunks (Runner.State.chunks_of_outer
      (Runner.deallocateBytes_outer p))
  · exact .of_chunks rfl

namespace WorldOk

variable (ok : WorldOk fam w live ledger)

include ok

theorem giveBack_returned (run : ledger.HasRun site p) :
    Ledger.Returned [p] ledger (ledger.giveBack site p) where
  nodes := rfl
  freed q listed := by
    rw [List.mem_singleton.mp listed]
    exact Function.update_self _ _ _
  kept q absent := Function.update_of_ne (by simpa using absent) _ _
  runs other allocation := by
    rw [List.mem_singleton]
    unfold Ledger.giveBack
    by_cases own : other = site
    · subst own
      rw [Ledger.setRuns_self, List.mem_filter]
      simp
    · rw [Ledger.setRuns_of_ne _ _ own]
      refine ⟨fun member => ⟨member, ?_⟩, And.left⟩
      rintro rfl
      exact own (ok.run_unique ⟨allocation, member, rfl⟩ run)

section Return

variable (run : ledger.HasRun (.thread value owner) p)
  (adrift : ledger.place p = some .adrift)

include run adrift

/-- A run that is with nobody goes back to its owner. -/
theorem returnRun :
    WorldOk fam
      (w.returnRun fam value thread p (fam.runsAt (.thread value owner))) live
      (ledger.giveBack (.thread value owner) p) := by
  unfold World.returnRun
  rw [fam.runsOf_runsAt]
  split
  · exact ok.deallocateBytes run adrift
  · exact ok.remotePush run adrift

theorem returnRun_class {value' : Value} {thread' : Thread} {entries : List Nat}
    (cls : ClassOk fam w ledger value' thread' idx entries) :
    ClassOk fam
      (w.returnRun fam value thread p (fam.runsAt (.thread value owner)))
      (ledger.giveBack (.thread value owner) p) value' thread' idx entries := by
  unfold World.returnRun
  rw [fam.runsOf_runsAt]
  split
  · exact ok.deallocateBytes_class run adrift cls
  · exact ok.remotePush_class run adrift cls

end Return

end WorldOk

end Suballocated

end Allocazam
