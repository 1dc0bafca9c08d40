import Allocazam.IntrusiveList
import Mathlib.Logic.Relation

/-!
# Publication on a shared list

Publishers push nodes onto one list that nobody takes nodes off: a publisher with
a new node loads the head, links the node to it and exchanges the head for the node
if it is still the one loaded.  An exchange may also fail for no reason, and the
node is then linked anew.  Readers walk the list in the meantime.
-/

namespace Allocazam

namespace Publication

/-- What a publisher does next with the node it has. -/
inductive Phase where
  | idle
  | loading (node : Nat)
  | linking (node expected : Nat)
  | exchanging (node expected : Nat)
  | published (node : Nat)
  deriving DecidableEq, Repr

def Phase.Holds : Phase → Nat → Prop
  | .idle, _ => False
  | .loading own, node => own = node
  | .linking own _, node => own = node
  | .exchanging own _, node => own = node
  | .published own, node => own = node

instance (phase : Phase) (node : Nat) : Decidable (phase.Holds node) :=
  match phase with
  | .idle => inferInstanceAs (Decidable False)
  | .loading own => inferInstanceAs (Decidable (own = node))
  | .linking own _ => inferInstanceAs (Decidable (own = node))
  | .exchanging own _ => inferInstanceAs (Decidable (own = node))
  | .published own => inferInstanceAs (Decidable (own = node))

theorem Phase.Holds.unique {phase : Phase} {one two : Nat} (first : phase.Holds one)
    (second : phase.Holds two) : one = two := by
  cases phase with
  | idle => cases first
  | _ => exact Eq.trans (Eq.symm first) second

/-- A walk: the nodes visited, the node it has come to, and what was published
when it began. -/
structure Walk where
  seen : List Nat
  here : Nat
  begun : List Nat
  deriving DecidableEq, Repr

/-- The list, its publishers and its readers.  The nodes whose publication is
complete are recorded, the last one first; no step depends on the record. -/
structure Board (Publisher Reader : Type) where
  head : Nat
  next : Nat → Nat
  phase : Publisher → Phase
  walks : Reader → Option Walk
  completed : List Nat

variable {Publisher Reader : Type}

def Board.empty : Board Publisher Reader :=
  ⟨0, fun _ => 0, fun _ => .idle, fun _ => none, []⟩

variable [DecidableEq Publisher] [DecidableEq Reader]

namespace Board

variable (board : Board Publisher Reader) (publisher : Publisher)

def setPhase (phase : Phase) : Board Publisher Reader :=
  { board with phase := Function.update board.phase publisher phase }

def create (node : Nat) : Board Publisher Reader :=
  { board.setPhase publisher (.loading node) with
    next := Function.update board.next node 0 }

def load (node : Nat) : Board Publisher Reader :=
  board.setPhase publisher (.linking node board.head)

def link (node expected : Nat) : Board Publisher Reader :=
  { board.setPhase publisher (.exchanging node expected) with
    next := Function.update board.next node expected }

def exchange (node : Nat) : Board Publisher Reader :=
  { board.setPhase publisher (.published node) with
    head := node
    completed := node :: board.completed }

def finish : Board Publisher Reader :=
  board.setPhase publisher .idle

variable (reader : Reader)

def setWalk (walk : Walk) : Board Publisher Reader :=
  { board with walks := Function.update board.walks reader (some walk) }

def beginWalk : Board Publisher Reader :=
  board.setWalk reader ⟨[], board.head, board.completed⟩

def advance (walk : Walk) : Board Publisher Reader :=
  board.setWalk reader
    ⟨walk.seen ++ [walk.here], board.next walk.here, walk.begun⟩

variable {board publisher} {other : Publisher} {phase now : Phase} {node : Nat}

omit [DecidableEq Reader] in
@[simp]
theorem setPhase_self : (board.setPhase publisher phase).phase publisher = phase :=
  Function.update_self _ _ _

omit [DecidableEq Reader] in
theorem setPhase_of_ne (apart : other ≠ publisher) :
    (board.setPhase publisher phase).phase other = board.phase other :=
  Function.update_of_ne apart _ _

omit [DecidableEq Reader] in
theorem setPhase_cases
    (same : (board.setPhase publisher phase).phase other = now) :
    other = publisher ∧ phase = now ∨
      other ≠ publisher ∧ board.phase other = now := by
  by_cases moved : other = publisher
  · subst moved
    exact Or.inl ⟨rfl, setPhase_self.symm.trans same⟩
  · exact Or.inr ⟨moved, (setPhase_of_ne moved).symm.trans same⟩

omit [DecidableEq Reader] in
theorem setPhase_holds
    (holds : ((board.setPhase publisher phase).phase other).Holds node) :
    other = publisher ∧ phase.Holds node ∨
      other ≠ publisher ∧ (board.phase other).Holds node := by
  by_cases moved : other = publisher
  · subst moved
    refine Or.inl ⟨rfl, ?_⟩
    rwa [setPhase_self] at holds
  · refine Or.inr ⟨moved, ?_⟩
    rwa [setPhase_of_ne moved] at holds

end Board

/-- An atomic step of a push or of a walk.  When a publisher creates a node and
when it is done with it is not decided here. -/
inductive Step : Board Publisher Reader → Board Publisher Reader → Prop
  | load {board : Board Publisher Reader} (publisher : Publisher) {node : Nat}
      (loading : board.phase publisher = .loading node) :
      Step board (board.load publisher node)
  | link {board : Board Publisher Reader} (publisher : Publisher)
      {node expected : Nat}
      (linking : board.phase publisher = .linking node expected) :
      Step board (board.link publisher node expected)
  | exchange {board : Board Publisher Reader} (publisher : Publisher) {node : Nat}
      (exchanging : board.phase publisher = .exchanging node board.head) :
      Step board (board.exchange publisher node)
  /-- The exchange fails, whether or not the head has changed, and loads it. -/
  | retry {board : Board Publisher Reader} (publisher : Publisher)
      {node expected : Nat}
      (exchanging : board.phase publisher = .exchanging node expected) :
      Step board (board.load publisher node)
  | beginWalk {board : Board Publisher Reader} (reader : Reader) :
      Step board (board.beginWalk reader)
  | advance {board : Board Publisher Reader} (reader : Reader) {walk : Walk}
      (walking : board.walks reader = some walk) (more : walk.here ≠ 0) :
      Step board (board.advance reader walk)

/-- A walk has the rest of what was published when it began in front of it. -/
def WalkOk (board : Board Publisher Reader) (walk : Walk) : Prop :=
  ∃ ahead, IsStack board.next walk.here ahead ∧
    walk.seen ++ ahead = walk.begun ∧ walk.begun <:+ board.completed

/-- The list consists of the nodes whose publication is complete, no two
publishers have one node, and a publisher about to exchange the head has linked
its node. -/
structure Ok (board : Board Publisher Reader) : Prop where
  chain : IsStack board.next board.head board.completed
  listed : ∀ publisher node, board.phase publisher = .published node →
    node ∈ board.completed
  unlisted : ∀ publisher node, (board.phase publisher).Holds node →
    board.phase publisher ≠ .published node → node ∉ board.completed
  own : ∀ one two node, (board.phase one).Holds node →
    (board.phase two).Holds node → one = two
  nonnull : ∀ publisher node, (board.phase publisher).Holds node → node ≠ 0
  linked : ∀ publisher node expected,
    board.phase publisher = .exchanging node expected →
      board.next node = expected
  walks : ∀ reader walk, board.walks reader = some walk → WalkOk board walk

omit [DecidableEq Publisher] [DecidableEq Reader] in
theorem empty_ok : Ok (Board.empty : Board Publisher Reader) where
  chain := rfl
  listed _ _ published := by cases published
  unlisted _ _ holds := by cases holds
  own _ _ _ holds _ := by cases holds
  nonnull _ _ holds := by cases holds
  linked _ _ _ exchanging := by cases exchanging
  walks _ _ walking := by cases walking

variable {board board' : Board Publisher Reader} {publisher : Publisher}
  {reader : Reader} {node expected : Nat}

omit [DecidableEq Publisher] [DecidableEq Reader] in
/-- A change of links off the list disturbs no walk. -/
theorem WalkOk.congr {next : Nat → Nat} {walk : Walk} (walkOk : WalkOk board walk)
    (agrees : ∀ node ∈ board.completed, next node = board.next node) :
    ∃ ahead, IsStack next walk.here ahead ∧ walk.seen ++ ahead = walk.begun ∧
      walk.begun <:+ board.completed := by
  obtain ⟨ahead, chain, split, suffix⟩ := walkOk
  refine ⟨ahead, chain.congr fun node member => agrees node ?_, split, suffix⟩
  apply suffix.subset
  rw [← split]
  exact List.mem_append_right _ member

namespace Ok

variable (ok : Ok board)

include ok

omit [DecidableEq Reader] in
/-- A publisher goes on with a node that is its own and not on the list, links of
other nodes unchanged. -/
theorem advancePhase {next : Nat → Nat} {phase : Phase} (nonnull : node ≠ 0)
    (only : ∀ other, (board.phase other).Holds node → other = publisher)
    (outside : node ∉ board.completed)
    (same : ∀ other, phase.Holds other → other = node)
    (still : ∀ other, phase ≠ .published other)
    (linked : ∀ expected, phase = .exchanging node expected →
      next node = expected)
    (agrees : ∀ other ≠ node, next other = board.next other) :
    Ok { board.setPhase publisher phase with next } := by
  have unchanged : ∀ other ∈ board.completed, next other = board.next other := by
    intro other member
    apply agrees
    rintro rfl
    exact outside member
  have holder : ∀ other held,
      ((board.setPhase publisher phase).phase other).Holds held →
        other = publisher ∧ held = node ∨
          other ≠ publisher ∧ (board.phase other).Holds held := by
    intro other held holdsNow
    rcases Board.setPhase_holds holdsNow with ⟨moved, now⟩ | kept
    · exact Or.inl ⟨moved, same held now⟩
    · exact Or.inr kept
  exact
    { chain := ok.chain.congr unchanged
      listed := by
        intro other held published
        rcases Board.setPhase_cases published with ⟨rfl, now⟩ | ⟨_, before⟩
        · exact absurd now (still held)
        · exact ok.listed other held before
      unlisted := by
        intro other held holdsNow undone
        rcases holder other held holdsNow with ⟨_, rfl⟩ | ⟨moved, before⟩
        · exact outside
        · apply ok.unlisted other held before
          intro published
          exact undone ((Board.setPhase_of_ne moved).trans published)
      own := by
        intro one two held first second
        rcases holder one held first with ⟨rfl, rfl⟩ | ⟨_, firstHolds⟩ <;>
          rcases holder two held second with ⟨rfl, equal⟩ | ⟨_, secondHolds⟩
        · rfl
        · exact (only two secondHolds).symm
        · rw [equal] at firstHolds
          exact only one firstHolds
        · exact ok.own one two held firstHolds secondHolds
      nonnull := by
        intro other held holdsNow
        rcases holder other held holdsNow with ⟨_, rfl⟩ | ⟨_, before⟩
        · exact nonnull
        · exact ok.nonnull other held before
      linked := by
        intro other held expected exchanging
        rcases Board.setPhase_cases exchanging with ⟨rfl, now⟩ | ⟨moved, before⟩
        · have equal := same held (by rw [now]; rfl)
          subst equal
          exact linked expected now
        · have apart : held ≠ node := by
            rintro rfl
            exact moved (only other (by rw [before]; rfl))
          exact (agrees held apart).trans (ok.linked other held expected before)
      walks := fun reader walk walking =>
        (ok.walks reader walk walking).congr unchanged }

omit [DecidableEq Reader] in
theorem create (nonnull : node ≠ 0)
    (fresh : ∀ other, ¬ (board.phase other).Holds node)
    (outside : node ∉ board.completed) : Ok (board.create publisher node) := by
  refine ok.advancePhase nonnull (fun other holds => absurd holds (fresh other))
    outside (fun _ => Eq.symm) (by simp) (by simp) fun other apart => ?_
  exact Function.update_of_ne apart _ _

omit [DecidableEq Reader] in
theorem load (holds : (board.phase publisher).Holds node)
    (pending : board.phase publisher ≠ .published node) :
    Ok (board.load publisher node) := by
  show Ok { board.setPhase publisher (.linking node board.head) with
    next := board.next }
  exact ok.advancePhase (ok.nonnull _ _ holds)
    (fun other also => ok.own other publisher node also holds)
    (ok.unlisted _ _ holds pending) (fun _ => Eq.symm) (by simp) (by simp)
    fun _ _ => rfl

omit [DecidableEq Reader] in
theorem link (linking : board.phase publisher = .linking node expected) :
    Ok (board.link publisher node expected) := by
  have holds : (board.phase publisher).Holds node := by
    rw [linking]
    rfl
  refine ok.advancePhase (ok.nonnull _ _ holds)
    (fun other also => ok.own other publisher node also holds)
    (ok.unlisted _ _ holds (by rw [linking]; simp)) (fun _ => Eq.symm) (by simp)
    ?_ fun other apart => Function.update_of_ne apart _ _
  intro expected' same
  cases same
  exact Function.update_self _ _ _

omit [DecidableEq Reader] in
/-- The exchange puts the node in front of the list. -/
theorem exchange
    (exchanging : board.phase publisher = .exchanging node board.head) :
    Ok (board.exchange publisher node) := by
  have holds : (board.phase publisher).Holds node := by
    rw [exchanging]
    rfl
  have grown : ∀ walk, WalkOk board walk →
      WalkOk (board.exchange publisher node) walk := by
    rintro walk ⟨ahead, chain, split, suffix⟩
    exact ⟨ahead, chain, split, suffix.trans (List.suffix_cons _ _)⟩
  have holder : ∀ other held,
      ((board.exchange publisher node).phase other).Holds held →
        (board.phase other).Holds held := by
    intro other held holdsNow
    rcases Board.setPhase_holds holdsNow with ⟨rfl, same⟩ | ⟨_, before⟩
    · cases same
      exact holds
    · exact before
  exact
    { chain := by
        refine ⟨rfl, ok.nonnull publisher node holds, ?_⟩
        show IsStack board.next (board.next node) board.completed
        rw [ok.linked publisher node _ exchanging]
        exact ok.chain
      listed := by
        intro other held published
        rcases Board.setPhase_cases published with ⟨_, now⟩ | ⟨_, before⟩
        · cases now
          exact List.mem_cons_self
        · exact List.mem_cons_of_mem _ (ok.listed other held before)
      unlisted := by
        intro other held holdsNow undone member
        rcases Board.setPhase_holds holdsNow with ⟨rfl, same⟩ | ⟨moved, before⟩
        · cases same
          exact undone Board.setPhase_self
        rcases List.mem_cons.mp member with rfl | older
        · exact moved (ok.own other publisher held before holds)
        · apply ok.unlisted other held before _ older
          intro published
          exact undone ((Board.setPhase_of_ne moved).trans published)
      own := fun one two held first second =>
        ok.own one two held (holder one held first) (holder two held second)
      nonnull := fun other held holdsNow =>
        ok.nonnull other held (holder other held holdsNow)
      linked := by
        intro other held expected exchangingNow
        rcases Board.setPhase_cases exchangingNow with ⟨_, now⟩ | ⟨_, before⟩
        · cases now
        · exact ok.linked other held expected before
      walks := fun reader walk walking => grown walk (ok.walks reader walk walking) }

omit [DecidableEq Reader] in
theorem finish : Ok (board.finish publisher) := by
  have holder : ∀ other held, ((board.finish publisher).phase other).Holds held →
      other ≠ publisher ∧ (board.phase other).Holds held := by
    intro other held holdsNow
    rcases Board.setPhase_holds holdsNow with ⟨_, ⟨⟩⟩ | kept
    exact kept
  exact
    { chain := ok.chain
      listed := by
        intro other held published
        rcases Board.setPhase_cases published with ⟨_, ⟨⟩⟩ | ⟨_, before⟩
        exact ok.listed other held before
      unlisted := by
        intro other held holdsNow undone
        obtain ⟨moved, before⟩ := holder other held holdsNow
        apply ok.unlisted other held before
        intro published
        exact undone ((Board.setPhase_of_ne moved).trans published)
      own := fun one two held first second =>
        ok.own one two held (holder one held first).2 (holder two held second).2
      nonnull := fun other held holdsNow =>
        ok.nonnull other held (holder other held holdsNow).2
      linked := by
        intro other held expected exchanging
        rcases Board.setPhase_cases exchanging with ⟨_, ⟨⟩⟩ | ⟨_, before⟩
        exact ok.linked other held expected before
      walks := ok.walks }

omit [DecidableEq Publisher] in
theorem setWalk {walk : Walk} (walkOk : WalkOk board walk) :
    Ok (board.setWalk reader walk) :=
  { chain := ok.chain
    listed := ok.listed
    unlisted := ok.unlisted
    own := ok.own
    nonnull := ok.nonnull
    linked := ok.linked
    walks := by
      intro other walk' walking
      have now : Function.update board.walks reader (some walk) other =
        some walk' := walking
      by_cases moved : other = reader
      · subst moved
        rw [Function.update_self] at now
        cases now
        exact walkOk
      · rw [Function.update_of_ne moved] at now
        exact ok.walks other walk' now }

omit [DecidableEq Publisher] in
theorem advance {walk : Walk} (walking : board.walks reader = some walk)
    (more : walk.here ≠ 0) : Ok (board.advance reader walk) := by
  obtain ⟨ahead, chain, split, suffix⟩ := ok.walks reader walk walking
  apply ok.setWalk
  cases ahead with
  | nil => exact absurd chain more
  | cons first rest =>
      obtain ⟨rfl, _, later⟩ := chain
      refine ⟨rest, later, ?_, suffix⟩
      rw [← split, List.append_assoc]
      rfl

theorem step (moves : Step board board') : Ok board' := by
  cases moves with
  | load publisher loading =>
      apply ok.load
      · rw [loading]
        rfl
      · rw [loading]
        simp
  | link publisher linking => exact ok.link linking
  | exchange publisher exchanging => exact ok.exchange exchanging
  | retry publisher exchanging =>
      apply ok.load
      · rw [exchanging]
        rfl
      · rw [exchanging]
        simp
  | beginWalk reader =>
      exact ok.setWalk ⟨board.completed, ok.chain, rfl, List.suffix_rfl⟩
  | advance reader walking more => exact ok.advance walking more

end Ok

/-- The list only grows, and only at its head. -/
theorem Step.completed_suffix (moves : Step board board') :
    board.completed <:+ board'.completed := by
  cases moves with
  | exchange publisher exchanging => exact List.suffix_cons _ _
  | _ => exact List.suffix_rfl

/-- What is new on the list has just been published. -/
theorem Step.listed (moves : Step board board') (member : node ∈ board'.completed) :
    node ∈ board.completed ∨ ∃ other, board'.phase other = .published node := by
  cases moves with
  | exchange publisher exchanging =>
      rcases List.mem_cons.mp member with rfl | older
      · exact Or.inr ⟨publisher, Board.setPhase_self⟩
      · exact Or.inl older
  | _ => exact Or.inl member

theorem Step.published (moves : Step board board')
    (done : board.phase publisher = .published node) :
    board'.phase publisher = .published node := by
  have kept : ∀ other phase, board.phase other ≠ .published node →
      (board.setPhase other phase).phase publisher = .published node := by
    intro other phase pending
    have apart : publisher ≠ other := by
      rintro rfl
      exact pending done
    exact (Board.setPhase_of_ne apart).trans done
  cases moves with
  | load other loading => exact kept other _ (by rw [loading]; simp)
  | link other linking => exact kept other _ (by rw [linking]; simp)
  | exchange other exchanging => exact kept other _ (by rw [exchanging]; simp)
  | retry other exchanging => exact kept other _ (by rw [exchanging]; simp)
  | beginWalk reader => exact done
  | advance reader walking more => exact done

/-- A publisher goes on with the node it has. -/
theorem Step.holds_iff (moves : Step board board') :
    (board'.phase publisher).Holds node ↔ (board.phase publisher).Holds node := by
  have kept : ∀ other phase, (phase.Holds node ↔ (board.phase other).Holds node) →
      (((board.setPhase other phase).phase publisher).Holds node ↔
        (board.phase publisher).Holds node) := by
    intro other phase same
    by_cases moved : publisher = other
    · subst moved
      rw [Board.setPhase_self]
      exact same
    · rw [Board.setPhase_of_ne moved]
  cases moves with
  | load other loading => exact kept other _ (by rw [loading]; rfl)
  | link other linking => exact kept other _ (by rw [linking]; rfl)
  | exchange other exchanging => exact kept other _ (by rw [exchanging]; rfl)
  | retry other exchanging => exact kept other _ (by rw [exchanging]; rfl)
  | beginWalk reader => exact Iff.rfl
  | advance reader walking more => exact Iff.rfl

end Publication

end Allocazam
