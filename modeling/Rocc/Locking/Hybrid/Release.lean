import Rocc.Locking.Hybrid.Steps
import Rocc.Locking.Safety

/-!
# Releases match the locks that were taken

Under the condition on steps every clearing of a lock word, by a post or on the spot, is for a
word of the transaction, each lock is given back once, and a transaction that has started to
release can always go on to its end, where it holds nothing.  Without the condition it can halt
on a placeholder of table 7, or send a word of a write lock for a record it has locked for
reading.
-/

set_option linter.unusedSectionVars false

namespace Rocc.Locking.Hybrid

open Rtx OneSided

universe u v

variable {Key : Type u} {Tid : Type v} [DecidableEq Key] [DecidableEq Tid]
variable {config : Config Key Tid} {state : State Key Tid} {tid : Tid}
variable {item : ReadSetItem Key} {type : LockType}

/-! ## Transactions that release reach their end -/

/-- The transaction releases or writes back. -/
def Stage.Releasing : Stage Key → Prop
  | .walk _ _ => True
  | .wait _ => True
  | _ => False

/-- The transaction takes no more steps. -/
def Stage.Over : Stage Key → Prop
  | .finished _ => True
  | .halted => True
  | _ => False

/-- The transaction has returned. -/
def Txn.Returned (txn : Txn Key) : Prop := ∃ committed, txn.stage = .finished committed

/-- Loops that follow a phase. -/
def Phase.left : Phase Key → Nat
  | .releaseReads _ => 1
  | .releaseWrites => 0
  | .writeBack _ => 1
  | .releaseCommitted => 0

/-- A bound on the steps to the end of a transaction that releases. -/
def Txn.rank (txn : Txn Key) : Nat :=
  match txn.stage with
  | .walk phase todo =>
      3 * (todo.length + phase.rest.length) + txn.posts.length + 2 * phase.left + 1
  | .wait phase => 3 * phase.rest.length + txn.posts.length + 2 * phase.left
  | _ => 0

/-- The step is one of the transaction, and one the condition allows. -/
def OwnStep (config : Config Key Tid) (tid : Tid) (state : State Key Tid)
    (action : Action Key Tid) : Prop :=
  Cond config state action ∧ action.tid = tid

/-- A step of the transaction ends it or brings it nearer to its end. -/
def Advances (config : Config Key Tid) (state : State Key Tid) (tid : Tid) : Prop :=
  ∃ action after, OwnStep config tid state action ∧ step config state action = some after ∧
    ((after.txns tid).Returned ∨ (after.txns tid).stage.Releasing ∧
      (after.txns tid).rank < (state.txns tid).rank)

/-- A loop handles its next item or is through. -/
theorem Inv.advances_walk (inv : Inv config state) {phase : Phase Key}
    {todo : List (ReadSetItem Key)} (stage : (state.txns tid).stage = .walk phase todo) :
    Advances config state tid := by
  cases todo with
  | nil =>
      have stepped : step config state (.walkEnd tid) =
          some (state.setStage tid (.wait phase)) := by
        simp only [step, walkEnd, stage]
      refine ⟨.walkEnd tid, _, ⟨trivial, rfl⟩, stepped, .inr ?_⟩
      simp only [State.setStage, State.setTxn, Function.update_self]
      refine ⟨trivial, ?_⟩
      simp only [Txn.rank, stage, List.length_nil]
      omega
  | cons item todo =>
      have ok := (inv.txns tid).stage
      simp only [StageOk, stage] at ok
      obtain ⟨-, held, granted, hands⟩ := ok.hands
      have member : item ∈ (state.txns tid).holding ++ clearing (state.txns tid).posts := by
        simp [Txn.holding, stage]
      have handed := hands _ (inv.lock_eq granted member).1
      generalize effectEq : phase.body config tid (state.records item.place) item = effect
        at handed
      cases handed with
      | post posts clears few ok =>
          have stepped : step config state (.walkItem tid) = some (state.setTxn tid
              { state.txns tid with
                stage := .walk phase todo
                posts := (state.txns tid).posts ++ posts }) := by
            simp only [step, walkItem, stage, effectEq, Effect.apply]
          refine ⟨.walkItem tid, _, ⟨trivial, rfl⟩, stepped, .inr ?_⟩
          simp only [State.setTxn, Function.update_self]
          refine ⟨trivial, ?_⟩
          simp only [Txn.rank, stage, List.length_cons, List.length_append]
          omega
      | store record freed =>
          have stepped : step config state (.walkItem tid) =
              some ((state.setRecord tid item.place record).setStage tid
                (.walk phase todo)) := by
            simp only [step, walkItem, stage, effectEq, Effect.apply]
          refine ⟨.walkItem tid, _, ⟨trivial, rfl⟩, stepped, .inr ?_⟩
          simp only [State.setStage, State.setTxn, State.setRecord, Function.update_self]
          refine ⟨trivial, ?_⟩
          simp only [Txn.rank, stage, List.length_cons]
          omega

/-- When all posts are done the transaction goes on to its second loop or returns. -/
theorem advances_resume {phase : Phase Key} (stage : (state.txns tid).stage = .wait phase)
    (posts : (state.txns tid).posts = []) : Advances config state tid := by
  have resumed : ∃ next, step config state (.resume tid) =
      some (state.setStage tid next) ∧ ((∃ committed, next = .finished committed) ∨
        ∃ todo phase', next = .walk phase' todo ∧ phase.left = 1 ∧ phase'.left = 0 ∧
          phase'.rest = [] ∧ todo = phase.rest) := by
    cases phase with
    | releaseReads writes =>
        exact ⟨.walk .releaseWrites writes, by simp only [step, resume, stage, posts],
          .inr ⟨writes, _, rfl, rfl, rfl, rfl, rfl⟩⟩
    | releaseWrites =>
        exact ⟨.finished false, by simp only [step, resume, stage, posts], .inl ⟨_, rfl⟩⟩
    | writeBack reads =>
        exact ⟨.walk .releaseCommitted reads, by simp only [step, resume, stage, posts],
          .inr ⟨reads, _, rfl, rfl, rfl, rfl, rfl⟩⟩
    | releaseCommitted =>
        exact ⟨.finished true, by simp only [step, resume, stage, posts], .inl ⟨_, rfl⟩⟩
  obtain ⟨next, stepped, outcome⟩ := resumed
  refine ⟨.resume tid, _, ⟨trivial, rfl⟩, stepped, ?_⟩
  simp only [State.setStage, State.setTxn, Function.update_self]
  rcases outcome with returned | ⟨todo, following, rfl, left, last, nothing, rest⟩
  · exact .inl returned
  · refine .inr ⟨trivial, ?_⟩
    simp only [Txn.rank, stage, posts, left, last, nothing, rest, List.length_nil]
    omega

/-- A post that is out can be done. -/
theorem Inv.advances_deliver (inv : Inv config state) {phase : Phase Key} {post : Post Key}
    {rest : List (Post Key)} (stage : (state.txns tid).stage = .wait phase)
    (posts : (state.txns tid).posts = post :: rest) : Advances config state tid := by
  have member : post ∈ (state.txns tid).posts := by simp [posts]
  have postOk := (inv.txns tid).posts post member
  obtain ⟨held, granted, -⟩ := id postOk
  obtain ⟨stored, storedEq, -⟩ := postOk.store granted fun clears =>
    (inv.lock_eq granted (List.mem_append_right (state.txns tid).holding
      (mem_clearing member clears))).1
  have stepped : step config state (.deliver tid post.item.pid) =
      some ((state.setRecord tid post.item.place stored).setTxn tid
        { state.txns tid with posts := rest }) := by
    simp only [step, deliver, posts, nextFor, beq_self_eq_true, if_true, Option.bind_some,
      stage, Stage.isWait, Bool.or_true, storedEq]
  refine ⟨.deliver tid post.item.pid, _, ⟨trivial, rfl⟩, stepped, .inr ?_⟩
  simp only [State.setTxn, State.setRecord, Function.update_self, stage]
  refine ⟨trivial, ?_⟩
  simp only [Txn.rank, stage, posts, List.length_cons]
  omega

/-- The next step of a transaction that releases. -/
theorem Inv.progress (inv : Inv config state) (releasing : (state.txns tid).stage.Releasing) :
    Advances config state tid := by
  cases stage : (state.txns tid).stage with
  | walk phase todo => exact inv.advances_walk stage
  | wait phase =>
      cases posts : (state.txns tid).posts with
      | nil => exact advances_resume stage posts
      | cons post rest => exact inv.advances_deliver stage posts
  | idle | execute | request | lockRead | refused | finished | halted =>
      simp [stage, Stage.Releasing] at releasing

/-- A transaction that releases can go on to its end, whatever the others do. -/
theorem Inv.completes (inv : Inv config state)
    (releasing : (state.txns tid).stage.Releasing) :
    ∃ after, Reach (step config) (OwnStep config tid) state after ∧
      (after.txns tid).Returned := by
  refine Reach.exists_of_rank
    (fun state => Inv config state ∧
      ((state.txns tid).Returned ∨ (state.txns tid).stage.Releasing))
    (fun state => (state.txns tid).Returned) (fun state => (state.txns tid).rank) ?_
    ⟨inv, .inr releasing⟩
  rintro before ⟨stillInv, returned | stillReleasing⟩ notReturned
  · exact absurd returned notReturned
  · obtain ⟨action, after, own, stepped, outcome⟩ := stillInv.progress stillReleasing
    refine ⟨action, after, own, stepped, ⟨inv_step stillInv own.1 stepped, ?_⟩, ?_⟩
    · exact outcome.imp id And.left
    · exact outcome.imp id And.right

/-! ## What the invariant says -/

/-- A transaction that takes no more steps holds nothing. -/
theorem Inv.owns_nothing (inv : Inv config state) (ended : (state.txns tid).stage.Over)
    (place : Nat × Key) (word : Nat) : ¬ Owns state.events tid place word := by
  have nothing : config.claims tid (state.txns tid) = [] := by
    have ok := (inv.txns tid).stage
    cases stage : (state.txns tid).stage <;> simp only [stage, Stage.Over] at ended
    · simp only [StageOk, stage] at ok
      simp [Config.claims, Txn.holding, stage, ok, clearing]
    · simp [StageOk, stage] at ok
  intro owned
  have claimed := (inv.books.owns tid place word).mpr owned
  rw [show (state.books config).claims tid = [] from nothing] at claimed
  cases claimed

/-- A post that clears a lock word is for a lock of its sender. -/
theorem Inv.sent (inv : Inv config state) {post : Post Key}
    (member : post ∈ (state.txns tid).posts) (clears : post.kind.clears = true) :
    ∃ held, post.item.granted = some held ∧
      (state.records post.item.place).lock = config.word tid held ∧
        Owns state.events tid post.item.place (config.word tid held) := by
  obtain ⟨held, granted, -⟩ := (inv.txns tid).posts post member
  exact ⟨held, granted, inv.lock_eq granted
    (List.mem_append_right (state.txns tid).holding (mem_clearing member clears))⟩

/-! ## One-sided and mixed builds -/

/-- Releases and commits clear the lock words a transaction has set, each once and no other,
and leave none behind. -/
structure ReleasesMatch (config : Config Key Tid) (state : State Key Tid) : Prop where
  sent : ∀ tid, ∀ post ∈ (state.txns tid).posts, post.kind.clears = true → ∃ type,
    (state.records post.item.place).lock = config.word tid type ∧
      Owns state.events tid post.item.place (config.word tid type)
  acquired : ∀ tid place word, .released tid place word ∈ state.events →
    .acquired tid place word ∈ state.events
  once : state.events.Nodup
  ended : ∀ tid, (state.txns tid).stage.Over → ∀ place word, ¬ Owns state.events tid place word
  completes : ∀ tid, (state.txns tid).stage.Releasing → ∃ after,
    Reach (step config) (OwnStep config tid) state after ∧ (after.txns tid).Returned

/-- In every run of every build under the condition the releases match the locks. -/
theorem releases_match (config : Config Key Tid) (value : Nat × Key → Bytes)
    (seq : Nat × Key → Nat) (replyBuf : Tid → Bytes) (state : State Key Tid)
    (reach : Reach (step config) (Cond config) (State.initial value seq replyBuf) state) :
    ReleasesMatch config state := by
  have inv := inv_of_reach reach
  constructor
  · intro tid post member clears
    obtain ⟨held, -, owned⟩ := inv.sent member clears
    exact ⟨held, owned⟩
  · exact inv.books.paid
  · exact inv.books.events_nodup
  · exact fun tid ended => inv.owns_nothing ended
  · exact fun tid releasing => inv.completes releasing

/-- Two workers whose `node_id_` is -1, and one-byte records; a key is the number of its
table. -/
def pairConfig (protocol : Protocol) (build : Build) : Config Nat Bool where
  protocol
  build
  nodeId _ := none
  tableid key := key
  len _ := 1
  startTime := (Locking.pairConfig protocol).startTime
  lease_ne_zero := (Locking.pairConfig protocol).lease_ne_zero
  lease_injective := (Locking.pairConfig protocol).lease_injective

/-- RPC locks with one-sided releases and commits. -/
def verbBuild : Build where
  lock := false
  release := true
  commit := true
  votes := false

/-- The younger transaction is refused a record and releases; the older one has moved the
record it read into its write set and commits. -/
def mixedRun : List (Action Nat Bool) :=
  [.begin false, .begin true, .read false 1 1 333 [0], .lockItem false, .addToWrite false 0,
    .write true 2 2 9 [0], .lockItem true, .read true 1 1 333 [0], .lockItem true, .abort true,
    .walkEnd true, .resume true, .walkItem true, .modify false 0 [5], .commit false true,
    .walkItem false, .deliver false 1, .deliver true 2, .walkEnd true, .resume true,
    .deliver false 1, .walkEnd false, .resume false, .walkEnd false, .resume false]

theorem releases_match_mixed :
    ∃ state : State Nat Bool, ReleasesMatch (pairConfig .nowait verbBuild) state ∧
      ((state.txns false).stage = .finished true ∧ (state.txns true).stage = .finished false ∧
        (state.records (1, 1)).value = [5] ∧ state.events.length = 4) := by
  have reached : ∃ state : State Nat Bool,
      Reach (step (pairConfig .nowait verbBuild)) (Cond (pairConfig .nowait verbBuild))
        (State.initial (fun _ => [7]) (fun _ => 0) fun _ => [0, 0]) state ∧
      ((state.txns false).stage = .finished true ∧ (state.txns true).stage = .finished false ∧
        (state.records (1, 1)).value = [5] ∧ state.events.length = 4) :=
    Reach.exists_of_exec mixedRun (by decide +kernel)
  obtain ⟨state, reach, finished⟩ := reached
  exact ⟨state, releases_match _ _ _ _ state reach, finished⟩

/-- A transaction reads table 7 and locks a record; refused another one, it looks for the
marker of the placeholder behind a null pointer. -/
def placeholderRun : List (Action Nat Bool) :=
  [.begin true, .write true 1 2 0 [0], .lockItem true, .begin false, .read false 1 7 0 [0],
    .write false 1 1 0 [0], .lockItem false, .write false 1 2 0 [0], .lockItem false,
    .abort false, .walkItem false]

theorem not_releases_match :
    ¬ ∀ state, Reachable (step (pairConfig .nowait verbBuild))
      (State.initial (fun _ => [7]) (fun _ => 0) fun _ => [0, 0]) state →
        ReleasesMatch (pairConfig .nowait verbBuild) state := by
  intro always
  have reached : ∃ state : State Nat Bool,
      Reachable (step (pairConfig .nowait verbBuild))
        (State.initial (fun _ => [7]) (fun _ => 0) fun _ => [0, 0]) state ∧
      ((state.txns false).stage = .halted ∧
        Owns state.events false (1, 1) ((pairConfig .nowait verbBuild).word false .write)) :=
    Reach.exists_of_exec placeholderRun (by decide +kernel)
  obtain ⟨state, reach, halted, owned⟩ := reached
  refine (always state reach).ended false ?_ _ _ owned
  rw [halted]
  trivial

/-! ## The owner assertions -/

/-- The type of the locks the loop of a phase releases. -/
def Phase.releases : Phase Key → Option LockType
  | .releaseReads _ => some .read
  | .releaseWrites => some .write
  | .writeBack _ => none
  | .releaseCommitted => some .read

/-- The loop of a release finds items of its own type on its own machine. -/
theorem PhaseOk.near {phase : Phase Key} {todo : List (ReadSetItem Key)}
    (ok : PhaseOk config tid phase (item :: todo)) (releases : phase.releases = some type)
    (near : config.isLocal tid item.pid = true) : item.granted = some type := by
  have releasing : Releasing config tid type (item :: todo) := by
    cases phase <;> simp only [Phase.releases, Option.some.injEq, reduceCtorEq] at releases
    · exact releases ▸ ok.1
    · exact releases ▸ ok
    · exact releases ▸ ok
  obtain ⟨held, own, same | far⟩ := releasing item List.mem_cons_self
  · exact same ▸ own.granted
  · simp [near] at far

/-- Entries of releases and commits are for locks of their sender, a handler and a local
release find the word they expect, and no transaction leaves a lock behind. -/
structure OwnersHold (config : Config Key Tid) (state : State Key Tid) : Prop where
  cleared : ∀ tid, ∀ post ∈ (state.txns tid).posts, post.kind.clears = true → ∃ type,
    (state.records post.item.place).lock = config.word tid type ∧
      Owns state.events tid post.item.place (config.word tid type)
  acquired : ∀ tid place word, .released tid place word ∈ state.events →
    .acquired tid place word ∈ state.events
  asserted : config.protocol = .nowait → ∀ tid, ∀ post ∈ (state.txns tid).posts, ∀ type,
    post.kind = .release type →
      (state.records post.item.place).lock = config.word tid type
  near : ∀ tid phase item todo type, (state.txns tid).stage = .walk phase (item :: todo) →
    phase.releases = some type → config.isLocal tid item.pid = true →
      (state.records item.place).lock = config.word tid type
  ended : ∀ tid, (state.txns tid).stage.Over →
    ∀ place, ¬ config.Belongs tid (state.records place).lock
  completes : ∀ tid, (state.txns tid).stage.Releasing → ∃ after,
    Reach (step config) (OwnStep config tid) state after ∧ (after.txns tid).Returned

/-- In every run of every build under the condition the owner assertions hold. -/
theorem owners_hold (config : Config Key Tid) (value : Nat × Key → Bytes)
    (seq : Nat × Key → Nat) (replyBuf : Tid → Bytes) (state : State Key Tid)
    (reach : Reach (step config) (Cond config) (State.initial value seq replyBuf) state) :
    OwnersHold config state := by
  have inv := inv_of_reach reach
  constructor
  · intro tid post member clears
    obtain ⟨held, -, owned⟩ := inv.sent member clears
    exact ⟨held, owned⟩
  · exact inv.books.paid
  · intro nowait tid post member type releases
    obtain ⟨held, granted, locked, -⟩ := inv.sent member (by simp [releases, PostKind.clears])
    obtain ⟨other, otherGranted, fits⟩ := (inv.txns tid).posts post member
    rw [granted, Option.some.injEq] at otherGranted
    subst otherGranted
    simp only [releases] at fits
    rcases fits with same | waitdie
    · exact same ▸ locked
    · rw [nowait] at waitdie
      cases waitdie
  · intro tid phase item todo type walking releases near
    have ok := (inv.txns tid).stage
    simp only [StageOk, walking] at ok
    have member : item ∈ (state.txns tid).holding ++ clearing (state.txns tid).posts := by
      simp [Txn.holding, walking]
    exact (inv.lock_eq (ok.near releases near) member).1
  · intro tid ended place mine
    obtain ⟨owner, member⟩ := inv.books.owner place (config.lockWords.ne_zero tid _ mine)
    have same := config.lockWords.unique tid owner _ mine (inv.books.belongs owner _ member)
    subst same
    exact inv.owns_nothing ended place _ ((inv.books.owns tid place _).mp member)
  · exact fun tid releasing => inv.completes releasing

/-- Everything over RPC. -/
def rpcBuild : Build where
  lock := false
  release := false
  commit := false
  votes := false

/-- The younger transaction is refused a record and releases the one it has read; the older
one commits a record it has moved into its write set. -/
def rpcRun : List (Action Nat Bool) :=
  [.begin false, .begin true, .read false 1 1 0 [0], .lockItem false, .addToWrite false 0,
    .read true 2 2 0 [0], .lockItem true, .read true 1 1 0 [0], .lockItem true, .abort true,
    .walkItem true, .walkEnd true, .commit false true, .walkItem false, .walkEnd false,
    .deliver true 2, .resume true, .walkEnd true, .resume true, .deliver false 1,
    .resume false, .walkEnd false, .resume false]

theorem owners_hold_rpc :
    ∃ state : State Nat Bool, OwnersHold (pairConfig .nowait rpcBuild) state ∧
      ((state.txns false).stage = .finished true ∧ (state.txns true).stage = .finished false ∧
        state.events.length = 4) := by
  have reached : ∃ state : State Nat Bool,
      Reach (step (pairConfig .nowait rpcBuild)) (Cond (pairConfig .nowait rpcBuild))
        (State.initial (fun _ => [7]) (fun _ => 0) fun _ => [0, 0]) state ∧
      ((state.txns false).stage = .finished true ∧ (state.txns true).stage = .finished false ∧
        state.events.length = 4) :=
    Reach.exists_of_exec rpcRun (by decide +kernel)
  obtain ⟨state, reach, finished⟩ := reached
  exact ⟨state, owners_hold _ _ _ _ state reach, finished⟩

/-- A transaction moves the record it has read into its write set and is refused another one;
the message that releases the write set is for a write lock. -/
def movedRun : List (Action Nat Bool) :=
  [.begin true, .write true 1 2 0 [0], .lockItem true, .begin false, .read false 1 1 0 [0],
    .lockItem false, .addToWrite false 0, .write false 1 2 0 [0], .lockItem false,
    .abort false, .walkEnd false, .resume false, .walkItem false, .walkEnd false]

theorem not_owners_hold :
    ¬ ∀ state, Reachable (step (pairConfig .nowait rpcBuild))
      (State.initial (fun _ => [7]) (fun _ => 0) fun _ => [0, 0]) state →
        OwnersHold (pairConfig .nowait rpcBuild) state := by
  intro always
  have reached : ∃ state : State Nat Bool,
      Reachable (step (pairConfig .nowait rpcBuild))
        (State.initial (fun _ => [7]) (fun _ => 0) fun _ => [0, 0]) state ∧
      ((∃ post ∈ (state.txns false).posts, post.kind = .release .write ∧
        post.item.place = (1, 1)) ∧
        (state.records (1, 1)).lock ≠ (pairConfig .nowait rpcBuild).word false .write) :=
    Reach.exists_of_exec movedRun (by decide +kernel)
  obtain ⟨state, reach, ⟨post, member, releases, place⟩, differs⟩ := reached
  have asserted := (always state reach).asserted rfl false post member .write releases
  rw [place] at asserted
  exact differs asserted

end Rocc.Locking.Hybrid
