import Rocc.Sundial.Rpc.Steps

/-!
# Releases over RPC

When a renewal fails, `prepare` releases the write set and `commit` releases it
again; by then the locks may belong to others.  As long as no renewal fails for a
transaction that holds locks, each step of a transaction is a step on the books:
it takes a free lock or gives one of its own back.
-/

set_option linter.unusedSectionVars false

namespace Rocc.Sundial.Rpc

open Rtx

universe u v w

variable {Key : Type u} {Value : Type v} {Tid : Type w}
variable [DecidableEq Key] [DecidableEq Tid]

/-- Side condition on the steps of a run: no lease renewal fails for a transaction with a
write set. -/
def RenewalsSucceed (config : Config Key Tid) (state : State Key Value Tid) :
    Action Key Value Tid → Prop
  | .renewItem tid machine => (state.txns tid).writeSet ≠ [] →
      ∀ item ∈ state.next config tid machine,
        ((state.records item.key).renewLeaseLocal item.wts
          (state.txns tid).commitId).isSome
  | _ => True

instance [DecidableEq Value] (config : Config Key Tid) (state : State Key Value Tid) :
    (action : Action Key Value Tid) → Decidable (RenewalsSucceed config state action)
  | .begin _ _ => inferInstanceAs (Decidable True)
  | .read _ _ => inferInstanceAs (Decidable True)
  | .write _ _ => inferInstanceAs (Decidable True)
  | .notify _ => inferInstanceAs (Decidable True)
  | .modify _ _ _ => inferInstanceAs (Decidable True)
  | .prepare _ => inferInstanceAs (Decidable True)
  | .renewItem _ _ => inferInstanceAs (Decidable (_ → ∀ item ∈ _, _))
  | .vote _ _ => inferInstanceAs (Decidable True)
  | .updateItem _ _ => inferInstanceAs (Decidable True)
  | .releaseItem _ _ => inferInstanceAs (Decidable True)
  | .resume _ => inferInstanceAs (Decidable True)

/-- The transaction that takes a step. -/
def Action.tid : Action Key Value Tid → Tid
  | .begin tid _ => tid
  | .read tid _ => tid
  | .write tid _ => tid
  | .notify tid => tid
  | .modify tid _ _ => tid
  | .prepare tid => tid
  | .renewItem tid _ => tid
  | .vote tid _ => tid
  | .updateItem tid _ => tid
  | .releaseItem tid _ => tid
  | .resume tid => tid

/-- The transaction has not started to unlock. -/
def Stage.Growing : Stage Key Value → Prop
  | .idle => True
  | .execute => True
  | .wait _ => True
  | .renew _ _ => True
  | .prepared => True
  | _ => False

/-- Records whose lock the transaction holds. -/
def Txn.locked (txn : Txn Key Value) : List Key := txn.holds.map (·.key)

/-- Lock words, claims and lock history of a state. -/
def State.books (config : Config Key Tid) (state : State Key Value Tid) : Books Tid Key :=
  .ofTxns Txn.locked (fun txn => txn.stage.Growing) config.startTime
    (fun key => (state.records key).lock) state.txns state.events

/-- Keys of the unlock items a transaction has in flight. -/
def Txn.unlocks (txn : Txn Key Value) : List Key :=
  match txn.stage with
  | .update pending => pending.map (·.key)
  | .release pending _ => pending.map (·.key)
  | .releaseAgain pending => pending.map (·.key)
  | _ => []

/-- A transaction whose renewal has failed has no write set. -/
def Txn.Quiet (txn : Txn Key Value) : Prop :=
  match txn.stage with
  | .renew _ false => txn.writeSet = []
  | .release pending true => pending = [] ∧ txn.writeSet = []
  | .releaseAgain pending => pending = []
  | _ => True

variable {config : Config Key Tid} {value : Key → Value}
variable {state after : State Key Value Tid} {tid : Tid} {txn : Txn Key Value}

/-! ## Steps on the books -/

/-- A lock request of a transaction that holds its whole write set. -/
theorem books_answer {key : Key} {node : Node Value} {reply : LockReply}
    (executing : Executing (state.txns tid)) (grows : (state.txns tid).stage.Growing)
    (outcome : LockOutcome (state.records key) (config.startTime tid) node reply) :
    Books.Step config.Belongs tid (state.books config)
      ((answer config state tid key node reply).books config) := by
  have locked : (state.txns tid).locked = (state.txns tid).writeSet.map (·.key) := by
    rw [Txn.locked, executing.holds]
  cases outcome with
  | granted free =>
      apply Books.Step.ofTxns_acquire
      · rfl
      · exact free
      · exact lock_update_self _ _ _
      · exact lock_update_of_ne _ _ _
      · exact grows
      · rw [locked]
        simp only [Txn.locked, Txn.holds, List.map_append]
        exact List.perm_append_singleton _ _
  | failed taken =>
      apply Books.Step.ofTxns_frame (lock_update_of_eq rfl)
      · rw [locked]
        exact .refl _
      · exact False.elim
  | queued taken =>
      apply Books.Step.ofTxns_frame (lock_update_of_eq rfl)
      · rw [locked]
        exact .refl _
      · exact fun _ => grows

/-! ## Steps -/

/-- A step on the books after which failed renewals still have nothing to release. -/
structure Advance (config : Config Key Tid) (tid : Tid) (state after : State Key Value Tid) :
    Prop where
  books : Books.Step config.Belongs tid (state.books config) (after.books config)
  quiet : ∀ other, (after.txns other).Quiet

theorem quiet_update (quiet : ∀ other, (state.txns other).Quiet) (mine : txn.Quiet) :
    ∀ other, (Function.update state.txns tid txn other).Quiet := by
  rw [Function.forall_update_iff state.txns fun _ txn => txn.Quiet]
  exact ⟨mine, fun other _ => quiet other⟩

/-- A step that only moves the transaction on. -/
theorem advance_client (quiet : ∀ other, (state.txns other).Quiet) {commits : List Tid}
    (sameLocked : txn.locked = (state.txns tid).locked)
    (stillGrowing : txn.stage.Growing → (state.txns tid).stage.Growing) (mine : txn.Quiet) :
    Advance config tid state
      { state with txns := Function.update state.txns tid txn, commits } where
  books := .ofTxns_frame (fun _ => rfl) (.of_eq sameLocked) stillGrowing
  quiet := quiet_update quiet mine

theorem advance_answer (quiet : ∀ other, (state.txns other).Quiet) {key : Key}
    {node : Node Value} {reply : LockReply} (executing : Executing (state.txns tid))
    (grows : (state.txns tid).stage.Growing)
    (outcome : LockOutcome (state.records key) (config.startTime tid) node reply) :
    Advance config tid state (answer config state tid key node reply) where
  books := books_answer executing grows outcome
  quiet := by
    cases reply with
    | granted => exact quiet_update quiet trivial
    | failed => exact quiet_update quiet trivial
    | queued => exact quiet_update quiet trivial

theorem advance_renewItem {machine : Nat} (quiet : ∀ other, (state.txns other).Quiet)
    (succeeds : RenewalsSucceed config state (.renewItem tid machine))
    (stepped : renewItem config state tid machine = some after) :
    Advance config tid state after := by
  simp only [renewItem] at stepped
  split at stepped
  · rename_i pending success renews
    obtain ⟨⟨item, rest⟩, found, rfl⟩ := Option.map_eq_some_iff.mp stepped
    have inFlight : (state.txns tid).inFlight = pending := by simp [Txn.inFlight, renews]
    have isNext := mem_next inFlight found
    have sameLocked : ∀ success, ({ state.txns tid with
        stage := .renew rest success } : Txn Key Value).locked = (state.txns tid).locked := by
      intro success
      simp [Txn.locked, Txn.holds, renews]
    have grows : (state.txns tid).stage.Growing := by
      rw [renews]
      trivial
    cases answer : (state.records item.key).renewLeaseLocal item.wts
        (state.txns tid).commitId with
    | none =>
        simp only
        apply advance_client quiet (sameLocked false) (fun _ => grows)
        -- a failed renewal is one of a transaction without locks
        show (state.txns tid).writeSet = []
        by_contra holds
        have succeeded := succeeds holds item isNext
        rw [answer] at succeeded
        cases succeeded
    | some node =>
        simp only
        have sameLock : ∀ other, (Function.update state.records item.key node other).lock =
            (state.records other).lock := by
          apply lock_update_of_eq
          rcases (Node.renewLeaseLocal_eq_some answer).2 with ⟨-, same⟩ | ⟨-, -, same⟩
          · rw [same]
          · rw [same]
        constructor
        · exact .ofTxns_frame sameLock (.of_eq (sameLocked success)) (fun _ => grows)
        · apply quiet_update quiet
          have was := quiet tid
          simp only [Txn.Quiet, renews] at was
          cases success with
          | true => trivial
          | false => exact was
  · cases stepped

theorem advance_vote {commit : Bool} (quiet : ∀ other, (state.txns other).Quiet)
    (stepped : vote state tid commit = some after) : Advance config tid state after := by
  simp only [vote] at stepped
  split at stepped
  · rename_i prepares
    split at stepped
    · cases stepped
      apply advance_client quiet
      · simp [Txn.locked, Txn.holds, prepares]
      · exact False.elim
      · trivial
    · cases stepped
      apply advance_client quiet
      · simp [Txn.locked, Txn.holds, prepares]
      · exact False.elim
      · trivial
  · cases stepped

theorem advance_updateItem {machine : Nat} (quiet : ∀ other, (state.txns other).Quiet)
    (stepped : updateItem config state tid machine = some after) :
    Advance config tid state after := by
  simp only [updateItem] at stepped
  split at stepped
  · rename_i pending updates
    obtain ⟨⟨item, rest⟩, found, rfl⟩ := Option.map_eq_some_iff.mp stepped
    constructor
    · apply Books.Step.ofTxns_release
      · exact lock_update_self _ _ _
      · exact lock_update_of_ne _ _ _
      · simp only [Txn.locked, Txn.holds, updates]
        exact (nextFor_perm found).map _
      · exact id
    · exact quiet_update quiet trivial
  · cases stepped

theorem advance_releaseItem {machine : Nat} (quiet : ∀ other, (state.txns other).Quiet)
    (stepped : releaseItem config state tid machine = some after) :
    Advance config tid state after := by
  have was := quiet tid
  simp only [releaseItem] at stepped
  split at stepped
  · rename_i pending again releases
    obtain ⟨⟨item, rest⟩, found, rfl⟩ := Option.map_eq_some_iff.mp stepped
    have once : again = false := by
      cases again with
      | false => rfl
      | true =>
          simp only [Txn.Quiet, releases] at was
          rw [was.1] at found
          cases found
    subst once
    constructor
    · apply Books.Step.ofTxns_release
      · exact lock_update_self _ _ _
      · exact lock_update_of_ne _ _ _
      · simp only [Txn.locked, Txn.holds, releases]
        exact (nextFor_perm found).map _
      · exact id
    · exact quiet_update quiet trivial
  · rename_i pending releases
    simp only [Txn.Quiet, releases] at was
    rw [was] at stepped
    cases stepped
  · cases stepped

theorem advance_resume (quiet : ∀ other, (state.txns other).Quiet)
    (stepped : resume state tid = some after) : Advance config tid state after := by
  have was := quiet tid
  simp only [resume] at stepped
  split at stepped
  · rename_i renews
    cases stepped
    apply advance_client quiet
    · simp [Txn.locked, Txn.holds, renews]
    · rw [renews]
      exact id
    · trivial
  · rename_i renews
    cases stepped
    simp only [Txn.Quiet, renews] at was
    apply advance_client quiet
    · simp [Txn.locked, Txn.holds, renews]
    · exact False.elim
    · exact ⟨was, was⟩
  · rename_i updates
    cases stepped
    apply advance_client quiet
    · simp [Txn.locked, Txn.holds, updates]
    · exact False.elim
    · trivial
  · rename_i releases
    cases stepped
    simp only [Txn.Quiet, releases] at was
    apply advance_client quiet
    · simp [Txn.locked, Txn.holds, releases]
    · exact False.elim
    · exact was.2
  · rename_i releases
    cases stepped
    apply advance_client quiet
    · simp [Txn.locked, Txn.holds, releases]
    · exact False.elim
    · trivial
  · rename_i releases
    cases stepped
    apply advance_client quiet
    · simp [Txn.locked, Txn.holds, releases]
    · exact False.elim
    · trivial
  · cases stepped

/-- Every step is one on the books. -/
theorem advance_step (quiet : ∀ other, (state.txns other).Quiet)
    {action : Action Key Value Tid} (succeeds : RenewalsSucceed config state action)
    (stepped : step config state action = some after) :
    Advance config action.tid state after := by
  cases action with
  | begin tid commitId =>
      simp only [step, begin] at stepped
      split at stepped
      · rename_i idle
        cases stepped
        apply advance_client quiet
        · simp [Txn.locked, Txn.holds, idle, Action.tid]
        · simp [idle, Stage.Growing, Action.tid]
        · trivial
      · cases stepped
  | read tid key =>
      simp only [step, read] at stepped
      split at stepped
      · rename_i executes
        cases stepped
        apply advance_client quiet
        · simp [Txn.locked, Txn.holds, executes, Action.tid]
        · simp [executes, Action.tid]
        · simp [Txn.Quiet, executes]
      · cases stepped
  | write tid key =>
      simp only [step, write] at stepped
      split at stepped
      · rename_i executes
        obtain ⟨⟨node, reply⟩, answered, rfl⟩ := Option.map_eq_some_iff.mp stepped
        have grows : (state.txns tid).stage.Growing := by
          rw [executes]
          trivial
        exact advance_answer quiet (executing_of_execute executes) grows
          (Node.lockReadRpcHandler_outcome answered)
      · cases stepped
  | notify tid =>
      simp only [step, notify] at stepped
      split at stepped
      · rename_i key waits
        cases stepped
        have grows : (state.txns tid).stage.Growing := by
          rw [waits]
          trivial
        exact advance_answer quiet (executing_of_wait waits) grows
          (Node.checkToNotifyItem_outcome _ _)
      · cases stepped
  | modify tid key data =>
      simp only [step, modify] at stepped
      split at stepped
      · rename_i executes
        cases stepped
        apply advance_client quiet
        · simp only [Txn.locked, Txn.holds, executes, Action.tid, List.map_map]
          apply List.map_congr_left
          intro item _
          simp only [Function.comp_apply]
          split <;> rfl
        · simp [executes, Action.tid]
        · simp [Txn.Quiet, executes]
      · cases stepped
  | prepare tid =>
      simp only [step, prepare] at stepped
      split at stepped
      · rename_i executes
        cases stepped
        apply advance_client quiet
        · simp [Txn.locked, Txn.holds, executes, Action.tid]
        · simp [executes, Stage.Growing, Action.tid]
        · trivial
      · cases stepped
  | renewItem tid machine => exact advance_renewItem quiet succeeds stepped
  | vote tid commit => exact advance_vote quiet stepped
  | updateItem tid machine => exact advance_updateItem quiet stepped
  | releaseItem tid machine => exact advance_releaseItem quiet stepped
  | resume tid => exact advance_resume quiet stepped

/-! ## Runs -/

/-- Unlock items in flight are claims. -/
theorem unlocks_claimed (quiet : (state.txns tid).Quiet) :
    (state.txns tid).unlocks = [] ∨
      (state.txns tid).unlocks = ((state.books config).claims tid).map Prod.fst := by
  rw [State.books, Books.ofTxns_keys]
  cases at_stage : (state.txns tid).stage with
  | update pending => exact .inr (by simp [Txn.unlocks, Txn.locked, Txn.holds, at_stage])
  | release pending again => exact .inr (by simp [Txn.unlocks, Txn.locked, Txn.holds, at_stage])
  | releaseAgain pending =>
      simp only [Txn.Quiet, at_stage] at quiet
      exact .inl (by simp [Txn.unlocks, at_stage, quiet])
  | _ => exact .inl (by simp [Txn.unlocks, at_stage])

/-- Every lock is released once. -/
def ReleasesOnce (config : Config Key Tid)
    (allowed : State Key Value Tid → Action Key Value Tid → Prop) (value : Key → Value) :
    Prop :=
  Rocc.ReleasesOnce config.Belongs (step config) allowed (State.initial value)
    (fun state => state.books config) (fun state tid => (state.txns tid).unlocks) Action.tid

theorem releasesOnce (config : Config Key Tid) (value : Key → Value) :
    ReleasesOnce config (RenewalsSucceed config) value := by
  apply Rocc.ReleasesOnce.of_step config.lockWords fun state => ∀ tid, (state.txns tid).Quiet
  · exact Ledger.initial _ _ (fun _ => rfl) (fun _ => rfl)
  · exact fun _ => trivial
  · intro before action after quiet succeeds stepped
    have advance := advance_step quiet succeeds stepped
    exact ⟨advance.books, advance.quiet⟩
  · exact fun state quiet tid => unlocks_claimed (quiet tid)

end Rocc.Sundial.Rpc
