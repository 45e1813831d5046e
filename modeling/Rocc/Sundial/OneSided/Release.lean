import Rocc.Sundial.OneSided.Steps

/-!
# Releases with one-sided verbs

As over RPC the write set of a transaction whose renewal has failed is released
twice, here by blind writes of 0.  As long as no renewal is refused for a
transaction that holds locks, every verb is a step on the books.
-/

set_option linter.unusedSectionVars false

namespace Rocc.Sundial.OneSided

open Rtx

universe u v w

variable {Key : Type u} {Value : Type v} {Tid : Type w}
variable [DecidableEq Key] [DecidableEq Tid]

/-- Side condition on the steps of a run: no lease renewal of `prepare` is refused for a
transaction with a write set. -/
def RenewalsSucceed (state : State Key Value Tid) : Action Key Value Tid → Prop
  | .renewWrite tid => (state.txns tid).writeSet ≠ [] →
      ∀ item ∈ (state.txns tid).renewal, ¬ item.Refused (state.txns tid).commitId
  | _ => True

instance [DecidableEq Value] (state : State Key Value Tid) :
    (action : Action Key Value Tid) → Decidable (RenewalsSucceed state action)
  | .begin _ _ => inferInstanceAs (Decidable True)
  | .read _ _ => inferInstanceAs (Decidable True)
  | .readAgain _ => inferInstanceAs (Decidable True)
  | .write _ _ => inferInstanceAs (Decidable True)
  | .lockCas _ => inferInstanceAs (Decidable True)
  | .lockRead _ => inferInstanceAs (Decidable True)
  | .modify _ _ _ => inferInstanceAs (Decidable True)
  | .renewLease _ _ => inferInstanceAs (Decidable True)
  | .renewLeaseWrite _ => inferInstanceAs (Decidable True)
  | .prepare _ => inferInstanceAs (Decidable True)
  | .renewRead _ _ => inferInstanceAs (Decidable True)
  | .renewWrite _ => inferInstanceAs (Decidable (_ → ∀ item ∈ _, _))
  | .vote _ _ => inferInstanceAs (Decidable True)
  | .updateVerb _ _ => inferInstanceAs (Decidable True)
  | .releaseVerb _ _ => inferInstanceAs (Decidable True)
  | .resume _ => inferInstanceAs (Decidable True)

/-- The transaction has not started to unlock. -/
def Stage.Growing : Stage Key Value → Prop
  | .update _ => False
  | .release _ _ => False
  | .releaseAgain _ => False
  | .finished _ => False
  | _ => True

/-- Lock words, claims and lock history of a state. -/
def State.books (config : Config Key Tid) (state : State Key Value Tid) : Books Tid Key :=
  .ofTxns Txn.locked (fun txn => txn.stage.Growing) config.startTime
    (fun key => (state.records key).lock) state.txns state.events

/-- Keys of the unlock writes a transaction has in flight. -/
def Txn.unlocks (txn : Txn Key Value) : List Key :=
  match txn.stage with
  | .update pending => pending.map (·.1.key)
  | .release pending _ => pending.map (·.key)
  | .releaseAgain pending => pending.map (·.key)
  | _ => []

/-- A transaction whose renewal has failed has no write set. -/
def Txn.Quiet (txn : Txn Key Value) : Prop :=
  match txn.stage with
  | .release pending true => pending = [] ∧ txn.writeSet = []
  | .releaseAgain pending => pending = []
  | _ => True

variable {config : Config Key Tid} {value : Key → Value}
variable {state after : State Key Value Tid} {tid : Tid} {txn : Txn Key Value}
variable {key : Key} {node : Node Value}

/-! ## Steps -/

/-- A step on the books after which failed renewals still have nothing to release. -/
structure Advance (config : Config Key Tid) (tid : Tid) (state after : State Key Value Tid) :
    Prop where
  books : Books.Step config.Belongs tid (state.books config) (after.books config)
  quiet : ∀ other, (after.txns other).Quiet

theorem quiet_update (quiet : ∀ other, (state.txns other).Quiet) (mine : txn.Quiet) :
    ∀ other, (Function.update state.txns tid txn other).Quiet := by
  rw [Function.forall_update_iff state.txns fun _ txn => txn.Quiet]
  exact ⟨mine, fun other _ => quiet other⟩

/-- A step that changes no lock word. -/
theorem advance_frame (quiet : ∀ other, (state.txns other).Quiet)
    {records : Key → Node Value} {history : Key → List (Nat × Value)}
    (sameLock : ∀ other, (records other).lock = (state.records other).lock)
    (sameLocked : txn.locked.Perm (state.txns tid).locked)
    (stillGrowing : txn.stage.Growing → (state.txns tid).stage.Growing) (mine : txn.Quiet) :
    Advance config tid state { state with
      records, txns := Function.update state.txns tid txn, history } where
  books := .ofTxns_frame sameLock sameLocked stillGrowing
  quiet := quiet_update quiet mine

/-- A step between two stages that hold the write set. -/
theorem advance_execute (quiet : ∀ other, (state.txns other).Quiet)
    {records : Key → Node Value}
    (sameLock : ∀ other, (records other).lock = (state.records other).lock)
    (executed : (state.txns tid).stage.Executes) (executes : txn.stage.Executes)
    (sameKeys : txn.writeSet.map (·.key) = (state.txns tid).writeSet.map (·.key)) :
    Advance config tid state { state with
      records, txns := Function.update state.txns tid txn } := by
  apply advance_frame quiet sameLock
  · rw [Txn.locked_of_executes executes, Txn.locked_of_executes executed, sameKeys]
  · intro _
    cases at_stage : (state.txns tid).stage <;> simp_all [Stage.Executes, Stage.Growing]
  · cases at_stage : txn.stage <;> simp_all [Stage.Executes, Txn.Quiet]

/-- A step that gives the write set up; a second release has to be one of nothing. -/
theorem advance_abort (quiet : ∀ other, (state.txns other).Quiet)
    (executed : (state.txns tid).stage.Executes) {again : Bool}
    (nothing : again = true → (state.txns tid).writeSet = []) :
    Advance config tid state
      (state.setStage tid (.release (state.txns tid).writeSet again)) := by
  apply advance_frame quiet (fun _ => rfl)
  · rw [Txn.locked_of_executes executed]
    exact .refl _
  · exact False.elim
  · cases again with
    | false => trivial
    | true => exact ⟨nothing rfl, nothing rfl⟩

/-- An unlock write to a record the transaction holds. -/
theorem advance_unlock (quiet : ∀ other, (state.txns other).Quiet)
    {item : ReadSetItem Key Value} {stage : Stage Key Value}
    (removed : (state.txns tid).locked.Perm
      (item.key :: ({ state.txns tid with stage } : Txn Key Value).locked))
    (shrinks : ¬ stage.Growing)
    (mine : ({ state.txns tid with stage } : Txn Key Value).Quiet) :
    Advance config tid state (releaseOne config state tid item stage) where
  books := by
    apply Books.Step.ofTxns_release
    · exact lock_update_self _ _ _
    · exact lock_update_of_ne _ _ _
    · exact removed
    · exact shrinks
  quiet := quiet_update quiet mine

theorem writeHeader_lock (item : ReadSetItem Key Value) (commitId : Nat) (node : Node Value) :
    (item.writeHeader commitId node).lock = node.lock := by
  rw [ReadSetItem.writeHeader]
  split <;> rfl

theorem advance_readAgain (quiet : ∀ other, (state.txns other).Quiet)
    (stepped : readAgain state tid = some after) : Advance config tid state after := by
  simp only [readAgain] at stepped
  split at stepped
  · rename_i item reads
    have executed : (state.txns tid).stage.Executes := by
      rw [reads]
      trivial
    split at stepped
    · cases stepped
      exact advance_abort quiet executed (fun again => absurd again (by decide))
    · cases stepped
      apply advance_execute quiet (fun _ => rfl) executed
      · trivial
      · rfl
  · cases stepped

theorem advance_lockCas (quiet : ∀ other, (state.txns other).Quiet)
    (stepped : lockCas config state tid = some after) : Advance config tid state after := by
  simp only [lockCas] at stepped
  split at stepped
  · rename_i key locks
    have executed : (state.txns tid).stage.Executes := by
      rw [locks]
      trivial
    split at stepped
    · split at stepped
      · cases stepped
        exact ⟨.frame (fun _ => rfl) (fun _ => .refl _) (fun _ => id) rfl, quiet⟩
      · cases stepped
        exact advance_abort quiet executed (fun again => absurd again (by decide))
    · rename_i notTaken
      cases stepped
      constructor
      · apply Books.Step.ofTxns_acquire
        · rfl
        · exact not_not.mp notTaken
        · exact lock_update_self _ _ _
        · exact lock_update_of_ne _ _ _
        · rw [locks]
          trivial
        · rw [Txn.locked_of_executes executed]
          exact .refl _
      · exact quiet_update quiet trivial
  · cases stepped

theorem advance_lockRead (quiet : ∀ other, (state.txns other).Quiet)
    (stepped : lockRead state tid = some after) : Advance config tid state after := by
  simp only [lockRead] at stepped
  split at stepped
  · rename_i key locks
    cases stepped
    apply advance_frame quiet (fun _ => rfl)
    · simp only [Txn.locked, locks, List.map_append, List.map_cons, List.map_nil]
      exact List.perm_append_singleton _ _
    · intro _
      rw [locks]
      trivial
    · trivial
  · cases stepped

theorem advance_modify {data : Value} (quiet : ∀ other, (state.txns other).Quiet)
    (stepped : modify state tid key data = some after) : Advance config tid state after := by
  simp only [modify] at stepped
  split at stepped
  · rename_i executes
    cases stepped
    have executed : (state.txns tid).stage.Executes := by
      rw [executes]
      trivial
    apply advance_execute quiet (fun _ => rfl) executed
    · exact executed
    · rw [List.map_map]
      apply List.map_congr_left
      intro item _
      simp only [Function.comp_apply]
      split <;> rfl
  · cases stepped

theorem advance_renewLease {index : Nat} (quiet : ∀ other, (state.txns other).Quiet)
    (stepped : renewLease state tid index = some after) : Advance config tid state after := by
  simp only [renewLease] at stepped
  split at stepped
  · rename_i executes
    obtain ⟨item, -, rfl⟩ := Option.map_eq_some_iff.mp stepped
    apply advance_execute quiet (fun _ => rfl)
    · rw [executes]
      trivial
    · trivial
    · rfl
  · cases stepped

theorem advance_renewLeaseWrite (quiet : ∀ other, (state.txns other).Quiet)
    (stepped : renewLeaseWrite state tid = some after) : Advance config tid state after := by
  simp only [renewLeaseWrite] at stepped
  split at stepped
  · rename_i item renews
    have executed : (state.txns tid).stage.Executes := by
      rw [renews]
      trivial
    split at stepped
    · cases stepped
      apply advance_execute quiet (fun _ => rfl) executed
      · trivial
      · rfl
    · cases stepped
      apply advance_execute quiet (lock_update_of_eq (writeHeader_lock item _ _)) executed
      · trivial
      · rfl
  · cases stepped

theorem advance_renewRead {machine : Nat} (quiet : ∀ other, (state.txns other).Quiet)
    (stepped : renewRead config state tid machine = some after) :
    Advance config tid state after := by
  simp only [renewRead] at stepped
  split at stepped
  · rename_i pending renews
    obtain ⟨⟨index, rest⟩, -, found⟩ := Option.bind_eq_some_iff.mp stepped
    obtain ⟨item, -, rfl⟩ := Option.map_eq_some_iff.mp found
    apply advance_execute quiet (fun _ => rfl)
    · rw [renews]
      trivial
    · trivial
    · rfl
  · cases stepped

theorem advance_renewWrite (quiet : ∀ other, (state.txns other).Quiet)
    (succeeds : RenewalsSucceed state (.renewWrite tid))
    (stepped : renewWrite state tid = some after) : Advance config tid state after := by
  simp only [renewWrite] at stepped
  split at stepped
  · rename_i item rest renews
    have executed : (state.txns tid).stage.Executes := by
      rw [renews]
      trivial
    have isNext : item ∈ (state.txns tid).renewal := by simp [Txn.renewal, renews]
    split at stepped
    · rename_i refused
      cases stepped
      apply advance_abort quiet executed
      -- a refused renewal is one of a transaction without locks
      intro _
      by_contra holds
      exact succeeds holds item isNext refused
    · cases stepped
      apply advance_execute quiet (lock_update_of_eq (writeHeader_lock item _ _)) executed
      · trivial
      · rfl
  · cases stepped

theorem advance_vote {commit : Bool} (quiet : ∀ other, (state.txns other).Quiet)
    (stepped : vote state tid commit = some after) : Advance config tid state after := by
  simp only [vote] at stepped
  split at stepped
  · rename_i prepares
    have executed : (state.txns tid).stage.Executes := by
      rw [prepares]
      trivial
    split at stepped
    · cases stepped
      apply advance_frame quiet (fun _ => rfl)
      · rw [Txn.locked_of_executes executed]
        simp only [Txn.locked, List.map_map, Function.comp_def]
        exact .refl _
      · exact False.elim
      · trivial
    · cases stepped
      exact advance_abort quiet executed (fun again => absurd again (by decide))
  · cases stepped

theorem advance_updateVerb {machine : Nat} (quiet : ∀ other, (state.txns other).Quiet)
    (stepped : updateVerb config state tid machine = some after) :
    Advance config tid state after := by
  simp only [updateVerb] at stepped
  split at stepped
  · rename_i pending updates
    obtain ⟨⟨⟨item, written⟩, rest⟩, found, rfl⟩ := Option.map_eq_some_iff.mp stepped
    have sameLocked : (state.txns tid).locked.Perm (item.key :: rest.map (·.1.key)) := by
      simp only [Txn.locked, updates]
      exact (nextFor_perm found).map _
    cases written with
    | false =>
        have sameLock := lock_update_of_eq (Node.writeBack_lock (state.records item.key)
          item.data (state.txns tid).commitId)
        exact advance_frame quiet sameLock sameLocked.symm False.elim trivial
    | true =>
        apply advance_unlock quiet
        · exact sameLocked
        · exact id
        · trivial
  · cases stepped

theorem advance_releaseVerb {machine : Nat} (quiet : ∀ other, (state.txns other).Quiet)
    (stepped : releaseVerb config state tid machine = some after) :
    Advance config tid state after := by
  have was := quiet tid
  simp only [releaseVerb] at stepped
  split at stepped
  · rename_i pending again releases
    obtain ⟨⟨item, rest⟩, found, rfl⟩ := Option.map_eq_some_iff.mp stepped
    have once : again = false := by
      cases again with
      | false => rfl
      | true =>
          simp only [Txn.Quiet, releases] at was
          rw [was.1] at found
          cases found
    subst once
    apply advance_unlock quiet
    · simp only [Txn.locked, releases]
      exact (nextFor_perm found).map _
    · exact id
    · trivial
  · rename_i pending releases
    simp only [Txn.Quiet, releases] at was
    rw [was] at stepped
    cases stepped
  · cases stepped

theorem advance_resume (quiet : ∀ other, (state.txns other).Quiet)
    (stepped : resume state tid = some after) : Advance config tid state after := by
  have was := quiet tid
  simp only [resume] at stepped
  split at stepped
  · rename_i renews
    cases stepped
    apply advance_execute quiet (fun _ => rfl)
    · rw [renews]
      trivial
    · trivial
    · rfl
  · rename_i renews
    cases stepped
    apply advance_execute quiet (fun _ => rfl)
    · rw [renews]
      trivial
    · trivial
    · rfl
  · rename_i updates
    cases stepped
    apply advance_frame quiet (fun _ => rfl)
    · simp [Txn.locked, updates]
    · exact False.elim
    · trivial
  · rename_i releases
    cases stepped
    simp only [Txn.Quiet, releases] at was
    apply advance_frame quiet (fun _ => rfl)
    · simp [Txn.locked, releases]
    · exact False.elim
    · exact was.2
  · rename_i releases
    cases stepped
    apply advance_frame quiet (fun _ => rfl)
    · simp [Txn.locked, releases]
    · exact False.elim
    · trivial
  · rename_i releases
    cases stepped
    apply advance_frame quiet (fun _ => rfl)
    · simp [Txn.locked, releases]
    · exact False.elim
    · trivial
  · cases stepped

/-- Every step is one on the books. -/
theorem advance_step (quiet : ∀ other, (state.txns other).Quiet)
    {action : Action Key Value Tid} (succeeds : RenewalsSucceed state action)
    (stepped : step config state action = some after) :
    Advance config action.tid state after := by
  cases action with
  | begin tid commitId =>
      simp only [step, begin] at stepped
      split at stepped
      · rename_i idle
        cases stepped
        apply advance_frame quiet (fun _ => rfl)
        · simp [Txn.locked, idle, Action.tid]
        · simp [idle, Stage.Growing, Action.tid]
        · trivial
      · cases stepped
  | read tid key =>
      simp only [step, read] at stepped
      split at stepped
      · rename_i executes
        cases stepped
        apply advance_execute quiet (fun _ => rfl)
        · simp [executes, Stage.Executes, Action.tid]
        · trivial
        · rfl
      · cases stepped
  | readAgain tid => exact advance_readAgain quiet stepped
  | write tid key =>
      simp only [step, write] at stepped
      split at stepped
      · rename_i executes
        cases stepped
        apply advance_execute quiet (fun _ => rfl)
        · simp [executes, Stage.Executes, Action.tid]
        · trivial
        · rfl
      · cases stepped
  | lockCas tid => exact advance_lockCas quiet stepped
  | lockRead tid => exact advance_lockRead quiet stepped
  | modify tid key data => exact advance_modify quiet stepped
  | renewLease tid index => exact advance_renewLease quiet stepped
  | renewLeaseWrite tid => exact advance_renewLeaseWrite quiet stepped
  | prepare tid =>
      simp only [step, prepare] at stepped
      split at stepped
      · rename_i executes
        cases stepped
        apply advance_execute quiet (fun _ => rfl)
        · simp [executes, Stage.Executes, Action.tid]
        · trivial
        · rfl
      · cases stepped
  | renewRead tid machine => exact advance_renewRead quiet stepped
  | renewWrite tid => exact advance_renewWrite quiet succeeds stepped
  | vote tid commit => exact advance_vote quiet stepped
  | updateVerb tid machine => exact advance_updateVerb quiet stepped
  | releaseVerb tid machine => exact advance_releaseVerb quiet stepped
  | resume tid => exact advance_resume quiet stepped

/-! ## Runs -/

/-- Unlock writes in flight are claims. -/
theorem unlocks_claimed (quiet : (state.txns tid).Quiet) :
    (state.txns tid).unlocks = [] ∨
      (state.txns tid).unlocks = ((state.books config).claims tid).map Prod.fst := by
  rw [State.books, Books.ofTxns_keys]
  cases at_stage : (state.txns tid).stage with
  | update pending => exact .inr (by simp [Txn.unlocks, Txn.locked, at_stage])
  | release pending again => exact .inr (by simp [Txn.unlocks, Txn.locked, at_stage])
  | releaseAgain pending =>
      simp only [Txn.Quiet, at_stage] at quiet
      exact .inl (by simp [Txn.unlocks, at_stage, quiet])
  | _ => exact .inl (by simp [Txn.unlocks, at_stage])

/-- Every lock is released once. -/
def ReleasesOnce (config : Config Key Tid)
    (allowed : State Key Value Tid → Action Key Value Tid → Prop) (value : Key → Value) :
    Prop :=
  Rocc.ReleasesOnce config.Belongs (step config) allowed (State.initial value)
    (fun state => state.books config) (fun state tid => (state.txns tid).unlocks) Action.tid

theorem releasesOnce (config : Config Key Tid) (value : Key → Value) :
    ReleasesOnce config RenewalsSucceed value := by
  apply Rocc.ReleasesOnce.of_step config.lockWords fun state => ∀ tid, (state.txns tid).Quiet
  · exact Ledger.initial _ _ (fun _ => rfl) (fun _ => rfl)
  · exact fun _ => trivial
  · intro before action after quiet succeeds stepped
    have advance := advance_step quiet succeeds stepped
    exact ⟨advance.books, advance.quiet⟩
  · exact fun state quiet tid => unlocks_claimed (quiet tid)

end Rocc.Sundial.OneSided
