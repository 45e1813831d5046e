import Rocc.Occ.Serializability

/-!
# Real-time order

The serial order of optimistic concurrency control is the one in which the transactions took their
locks.  It only grows at its end, so a transaction that had returned when another one began stands
before that one.
-/

set_option linter.unusedSectionVars false

namespace Rocc.Occ

open Rtx

universe u v w x

variable {Key : Type u} {Value : Type v} {Tid : Type w} {Owner : Type x}

/-- The transaction a step belongs to. -/
def Action.tid : Action Key Value Tid → Tid
  | .begin tid => tid
  | .read tid _ => tid
  | .write tid _ => tid
  | .modify tid _ _ => tid
  | .commit tid => tid
  | .lockItem tid _ => tid
  | .validateItem tid _ => tid
  | .commitItem tid _ => tid
  | .releaseItem tid _ => tid
  | .resume tid => tid

/-- `commit` has been called. -/
def Stage.Called : Stage Key Value → Prop
  | .idle => False
  | .execute => False
  | _ => True

variable [DecidableEq Key] [DecidableEq Tid] [DecidableEq Owner]

/-- What a step does to its transaction. -/
def Advances (before : Txn Key Value) (after : Txn Key Value) : Action Key Value Tid → Prop
  | .begin _ => before.stage = .idle ∧ after = { stage := .execute, readSet := [], writeSet := [] }
  | .read _ key => before.stage = .execute ∧ before.Fresh key ∧
      ∃ item, item.key = key ∧ item.data = item.value ∧
        after = { before with readSet := before.readSet ++ [item] }
  | .write _ key => before.stage = .execute ∧ before.Fresh key ∧
      ∃ item, item.key = key ∧ item.data = item.value ∧
        after = { before with writeSet := before.writeSet ++ [item] }
  | .modify _ key data => before.stage = .execute ∧
      after = { before with
        writeSet := before.writeSet.map fun item =>
          if item.key = key then { item with data } else item }
  | .commit _ => before.stage = .execute ∧
      ∃ stage, stage.Called ∧ after = { before with stage }
  | _ => before.stage.Called ∧ (∀ committed, before.stage ≠ .finished committed) ∧
      ∃ stage, stage.Called ∧ after = { before with stage }

/-- A step leaves the other transactions alone, and the order only grows. -/
structure Moves (before after : State Key Value Tid Owner) (action : Action Key Value Tid) :
    Prop where
  txns : ∃ txn, after.txns = Function.update before.txns action.tid txn ∧
    Advances (before.txns action.tid) txn action
  lockOrder : before.lockOrder <+: after.lockOrder

variable {config : Config Key Tid Owner} {before after middle state : State Key Value Tid Owner}
variable {action : Action Key Value Tid}

theorem readWriteRpcHandler_item {key : Key} {record : Record Value}
    {item : ReadSetItem Key Value} (loaded : readWriteRpcHandler key record = some item) :
    item.key = key ∧ item.data = item.value := by
  obtain ⟨_, _, rfl⟩ := Option.map_eq_some_iff.mp loaded
  exact ⟨rfl, rfl⟩

/-- A step of `commit` moves the transaction to another stage. -/
theorem moves_stage {stage : Stage Key Value}
    (txns : after.txns = Function.update before.txns action.tid
      { before.txns action.tid with stage })
    (advances : Advances (before.txns action.tid) { before.txns action.tid with stage } action)
    (lockOrder : before.lockOrder <+: after.lockOrder) : Moves before after action :=
  ⟨⟨_, txns, advances⟩, lockOrder⟩

theorem moves_step (stepped : step config before action = some after) :
    Moves before after action := by
  cases action with
  | begin tid =>
      rw [step, begin] at stepped
      split at stepped
      · rename_i idle _
        cases stepped
        exact ⟨⟨_, rfl, idle, rfl⟩, List.prefix_rfl⟩
      · cases stepped
  | read tid key =>
      simp only [step, read] at stepped
      split at stepped
      · rename_i executes
        split at stepped
        · rename_i fresh
          obtain ⟨item, loaded, rfl⟩ := Option.map_eq_some_iff.mp stepped
          obtain ⟨sameKey, sameData⟩ := readWriteRpcHandler_item loaded
          exact ⟨⟨_, rfl, executes, fresh, item, sameKey, sameData, rfl⟩, List.prefix_rfl⟩
        · cases stepped
      · cases stepped
  | write tid key =>
      simp only [step, write] at stepped
      split at stepped
      · rename_i executes
        split at stepped
        · rename_i fresh
          obtain ⟨item, loaded, rfl⟩ := Option.map_eq_some_iff.mp stepped
          obtain ⟨sameKey, sameData⟩ := readWriteRpcHandler_item loaded
          exact ⟨⟨_, rfl, executes, fresh, item, sameKey, sameData, rfl⟩, List.prefix_rfl⟩
        · cases stepped
      · cases stepped
  | modify tid key data =>
      simp only [step, modify] at stepped
      split at stepped
      · rename_i executes
        cases stepped
        exact ⟨⟨_, rfl, executes, rfl⟩, List.prefix_rfl⟩
      · cases stepped
  | commit tid =>
      rw [step, commit] at stepped
      split at stepped
      · rename_i executes
        cases stepped
        exact ⟨⟨_, rfl, executes, _, by trivial, rfl⟩, List.prefix_rfl⟩
      · cases stepped
  | lockItem tid machine =>
      simp only [step, lockItem] at stepped
      split at stepped
      · rename_i locking
        obtain ⟨⟨item, rest⟩, _, rfl⟩ := Option.map_eq_some_iff.mp stepped
        refine moves_stage rfl ?_ List.prefix_rfl
        refine ⟨by simp [Action.tid, locking, Stage.Called], by simp [Action.tid, locking],
          _, ?_, rfl⟩
        split <;> trivial
      · cases stepped
  | validateItem tid machine =>
      simp only [step, validateItem] at stepped
      split at stepped
      · rename_i validating
        obtain ⟨⟨item, rest⟩, _, rfl⟩ := Option.map_eq_some_iff.mp stepped
        refine moves_stage rfl ?_ List.prefix_rfl
        refine ⟨by simp [Action.tid, validating, Stage.Called], by simp [Action.tid, validating],
          _, ?_, rfl⟩
        split <;> trivial
      · cases stepped
  | commitItem tid key =>
      simp only [step, commitItem] at stepped
      split at stepped
      · rename_i writing
        obtain ⟨⟨item, rest⟩, _, rfl⟩ := Option.map_eq_some_iff.mp stepped
        exact moves_stage rfl ⟨by simp [Action.tid, writing, Stage.Called],
          by simp [Action.tid, writing], _, by trivial, rfl⟩ List.prefix_rfl
      · cases stepped
  | releaseItem tid machine =>
      simp only [step, releaseItem] at stepped
      split at stepped
      · rename_i releasing
        obtain ⟨⟨item, rest⟩, _, rfl⟩ := Option.map_eq_some_iff.mp stepped
        exact moves_stage rfl ⟨by simp [Action.tid, releasing, Stage.Called],
          by simp [Action.tid, releasing], _, by trivial, rfl⟩ List.prefix_rfl
      · cases stepped
  | resume tid =>
      simp only [step, resume] at stepped
      split at stepped
      case h_7 => cases stepped
      all_goals
        rename_i stage
        cases stepped
        refine moves_stage rfl ⟨by simp [Action.tid, stage, Stage.Called],
          by simp [Action.tid, stage], _, by trivial, rfl⟩ ?_
        first | exact List.prefix_rfl | exact List.prefix_append _ _

theorem Advances.unfinished {txn after : Txn Key Value} (advances : Advances txn after action)
    (committed : Bool) : txn.stage ≠ .finished committed := by
  intro finished
  cases action with
  | begin | read | write | modify | commit => simp [Advances, finished] at advances
  | lockItem | validateItem | commitItem | releaseItem | resume =>
      exact advances.2.1 committed finished

/-! ## Runs -/

section Runs

variable {allowed : State Key Value Tid Owner → Action Key Value Tid → Prop}

theorem prefix_of_run (run : Reach (step config) allowed middle state) :
    middle.lockOrder <+: state.lockOrder :=
  run.invariant (fun one => middle.lockOrder <+: one.lockOrder) List.prefix_rfl
    fun _ _ _ grown _ stepped => grown.trans (moves_step stepped).lockOrder

/-- A transaction that has returned stays as it is. -/
theorem txn_eq_of_finished (run : Reach (step config) allowed middle state) {tid : Tid}
    {committed : Bool} (finished : (middle.txns tid).stage = .finished committed) :
    state.txns tid = middle.txns tid := by
  refine run.invariant (fun one => one.txns tid = middle.txns tid) rfl ?_
  intro one action next same _ stepped
  obtain ⟨txn, txns, advances⟩ := (moves_step stepped).txns
  have different : tid ≠ action.tid := by
    rintro rfl
    rw [same] at advances
    exact advances.unfinished committed finished
  rw [txns, Function.update_of_ne different, same]

end Runs

variable {seq₀ : Key → Nat} {value₀ : Key → Value}

/-- A transaction that had returned when another one was to begin stands before it. -/
theorem serialOrder_realTime
    (reach : Reach (step config) NoWrap (State.initial seq₀ value₀) middle)
    (run : Reach (step config) NoWrap middle state) {first second : Tid}
    (returned : (middle.txns first).Committed) (waiting : (middle.txns second).stage = .idle)
    (decided : (state.txns second).Decided) : [first, second].Sublist state.serialOrder := by
  have inv := inv_of_reach reach
  have final := inv_of_reach (reach.trans run)
  have same := txn_eq_of_finished run returned
  have firstBefore : first ∈ middle.lockOrder :=
    inv.order_mem first (by rw [Txn.Alive, returned])
  have secondAfter : second ∉ middle.lockOrder := by
    intro member
    have past := inv.order_stage second member
    rw [waiting] at past
    exact past
  have firstDecided : (state.txns first).Decided := by
    rw [same, Txn.Decided, returned]
    trivial
  have secondMember := final.order_mem second decided.alive
  obtain ⟨more, grown⟩ := prefix_of_run run
  rw [← grown, List.mem_append] at secondMember
  have inMore := secondMember.resolve_left secondAfter
  rw [State.serialOrder, ← grown, List.filter_append]
  exact List.Sublist.append
    (List.singleton_sublist.mpr (List.mem_filter.mpr ⟨firstBefore, by simpa using firstDecided⟩))
    (List.singleton_sublist.mpr (List.mem_filter.mpr ⟨inMore, by simpa using decided⟩))

/-- Optimistic concurrency control is strictly serializable: one order of the transactions that
have passed validation hands each of them the values it loaded, leaves the values of the records
once all have returned, and has every transaction that had returned when another one began before
that one. -/
theorem strictly_serializable (config : Config Key Tid Owner) (seq₀ : Key → Nat)
    (value₀ : Key → Value) (state : State Key Value Tid Owner)
    (reach : Reach (step config) NoWrap (State.initial seq₀ value₀) state) :
    ∃ order : List Tid, order.Nodup ∧
      (∀ tid, tid ∈ order ↔ (state.txns tid).Decided) ∧
      Serial value₀ (order.map fun tid => (state.txns tid).footprint) ∧
      ((∀ tid, (state.txns tid).Decided → (state.txns tid).Committed) →
        ∀ key, replay value₀ (order.map fun tid => (state.txns tid).footprint) key =
          (state.records key).value) ∧
      ∀ middle, Reach (step config) NoWrap (State.initial seq₀ value₀) middle →
        Reach (step config) NoWrap middle state →
        ∀ first second, (middle.txns first).Committed → (middle.txns second).stage = .idle →
          (state.txns second).Decided → [first, second].Sublist order := by
  have inv := inv_of_reach reach
  refine ⟨state.serialOrder, inv.order_nodup.filter _, fun _ => inv.mem_serialOrder,
    inv.versionOrder.serial, fun returned key => inv.replay_eq ?_, ?_⟩
  · intro tid item decided member _
    have committed := returned tid decided
    rw [Txn.Committed] at committed
    simp [Txn.Installed, member, committed]
  · intro middle before run first second returned waiting decided
    exact serialOrder_realTime before run returned waiting decided

/-- One transaction writes record 0. -/
def writerRun : List (Action Nat Nat Bool) :=
  [.begin false, .write false 0, .modify false 0 5, .commit false, .lockItem false 0,
    .resume false, .resume false, .commitItem false 0, .resume false]

/-- Another one reads it. -/
def readerRun : List (Action Nat Nat Bool) :=
  [.begin true, .read true 0, .commit true, .resume true, .validateItem true 0, .resume true,
    .resume true]

theorem strictly_serializable_pair :
    ∃ state : State Nat Nat Bool Bool, ∃ order : List Bool,
      Serial (fun _ => 10) (order.map fun tid => (state.txns tid).footprint) ∧
        (state.txns true).Committed ∧ [false, true].Sublist order := by
  have reached : ∃ middle : State Nat Nat Bool Bool,
      Reach (step pairConfig) NoWrap (State.initial (fun _ => 0) (fun _ => 10)) middle ∧
        (middle.txns false).Committed ∧ (middle.txns true).stage = .idle ∧
        (exec (step pairConfig) NoWrap middle readerRun).any
          (fun state => decide (state.txns true).Committed) = true :=
    Reach.exists_of_exec writerRun (by decide +kernel)
  obtain ⟨middle, before, returned, waiting, ends⟩ := reached
  obtain ⟨state, run, committed⟩ := Reach.exists_of_exec readerRun ends
  obtain ⟨order, -, -, serial, -, realTime⟩ :=
    strictly_serializable pairConfig (fun _ => 0) (fun _ => 10) state (before.trans run)
  have decided : (state.txns true).Decided := by
    rw [Txn.Decided, committed]
    trivial
  exact ⟨state, order, serial, committed,
    realTime middle before run false true returned waiting decided⟩

end Rocc.Occ
