import Rocc.Base.Program
import Rocc.Mvcc.Serializability

/-!
# Transaction programs over multi-version concurrency control

Every coroutine runs the program of its transaction, which may load a record for writing that it
has loaded for reading before.
-/

set_option linter.unusedSectionVars false

namespace Rocc.Mvcc

open Rtx

universe u v w

variable {Key : Type u} {Value : Type v} {Tid : Type w}

/-- The protocol, and what is left of the program of each transaction. -/
structure Running (Key : Type u) (Value : Type v) (Tid : Type w) where
  mvcc : State Key Value Tid
  code : Tid → Program Key Value

namespace Running

/-- One step of a coroutine or of a handler. -/
inductive Action (Tid : Type w) where
  | begin (tid : Tid)
  /-- The program of the transaction makes its next call. -/
  | call (tid : Tid)
  | abort (tid : Tid)
  | updateItem (tid : Tid) (machine : Nat)
  | releaseItem (tid : Tid) (machine : Nat)
  | resume (tid : Tid)

variable [DecidableEq Key] [DecidableEq Tid]

/-- The next call of a program. -/
def nextCall (tid : Tid) : Program Key Value → Mvcc.Action Key Value Tid
  | .commit => .commit tid
  | .read key _ => .read tid key
  | .write key _ => .write tid key
  | .modify key data _ => .modify tid key data

/-- The step of the protocol. -/
def toMvcc (state : Running Key Value Tid) : Action Tid → Mvcc.Action Key Value Tid
  | .begin tid => .begin tid
  | .call tid => nextCall tid (state.code tid)
  | .abort tid => .abort tid
  | .updateItem tid machine => .updateItem tid machine
  | .releaseItem tid machine => .releaseItem tid machine
  | .resume tid => .resume tid

/-- The program goes on with the value that was loaded, unless the load has failed. -/
def goOn (txn : Txn Key Value) : Program Key Value → Program Key Value
  | .commit => .commit
  | .read key next =>
      match txn.stage, txn.readSet.getLast? with
      | .execute, some item => next item.value
      | _, _ => .read key next
  | .write key next =>
      match txn.stage, txn.writeSet.getLast? with
      | .execute, some item => next item.value
      | _, _ => .write key next
  | .modify _ _ rest => rest

/-- What is left of the programs after a step. -/
def codeAfter (state : Running Key Value Tid) (mvcc : State Key Value Tid) :
    Action Tid → Tid → Program Key Value
  | .call tid => Function.update state.code tid (goOn (mvcc.txns tid) (state.code tid))
  | _ => state.code

/-- The step function of the programs and the protocol. -/
def step (config : Config Key Tid) (state : Running Key Value Tid) (action : Action Tid) :
    Option (Running Key Value Tid) :=
  (Mvcc.step config state.mvcc (state.toMvcc action)).map fun mvcc =>
    { mvcc, code := state.codeAfter mvcc action }

/-- No transaction has begun. -/
def initial (value : Key → Value) (program : Tid → Program Key Value) : Running Key Value Tid where
  mvcc := State.initial value
  code := program

end Running

/-! ## What a step does to its transaction -/

variable [DecidableEq Key] [DecidableEq Tid]

/-- The transaction a step belongs to. -/
def Action.tid : Action Key Value Tid → Tid
  | .begin tid => tid
  | .read tid _ => tid
  | .write tid _ => tid
  | .modify tid _ _ => tid
  | .commit tid => tid
  | .abort tid => tid
  | .updateItem tid _ => tid
  | .releaseItem tid _ => tid
  | .resume tid => tid

/-- The transaction neither waits to begin nor executes. -/
def Stage.Ending : Stage Key Value → Prop
  | .idle => False
  | .execute => False
  | _ => True

/-- What a step does to its transaction. -/
def Advances (before after : Txn Key Value) : Action Key Value Tid → Prop
  | .begin _ => before.stage = .idle ∧ after = { stage := .execute, readSet := [], writeSet := [] }
  | .read _ key => before.stage = .execute ∧
      (((∀ item ∈ before.readSet ++ before.writeSet, item.key ≠ key) ∧
          ∃ item, item.key = key ∧ after = { before with readSet := before.readSet ++ [item] }) ∨
        after = { before with stage := .release before.writeSet })
  | .write _ key => before.stage = .execute ∧
      (((∀ item ∈ before.writeSet, item.key ≠ key) ∧
          ∃ item, item.key = key ∧ item.data = item.value ∧
            after = { before with writeSet := before.writeSet ++ [item] }) ∨
        after = { before with stage := .release before.writeSet })
  | .modify _ key data => before.stage = .execute ∧
      after = { before with
        writeSet := before.writeSet.map fun item =>
          if item.key = key then { item with data } else item }
  | .commit _ => before.stage = .execute ∧
      after = { before with stage := .update before.writeSet }
  | .abort _ => before.stage = .execute ∧
      after = { before with stage := .release before.writeSet }
  | _ => before.stage.Ending ∧ ∃ stage, stage.Ending ∧
      (({ before with stage } : Txn Key Value).Decided ↔ before.Decided) ∧
        after = { before with stage }

variable {config : Config Key Tid} {before after state : State Key Value Tid}
variable {action : Action Key Value Tid}

/-- A step leaves the other transactions alone. -/
theorem advances_step (stepped : step config before action = some after) :
    ∃ txn, after.txns = Function.update before.txns action.tid txn ∧
      Advances (before.txns action.tid) txn action := by
  cases action with
  | begin tid =>
      rw [step, begin] at stepped
      split at stepped
      · rename_i idle
        cases stepped
        exact ⟨_, rfl, idle, rfl⟩
      · cases stepped
  | read tid key =>
      simp only [step, read] at stepped
      split at stepped
      · rename_i executes
        split at stepped
        · rename_i fresh
          split at stepped
          · cases stepped
            exact ⟨_, rfl, executes, .inr rfl⟩
          · cases stepped
            exact ⟨_, rfl, executes, .inl ⟨fresh, _, rfl, rfl⟩⟩
        · cases stepped
      · cases stepped
  | write tid key =>
      simp only [step, write] at stepped
      split at stepped
      · rename_i executes
        split at stepped
        · rename_i fresh
          split at stepped
          · cases stepped
          · cases stepped
            exact ⟨_, rfl, executes, .inl ⟨fresh, _, rfl, rfl, rfl⟩⟩
          · cases stepped
            exact ⟨_, rfl, executes, .inr rfl⟩
          · cases stepped
            exact ⟨_, rfl, executes, .inr rfl⟩
        · cases stepped
      · cases stepped
  | modify tid key data =>
      simp only [step, modify] at stepped
      split at stepped
      · rename_i executes
        cases stepped
        exact ⟨_, rfl, executes, rfl⟩
      · cases stepped
  | commit tid =>
      rw [step, commit] at stepped
      split at stepped
      · rename_i executes
        cases stepped
        exact ⟨_, rfl, executes, rfl⟩
      · cases stepped
  | abort tid =>
      rw [step, abort] at stepped
      split at stepped
      · rename_i executes
        cases stepped
        exact ⟨_, rfl, executes, rfl⟩
      · cases stepped
  | updateItem tid machine =>
      simp only [step, updateItem] at stepped
      split at stepped
      · rename_i updating
        obtain ⟨⟨item, rest⟩, _, updated⟩ := Option.bind_eq_some_iff.mp stepped
        obtain ⟨record, _, rfl⟩ := Option.map_eq_some_iff.mp updated
        exact ⟨_, rfl, by simp [Action.tid, updating, Stage.Ending], _, by trivial,
          by simp [Action.tid, Txn.Decided, updating], rfl⟩
      · cases stepped
  | releaseItem tid machine =>
      simp only [step, releaseItem] at stepped
      split at stepped
      · rename_i releasing
        obtain ⟨⟨item, rest⟩, _, released⟩ := Option.bind_eq_some_iff.mp stepped
        obtain ⟨record, _, rfl⟩ := Option.map_eq_some_iff.mp released
        exact ⟨_, rfl, by simp [Action.tid, releasing, Stage.Ending], _, by trivial,
          by simp [Action.tid, Txn.Decided, releasing], rfl⟩
      · cases stepped
  | resume tid =>
      simp only [step, resume] at stepped
      split at stepped
      case h_3 => cases stepped
      all_goals
        rename_i resumed
        cases stepped
        exact ⟨_, rfl, by simp [Action.tid, resumed, Stage.Ending], _, by trivial,
          by simp [Action.tid, Txn.Decided, resumed], rfl⟩

/-! ## The invariant -/

/-- A transaction that loads a record for reading and for writing loads one value. -/
theorem Inv.value_eq {value : Key → Value} (inv : Inv config value state) {tid : Tid}
    (executes : (state.txns tid).stage = .execute) {read write : ReadSetItem Key Value}
    (readMember : read ∈ (state.txns tid).readSet) (writeMember : write ∈ (state.txns tid).writeSet)
    (same : read.key = write.key) : read.value = write.value := by
  have held : write ∈ (state.txns tid).holds := by rwa [Txn.holds, executes]
  have selected := (inv.holds tid write held).selected
  rw [← same] at selected
  exact (inv.reads tid read readMember).selected.value_eq (inv.window read.key).growing selected

namespace Running

/-- Where a program is while its transaction is at this stage. -/
structure TxnInv (program : Program Key Value) (txn : Txn Key Value) (code : Program Key Value) :
    Prop where
  waits : txn.stage = .idle → code = program
  executes : txn.stage = .execute → Program.Goes program txn.footprint code
  ended : txn.Decided → Program.Goes program txn.footprint .commit

namespace TxnInv

variable {tid : Tid} {one : Program Key Value} {txn next : Txn Key Value}
variable {code : Program Key Value}

/-- A step of a transaction that does not execute any more. -/
theorem stage (inv : TxnInv one txn code) {stage : Stage Key Value} (ending : stage.Ending)
    (decided : ({ txn with stage } : Txn Key Value).Decided → txn.Decided) :
    TxnInv one { txn with stage } code where
  waits idle := by
    dsimp only at idle
    subst idle
    exact ending.elim
  executes executes := by
    dsimp only at executes
    subst executes
    exact ending.elim
  ended isDecided := inv.ended (decided isDecided)

/-- The transaction gives up. -/
theorem release (inv : TxnInv one txn code) :
    TxnInv one { txn with stage := .release txn.writeSet } code :=
  inv.stage (by trivial) False.elim

/-- The program makes its next call. -/
theorem call (inv : TxnInv one txn code) (advances : Advances txn next (nextCall tid code))
    (sameValue : next.stage = .execute → ∀ read ∈ next.readSet, ∀ write ∈ next.writeSet,
      read.key = write.key → read.value = write.value) :
    TxnInv one next (goOn next code) := by
  cases code with
  | commit =>
      obtain ⟨executes, rfl⟩ := advances
      exact ⟨by simp, by simp, fun _ => inv.executes executes⟩
  | read key rest =>
      obtain ⟨executes, ⟨fresh, item, rfl, rfl⟩ | rfl⟩ := advances
      · have reads := Program.ofSets_read ReadSetItem.value ReadSetItem.data fresh
        have goes := (inv.executes executes).read
          (Program.ofSets_fresh ReadSetItem.value ReadSetItem.data fresh) reads rfl
        simp only [goOn, executes, List.getLast?_concat]
        exact ⟨by simp, fun _ => goes, by simp [Txn.Decided]⟩
      · exact inv.release
  | write key rest =>
      obtain ⟨executes, ⟨fresh, item, rfl, sameData, rfl⟩ | rfl⟩ := advances
      · simp only [goOn, executes, List.getLast?_concat]
        refine ⟨by simp, fun _ => ?_, by simp [Txn.Decided]⟩
        by_cases loaded : ∃ other ∈ txn.readSet, other.key = item.key
        · obtain ⟨other, member, same⟩ := loaded
          obtain ⟨reads, writes⟩ := Program.ofSets_readWrite ReadSetItem.value ReadSetItem.data
            member same fresh
          rw [sameData] at writes
          refine (inv.executes executes).rewrite ?_ reads writes
          have isSome : (txn.readSet.find? (·.key = item.key)).isSome :=
            List.find?_isSome.mpr ⟨other, member, by simpa using same⟩
          obtain ⟨first, found⟩ := Option.isSome_iff_exists.mp isSome
          have firstKey : first.key = item.key := by simpa using List.find?_some found
          simp only [Txn.footprint, List.find?_append, found, Option.some_or, Option.map_some]
          rw [sameValue executes first (List.mem_of_find?_eq_some found) item (by simp) firstKey]
        · have unread : ∀ other ∈ txn.readSet ++ txn.writeSet, other.key ≠ item.key := by
            intro other member same
            rcases List.mem_append.mp member with member | member
            · exact loaded ⟨other, member, same⟩
            · exact fresh other member same
          obtain ⟨reads, writes⟩ := Program.ofSets_write ReadSetItem.value ReadSetItem.data unread
          rw [sameData] at writes
          exact (inv.executes executes).write
            (Program.ofSets_fresh ReadSetItem.value ReadSetItem.data unread) reads writes
      · exact inv.release
  | modify key data rest =>
      obtain ⟨executes, rfl⟩ := advances
      obtain ⟨reads, writes⟩ := @Program.ofSets_modify _ _ _ _ ReadSetItem.key ReadSetItem.value
        ReadSetItem.data txn.readSet txn.writeSet (fun item => { item with data }) key data
        (fun _ => rfl) (fun _ => rfl) fun _ => rfl
      have goes := (inv.executes executes).modify reads writes
      exact ⟨by simp [executes], fun _ => goes, by simp [Txn.Decided, executes]⟩

end TxnInv

variable {value₀ : Key → Value} {program : Tid → Program Key Value}
variable {before state : Running Key Value Tid}

/-- Every step keeps what the programs and their transactions have in common. -/
theorem txnInv_step {action : Action Tid} {mvcc : State Key Value Tid}
    (stays : Inv config value₀ mvcc)
    (inv : ∀ tid, TxnInv (program tid) (before.mvcc.txns tid) (before.code tid))
    (stepped : Mvcc.step config before.mvcc (before.toMvcc action) = some mvcc) (tid : Tid) :
    TxnInv (program tid) (mvcc.txns tid) (before.codeAfter mvcc action tid) := by
  obtain ⟨txn, txns, advances⟩ := advances_step stepped
  have old := inv tid
  have caller (other : Tid) : (nextCall other (before.code other)).tid = other := by
    cases before.code other <;> rfl
  by_cases mine : tid = (before.toMvcc action).tid
  · subst mine
    have here : mvcc.txns (before.toMvcc action).tid = txn := by rw [txns, Function.update_self]
    have sameValue : txn.stage = .execute → ∀ read ∈ txn.readSet, ∀ write ∈ txn.writeSet,
        read.key = write.key → read.value = write.value := by
      rw [← here]
      exact fun executes read readMember write writeMember same =>
        stays.value_eq executes readMember writeMember same
    rw [here]
    cases action with
    | begin tid =>
        obtain ⟨idle, rfl⟩ := advances
        have code := old.waits idle
        have same : codeAfter before mvcc (.begin tid) = before.code := rfl
        rw [same, code]
        exact ⟨by simp, fun _ => .start rfl, by simp [Txn.Decided]⟩
    | call tid =>
        rw [toMvcc, caller] at old advances here
        rw [toMvcc, caller, codeAfter, Function.update_self, here]
        exact old.call advances sameValue
    | abort tid =>
        obtain ⟨_, rfl⟩ := advances
        exact old.release
    | updateItem | releaseItem | resume =>
        obtain ⟨_, stage, ending, decided, rfl⟩ := advances
        exact old.stage ending decided.mp
  · rw [txns, Function.update_of_ne mine]
    have same : before.codeAfter mvcc action tid = before.code tid := by
      cases action with
      | call other =>
          rw [toMvcc, caller] at mine
          exact Function.update_of_ne mine _ _
      | _ => rfl
    rw [same]
    exact old

/-! ## Runs -/

/-- Programs over the protocol are a run of the protocol. -/
theorem mvcc_of_reach
    (reach : Reachable (step config) (initial value₀ program) state) :
    Reachable (Mvcc.step config) (State.initial value₀) state.mvcc := by
  induction reach with
  | refl => exact .refl
  | tail _ fits stepped ih =>
      obtain ⟨mvcc, moved, rfl⟩ := Option.map_eq_some_iff.mp stepped
      exact .tail ih trivial moved

theorem txnInv_of_reach (reach : Reachable (step config) (initial value₀ program) state)
    (tid : Tid) : TxnInv (program tid) (state.mvcc.txns tid) (state.code tid) := by
  induction reach generalizing tid with
  | refl =>
      exact ⟨fun _ => rfl, by simp [initial, State.initial],
        by simp [initial, State.initial, Txn.Decided]⟩
  | tail run _ stepped ih =>
      obtain ⟨mvcc, moved, rfl⟩ := Option.map_eq_some_iff.mp stepped
      have reached := mvcc_of_reach run
      exact txnInv_step (inv_of_reach (.tail reached trivial moved)) ih moved tid

end Running

open Running

/-- A transaction that loads record 0, and then loads it again to add one to it. -/
def readIncrements (_ : Fin 3) : Program Nat Nat :=
  .read 0 fun value => .write 0 fun _ => .modify 0 (value + 1) .commit

/-- The transaction with timestamp 3 goes first, and with it the one with timestamp 4; the one with
timestamp 2 gives up. -/
def readIncrementRun : List (Running.Action (Fin 3)) :=
  [.begin 1, .begin 0, .begin 2, .call 1, .call 0, .call 1, .call 0, .call 1, .call 1,
    .updateItem 1 0, .call 2, .resume 1, .call 2, .call 2, .call 2, .updateItem 2 0, .resume 2,
    .resume 0]

end Rocc.Mvcc
