import Rocc.Base.Program
import Rocc.Occ.RealTime

/-!
# Transaction programs over optimistic concurrency control

Every coroutine runs the program of its transaction: the next call is the one that the program
makes with the values loaded so far.  Between the calls the handlers serve the messages of all
transactions in any order.
-/

set_option linter.unusedSectionVars false

namespace Rocc.Occ

universe u v w x

variable {Key : Type u} {Value : Type v} {Tid : Type w} {Owner : Type x}

/-- The protocol, and what is left of the program of each transaction. -/
structure Running (Key : Type u) (Value : Type v) (Tid : Type w) (Owner : Type x) where
  occ : State Key Value Tid Owner
  code : Tid → Program Key Value

namespace Running

/-- One step of a coroutine or of a handler. -/
inductive Action (Key : Type u) (Tid : Type w) where
  | begin (tid : Tid)
  /-- The program of the transaction makes its next call. -/
  | call (tid : Tid)
  | lockItem (tid : Tid) (machine : Nat)
  | validateItem (tid : Tid) (machine : Nat)
  | commitItem (tid : Tid) (key : Key)
  | releaseItem (tid : Tid) (machine : Nat)
  | resume (tid : Tid)

section Steps

variable [DecidableEq Key] [DecidableEq Tid] [DecidableEq Owner]

/-- The next call of a program. -/
def nextCall (tid : Tid) : Program Key Value → Occ.Action Key Value Tid
  | .commit => .commit tid
  | .read key _ => .read tid key
  | .write key _ => .write tid key
  | .modify key data _ => .modify tid key data

/-- The step of the protocol. -/
def toOcc (state : Running Key Value Tid Owner) : Action Key Tid → Occ.Action Key Value Tid
  | .begin tid => .begin tid
  | .call tid => nextCall tid (state.code tid)
  | .lockItem tid machine => .lockItem tid machine
  | .validateItem tid machine => .validateItem tid machine
  | .commitItem tid key => .commitItem tid key
  | .releaseItem tid machine => .releaseItem tid machine
  | .resume tid => .resume tid

/-- The program goes on with the value that was loaded. -/
def goOn (footprint : Footprint Key Value) : Program Key Value → Program Key Value
  | .commit => .commit
  | .read key next => ((footprint.reads key).map next).getD (.read key next)
  | .write key next => ((footprint.reads key).map next).getD (.write key next)
  | .modify _ _ rest => rest

/-- What is left of the programs after a step. -/
def codeAfter (state : Running Key Value Tid Owner) (occ : State Key Value Tid Owner) :
    Action Key Tid → Tid → Program Key Value
  | .call tid =>
      Function.update state.code tid (goOn (occ.txns tid).footprint (state.code tid))
  | _ => state.code

/-- The step function of the programs and the protocol. -/
def step (config : Config Key Tid Owner) (state : Running Key Value Tid Owner)
    (action : Action Key Tid) : Option (Running Key Value Tid Owner) :=
  (Occ.step config state.occ (state.toOcc action)).map fun occ =>
    { occ, code := state.codeAfter occ action }

/-- No transaction has begun. -/
def initial (seq : Key → Nat) (value : Key → Value) (program : Tid → Program Key Value) :
    Running Key Value Tid Owner where
  occ := State.initial seq value
  code := program

/-- No sequence word wraps around. -/
def NoWrap (state : Running Key Value Tid Owner) (action : Action Key Tid) : Prop :=
  Occ.NoWrap state.occ (state.toOcc action)

instance (state : Running Key Value Tid Owner) (action : Action Key Tid) :
    Decidable (NoWrap state action) :=
  inferInstanceAs (Decidable (Occ.NoWrap _ _))

end Steps

/-! ## The invariant -/

variable [DecidableEq Key] [DecidableEq Tid] [DecidableEq Owner]
variable {config : Config Key Tid Owner} {seq₀ : Key → Nat} {value₀ : Key → Value}
variable {program : Tid → Program Key Value} {before after state : Running Key Value Tid Owner}

/-- Where a program is while its transaction is at this stage. -/
structure TxnInv (program : Program Key Value) (txn : Txn Key Value)
    (code : Program Key Value) : Prop where
  waits : txn.stage = .idle → code = program
  goes : txn.stage ≠ .idle → Program.Goes program txn.footprint code
  ended : txn.stage.Called → code = .commit

/-- The sets of a transaction. -/
theorem footprint_eq (txn : Txn Key Value) :
    txn.footprint =
      Program.ofSets ReadSetItem.key ReadSetItem.value ReadSetItem.data txn.readSet txn.writeSet :=
  rfl

namespace TxnInv

variable {tid : Tid} {one : Program Key Value} {txn next : Txn Key Value}
variable {code : Program Key Value}

/-- `commit` goes on. -/
theorem stage (inv : TxnInv one txn code) (stage : Stage Key Value) (called : stage.Called)
    (started : txn.stage ≠ .idle) (ended : code = .commit) :
    TxnInv one { txn with stage } code where
  waits idle := by
    dsimp only at idle
    rw [idle] at called
    exact called.elim
  goes _ := inv.goes started
  ended _ := ended

/-- The program makes its next call. -/
theorem call (inv : TxnInv one txn code) (advances : Advances txn next (nextCall tid code)) :
    TxnInv one next (goOn next.footprint code) := by
  cases code with
  | commit =>
      obtain ⟨executes, stage, called, rfl⟩ := advances
      exact inv.stage stage called (by simp [executes]) rfl
  | read key rest =>
      obtain ⟨executes, fresh, item, rfl, -, rfl⟩ := advances
      have reads := Program.ofSets_read ReadSetItem.value ReadSetItem.data fresh
      have goes := (inv.goes (by simp [executes])).read
        (Program.ofSets_fresh ReadSetItem.value ReadSetItem.data fresh) reads rfl
      rw [goOn, footprint_eq, reads, Function.update_self]
      exact ⟨by simp [executes], fun _ => goes, by simp [executes, Stage.Called]⟩
  | write key rest =>
      obtain ⟨executes, fresh, item, rfl, sameData, rfl⟩ := advances
      obtain ⟨reads, writes⟩ := Program.ofSets_write ReadSetItem.value ReadSetItem.data fresh
      rw [sameData] at writes
      have goes := (inv.goes (by simp [executes])).write
        (Program.ofSets_fresh ReadSetItem.value ReadSetItem.data fresh) reads writes
      rw [goOn, footprint_eq, reads, Function.update_self]
      exact ⟨by simp [executes], fun _ => goes, by simp [executes, Stage.Called]⟩
  | modify key data rest =>
      obtain ⟨executes, rfl⟩ := advances
      obtain ⟨reads, writes⟩ := @Program.ofSets_modify _ _ _ _ ReadSetItem.key ReadSetItem.value
        ReadSetItem.data txn.readSet txn.writeSet (fun item => { item with data }) key data
        (fun _ => rfl) (fun _ => rfl) fun _ => rfl
      have goes := (inv.goes (by simp [executes])).modify reads writes
      exact ⟨by simp [executes], fun _ => goes, by simp [executes, Stage.Called]⟩

end TxnInv

/-- Every step keeps what the programs and their transactions have in common. -/
theorem txnInv_step {action : Action Key Tid}
    (inv : ∀ tid, TxnInv (program tid) (before.occ.txns tid) (before.code tid))
    (stepped : step config before action = some after) (tid : Tid) :
    TxnInv (program tid) (after.occ.txns tid) (after.code tid) := by
  obtain ⟨occ, moved, rfl⟩ := Option.map_eq_some_iff.mp stepped
  obtain ⟨txn, txns, advances⟩ := (moves_step moved).txns
  have old := inv tid
  dsimp only
  rw [txns]
  by_cases mine : tid = (before.toOcc action).tid
  · subst mine
    rw [Function.update_self]
    have here : occ.txns (before.toOcc action).tid = txn := by rw [txns, Function.update_self]
    cases action with
    | begin tid =>
        obtain ⟨idle, rfl⟩ := advances
        have code := old.waits idle
        have same : codeAfter before occ (.begin tid) = before.code := rfl
        rw [same, code]
        exact ⟨by simp, fun _ => .start rfl, by simp [Stage.Called]⟩
    | call tid =>
        have isTid : (before.toOcc (.call tid)).tid = tid := by
          rw [toOcc]
          cases before.code tid <;> rfl
        rw [isTid] at here old advances ⊢
        rw [codeAfter, Function.update_self, here]
        exact old.call advances
    | lockItem | validateItem | commitItem | releaseItem | resume =>
        obtain ⟨called, _, stage, calledAfter, rfl⟩ := advances
        refine old.stage stage calledAfter ?_ (old.ended called)
        intro idle
        rw [idle] at called
        exact called.elim
  · rw [Function.update_of_ne mine]
    have same : codeAfter before occ action tid = before.code tid := by
      cases action with
      | call other =>
          have isTid : (before.toOcc (.call other)).tid = other := by
            rw [toOcc]
            cases before.code other <;> rfl
          rw [isTid] at mine
          exact Function.update_of_ne mine _ _
      | _ => rfl
    rw [same]
    exact old

/-! ## Runs -/

theorem txnInv_of_reach
    (reach : Reach (step config) NoWrap (initial seq₀ value₀ program) state) (tid : Tid) :
    TxnInv (program tid) (state.occ.txns tid) (state.code tid) :=
  reach.invariant
    (fun one => ∀ tid, TxnInv (program tid) (one.occ.txns tid) (one.code tid))
    (fun _ => ⟨fun _ => rfl, fun started => absurd rfl started, fun called => called.elim⟩)
    (fun _ _ _ inv _ stepped tid => txnInv_step inv stepped tid) tid

/-- Programs over the protocol are a run of the protocol. -/
theorem occ_of_run {middle : Running Key Value Tid Owner}
    (run : Reach (step config) NoWrap middle state) :
    Reach (Occ.step config) Occ.NoWrap middle.occ state.occ := by
  induction run with
  | refl => exact .refl
  | tail _ fits stepped ih =>
      obtain ⟨occ, moved, rfl⟩ := Option.map_eq_some_iff.mp stepped
      exact .tail ih fits moved

end Running

open Running

variable [DecidableEq Key] [DecidableEq Tid] [DecidableEq Owner]

/-- A transaction that has passed validation is at the end of its program. -/
theorem Running.goes_of_decided {config : Config Key Tid Owner} {seq₀ : Key → Nat}
    {value₀ : Key → Value} {program : Tid → Program Key Value}
    {state : Running Key Value Tid Owner}
    (reach : Reach (Running.step config) Running.NoWrap (initial seq₀ value₀ program) state)
    {tid : Tid} (decided : (state.occ.txns tid).Decided) :
    Program.Goes (program tid) (state.occ.txns tid).footprint .commit := by
  have called : (state.occ.txns tid).stage.Called := by
    rw [Txn.Decided] at decided
    split at decided
    all_goals simp_all [Stage.Called]
  have one := txnInv_of_reach reach tid
  rw [← one.ended called]
  refine one.goes fun idle => ?_
  rw [idle] at called
  exact called.elim

/-- The order runs the programs of the transactions that have passed validation, and once all have
returned the records are what the last one leaves. -/
structure Running.IsSequential (value₀ : Key → Value) (program : Tid → Program Key Value)
    (state : Running Key Value Tid Owner) (order : List Tid) : Prop extends
    Program.RunsInOrder program (fun tid => (state.occ.txns tid).footprint) value₀ order where
  nodup : order.Nodup
  mem : ∀ tid, tid ∈ order ↔ (state.occ.txns tid).Decided
  records : (∀ tid, (state.occ.txns tid).Decided → (state.occ.txns tid).Committed) →
    ∀ key, (state.occ.records key).value = Program.sequential program value₀ order key

/-- A transaction that had returned when another one was to begin stands before it. -/
def Running.RealTime (config : Config Key Tid Owner) (seq₀ : Key → Nat) (value₀ : Key → Value)
    (program : Tid → Program Key Value) (state : Running Key Value Tid Owner)
    (order : List Tid) : Prop :=
  ∀ middle, Reach (Running.step config) Running.NoWrap (initial seq₀ value₀ program) middle →
    Reach (Running.step config) Running.NoWrap middle state →
    ∀ first second, (middle.occ.txns first).Committed → (middle.occ.txns second).stage = .idle →
      (state.occ.txns second).Decided → [first, second].Sublist order

section Sequential

variable {config : Config Key Tid Owner} {seq₀ : Key → Nat} {value₀ : Key → Value}
variable {program : Tid → Program Key Value} {state : Running Key Value Tid Owner}

theorem Running.isSequential_of_reach
    (reach : Reach (Running.step config) Running.NoWrap (initial seq₀ value₀ program) state) :
    IsSequential value₀ program state state.occ.serialOrder := by
  have inv := inv_of_reach (occ_of_run reach)
  have serial := inv.versionOrder.serial
  have ended : ∀ tid ∈ state.occ.serialOrder,
      Program.Goes (program tid) (state.occ.txns tid).footprint .commit :=
    fun _ member => goes_of_decided reach (inv.mem_serialOrder.mp member)
  refine ⟨Program.runsInOrder serial ended, inv.order_nodup.filter _, fun _ => inv.mem_serialOrder,
    fun returned key => ?_⟩
  rw [← Program.replay_eq_sequential serial ended, inv.replay_eq]
  intro tid item decided member _
  have committed := returned tid decided
  rw [Txn.Committed] at committed
  simp [Txn.Installed, member, committed]

theorem Running.realTime_of_reach :
    RealTime config seq₀ value₀ program state state.occ.serialOrder :=
  fun _ before run _ _ returned waiting decided =>
    serialOrder_realTime (occ_of_run before) (occ_of_run run) returned waiting decided

/-- A property of the records that every program keeps holds of all records and of all that any
transaction has loaded, in every state of every run, also in the middle of commits and for
transactions that are going to abort. -/
theorem Running.keeps_of_reach
    (reach : Reach (Running.step config) Running.NoWrap (initial seq₀ value₀ program) state)
    {property : Key → Value → Prop} (initially : ∀ key, property key (value₀ key))
    (keeps : ∀ tid, (program tid).Keeps property) :
    (∀ key, property key (state.occ.records key).value) ∧
      ∀ tid key value, (state.occ.txns tid).footprint.reads key = some value →
        property key value := by
  have inv := inv_of_reach (occ_of_run reach)
  have sequential := isSequential_of_reach reach
  have origin {key : Key} {seq : Nat} {value : Value}
      (comes : Origin seq₀ value₀ state.occ.txns key seq value) : property key value := by
    rcases inv.origin_cases comes with ⟨_, rfl⟩ | ⟨writer, member, writes, _⟩
    · exact initially key
    · obtain ⟨first, rest, split⟩ := List.append_of_mem member
      rw [sequential.writes first writer rest split] at writes
      refine keeps writer _ ?_ key value writes
      exact Program.sequential_invariant (fun store => ∀ key, property key (store key)) initially
        fun other _ _ holds => (keeps other).run holds
  refine ⟨fun key => origin (inv.current key), fun tid key value read => ?_⟩
  obtain ⟨item, member, rfl, rfl, _⟩ := (inv.txnOk tid).reads_eq_some read
  exact origin (inv.loaded tid item member)

end Sequential

/-- Every interleaving of transaction programs over optimistic concurrency control is the programs
run one after another, in an order that keeps real time. -/
theorem programs_sequential (config : Config Key Tid Owner) (seq₀ : Key → Nat)
    (value₀ : Key → Value) (program : Tid → Program Key Value)
    (state : Running Key Value Tid Owner)
    (reach : Reach (Running.step config) Running.NoWrap (initial seq₀ value₀ program) state) :
    ∃ order : List Tid, IsSequential value₀ program state order ∧
      RealTime config seq₀ value₀ program state order :=
  ⟨state.occ.serialOrder, isSequential_of_reach reach, realTime_of_reach⟩

/-- Two transactions that each add one to record 0. -/
def increments (_ : Bool) : Program Nat Nat :=
  .write 0 fun value => .modify 0 (value + 1) .commit

/-- The second one loads the record when the first has written it back. -/
def incrementRun : List (Running.Action Nat Bool) :=
  [.begin false, .begin true, .call false, .call false, .call false, .lockItem false 0,
    .resume false, .resume false, .commitItem false 0, .call true, .resume false, .call true,
    .call true, .lockItem true 0, .resume true, .resume true, .commitItem true 0, .resume true]

theorem exists_increments : ∃ state : Running Nat Nat Bool Bool,
    Reach (Running.step pairConfig) Running.NoWrap
        (initial (fun _ => 0) (fun _ => 10) increments) state ∧
      (state.occ.txns false).Committed ∧ (state.occ.txns true).Committed :=
  Reach.exists_of_exec incrementRun (by decide +kernel)

theorem programs_sequential_increments :
    ∃ state : Running Nat Nat Bool Bool, ∃ order : List Bool,
      ((state.occ.txns false).Committed ∧ (state.occ.txns true).Committed) ∧
        ∀ key, (state.occ.records key).value =
          Program.sequential increments (fun _ => 10) order key := by
  obtain ⟨state, reach, committed⟩ := exists_increments
  obtain ⟨order, sequential, -⟩ := programs_sequential pairConfig (fun _ => 0)
    (fun _ => 10) increments state reach
  refine ⟨state, order, committed, sequential.records ?_⟩
  rintro (_ | _) _
  · exact committed.1
  · exact committed.2

end Rocc.Occ
