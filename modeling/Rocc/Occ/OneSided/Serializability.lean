import Rocc.Occ.OneSided.Steps

/-!
# Committed transactions of the one-sided protocol are serializable

The serial order is the one of the related state over RPC.  Sequence words must not wrap
around: after 2 ^ 63 write-backs a record has a sequence word again that some
transaction has loaded long before, and its validation cannot tell.
-/

set_option linter.unusedSectionVars false

namespace Rocc.Occ.OneSided

open Rtx

universe u v w

variable {Key : Type u} {Value : Type v} {Tid : Type w}
variable [DecidableEq Key] [DecidableEq Tid]
variable {config : Config Key Tid} {seq₀ : Key → Nat} {value₀ : Key → Value}
variable {state after : State Key Value Tid} {tid : Tid} {txn : Txn Key Value}
variable {abstract : Occ.State Key Value Tid Tid} {abstractTxn : Occ.Txn Key Value}

/-! ## Related transactions commit the same -/

theorem find?_map_toOcc {Out : Type v} (items : List (Item Key Value)) (key : Key)
    {field : Item Key Value → Out} {abstractField : ReadSetItem Key Value → Out}
    (same : ∀ item, abstractField item.toOcc = field item) :
    ((items.map Item.toOcc).find? (·.key = key)).map abstractField =
      (items.find? (·.key = key)).map field := by
  rw [List.find?_map, Option.map_map]
  exact Option.map_congr fun item _ => same item

theorem TxnRel.footprint (rel : TxnRel txn abstractTxn) :
    abstractTxn.footprint = txn.footprint := by
  simp only [Occ.Txn.footprint, Txn.footprint, rel.readSet, rel.writeSet, ← List.map_append,
    Footprint.mk.injEq]
  constructor
  · funext key
    exact find?_map_toOcc _ key fun _ => rfl
  · funext key
    exact find?_map_toOcc _ key fun _ => rfl

theorem TxnRel.decided (rel : TxnRel txn abstractTxn) :
    abstractTxn.Decided ↔ txn.Decided := by
  have related := rel.stage
  cases stage : txn.stage with
  | finished committed =>
      cases committed <;> cases abstractStage : abstractTxn.stage <;>
        simp_all [StageRel, Txn.Decided, Occ.Txn.Decided]
  | idle | execute | lock | validate | writeBack | release =>
      cases abstractStage : abstractTxn.stage <;>
        simp_all [StageRel, Txn.Decided, Occ.Txn.Decided]

/-- The transaction has passed validation and its value for the record is still to be
written. -/
def Txn.Owes (txn : Txn Key Value) (key : Key) : Prop :=
  match txn.stage with
  | .writeBack posted => ∃ item, (item, false) ∈ posted ∧ item.key = key
  | _ => False

/-- What is no longer owed is installed. -/
theorem TxnRel.installed (rel : TxnRel txn abstractTxn) {item : ReadSetItem Key Value}
    (decided : txn.Decided) (member : item ∈ abstractTxn.writeSet)
    (paid : ¬ txn.Owes item.key) : abstractTxn.Installed item := by
  refine ⟨member, ?_⟩
  cases stage : txn.stage with
  | writeBack posted =>
      obtain ⟨pending, abstractStage, same⟩ := rel.writeBack stage
      rw [abstractStage]
      intro inPending
      obtain ⟨⟨own, written⟩, ownMember, rfl⟩ := List.mem_map.mp (same.mem_iff.mp inPending)
      obtain ⟨posted, unwritten⟩ := List.mem_filter.mp ownMember
      obtain rfl : written = false := by simpa using unwritten
      apply paid
      simp only [Txn.Owes, stage]
      exact ⟨own, posted, rfl⟩
  | finished committed =>
      have related := rel.stage
      cases committed <;> cases abstractStage : abstractTxn.stage <;>
        simp_all [StageRel, Txn.Decided]
  | idle | execute | lock | validate | release => simp [Txn.Decided, stage] at decided

theorem Txn.Committed.decided (committed : txn.Committed) : txn.Decided := by
  rw [Txn.Committed] at committed
  simp [Txn.Decided, committed]

theorem Txn.Committed.not_owes (committed : txn.Committed) (key : Key) : ¬ txn.Owes key := by
  rw [Txn.Committed] at committed
  simp [Txn.Owes, committed]

/-! ## The result -/

/-- The transactions that have passed validation are serializable with the values they
have read and the ones that are stored. -/
def Serializable (value₀ : Key → Value) (state : State Key Value Tid) : Prop :=
  ∃ order : List Tid, order.Nodup ∧
    (∀ tid, tid ∈ order ↔ (state.txns tid).Decided) ∧
    Serial value₀ (order.map fun tid => (state.txns tid).footprint) ∧
    ∀ key, (∀ tid, ¬ (state.txns tid).Owes key) →
      replay value₀ (order.map fun tid => (state.txns tid).footprint) key =
        (state.records key).value

theorem Inv.serializable (inv : Inv config seq₀ value₀ state) : Serializable value₀ state := by
  obtain ⟨abstract, occ, rel⟩ := inv.simulated
  have footprints : (fun tid => (abstract.txns tid).footprint) =
      fun tid => (state.txns tid).footprint := funext fun tid => (rel.txns tid).footprint
  refine ⟨abstract.serialOrder, occ.order_nodup.filter _, ?_, ?_, ?_⟩
  · intro tid
    rw [occ.mem_serialOrder, (rel.txns tid).decided]
  · rw [← footprints]
    exact occ.versionOrder.serial
  · intro key paid
    rw [← footprints, ← rel.value key]
    apply occ.replay_eq
    rintro tid item decided member rfl
    exact (rel.txns tid).installed ((rel.txns tid).decided.mp decided) member (paid tid)

/-- Two transactions and records on two machines. -/
def pairConfig : Config Nat Bool where
  pid key := key % 2
  lockContent tid := tid.toNat + 1
  lockContent_ne_zero := pairWord_ne_zero
  lockContent_injective := pairWord_injective

/-- One transaction moves 5 from record 0 to record 1 while the other one reads record 1
and overwrites record 2. -/
def transferRun : List (Action Nat Nat Bool) :=
  [.begin false, .begin true, .write false 0, .read true 1, .write false 1,
    .modify false 0 5, .modify false 1 15, .write true 2, .modify true 2 7,
    .commit true, .lockVerb true 0, .commit false, .lockVerb true 0, .resume true,
    .lockVerb false 0, .validateVerb true 1, .lockVerb false 1, .lockVerb false 0,
    .resume true, .writeBackVerb true 0, .lockVerb false 1, .resume false, .resume false,
    .writeBackVerb false 1, .writeBackVerb true 0, .writeBackVerb false 0, .resume true,
    .writeBackVerb false 0, .writeBackVerb false 1, .resume false]

/-- The load of the one record and the new value in its buffer. -/
def loadRun (tid : Tid) (data : Value) : List (Action Unit Value Tid) :=
  [.begin tid, .write tid (), .modify tid () data]

/-- A commit nobody interferes with. -/
def commitRun (tid : Tid) : List (Action Unit Value Tid) :=
  [.commit tid, .lockVerb tid 0, .lockVerb tid 0, .resume tid, .resume tid,
    .writeBackVerb tid 0, .writeBackVerb tid 0, .resume tid]

section Solo

variable {config : Config Unit Tid} {state : State Unit Value Tid} {item : Item Unit Value}
variable {data : Value}

theorem exec_loadRun (idle : (state.txns tid).stage = .idle) :
    exec (step config) anyAction state (loadRun tid data) = some (state.setTxn tid
      { stage := .execute, readSet := [],
        writeSet := [{ load () (state.records ()) with data }] }) := by
  simp [exec, loadRun, anyAction, step, begin, write, modify, idle, State.setTxn, Txn.Fresh]

theorem exec_commitRun (machine : config.pid () = 0)
    (loaded : state.txns tid = { stage := .execute, readSet := [], writeSet := [item] })
    (free : (state.records ()).lock = 0) (current : (state.records ()).seq = item.headerSeq) :
    exec (step config) anyAction state (commitRun tid) = some
      { records := Function.update state.records ()
          { lock := 0, seq := (item.headerSeq + 2) % wordBound, value := item.data },
        txns := Function.update state.txns tid
          { stage := .finished true, readSet := [], writeSet := [item.copySeq.advance] },
        events := state.events ++ [.acquired tid () (config.lockContent tid)] ++
          [.released tid () (config.lockContent tid)] } := by
  simp [exec, commitRun, anyAction, step, commit, lockVerb, resume, writeBackVerb, loaded,
    State.setTxn, State.setRecord, State.log, nextFor, Config.at, machine, Item.copySeq,
    Txn.swap, Txn.fetch, receive, Item.found, Item.fetched, casLock, free, current,
    Item.Matches, Item.advance]

end Solo

/-- As many transactions as it takes to wrap a sequence word around, and one more. -/
def wrapConfig : Config Unit (Fin (2 ^ 63 + 1)) where
  pid _ := 0
  lockContent tid := tid.val + 1
  lockContent_ne_zero _ := Nat.succ_ne_zero _
  lockContent_injective left right same := Fin.ext (Nat.succ_injective same)

/-- Transaction 0 has loaded the record, the next `count` transactions have overwritten it
since and the others have not begun. -/
structure Overwritten (count : Nat) (state : State Unit Nat (Fin (2 ^ 63 + 1))) : Prop where
  lock : (state.records ()).lock = 0
  seq : (state.records ()).seq = 2 * count % wordBound
  value : (state.records ()).value = if count = 0 then 10 else 7
  reader : state.txns 0 =
    { stage := .execute, readSet := [],
      writeSet := [{ load () { lock := 0, seq := 0, value := 10 } with data := 7 }] }
  committed : ∀ tid, 0 < tid.val → tid.val ≤ count → (state.txns tid).Committed
  writes : ∀ tid, 0 < tid.val → tid.val ≤ count →
    (state.txns tid).footprint.writes () = some 7
  reads : ∀ tid, tid.val = 1 → tid.val ≤ count →
    (state.txns tid).footprint.reads () = some 10
  idle : ∀ tid, count < tid.val → (state.txns tid).stage = .idle

theorem overwritten_zero :
    Overwritten 0 (State.setTxn (State.initial (fun _ => 0) (fun _ => 10)) 0
      { stage := .execute, readSet := [],
        writeSet := [{ load () { lock := 0, seq := 0, value := 10 } with data := 7 }] }) where
  lock := rfl
  seq := rfl
  value := rfl
  reader := by simp only [State.setTxn, Function.update_self]
  committed tid positive none := absurd positive (by omega)
  writes tid positive none := absurd positive (by omega)
  reads tid isFirst none := absurd isFirst (by omega)
  idle tid positive := by
    have another : tid ≠ 0 := by
      rintro rfl
      exact Nat.lt_irrefl _ positive
    simp [State.setTxn, State.initial, another]

/-- The next transaction overwrites the record. -/
theorem Overwritten.next {count : Nat} {state : State Unit Nat (Fin (2 ^ 63 + 1))}
    (old : Overwritten count state) (few : count < 2 ^ 63) :
    ∃ after, Reachable (step wrapConfig) state after ∧ Overwritten (count + 1) after := by
  let writer : Fin (2 ^ 63 + 1) := ⟨count + 1, by omega⟩
  have notReader : (0 : Fin (2 ^ 63 + 1)) ≠ writer := by
    intro same
    have := congrArg Fin.val same
    simp [writer] at this
  have loaded : exec (step wrapConfig) anyAction state (loadRun writer 7) = some _ :=
    exec_loadRun (old.idle writer (Nat.lt_succ_self count))
  have stored : exec (step wrapConfig) anyAction
      (state.setTxn writer
        { stage := .execute, readSet := [],
          writeSet := [{ load () (state.records ()) with data := 7 }] })
      (commitRun writer) = some _ :=
    exec_commitRun rfl (Function.update_self writer _ state.txns) old.lock rfl
  refine ⟨_, (Reach.refl.of_exec loaded).of_exec stored, ?_⟩
  have earlier : ∀ tid, tid ≠ writer → tid.val ≤ count + 1 → tid.val ≤ count := by
    intro tid another bounded
    have different : tid.val ≠ count + 1 := fun same => another (Fin.ext same)
    omega
  constructor
  · simp
  · simp only [Function.update_self, load, old.seq, Nat.mod_add_mod]
    congr 1
  · simp
  · simp [State.setTxn, notReader, old.reader]
  · intro tid positive bounded
    rcases eq_or_ne tid writer with rfl | another
    · simp [Txn.Committed]
    · simpa [State.setTxn, another] using old.committed tid positive (earlier tid another bounded)
  · intro tid positive bounded
    rcases eq_or_ne tid writer with rfl | another
    · simp [Txn.footprint, Item.advance, Item.copySeq]
    · simpa [State.setTxn, another] using old.writes tid positive (earlier tid another bounded)
  · intro tid isFirst bounded
    rcases eq_or_ne tid writer with rfl | another
    · have fresh : count = 0 := by simpa [writer] using isFirst
      simp [Txn.footprint, Item.advance, Item.copySeq, load, old.value, fresh]
    · simpa [State.setTxn, another] using old.reads tid isFirst (earlier tid another bounded)
  · intro tid later
    have another : tid ≠ writer := by
      rintro rfl
      simp [writer] at later
    simpa [State.setTxn, another] using old.idle tid (by omega)

theorem exists_overwritten (count : Nat) (few : count ≤ 2 ^ 63) :
    ∃ state, Reachable (step wrapConfig) (State.initial (fun _ => 0) (fun _ => 10)) state ∧
      Overwritten count state := by
  induction count with
  | zero =>
      have executed : exec (step wrapConfig) anyAction
          (State.initial (fun _ => 0) (fun _ => 10)) (loadRun 0 7) = some _ :=
        exec_loadRun rfl
      exact ⟨_, Reach.refl.of_exec executed, overwritten_zero⟩
  | succ count ih =>
      obtain ⟨state, reach, old⟩ := ih (by omega)
      obtain ⟨after, more, next⟩ := old.next (by omega)
      exact ⟨after, reach.trans more, next⟩

/-- Transaction 0 overwrites the record although its load is stale. -/
theorem exists_stale :
    ∃ state : State Unit Nat (Fin (2 ^ 63 + 1)),
      Reachable (step wrapConfig) (State.initial (fun _ => 0) (fun _ => 10)) state ∧
      (∀ tid, (state.txns tid).Committed) ∧
      (∀ tid, (state.txns tid).footprint.writes () = some 7) ∧
      (state.txns 0).footprint.reads () = some 10 ∧
      (state.txns 1).footprint.reads () = some 10 := by
  obtain ⟨before, reach, old⟩ := exists_overwritten (2 ^ 63) le_rfl
  have wrapped : (before.records ()).seq = 0 := by
    rw [old.seq]
    decide
  have executed : exec (step wrapConfig) anyAction before (commitRun 0) = some _ :=
    exec_commitRun rfl old.reader old.lock wrapped
  have positive : ∀ tid : Fin (2 ^ 63 + 1), tid ≠ 0 → 0 < tid.val := fun tid another =>
    Nat.pos_of_ne_zero fun same => another (Fin.ext same)
  have another : (1 : Fin (2 ^ 63 + 1)) ≠ 0 := by decide
  refine ⟨_, reach.of_exec executed, ?_, ?_, ?_, ?_⟩
  · intro tid
    rcases eq_or_ne tid 0 with rfl | another
    · simp [Txn.Committed]
    · simpa [another] using old.committed tid (positive tid another) (by omega)
  · intro tid
    rcases eq_or_ne tid 0 with rfl | another
    · simp [Txn.footprint, Item.advance, Item.copySeq]
    · simpa [another] using old.writes tid (positive tid another) (by omega)
  · simp [Txn.footprint, Item.advance, Item.copySeq, load]
  · simpa [another] using old.reads 1 (by decide) (by decide)

end Rocc.Occ.OneSided
