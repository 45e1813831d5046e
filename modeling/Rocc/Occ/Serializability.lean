import Rocc.Occ.Steps

/-!
# Committed transactions are serializable

The serial order is the order in which the committed transactions finished
locking.  The sequence words are the versions of the certificate: a write-back
installs the sequence word it loaded plus 2, and a read saw the one it loaded.
-/

set_option linter.unusedSectionVars false

namespace Rocc.Occ

open Rtx

universe u v w x

variable {Key : Type u} {Value : Type v} {Tid : Type w} {Owner : Type x}
variable [DecidableEq Key] [DecidableEq Tid] [DecidableEq Owner]
variable {config : Config Key Tid Owner} {seq₀ : Key → Nat} {value₀ : Key → Value}
variable {state : State Key Value Tid Owner} {tid : Tid} {txn : Txn Key Value}

/-! ## Runs -/

/-- The sequence word of a record does not wrap around when it is written back. -/
def NoWrap (state : State Key Value Tid Owner) : Action Key Value Tid → Prop
  | .commitItem _ key => (state.records key).seq + 2 < wordBound
  | _ => True

instance (state : State Key Value Tid Owner) (action : Action Key Value Tid) :
    Decidable (NoWrap state action) := by
  cases action <;> unfold NoWrap <;> infer_instance

theorem inv_initial (config : Config Key Tid Owner) (seq₀ : Key → Nat)
    (value₀ : Key → Value) : Inv config seq₀ value₀ (State.initial seq₀ value₀) where
  running tid active := by simp [State.initial, Stage.Active] at active
  txnOk tid := by
    constructor <;>
      simp [State.initial, Txn.PendingOk, Txn.Secured, Txn.Installed]
  lockOwner key locked := by simp [State.initial] at locked
  loaded tid item member := by simp [State.initial] at member
  current key := .inl ⟨rfl, rfl⟩
  order_nodup := List.nodup_nil
  order_mem tid alive := by simp [State.initial, Txn.Alive] at alive
  order_stage tid member := by simp [State.initial] at member
  ordered := List.Pairwise.nil

/-- One step of the system keeps the invariant. -/
theorem inv_step {before after : State Key Value Tid Owner}
    {action : Action Key Value Tid} (inv : Inv config seq₀ value₀ before)
    (fits : NoWrap before action) (stepped : step config before action = some after) :
    Inv config seq₀ value₀ after := by
  cases action with
  | begin tid => exact inv_begin inv stepped
  | read tid key => exact inv_read inv stepped
  | write tid key => exact inv_write inv stepped
  | modify tid key data => exact inv_modify inv stepped
  | commit tid => exact inv_commit inv stepped
  | lockItem tid machine => exact inv_lockItem inv stepped
  | validateItem tid machine => exact inv_validateItem inv stepped
  | commitItem tid key => exact inv_commitItem inv fits stepped
  | releaseItem tid machine => exact inv_releaseItem inv stepped
  | resume tid => exact inv_resume inv stepped

/-- The invariant holds in every state of every run. -/
theorem inv_of_reach
    (reach : Reach (step config) NoWrap (State.initial seq₀ value₀) state) :
    Inv config seq₀ value₀ state :=
  reach.invariant _ (inv_initial config seq₀ value₀) fun _ _ _ inv fits stepped =>
    inv_step inv fits stepped

/-! ## Reading footprints -/

instance (txn : Txn Key Value) : Decidable txn.Decided := by
  unfold Txn.Decided
  split <;> infer_instance

theorem Txn.Decided.alive (decided : txn.Decided) : txn.Alive := by
  cases stage : txn.stage with
  | finished committed => cases committed <;> simp_all [Txn.Decided, Txn.Alive]
  | _ => simp_all [Txn.Decided, Txn.Alive]

theorem Txn.Decided.validated (decided : txn.Decided) {item : ReadSetItem Key Value}
    (member : item ∈ txn.readSet) : txn.Validated item := by
  refine ⟨member, ?_⟩
  cases stage : txn.stage with
  | finished committed => cases committed <;> simp_all [Txn.Decided]
  | _ => simp_all [Txn.Decided]

theorem Txn.Installed.decided {item : ReadSetItem Key Value}
    (installed : txn.Installed item) : txn.Decided := by
  have reached := installed.2
  cases stage : txn.stage with
  | finished committed => cases committed <;> simp_all [Txn.Decided]
  | _ => simp_all [Txn.Decided]

/-- Sequence word a transaction loaded for a record. -/
def Txn.seqOf (txn : Txn Key Value) (key : Key) : Nat :=
  (((txn.readSet ++ txn.writeSet).find? (·.key = key)).map (·.seq)).getD 0

section Footprints

variable {records : Key → Record Value} (ok : TxnOk config seq₀ records tid txn)
include ok

theorem TxnOk.seqOf_eq {item : ReadSetItem Key Value}
    (member : item ∈ txn.readSet ++ txn.writeSet) : txn.seqOf item.key = item.seq := by
  simp [Txn.seqOf, find?_of_nodup ok.keys_nodup member]

theorem TxnOk.reads_eq_some {key : Key} {value : Value}
    (read : txn.footprint.reads key = some value) :
    ∃ item ∈ txn.readSet ++ txn.writeSet, item.key = key ∧ item.value = value ∧
      txn.seqOf key = item.seq := by
  obtain ⟨item, found, rfl⟩ := Option.map_eq_some_iff.mp read
  have member := List.mem_of_find?_eq_some found
  have sameKey : item.key = key := by simpa using List.find?_some found
  exact ⟨item, member, sameKey, rfl, sameKey ▸ ok.seqOf_eq member⟩

theorem TxnOk.writes_eq_some {key : Key} {value : Value}
    (written : txn.footprint.writes key = some value) :
    ∃ item ∈ txn.writeSet, item.key = key ∧ item.data = value ∧
      txn.seqOf key = item.seq := by
  obtain ⟨item, found, rfl⟩ := Option.map_eq_some_iff.mp written
  have member := List.mem_of_find?_eq_some found
  have sameKey : item.key = key := by simpa using List.find?_some found
  exact ⟨item, member, sameKey, rfl, sameKey ▸ ok.seqOf_eq (by simp [member])⟩

theorem TxnOk.writes_of_mem {item : ReadSetItem Key Value}
    (member : item ∈ txn.writeSet) :
    txn.footprint.writes item.key = some item.data := by
  have keys := ok.keys_nodup
  rw [List.map_append, List.nodup_append] at keys
  simp [Txn.footprint, find?_of_nodup keys.2.1 member]

end Footprints

/-! ## The serial order -/

/-- Decided transactions in the order in which they finished locking. -/
def State.serialOrder (state : State Key Value Tid Owner) : List Tid :=
  state.lockOrder.filter fun tid => (state.txns tid).Decided

section Order

variable (inv : Inv config seq₀ value₀ state)
include inv

theorem Inv.mem_serialOrder : tid ∈ state.serialOrder ↔ (state.txns tid).Decided := by
  simp only [State.serialOrder, List.mem_filter, decide_eq_true_eq]
  exact ⟨fun member => member.2, fun decided =>
    ⟨inv.order_mem tid decided.alive, decided⟩⟩

theorem Inv.serialOrder_ordered : state.serialOrder.Pairwise fun earlier later =>
    (state.txns earlier).Ordered (state.txns later) ∧
      (state.txns earlier).Decided ∧ (state.txns later).Decided := by
  have filtered := inv.ordered.filter fun tid => decide (state.txns tid).Decided
  refine filtered.imp_of_mem fun {earlier later} earlierMember laterMember before => ?_
  have earlierDecided := inv.mem_serialOrder.mp earlierMember
  have laterDecided := inv.mem_serialOrder.mp laterMember
  exact ⟨before earlierDecided.alive laterDecided.alive, earlierDecided, laterDecided⟩

/-- A version written back is installed by a decided transaction and recorded in
its footprint. -/
theorem Inv.origin_cases {key : Key} {seq : Nat} {value : Value}
    (origin : Origin seq₀ value₀ state.txns key seq value) :
    (seq = seq₀ key ∧ value = value₀ key) ∨
      ∃ writer ∈ state.serialOrder,
        (state.txns writer).footprint.writes key = some value ∧
        (state.txns writer).seqOf key + 2 = seq := by
  rcases origin with initial | ⟨writer, item, installed, rfl, version, rfl⟩
  · exact .inl initial
  · have ok := inv.txnOk writer
    exact .inr ⟨writer, inv.mem_serialOrder.mpr installed.decided,
      ok.writes_of_mem installed.1,
      by rw [ok.seqOf_eq (by simp [installed.1])]; exact version⟩

/-- The sequence words certify the serial order. -/
theorem Inv.versionOrder :
    VersionOrder value₀ (fun tid => (state.txns tid).footprint)
      (fun tid key => (state.txns tid).seqOf key + 2)
      (fun tid key => (state.txns tid).seqOf key) state.serialOrder where
  writeWrite := by
    refine inv.serialOrder_ordered.imp fun {earlier later} before key wrote writes => ?_
    obtain ⟨_, wrote⟩ := Option.ne_none_iff_exists'.mp wrote
    obtain ⟨_, writes⟩ := Option.ne_none_iff_exists'.mp writes
    obtain ⟨left, leftMember, leftKey, -, leftSeq⟩ := (inv.txnOk earlier).writes_eq_some wrote
    obtain ⟨right, rightMember, rightKey, -, rightSeq⟩ := (inv.txnOk later).writes_eq_some writes
    have grows := before.1.writeWrite left leftMember right rightMember
      (leftKey.trans rightKey.symm)
    omega
  writeRead := by
    refine inv.serialOrder_ordered.imp fun {earlier later} before key wrote reads => ?_
    obtain ⟨_, wrote⟩ := Option.ne_none_iff_exists'.mp wrote
    obtain ⟨_, reads⟩ := Option.ne_none_iff_exists'.mp reads
    obtain ⟨left, leftMember, leftKey, -, leftSeq⟩ := (inv.txnOk earlier).writes_eq_some wrote
    obtain ⟨right, rightMember, rightKey, -, rightSeq⟩ := (inv.txnOk later).reads_eq_some reads
    have sameKey := leftKey.trans rightKey.symm
    have grows : left.seq + 2 ≤ right.seq := by
      rcases List.mem_append.mp rightMember with member | member
      · exact before.1.writeRead left leftMember right (before.2.2.validated member) sameKey
      · exact before.1.writeWrite left leftMember right member sameKey
    omega
  readWrite := by
    refine inv.serialOrder_ordered.imp fun {earlier later} before key reads writes => ?_
    obtain ⟨_, reads⟩ := Option.ne_none_iff_exists'.mp reads
    obtain ⟨_, writes⟩ := Option.ne_none_iff_exists'.mp writes
    obtain ⟨left, leftMember, leftKey, -, leftSeq⟩ := (inv.txnOk earlier).reads_eq_some reads
    obtain ⟨right, rightMember, rightKey, -, rightSeq⟩ := (inv.txnOk later).writes_eq_some writes
    have sameKey := leftKey.trans rightKey.symm
    have grows : left.seq ≤ right.seq := by
      rcases List.mem_append.mp leftMember with member | member
      · exact before.1.readWrite left member right rightMember sameKey
      · have := before.1.writeWrite left member right rightMember sameKey
        omega
    omega
  origin := by
    intro reader readerMember key value read
    have ok := inv.txnOk reader
    obtain ⟨item, member, sameKey, sameValue, seen⟩ := ok.reads_eq_some read
    have origin := inv.loaded reader item member
    rw [sameKey, sameValue, ← seen] at origin
    rcases inv.origin_cases origin with
      ⟨initial, sameInit⟩ | ⟨writer, writerMember, written, version⟩
    · refine .inl ⟨sameInit, ?_⟩
      intro writer _ _ written
      obtain ⟨_, written⟩ := Option.ne_none_iff_exists'.mp written
      obtain ⟨other, otherMember, otherKey, -, otherSeq⟩ :=
        (inv.txnOk writer).writes_eq_some written
      have bounds := (inv.txnOk writer).seen other (by simp [otherMember])
      rw [otherKey] at bounds
      omega
    · refine .inr ⟨writer, writerMember, ?_, written, version⟩
      rintro rfl
      omega

/-- A record nobody still has to write back carries the replayed value. -/
theorem Inv.replay_eq {key : Key}
    (settled : ∀ tid item, (state.txns tid).Decided → item ∈ (state.txns tid).writeSet →
      item.key = key → (state.txns tid).Installed item) :
    replay value₀ (state.serialOrder.map fun tid => (state.txns tid).footprint) key =
      (state.records key).value := by
  have bounded : ∀ writer ∈ state.serialOrder,
      (state.txns writer).footprint.writes key ≠ none →
      seq₀ key ≤ (state.txns writer).seqOf key ∧
        (state.txns writer).seqOf key + 2 ≤ (state.records key).seq := by
    intro writer member written
    have ok := inv.txnOk writer
    obtain ⟨_, written⟩ := Option.ne_none_iff_exists'.mp written
    obtain ⟨item, itemMember, rfl, -, seen⟩ := ok.writes_eq_some written
    have installed := settled writer item (inv.mem_serialOrder.mp member) itemMember rfl
    have bounds := ok.seen item (by simp [itemMember])
    have version := ok.installed item installed
    omega
  rcases inv.origin_cases (inv.current key) with
    ⟨initial, sameInit⟩ | ⟨writer, member, written, version⟩
  · rw [sameInit]
    apply replay_of_not_writes
    intro image imageMember
    obtain ⟨writer, member, rfl⟩ := List.mem_map.mp imageMember
    by_contra written
    have bounds := bounded writer member written
    omega
  · apply replay_of_latest (fun tid key => (state.txns tid).seqOf key + 2) _ member written
    · intro other otherMember otherWritten
      have bounds := bounded other otherMember otherWritten
      omega
    · exact inv.versionOrder.writeWrite.imp fun grows => grows key

end Order

/-- In every state of every run without wrap-around, the transactions that have
passed validation are serializable: one order of them hands each transaction the
values it loaded for its read and its write set and leaves the values of all
records that no transaction still has to write back.  Once each of them has
returned from `commit` the order lists exactly the committed transactions and
leaves every record value. -/
theorem committed_serializable (config : Config Key Tid Owner) (seq₀ : Key → Nat)
    (value₀ : Key → Value) (state : State Key Value Tid Owner)
    (reach : Reach (step config) NoWrap (State.initial seq₀ value₀) state) :
    ∃ order : List Tid, order.Nodup ∧
      (∀ tid, tid ∈ order ↔ (state.txns tid).Decided) ∧
      Serial value₀ (order.map fun tid => (state.txns tid).footprint) ∧
      (∀ key, (∀ tid item, (state.txns tid).Decided → item ∈ (state.txns tid).writeSet →
          item.key = key → (state.txns tid).Installed item) →
        replay value₀ (order.map fun tid => (state.txns tid).footprint) key =
          (state.records key).value) ∧
      ((∀ tid, (state.txns tid).Decided → (state.txns tid).Committed) →
        (∀ tid, tid ∈ order ↔ (state.txns tid).Committed) ∧
        ∀ key, replay value₀ (order.map fun tid => (state.txns tid).footprint) key =
          (state.records key).value) := by
  have inv := inv_of_reach reach
  refine ⟨state.serialOrder, inv.order_nodup.filter _, fun _ => inv.mem_serialOrder,
    inv.versionOrder.serial, fun _ settled => inv.replay_eq settled, ?_⟩
  intro returned
  constructor
  · intro tid
    rw [inv.mem_serialOrder]
    refine ⟨returned tid, fun committed => ?_⟩
    rw [Txn.Committed] at committed
    simp [Txn.Decided, committed]
  · intro key
    apply inv.replay_eq
    intro tid item decided member _
    have committed := returned tid decided
    rw [Txn.Committed] at committed
    simp [Txn.Installed, member, committed]

/-- Two coroutines, each with one transaction, and records on two machines. -/
def pairConfig : Config Nat Bool Bool where
  pid key := key % 2
  owner tid := tid
  lockContent owner := owner.toNat + 1
  lockContent_ne_zero := pairWord_ne_zero
  lockContent_injective := pairWord_injective

/-- One transaction moves 5 from record 0 to record 1 while the other one reads
record 1 and overwrites record 2. -/
def transferRun : List (Action Nat Nat Bool) :=
  [.begin false, .begin true, .write false 0, .read true 1, .write false 1,
    .modify false 0 5, .modify false 1 15, .write true 2, .modify true 2 7,
    .commit true, .lockItem true 0, .resume true, .validateItem true 1,
    .commit false, .lockItem false 1, .resume true, .lockItem false 0,
    .resume false, .commitItem true 2, .resume true, .resume false,
    .commitItem false 1, .commitItem false 0, .resume false]

theorem committed_serializable_transfer :
    ∃ state : State Nat Nat Bool Bool,
      ((state.txns false).Committed ∧ (state.txns true).Committed) ∧
      ∃ order : List Bool, (∀ tid, tid ∈ order ↔ (state.txns tid).Decided) ∧
        Serial (fun _ => 10) (order.map fun tid => (state.txns tid).footprint) := by
  have reached : ∃ state : State Nat Nat Bool Bool,
      Reach (step pairConfig) NoWrap (State.initial (fun _ => 0) (fun _ => 10)) state ∧
        (state.txns false).Committed ∧ (state.txns true).Committed :=
    Reach.exists_of_exec transferRun (by decide +kernel)
  obtain ⟨state, reach, committed⟩ := reached
  obtain ⟨order, -, members, serial, -⟩ :=
    committed_serializable pairConfig (fun _ => 0) (fun _ => 10) state reach
  exact ⟨state, committed, order, members, serial⟩

end Rocc.Occ
