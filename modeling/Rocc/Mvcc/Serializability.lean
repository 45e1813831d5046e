import Rocc.Mvcc.Steps

/-!
# Timestamp order

Every version handed to a transaction is the one of the committed writer with
the largest timestamp below that of the transaction.  Sorted by timestamp the
committed transactions are therefore a serial execution.
-/

set_option linter.unusedSectionVars false

namespace Rocc.Mvcc

open Rtx

universe u v w

variable {Key : Type u} {Value : Type v} {Tid : Type w}
variable [DecidableEq Key] [DecidableEq Tid]

/-- The version an item was given is that of the committed writer with the largest
timestamp below its transaction's, or the initial one if there is no such writer. -/
structure LatestBelow (config : Config Key Tid) (value : Key → Value)
    (state : State Key Value Tid) (tid : Tid) (item : ReadSetItem Key Value) : Prop where
  below : item.version < config.timestamp tid
  source : (item.version = 1 ∧ item.value = value item.key) ∨
    ∃ writer, (state.txns writer).Decided ∧ config.timestamp writer = item.version ∧
      (state.txns writer).footprint.writes item.key = some item.value
  largest : ∀ writer, (state.txns writer).Decided →
    (state.txns writer).footprint.writes item.key ≠ none →
    config.timestamp writer < config.timestamp tid → config.timestamp writer ≤ item.version

/-- Transactions that have called `commit`, by timestamp. -/
def Config.serialOrder (config : Config Key Tid) (state : State Key Value Tid) : List Tid :=
  state.commits.mergeSort fun left right =>
    decide (config.timestamp left ≤ config.timestamp right)

/-- The version a transaction was given for a key. -/
def Txn.seen (txn : Txn Key Value) (key : Key) : Nat :=
  (((txn.readSet ++ txn.writeSet).find? (·.key = key)).map (·.version)).getD 0

variable {config : Config Key Tid} {value : Key → Value} {state : State Key Value Tid}
variable {tid : Tid}

/-! ## Footprints -/

theorem Txn.reads_eq_some {txn : Txn Key Value} {key : Key} {read : Value}
    (found : txn.footprint.reads key = some read) :
    ∃ item, (item ∈ txn.readSet ∨ item ∈ txn.writeSet) ∧ item.key = key ∧
      item.value = read ∧ txn.seen key = item.version := by
  obtain ⟨item, first, same⟩ := Option.map_eq_some_iff.mp found
  refine ⟨item, List.mem_append.mp (List.mem_of_find?_eq_some first), ?_, same, ?_⟩
  · simpa using List.find?_some first
  · simp [Txn.seen, first]

theorem Txn.writes_ne_none {txn : Txn Key Value} {key : Key}
    (written : txn.footprint.writes key ≠ none) :
    ∃ item ∈ txn.writeSet, item.key = key := by
  obtain ⟨data, found⟩ := Option.ne_none_iff_exists'.mp written
  obtain ⟨item, first, -⟩ := Option.map_eq_some_iff.mp found
  exact ⟨item, List.mem_of_find?_eq_some first, by simpa using List.find?_some first⟩

theorem Inv.writes_of_mem (inv : Inv config value state) {item : ReadSetItem Key Value}
    (member : item ∈ (state.txns tid).writeSet) :
    (state.txns tid).footprint.writes item.key = some item.data := by
  have found := find?_of_nodup (inv.keys_nodup tid) member
  simp [Txn.footprint, found]

/-! ## The latest version below a timestamp -/

/-- A version selected from the history of a record is the latest one as long as the
holder of the record has no smaller timestamp. -/
theorem Inv.latestBelow (inv : Inv config value state) {item : ReadSetItem Key Value}
    (selected : Selected (state.history item.key) (config.timestamp tid) item.version
      item.value)
    (closed : ∀ writer, ∀ held ∈ (state.txns writer).holds, held.key = item.key →
      config.timestamp tid ≤ config.timestamp writer) :
    LatestBelow config value state tid item where
  below := selected.2.1
  source := by
    rcases inv.written item.key _ selected.1 with first | ⟨writer, done, isDone, sameKey, same⟩
    · exact .inl (Prod.mk.inj first)
    · have parts := Prod.mk.inj same
      refine .inr ⟨writer, isDone.1, parts.1.symm, ?_⟩
      rw [← sameKey, parts.2]
      exact inv.writes_of_mem isDone.2.1
  largest := by
    intro writer decided written smaller
    obtain ⟨write, member, sameKey⟩ := Txn.writes_ne_none written
    by_cases held : write ∈ (state.txns writer).holds
    · exact absurd (closed writer write held sameKey) (not_le.mpr smaller)
    · have ok := inv.installed writer write ⟨decided, member, held⟩
      rw [sameKey] at ok
      exact selected.2.2 _ ok.written smaller

theorem Inv.latestBelow_read (inv : Inv config value state) {item : ReadSetItem Key Value}
    (member : item ∈ (state.txns tid).readSet) :
    LatestBelow config value state tid item := by
  have ok := inv.reads tid item member
  apply inv.latestBelow ok.selected
  intro writer held holds sameKey
  have lockWord := inv.lock_of_holds holds
  have locked := config.two_le_timestamp writer
  rw [sameKey] at lockWord
  rcases ok.unlocked with free | above
  · omega
  · omega

theorem Inv.latestBelow_write (inv : Inv config value state) {item : ReadSetItem Key Value}
    (decided : (state.txns tid).Decided) (member : item ∈ (state.txns tid).writeSet) :
    LatestBelow config value state tid item := by
  by_cases held : item ∈ (state.txns tid).holds
  · apply inv.latestBelow (inv.holds tid item held).selected
    intro writer other otherHeld sameKey
    rw [(inv.holder_unique held otherHeld sameKey).1]
  · have ok := inv.installed tid item ⟨decided, member, held⟩
    apply inv.latestBelow ok.selected
    intro writer other otherHeld sameKey
    have holder := inv.holds writer other otherHeld
    rw [sameKey] at holder
    exact (holder.above _ ok.written).le

/-! ## The serial order -/

theorem Inv.mem_serialOrder (inv : Inv config value state) :
    tid ∈ config.serialOrder state ↔ (state.txns tid).Decided := by
  rw [Config.serialOrder, (List.mergeSort_perm _ _).mem_iff]
  exact inv.mem_commits tid

theorem Inv.serialOrder_sorted (inv : Inv config value state) :
    (config.serialOrder state).Pairwise fun earlier later =>
      config.timestamp earlier < config.timestamp later := by
  have sorted : (config.serialOrder state).Pairwise fun earlier later =>
      decide (config.timestamp earlier ≤ config.timestamp later) = true := by
    apply List.pairwise_mergeSort
    · intro first second third
      simp only [decide_eq_true_eq]
      exact le_trans
    · intro first second
      simpa using le_total _ _
  have distinct : (config.serialOrder state).Nodup :=
    (List.mergeSort_perm _ _).nodup_iff.mpr inv.commits_nodup
  refine (sorted.and distinct).imp fun {earlier later} both => ?_
  exact lt_of_le_of_ne (by simpa using both.1)
    fun same => both.2 (config.timestamp_injective same)

/-- Reads of a decided transaction. -/
theorem Inv.latestBelow_of_reads (inv : Inv config value state)
    (decided : (state.txns tid).Decided) {key : Key} {read : Value}
    (found : (state.txns tid).footprint.reads key = some read) :
    ∃ item, LatestBelow config value state tid item ∧ item.key = key ∧
      item.value = read ∧ (state.txns tid).seen key = item.version := by
  obtain ⟨item, member, itemKey, itemValue, version⟩ := Txn.reads_eq_some found
  refine ⟨item, ?_, itemKey, itemValue, version⟩
  rcases member with member | member
  · exact inv.latestBelow_read member
  · exact inv.latestBelow_write decided member

/-- Timestamps certify the serial order. -/
theorem Inv.versionOrder (inv : Inv config value state) :
    VersionOrder value (fun tid => (state.txns tid).footprint)
      (fun tid _ => config.timestamp tid) (fun tid => (state.txns tid).seen)
      (config.serialOrder state) where
  writeWrite := inv.serialOrder_sorted.imp fun before _ _ _ => before
  writeRead := by
    refine inv.serialOrder_sorted.imp_of_mem
      fun {earlier later} earlierMember laterMember before key written reads => ?_
    obtain ⟨read, found⟩ := Option.ne_none_iff_exists'.mp reads
    obtain ⟨item, latest, rfl, -, version⟩ :=
      inv.latestBelow_of_reads (inv.mem_serialOrder.mp laterMember) found
    rw [version]
    exact latest.largest earlier (inv.mem_serialOrder.mp earlierMember) written before
  readWrite := by
    refine inv.serialOrder_sorted.imp_of_mem
      fun {earlier later} earlierMember _ before key reads _ => ?_
    obtain ⟨read, found⟩ := Option.ne_none_iff_exists'.mp reads
    obtain ⟨item, latest, -, -, version⟩ :=
      inv.latestBelow_of_reads (inv.mem_serialOrder.mp earlierMember) found
    rw [version]
    exact latest.below.trans before
  origin := by
    intro reader member key read found
    obtain ⟨item, latest, rfl, rfl, version⟩ :=
      inv.latestBelow_of_reads (inv.mem_serialOrder.mp member) found
    rw [version]
    rcases latest.source with ⟨first, initial⟩ | ⟨writer, decided, same, written⟩
    · refine .inl ⟨initial, ?_⟩
      intro writer _ _ _
      have := config.two_le_timestamp writer
      omega
    · refine .inr ⟨writer, inv.mem_serialOrder.mpr decided, ?_, written, same⟩
      rintro rfl
      exact absurd latest.below (not_lt.mpr same.le)

/-- The slot with the largest timestamp of an unlocked record holds what the serial
execution leaves. -/
theorem Inv.replay_eq (inv : Inv config value state) {key : Key}
    (free : (state.records key).lock = 0) {slot : Slot}
    (newest : ∀ other, (state.records key).wts other ≤ (state.records key).wts slot) :
    replay value ((config.serialOrder state).map fun tid => (state.txns tid).footprint) key =
      (state.records key).data slot := by
  have bounded : ∀ writer ∈ config.serialOrder state,
      (state.txns writer).footprint.writes key ≠ none →
      config.timestamp writer ≤ (state.records key).wts slot := by
    intro writer member written
    obtain ⟨item, itemMember, rfl⟩ := Txn.writes_ne_none written
    have unheld : item ∉ (state.txns writer).holds := by
      intro held
      have lockWord := inv.lock_of_holds held
      have := config.two_le_timestamp writer
      omega
    have ok := inv.installed writer item ⟨inv.mem_serialOrder.mp member, itemMember, unheld⟩
    exact (inv.window item.key).le_of_slots_le newest _ ok.written
  have used : (state.records key).wts slot ≠ 0 := by
    have := (inv.window key).le_of_slots_le newest _ (inv.base key)
    omega
  rcases inv.written key _ ((inv.window key).stored slot used) with
    first | ⟨writer, item, done, itemKey, same⟩
  · obtain ⟨version, initial⟩ := Prod.mk.inj first
    rw [initial]
    apply replay_of_not_writes
    intro image imageMember
    obtain ⟨writer, member, rfl⟩ := List.mem_map.mp imageMember
    by_contra written
    have small := bounded writer member written
    have large := config.two_le_timestamp writer
    omega
  · obtain ⟨version, data⟩ := Prod.mk.inj same
    rw [data]
    apply replay_of_latest (fun tid _ => config.timestamp tid) _
      (inv.mem_serialOrder.mpr done.1)
    · rw [← itemKey]
      exact inv.writes_of_mem done.2.1
    · intro other member written
      rw [← version]
      exact bounded other member written
    · exact inv.serialOrder_sorted.imp fun before _ _ => before

/-- In every state of every run each successful read, and each lock whose transaction
has gone on to update its records, was given the version of the committed writer with
the largest timestamp below its own.  The history of a record holds only its initial
version and those of committed writers.  Sorted by timestamp the committed transactions are a serial
execution that leaves the newest version of every unlocked record. -/
theorem timestamp_order_serializable (config : Config Key Tid) (value : Key → Value)
    (state : State Key Value Tid)
    (reach : Reachable (step config) (State.initial value) state) :
    (∀ tid, ∀ item ∈ (state.txns tid).readSet,
      Selected (state.history item.key) (config.timestamp tid) item.version item.value ∧
        LatestBelow config value state tid item) ∧
    (∀ tid, (state.txns tid).Decided → ∀ item ∈ (state.txns tid).writeSet,
      Selected (state.history item.key) (config.timestamp tid) item.version item.value ∧
        LatestBelow config value state tid item) ∧
    (∀ key, ∀ version ∈ state.history key, version = (1, value key) ∨
      ∃ writer, (state.txns writer).Decided ∧ version.1 = config.timestamp writer ∧
        (state.txns writer).footprint.writes key = some version.2) ∧
    ∃ order : List Tid,
      (order.Pairwise fun earlier later =>
        config.timestamp earlier < config.timestamp later) ∧
      (∀ tid, tid ∈ order ↔ (state.txns tid).Decided) ∧
      Serial value (order.map fun tid => (state.txns tid).footprint) ∧
      ∀ key, (state.records key).lock = 0 → ∀ slot,
        (∀ other, (state.records key).wts other ≤ (state.records key).wts slot) →
        replay value (order.map fun tid => (state.txns tid).footprint) key =
          (state.records key).data slot := by
  have inv := inv_of_reach reach
  refine ⟨?_, ?_, ?_, config.serialOrder state, inv.serialOrder_sorted,
    fun _ => inv.mem_serialOrder, inv.versionOrder.serial,
    fun key free slot newest => inv.replay_eq free newest⟩
  · intro tid item member
    exact ⟨(inv.reads tid item member).selected, inv.latestBelow_read member⟩
  · intro tid decided item member
    refine ⟨?_, inv.latestBelow_write decided member⟩
    by_cases held : item ∈ (state.txns tid).holds
    · exact (inv.holds tid item held).selected
    · exact (inv.installed tid item ⟨decided, member, held⟩).selected
  · intro key version member
    rcases inv.written key version member with first | ⟨writer, item, done, itemKey, same⟩
    · exact .inl first
    · refine .inr ⟨writer, done.1, by rw [same], ?_⟩
      rw [← itemKey, same]
      exact inv.writes_of_mem done.2.1

/-- Transaction `n` has timestamp `n + 2`; records lie on two machines. -/
def countingConfig : Config Nat (Fin 3) where
  pid key := key % 2
  timestamp tid := tid.val + 2
  two_le_timestamp _ := Nat.le_add_left _ _
  timestamp_lt tid := by
    have := tid.isLt
    simp only [wordBound]
    omega
  timestamp_injective left right same := Fin.ext (Nat.add_right_cancel same)

/-- The transaction with timestamp 3 updates record 0 before the ones with timestamps
2 and 4 read it. -/
def overtakenRun : List (Action Nat Nat (Fin 3)) :=
  [.begin 0, .begin 1, .begin 2, .write 1 0, .modify 1 0 7, .read 2 1, .commit 1,
    .updateItem 1 0, .read 0 0, .read 2 0, .resume 1, .commit 2, .commit 0, .resume 0,
    .resume 2]

theorem timestamp_order_serializable_overtaken :
    ∃ state : State Nat Nat (Fin 3),
      ((state.txns 0).readSet.map (·.value) = [5] ∧
        (state.txns 2).readSet.map (·.value) = [5, 7] ∧
        ∀ tid, (state.txns tid).Committed) ∧
      ∃ order : List (Fin 3), (∀ tid, tid ∈ order ↔ (state.txns tid).Decided) ∧
        Serial (fun _ => 5) (order.map fun tid => (state.txns tid).footprint) := by
  have reached : ∃ state : State Nat Nat (Fin 3),
      Reachable (step countingConfig) (State.initial fun _ => 5) state ∧
        (state.txns 0).readSet.map (·.value) = [5] ∧
        (state.txns 2).readSet.map (·.value) = [5, 7] ∧
        ∀ tid, (state.txns tid).Committed :=
    Reach.exists_of_exec overtakenRun (by decide +kernel)
  obtain ⟨state, reach, observed⟩ := reached
  obtain ⟨-, -, -, order, -, members, serial, -⟩ :=
    timestamp_order_serializable countingConfig (fun _ => 5) state reach
  exact ⟨state, observed, order, members, serial⟩

end Rocc.Mvcc
