import Rocc.Sundial.Rpc.Invariant

/-!
# Every step with current headers keeps the invariant

A step changes one transaction and at most one record.  Transactions other than
the one that moves only notice that a read timestamp has grown (`TxnOk.touch`) or
that a version was installed (`TxnOk.install`).
-/

set_option linter.unusedSectionVars false

namespace Rocc.Sundial.Rpc

open Rtx

universe u v w

variable {Key : Type u} {Value : Type v} {Tid : Type w}
variable [DecidableEq Key] [DecidableEq Tid]
variable {config : Config Key Tid} {value : Key → Value}
variable {state after : State Key Value Tid} {tid : Tid} {txn : Txn Key Value}
variable {records : Key → Node Value} {history : Key → List (Nat × Value)}

/-! ## Frame rules -/

theorem LeaseOk.mono {node : Node Value} {versions : List (Nat × Value)}
    {version bound smaller : Nat} (ok : LeaseOk node versions version bound)
    (le : smaller ≤ bound) : LeaseOk node versions version smaller where
  covered := le.trans ok.covered
  undisturbed := ok.undisturbed.mono le

theorem LeaseOk.grow {node node' : Node Value} {versions : List (Nat × Value)}
    {version bound : Nat} (ok : LeaseOk node versions version bound)
    (grows : rts node.seq ≤ rts node'.seq) : LeaseOk node' versions version bound where
  covered := ok.covered.trans grows
  undisturbed := ok.undisturbed

/-- Changing a record that the transaction does not hold. -/
theorem TxnOk.touch (ok : TxnOk config records history tid txn) {key : Key}
    {node : Node Value} (grows : rts (records key).seq ≤ rts node.seq)
    (unheld : ∀ item ∈ txn.holds, item.key ≠ key) :
    TxnOk config (Function.update records key node) history tid txn := by
  have covers : ∀ other version bound, LeaseOk (records other) (history other) version bound →
      LeaseOk (Function.update records key node other) (history other) version bound := by
    intro other version bound lease
    rcases eq_or_ne other key with rfl | different
    · rw [Function.update_self]
      exact lease.grow grows
    · rw [Function.update_of_ne different]
      exact lease
  constructor
  case reads =>
    intro item member
    have readOk := ok.reads item member
    exact ⟨readOk.observed, readOk.loaded, readOk.before, covers _ _ _ readOk.lease⟩
  case renewed =>
    intro item member isRenewed
    exact covers _ _ _ (ok.renewed item member isRenewed)
  case holds =>
    intro item member
    rw [Function.update_of_ne (unheld item member)]
    exact ok.holds item member
  case installed => exact ok.installed
  case bounded => exact ok.bounded
  case renewing => exact ok.renewing
  case disjoint => exact ok.disjoint
  case keys_nodup => exact ok.keys_nodup
  case holds_nodup => exact ok.holds_nodup
  case holds_subset => exact ok.holds_subset

/-- Moving a transaction to a stage in which it holds the same locks. -/
theorem TxnOk.restage (ok : TxnOk config records history tid txn) {stage : Stage Key Value}
    (sameHolds : ({ txn with stage } : Txn Key Value).holds = txn.holds)
    (renewed : ∀ item ∈ txn.readSet, ({ txn with stage } : Txn Key Value).Renewed item →
      txn.Renewed item)
    (decided : ({ txn with stage } : Txn Key Value).Decided → txn.Decided)
    (bounded : ({ txn with stage } : Txn Key Value).Prepared → txn.Prepared)
    (renewing : ∀ pending success, stage = .renew pending success →
      ∀ item ∈ pending, item ∈ txn.readSet) :
    TxnOk config records history tid { txn with stage } where
  reads := ok.reads
  renewed item member isRenewed := ok.renewed item member (renewed item member isRenewed)
  holds item member := ok.holds item (sameHolds ▸ member)
  installed item done := ok.installed item ⟨decided done.1, done.2.1, sameHolds ▸ done.2.2⟩
  bounded isPrepared := ok.bounded (bounded isPrepared)
  renewing := renewing
  disjoint isDecided := ok.disjoint (decided isDecided)
  keys_nodup := ok.keys_nodup
  holds_nodup := by
    rw [sameHolds]
    exact ok.holds_nodup
  holds_subset item member := ok.holds_subset item (sameHolds ▸ member)

theorem Txn.not_installed (undecided : ¬ txn.Decided) (item : ReadSetItem Key Value) :
    ¬ txn.Installed item :=
  fun done => undecided done.1

/-- A step that installs nothing. -/
theorem Inv.frame (inv : Inv config value state) {records : Key → Node Value}
    {commits : List Tid} {events : List (LockEvent Tid Key)}
    (sameVersion : ∀ key, (records key).readLock = (state.records key).readLock)
    (sameValue : ∀ key, (records key).value = (state.records key).value)
    (word : ∀ key, (records key).seq < wordBound)
    (others : ∀ other, other ≠ tid →
      TxnOk config records state.history other (state.txns other))
    (mine : TxnOk config records state.history tid txn)
    (installed : ∀ item, txn.Installed item ↔ (state.txns tid).Installed item)
    (sameCommitId : (state.txns tid).Decided → txn.commitId = (state.txns tid).commitId)
    (commitsNodup : commits.Nodup)
    (memCommits : ∀ other, other ∈ commits ↔
      (Function.update state.txns tid txn other).Decided)
    (ordered : commits.Pairwise fun earlier later =>
      ∀ read ∈ (Function.update state.txns tid txn earlier).readSet,
      ∀ write ∈ (Function.update state.txns tid txn later).writeSet, read.key = write.key →
        read.version < (Function.update state.txns tid txn later).commitId) :
    Inv config value { state with
      records, txns := Function.update state.txns tid txn, commits, events } := by
  have sameInstalled : ∀ other item,
      (Function.update state.txns tid txn other).Installed item ↔
        (state.txns other).Installed item := by
    rw [Function.forall_update_iff state.txns fun other txn => ∀ item,
      txn.Installed item ↔ (state.txns other).Installed item]
    exact ⟨installed, fun _ _ _ => .rfl⟩
  have sameId : ∀ other item, (state.txns other).Installed item →
      (Function.update state.txns tid txn other).commitId = (state.txns other).commitId := by
    rw [Function.forall_update_iff state.txns fun other txn => ∀ item,
      (state.txns other).Installed item → txn.commitId = (state.txns other).commitId]
    exact ⟨fun item done => sameCommitId done.1, fun _ _ _ _ => rfl⟩
  have sameVersions : ∀ key, version (records key) = version (state.records key) := by
    intro key
    rw [version, version, sameVersion]
  constructor
  case word => exact word
  case growing => exact inv.growing
  case current =>
    intro key
    simp only [sameVersions, sameValue]
    exact inv.current key
  case newest =>
    intro key
    simp only [sameVersions]
    exact inv.newest key
  case written =>
    intro key write member
    rcases inv.written key write member with first | ⟨writer, item, done, itemKey, same⟩
    · exact .inl first
    · refine .inr ⟨writer, item, (sameInstalled writer item).mpr done, itemKey, ?_⟩
      rw [same]
      exact congrArg (·, item.data) (sameId writer item done).symm
  case unique =>
    intro left right leftItem rightItem leftDone rightDone sameKey same
    have leftWas := (sameInstalled left leftItem).mp leftDone
    have rightWas := (sameInstalled right rightItem).mp rightDone
    refine inv.unique left right leftItem rightItem leftWas rightWas sameKey ?_
    rw [← sameId left leftItem leftWas, ← sameId right rightItem rightWas]
    exact same
  case txnOk =>
    rw [Function.forall_update_iff state.txns fun other txn =>
      TxnOk config records state.history other txn]
    exact ⟨mine, others⟩
  case commits_nodup => exact commitsNodup
  case mem_commits => exact memCommits
  case ordered => exact ordered

/-- The commit history does not mention an undecided transaction. -/
theorem Inv.mem_commits_update (inv : Inv config value state)
    (same : txn.Decided ↔ (state.txns tid).Decided) :
    ∀ other, other ∈ state.commits ↔ (Function.update state.txns tid txn other).Decided := by
  rw [Function.forall_update_iff state.txns fun other txn =>
    other ∈ state.commits ↔ txn.Decided]
  exact ⟨(inv.mem_commits tid).trans same.symm, fun other _ => inv.mem_commits other⟩

/-- The commit order does not notice a transaction outside it, or one whose sets stay. -/
theorem Inv.ordered_update (inv : Inv config value state)
    (kept : (state.txns tid).Decided → txn.readSet = (state.txns tid).readSet ∧
      txn.writeSet = (state.txns tid).writeSet ∧
      txn.commitId = (state.txns tid).commitId) :
    state.commits.Pairwise fun earlier later =>
      ∀ read ∈ (Function.update state.txns tid txn earlier).readSet,
      ∀ write ∈ (Function.update state.txns tid txn later).writeSet, read.key = write.key →
        read.version < (Function.update state.txns tid txn later).commitId := by
  have same : ∀ other ∈ state.commits,
      (Function.update state.txns tid txn other).readSet = (state.txns other).readSet ∧
      (Function.update state.txns tid txn other).writeSet = (state.txns other).writeSet ∧
      (Function.update state.txns tid txn other).commitId = (state.txns other).commitId := by
    intro other member
    rcases eq_or_ne other tid with rfl | different
    · rw [Function.update_self]
      exact kept ((inv.mem_commits other).mp member)
    · rw [Function.update_of_ne different]
      exact ⟨rfl, rfl, rfl⟩
  refine inv.ordered.imp_of_mem fun {earlier later} earlierMember laterMember before => ?_
  rw [(same earlier earlierMember).1, (same later laterMember).2.1,
    (same later laterMember).2.2]
  exact before

/-- A step of an undecided transaction that stays undecided. -/
theorem Inv.move (inv : Inv config value state) {records : Key → Node Value}
    {events : List (LockEvent Tid Key)}
    (sameVersion : ∀ key, (records key).readLock = (state.records key).readLock)
    (sameValue : ∀ key, (records key).value = (state.records key).value)
    (word : ∀ key, (records key).seq < wordBound)
    (others : ∀ other, other ≠ tid →
      TxnOk config records state.history other (state.txns other))
    (mine : TxnOk config records state.history tid txn)
    (undecided : ¬ txn.Decided) (wasUndecided : ¬ (state.txns tid).Decided) :
    Inv config value { state with
      records, txns := Function.update state.txns tid txn, events } :=
  inv.frame sameVersion sameValue word others mine
    (fun item => iff_of_false (Txn.not_installed undecided item)
      (Txn.not_installed wasUndecided item))
    (fun decided => absurd decided wasUndecided) inv.commits_nodup
    (inv.mem_commits_update (iff_of_false undecided wasUndecided))
    (inv.ordered_update fun decided => absurd decided wasUndecided)

/-- A step of an undecided transaction that changes no record. -/
theorem Inv.client (inv : Inv config value state)
    (mine : TxnOk config state.records state.history tid txn)
    (undecided : ¬ txn.Decided) (wasUndecided : ¬ (state.txns tid).Decided) :
    Inv config value (state.setTxn tid txn) :=
  inv.move (fun _ => rfl) (fun _ => rfl) inv.word (fun other _ => inv.txnOk other) mine
    undecided wasUndecided

/-- A record that is unlocked or locked by one transaction is not held by another. -/
theorem Inv.unheld (inv : Inv config value state) {key : Key}
    (mine : (state.records key).lock = 0 ∨
      (state.records key).lock = config.startTime tid) :
    ∀ other, other ≠ tid → ∀ item ∈ (state.txns other).holds, item.key ≠ key := by
  rintro other different item member rfl
  have locked := ((inv.txnOk other).holds item member).locked
  rcases mine with free | owned
  · exact config.startTime_ne_zero other (locked.symm.trans free)
  · exact different (config.startTime_injective (locked.symm.trans owned))

/-- An unlocked record is held by nobody. -/
theorem Inv.unheld_of_free (inv : Inv config value state) {key : Key}
    (free : (state.records key).lock = 0) (tid : Tid) :
    ∀ item ∈ (state.txns tid).holds, item.key ≠ key := by
  rintro item member rfl
  have locked := ((inv.txnOk tid).holds item member).locked
  exact config.startTime_ne_zero tid (locked.symm.trans free)

/-- Transactions that hold a record elsewhere do not notice a change of one record. -/
theorem Inv.others_touch (inv : Inv config value state) {key : Key} {node : Node Value}
    (grows : rts (state.records key).seq ≤ rts node.seq)
    (mine : (state.records key).lock = 0 ∨
      (state.records key).lock = config.startTime tid) :
    ∀ other, other ≠ tid → TxnOk config (Function.update state.records key node)
      state.history other (state.txns other) := by
  intro other different
  exact (inv.txnOk other).touch grows (inv.unheld mine other different)

/-- A step of an undecided transaction that changes one record nobody else holds. -/
theorem Inv.touchRecord (inv : Inv config value state) {key : Key} {node : Node Value}
    {events : List (LockEvent Tid Key)}
    (sameVersion : node.readLock = (state.records key).readLock)
    (sameValue : node.value = (state.records key).value) (word : node.seq < wordBound)
    (grows : rts (state.records key).seq ≤ rts node.seq)
    (lockMine : (state.records key).lock = 0 ∨
      (state.records key).lock = config.startTime tid)
    (mine : TxnOk config (Function.update state.records key node) state.history tid txn)
    (undecided : ¬ txn.Decided) (wasUndecided : ¬ (state.txns tid).Decided) :
    Inv config value { state with
      records := Function.update state.records key node
      txns := Function.update state.txns tid txn
      events } := by
  apply inv.move _ _ _ (inv.others_touch grows lockMine) mine undecided wasUndecided
  · rw [Function.forall_update_iff state.records fun other node =>
      node.readLock = (state.records other).readLock]
    exact ⟨sameVersion, fun _ _ => rfl⟩
  · rw [Function.forall_update_iff state.records fun other node =>
      node.value = (state.records other).value]
    exact ⟨sameValue, fun _ _ => rfl⟩
  · rw [Function.forall_update_iff state.records fun _ node => node.seq < wordBound]
    exact ⟨word, fun other _ => inv.word other⟩

/-! ## Executing transactions -/

theorem Txn.Decided.prepared (decided : txn.Decided) : txn.Prepared := by
  simp only [Txn.Decided] at decided
  split at decided
  · rename_i pending updates
    simp [Txn.Prepared, updates]
  · rename_i finished
    simp [Txn.Prepared, finished]
  · cases decided

theorem Txn.Renewed.prepared {item : ReadSetItem Key Value} (isRenewed : txn.Renewed item) :
    txn.Prepared := by
  simp only [Txn.Renewed] at isRenewed
  split at isRenewed
  · rename_i pending success renews
    simp [Txn.Prepared, renews]
  · rename_i prepares
    simp [Txn.Prepared, prepares]
  · rename_i pending updates
    simp [Txn.Prepared, updates]
  · rename_i finished
    simp [Txn.Prepared, finished]
  · cases isRenewed

/-- An undecided transaction that holds its whole write set. -/
structure Executing (txn : Txn Key Value) : Prop where
  holds : txn.holds = txn.writeSet
  undecided : ¬ txn.Decided

theorem executing_of_execute (executes : txn.stage = .execute) : Executing txn where
  holds := by simp [Txn.holds, executes]
  undecided := by simp [Txn.Decided, executes]

theorem executing_of_wait {key : Key} (waits : txn.stage = .wait key) : Executing txn where
  holds := by simp [Txn.holds, waits]
  undecided := by simp [Txn.Decided, waits]

theorem inv_begin {commitId : Nat} (inv : Inv config value state)
    (stepped : begin state tid commitId = some after) : Inv config value after := by
  simp only [begin] at stepped
  split at stepped
  · rename_i idle
    cases stepped
    apply inv.client
    · exact txnOk_empty config _ _ tid rfl rfl rfl (by simp [Txn.Prepared])
    · simp [Txn.Decided]
    · simp [Txn.Decided, idle]
  · cases stepped

/-- Sets of an executing transaction: nothing is renewed, decided or prepared yet. -/
theorem txnOk_execute
    (reads : ∀ item ∈ txn.readSet,
      ReadOk (records item.key) (history item.key) txn.commitId item)
    (holds : ∀ item ∈ txn.writeSet, HoldOk (records item.key) (history item.key)
      (config.startTime tid) txn.commitId item)
    (keysNodup : (txn.writeSet.map (·.key)).Nodup) (executes : txn.stage = .execute) :
    TxnOk config records history tid txn := by
  have same : txn.holds = txn.writeSet := (executing_of_execute executes).holds
  have undecided : ¬ txn.Decided := (executing_of_execute executes).undecided
  constructor
  case reads => exact reads
  case renewed =>
    intro item _ isRenewed
    simp [Txn.Renewed, executes] at isRenewed
  case holds =>
    rw [same]
    exact holds
  case installed =>
    intro item done
    exact absurd done (Txn.not_installed undecided item)
  case bounded =>
    intro isPrepared
    simp [Txn.Prepared, executes] at isPrepared
  case renewing =>
    intro pending success renews
    rw [executes] at renews
    cases renews
  case disjoint =>
    intro decided
    exact absurd decided undecided
  case keys_nodup => exact keysNodup
  case holds_nodup =>
    rw [same]
    exact .of_map _ keysNodup
  case holds_subset =>
    rw [same]
    exact fun _ => id

theorem inv_read {key : Key} (inv : Inv config value state)
    (current : Current (state.records key))
    (stepped : read state tid key = some after) : Inv config value after := by
  simp only [read] at stepped
  split at stepped
  · rename_i executes
    cases stepped
    have ok := inv.txnOk tid
    have holds := (executing_of_execute executes).holds
    apply inv.client
    · apply txnOk_execute
      · intro item member
        rcases List.mem_append.mp member with member | member
        · have readOk := ok.reads item member
          exact ⟨readOk.observed, readOk.loaded, readOk.before.trans (le_max_left _ _),
            readOk.lease⟩
        · rw [List.mem_singleton.mp member]
          constructor
          · exact current
          · exact inv.current key
          · exact current.ge.trans (le_max_right _ _)
          · exact ⟨le_rfl, fun write member => .inl (inv.newest key write member)⟩
      · intro item member
        have holdOk := ok.holds item (holds ▸ member)
        exact { holdOk with after := holdOk.after.trans_le (le_max_left _ _) }
      · exact ok.keys_nodup
      · exact executes
    · exact (executing_of_execute executes).undecided
    · exact (executing_of_execute executes).undecided
  · cases stepped

/-- A granted lock: the record is covered, so the new commit id lies beyond its last
version. -/
theorem Inv.grant (inv : Inv config value state) {key : Key}
    (executing : Executing (state.txns tid)) (free : (state.records key).lock = 0)
    (covered : Covered (state.records key)) :
    Inv config value (answer config state tid key
      { state.records key with lock := config.startTime tid } .granted) := by
  have ok := inv.txnOk tid
  have elsewhere : ∀ item ∈ (state.txns tid).writeSet, item.key ≠ key := by
    rw [← executing.holds]
    exact inv.unheld_of_free free tid
  have touched : TxnOk config (Function.update state.records key
      { state.records key with lock := config.startTime tid }) state.history tid
      (state.txns tid) :=
    ok.touch le_rfl (inv.unheld_of_free free tid)
  apply inv.touchRecord
  · rfl
  · rfl
  · exact inv.word key
  · exact le_rfl
  · exact .inl free
  · apply txnOk_execute
    · intro item member
      have readOk := touched.reads item member
      exact ⟨readOk.observed, readOk.loaded, readOk.before.trans (le_max_left _ _),
        readOk.lease⟩
    · intro item member
      rcases List.mem_append.mp member with member | member
      · have holdOk := touched.holds item (executing.holds ▸ member)
        exact { holdOk with after := holdOk.after.trans_le (le_max_left _ _) }
      · rw [List.mem_singleton.mp member]
        simp only [load, Function.update_self]
        constructor
        · rfl
        · exact inv.current key
        · rfl
        · exact le_rfl
        · exact covered free
        · exact (Nat.lt_succ_self _).trans_le (le_max_right _ _)
    · rw [List.map_append, List.nodup_append]
      refine ⟨ok.keys_nodup, by simp, ?_⟩
      intro itemKey member last lastMember
      obtain ⟨item, itemMember, rfl⟩ := List.mem_map.mp member
      rw [List.map_singleton, List.mem_singleton] at lastMember
      rw [lastMember]
      exact elsewhere item itemMember
    · rfl
  · simp [Txn.Decided]
  · exact executing.undecided

theorem setRecord_self (key : Key) : state.setRecord key (state.records key) = state := by
  simp [State.setRecord]

/-- An undecided transaction goes on to a stage in which it holds the same locks and
nothing is prepared. -/
theorem Inv.keep (inv : Inv config value state) (undecided : ¬ (state.txns tid).Decided)
    {stage : Stage Key Value}
    (sameHolds : ({ state.txns tid with stage } : Txn Key Value).holds =
      (state.txns tid).holds)
    (unprepared : ¬ ({ state.txns tid with stage } : Txn Key Value).Prepared) :
    Inv config value (state.setStage tid stage) := by
  apply inv.client
  · apply (inv.txnOk tid).restage sameHolds
    · exact fun item _ isRenewed => absurd isRenewed.prepared unprepared
    · exact fun decided => absurd decided.prepared unprepared
    · exact fun isPrepared => absurd isPrepared unprepared
    · rintro pending success rfl
      exact absurd trivial unprepared
  · exact fun decided => unprepared decided.prepared
  · exact undecided

/-- The answer to a lock request. -/
theorem Inv.answer (inv : Inv config value state) {key : Key} {node : Node Value}
    {reply : LockReply} (executing : Executing (state.txns tid))
    (covered : Covered (state.records key))
    (outcome : LockOutcome (state.records key) (config.startTime tid) node reply) :
    Inv config value (answer config state tid key node reply) := by
  cases outcome with
  | granted free => exact inv.grant executing free covered
  | failed taken =>
      simp only [Rpc.answer, setRecord_self]
      exact inv.keep executing.undecided executing.holds.symm (by simp [Txn.Prepared])
  | queued taken =>
      simp only [Rpc.answer, setRecord_self]
      exact inv.keep executing.undecided executing.holds.symm (by simp [Txn.Prepared])

theorem inv_write {key : Key} (inv : Inv config value state)
    (covered : Covered (state.records key))
    (stepped : write config state tid key = some after) : Inv config value after := by
  simp only [write] at stepped
  split at stepped
  · rename_i executes
    obtain ⟨⟨node, reply⟩, answered, rfl⟩ := Option.map_eq_some_iff.mp stepped
    exact inv.answer (executing_of_execute executes) covered
      (Node.lockReadRpcHandler_outcome answered)
  · cases stepped

theorem inv_notify (inv : Inv config value state)
    (covered : ∀ key ∈ (state.txns tid).waiting, Covered (state.records key))
    (stepped : notify config state tid = some after) : Inv config value after := by
  simp only [notify] at stepped
  split at stepped
  · rename_i key waits
    cases stepped
    apply inv.answer (executing_of_wait waits)
    · exact covered key (by simp [Txn.waiting, waits])
    · exact Node.checkToNotifyItem_outcome _ _
  · cases stepped

theorem inv_modify {key : Key} {data : Value} (inv : Inv config value state)
    (stepped : modify state tid key data = some after) : Inv config value after := by
  simp only [modify] at stepped
  split at stepped
  · rename_i executes
    cases stepped
    have ok := inv.txnOk tid
    have mapped : ∀ item : ReadSetItem Key Value,
        (if item.key = key then { item with data } else item).key = item.key := by
      intro item
      split <;> rfl
    apply inv.client
    · refine txnOk_execute ?_ ?_ ?_ ?_
      · exact ok.reads
      · intro item member
        obtain ⟨old, oldMember, rfl⟩ := List.mem_map.mp member
        have holdOk := ok.holds old (by simpa [Txn.holds, executes] using oldMember)
        rw [mapped]
        split
        · exact ⟨holdOk.locked, holdOk.loaded, holdOk.current, holdOk.lease, holdOk.covered,
            holdOk.after⟩
        · exact holdOk
      · simpa [Function.comp_def, mapped] using ok.keys_nodup
      · exact executes
    · simp [Txn.Decided, executes]
    · simp [Txn.Decided, executes]
  · cases stepped

/-! ## Renewal -/

theorem inv_prepare (inv : Inv config value state)
    (bounded : (state.txns tid).commitId < timestampBound)
    (stepped : prepare state tid = some after) : Inv config value after := by
  simp only [prepare] at stepped
  split at stepped
  · rename_i executes
    cases stepped
    have ok := inv.txnOk tid
    have executing := executing_of_execute executes
    apply inv.client
    · constructor
      case reads => exact ok.reads
      case renewed =>
        -- A lease that is not renewed reaches to the commit id already.
        rintro item member ⟨-, notPending⟩
        apply (ok.reads item member).lease.mono
        simpa [member] using notPending
      case holds =>
        intro item member
        exact ok.holds item (executing.holds ▸ member)
      case installed =>
        intro item done
        exact absurd done (Txn.not_installed (by simp [Txn.Decided]) item)
      case bounded => exact fun _ => bounded
      case renewing =>
        rintro pending success ⟨⟩ item member
        exact (List.mem_filter.mp member).1
      case disjoint =>
        intro decided
        simp [Txn.Decided] at decided
      case keys_nodup => exact ok.keys_nodup
      case holds_nodup => exact .of_map _ ok.keys_nodup
      case holds_subset => exact fun _ => id
    · simp [Txn.Decided]
    · exact executing.undecided
  · cases stepped

theorem executing_of_renew {pending : List (ReadSetItem Key Value)} {success : Bool}
    (renews : txn.stage = .renew pending success) : Executing txn where
  holds := by simp [Txn.holds, renews]
  undecided := by simp [Txn.Decided, renews]

/-- The renewals that are left after one of them was processed. -/
theorem TxnOk.renew (ok : TxnOk config records history tid txn)
    {pending rest : List (ReadSetItem Key Value)} {success stillSuccess : Bool}
    (renews : txn.stage = .renew pending success) (fewer : ∀ item ∈ rest, item ∈ pending)
    (renewed : stillSuccess = true → ∀ item ∈ txn.readSet, item ∉ rest →
      LeaseOk (records item.key) (history item.key) item.version txn.commitId) :
    TxnOk config records history tid { txn with stage := .renew rest stillSuccess } where
  reads := ok.reads
  renewed item member isRenewed := renewed isRenewed.1 item member isRenewed.2
  holds item member := ok.holds item ((executing_of_renew renews).holds ▸ member)
  installed item done := absurd done (Txn.not_installed (by simp [Txn.Decided]) item)
  bounded _ := ok.bounded (by simp [Txn.Prepared, renews])
  renewing := by
    rintro left remaining ⟨⟩ item member
    exact ok.renewing pending success renews item (fewer item member)
  disjoint decided := by simp [Txn.Decided] at decided
  keys_nodup := ok.keys_nodup
  holds_nodup := .of_map _ ok.keys_nodup
  holds_subset := fun _ => id

theorem mem_next {machine : Nat} {pending rest : List (ReadSetItem Key Value)}
    {item : ReadSetItem Key Value} (inFlight : (state.txns tid).inFlight = pending)
    (found : nextFor (config.at ReadSetItem.key machine) pending = some (item, rest)) :
    item ∈ state.next config tid machine := by
  simp [State.next, inFlight, found]

/-- A successful renewal: the version is still the newest one, so no writer has come
between, and the read timestamp now covers the commit id. -/
theorem Inv.renew (inv : Inv config value state)
    {pending rest : List (ReadSetItem Key Value)} {success : Bool}
    {item : ReadSetItem Key Value} {node : Node Value}
    (renews : (state.txns tid).stage = .renew pending success)
    (split : ∀ other, other ∈ pending ↔ other = item ∨ other ∈ rest)
    (current : Current (state.records item.key))
    (answered : (state.records item.key).renewLeaseLocal item.wts
      (state.txns tid).commitId = some node) :
    Inv config value ((state.setRecord item.key node).setStage tid
      (.renew rest success)) := by
  have ok := inv.txnOk tid
  have executing := executing_of_renew renews
  have bounded : (state.txns tid).commitId < timestampBound :=
    ok.bounded (by simp [Txn.Prepared, renews])
  have read : item ∈ (state.txns tid).readSet :=
    ok.renewing pending success renews item ((split item).mpr (.inl rfl))
  obtain ⟨unchanged, extended⟩ := Node.renewLeaseLocal_eq_some answered
  have newest : item.version = version (state.records item.key) := by
    rw [← (ok.reads item read).observed, unchanged]
    exact current
  have undisturbed : NoneBetween (state.history item.key) item.version
      (state.txns tid).commitId := by
    intro write member
    rw [newest]
    exact .inl (inv.newest item.key write member)
  -- Transactions with a lease on the record, this one included, see it grow.
  have finish : ∀ touched : TxnOk config (Function.update state.records item.key node)
      state.history tid (state.txns tid), (state.txns tid).commitId ≤ rts node.seq →
      TxnOk config (Function.update state.records item.key node) state.history tid
        { state.txns tid with stage := .renew rest success } := by
    intro touched covered
    apply touched.renew renews
    · exact fun other member => (split other).mpr (.inr member)
    · intro succeeded other member notLeft
      by_cases same : other = item
      · subst same
        simp only [Function.update_self]
        exact ⟨covered, undisturbed⟩
      · apply touched.renewed other member
        simp only [Txn.Renewed, renews, split]
        exact ⟨succeeded, not_or.mpr ⟨same, notLeft⟩⟩
  rcases extended with ⟨long, rfl⟩ | ⟨short, free, rfl⟩
  · rw [setRecord_self]
    rw [Function.update_eq_self] at finish
    apply inv.client (finish ok long)
    · simp [Txn.Decided]
    · exact executing.undecided
  · have raised : rts (renewed (state.records item.key).seq (state.txns tid).commitId) =
        (state.txns tid).commitId := rts_renewed (inv.word item.key) bounded
    apply inv.touchRecord
    · rfl
    · rfl
    · exact renewed_lt _ _
    · exact short.le.trans raised.ge
    · exact .inl free
    · exact finish (ok.touch (short.le.trans raised.ge) (inv.unheld_of_free free tid))
        raised.ge
    · simp [Txn.Decided]
    · exact executing.undecided

theorem inv_renewItem {machine : Nat} (inv : Inv config value state)
    (current : ∀ item ∈ state.next config tid machine,
      ((state.records item.key).renewLeaseLocal item.wts
        (state.txns tid).commitId).isSome → Current (state.records item.key))
    (stepped : renewItem config state tid machine = some after) :
    Inv config value after := by
  simp only [renewItem] at stepped
  split at stepped
  · rename_i pending success renews
    obtain ⟨⟨item, rest⟩, found, rfl⟩ := Option.map_eq_some_iff.mp stepped
    have split : ∀ other, other ∈ pending ↔ other = item ∨ other ∈ rest :=
      fun _ => mem_of_nextFor found
    have inFlight : (state.txns tid).inFlight = pending := by simp [Txn.inFlight, renews]
    have isNext := mem_next inFlight found
    cases answer : (state.records item.key).renewLeaseLocal item.wts
        (state.txns tid).commitId with
    | none =>
        simp only
        apply inv.client
        · apply (inv.txnOk tid).renew renews
          · exact fun other member => (split other).mpr (.inr member)
          · simp
        · simp [Txn.Decided]
        · simp [Txn.Decided, renews]
    | some node =>
        simp only
        exact inv.renew renews split (current item isNext (by simp [answer])) answer
  · cases stepped

/-! ## Decision -/

theorem executing_of_prepared (prepares : txn.stage = .prepared) : Executing txn where
  holds := by simp [Txn.holds, prepares]
  undecided := by simp [Txn.Decided, prepares]

/-- A transaction that holds a record it has read cannot have renewed its lease: the
commit id lies beyond the read timestamp of a record it holds. -/
theorem TxnOk.disjoint_of_renewed (ok : TxnOk config records history tid txn)
    {read write : ReadSetItem Key Value} (member : read ∈ txn.readSet)
    (isRenewed : txn.Renewed read) (held : write ∈ txn.holds) : read.key ≠ write.key := by
  intro sameKey
  have lease := (ok.renewed read member isRenewed).covered
  have holdOk := ok.holds write held
  rw [sameKey] at lease
  exact absurd (lease.trans holdOk.lease) (not_le.mpr holdOk.after)

/-- The votes are in and the transaction commits. -/
theorem Inv.decide (inv : Inv config value state)
    (prepares : (state.txns tid).stage = .prepared) :
    Inv config value { state.setStage tid (.update (state.txns tid).writeSet) with
      commits := state.commits ++ [tid] } := by
  have ok := inv.txnOk tid
  have executing := executing_of_prepared prepares
  have isRenewed : ∀ item, (state.txns tid).Renewed item := by
    simp [Txn.Renewed, prepares]
  have isPrepared : (state.txns tid).Prepared := by simp [Txn.Prepared, prepares]
  have uncommitted : tid ∉ state.commits := fun member =>
    executing.undecided ((inv.mem_commits tid).mp member)
  apply inv.frame (fun _ => rfl) (fun _ => rfl) inv.word (fun other _ => inv.txnOk other)
  · constructor
    case reads => exact ok.reads
    case renewed => exact fun item member _ => ok.renewed item member (isRenewed item)
    case holds =>
      intro item member
      exact ok.holds item (executing.holds ▸ member)
    case installed =>
      rintro item ⟨-, member, notHeld⟩
      exact absurd member notHeld
    case bounded => exact fun _ => ok.bounded isPrepared
    case renewing =>
      intro pending success renews
      cases renews
    case disjoint =>
      intro _ read readMember write writeMember
      exact ok.disjoint_of_renewed readMember (isRenewed read) (executing.holds ▸ writeMember)
    case keys_nodup => exact ok.keys_nodup
    case holds_nodup => exact .of_map _ ok.keys_nodup
    case holds_subset => exact fun _ => id
  · intro item
    refine iff_of_false ?_ (Txn.not_installed executing.undecided item)
    rintro ⟨-, member, notHeld⟩
    exact notHeld member
  · exact fun decided => absurd decided executing.undecided
  · rw [List.nodup_append]
    refine ⟨inv.commits_nodup, by simp, ?_⟩
    intro other member last lastMember same
    rw [List.mem_singleton.mp lastMember] at same
    exact uncommitted (same ▸ member)
  · intro other
    rcases eq_or_ne other tid with rfl | different
    · simp [Txn.Decided]
    · simpa [different] using inv.mem_commits other
  · rw [List.pairwise_append]
    refine ⟨inv.ordered_update fun decided => absurd decided executing.undecided, by simp, ?_⟩
    intro earlier member last lastMember read readMember write writeMember sameKey
    rw [List.mem_singleton.mp lastMember] at writeMember ⊢
    have different : earlier ≠ tid := fun same => uncommitted (same ▸ member)
    rw [Function.update_of_ne different] at readMember
    rw [Function.update_self] at writeMember ⊢
    -- What was read is at most the newest version, and the new writer lies beyond that.
    have readOk := (inv.txnOk earlier).reads read readMember
    have holdOk := ok.holds write (executing.holds ▸ writeMember)
    have atMost := inv.newest read.key _ readOk.loaded
    rw [sameKey, ← holdOk.current] at atMost
    exact (atMost.trans holdOk.covered).trans_lt holdOk.after

theorem inv_vote {commit : Bool} (inv : Inv config value state)
    (stepped : vote state tid commit = some after) : Inv config value after := by
  simp only [vote] at stepped
  split at stepped
  · rename_i prepares
    split at stepped
    · cases stepped
      exact inv.decide prepares
    · cases stepped
      have executing := executing_of_prepared prepares
      exact inv.keep executing.undecided executing.holds.symm (by simp [Txn.Prepared])
  · cases stepped

/-! ## Update -/

/-- A lease on a record survives an update whose commit id lies beyond the read
timestamp. -/
theorem LeaseOk.install {key other : Key} {node : Node Value} {write : Nat × Value}
    {version bound : Nat} (lease : LeaseOk (records other) (history other) version bound)
    (grows : rts (records key).seq ≤ rts node.seq) (beyond : rts (records key).seq < write.1) :
    LeaseOk (Function.update records key node other)
      (Function.update history key (history key ++ [write]) other) version bound := by
  rcases eq_or_ne other key with rfl | different
  · rw [Function.update_self, Function.update_self]
    exact ⟨lease.covered.trans grows,
      lease.undisturbed.concat (lease.covered.trans_lt beyond)⟩
  · rw [Function.update_of_ne different, Function.update_of_ne different]
    exact lease

/-- Appending a write keeps what was loaded. -/
theorem mem_install {key other : Key} {write : Nat × Value} {old : Nat × Value}
    (member : old ∈ history other) :
    old ∈ Function.update history key (history key ++ [write]) other := by
  rcases eq_or_ne other key with rfl | different
  · rw [Function.update_self]
    exact List.mem_append_left _ member
  · rw [Function.update_of_ne different]
    exact member

theorem ReadOk.install {key : Key} {node : Node Value} {write : Nat × Value}
    {commitId : Nat} {item : ReadSetItem Key Value}
    (ok : ReadOk (records item.key) (history item.key) commitId item)
    (grows : rts (records key).seq ≤ rts node.seq) (beyond : rts (records key).seq < write.1) :
    ReadOk (Function.update records key node item.key)
      (Function.update history key (history key ++ [write]) item.key) commitId item where
  observed := ok.observed
  loaded := mem_install ok.loaded
  before := ok.before
  lease := ok.lease.install grows beyond

theorem InstallOk.install {key : Key} {write : Nat × Value} {commitId : Nat}
    {item : ReadSetItem Key Value} (ok : InstallOk (history item.key) commitId item)
    (newest : ∀ old ∈ history key, old.1 < write.1) :
    InstallOk (Function.update history key (history key ++ [write]) item.key) commitId
      item where
  loaded := mem_install ok.loaded
  written := mem_install ok.written
  before := ok.before
  between := by
    intro other member
    by_cases sameKey : item.key = key
    · have written := ok.written
      have between := ok.between
      rw [sameKey, Function.update_self] at member
      rw [sameKey] at written between
      rcases List.mem_append.mp member with member | member
      · exact between other member
      · rw [List.mem_singleton.mp member]
        exact .inr (newest _ written).le
    · rw [Function.update_of_ne sameKey] at member
      exact ok.between other member

/-- Transactions that do not hold the record updated. -/
theorem TxnOk.install (ok : TxnOk config records history tid txn) {key : Key}
    {node : Node Value} {write : Nat × Value}
    (grows : rts (records key).seq ≤ rts node.seq) (beyond : rts (records key).seq < write.1)
    (newest : ∀ old ∈ history key, old.1 < write.1)
    (unheld : ∀ item ∈ txn.holds, item.key ≠ key) :
    TxnOk config (Function.update records key node)
      (Function.update history key (history key ++ [write])) tid txn where
  reads item member := (ok.reads item member).install grows beyond
  renewed item member isRenewed := (ok.renewed item member isRenewed).install grows beyond
  holds item member := by
    have different := unheld item member
    rw [Function.update_of_ne different, Function.update_of_ne different]
    exact ok.holds item member
  installed item done := (ok.installed item done).install newest
  bounded := ok.bounded
  renewing := ok.renewing
  disjoint := ok.disjoint
  keys_nodup := ok.keys_nodup
  holds_nodup := ok.holds_nodup
  holds_subset := ok.holds_subset

/-- What is left of a transaction that updates its records when one more is done. -/
structure Txn.Updates (txn : Txn Key Value) (item : ReadSetItem Key Value)
    (rest : List (ReadSetItem Key Value)) : Prop where
  held : item ∈ txn.holds
  fewer : ∀ other ∈ rest, other ∈ txn.holds
  nodup : rest.Nodup
  elsewhere : ∀ other ∈ rest, other.key ≠ item.key
  installs : ∀ other, ({ txn with stage := .update rest } : Txn Key Value).Installed other ↔
    txn.Installed other ∨ other = item

theorem TxnOk.updates (ok : TxnOk config records history tid txn) {machine : Nat}
    {pending rest : List (ReadSetItem Key Value)} {item : ReadSetItem Key Value}
    (updating : txn.stage = .update pending)
    (found : nextFor (config.at ReadSetItem.key machine) pending = some (item, rest)) :
    txn.Updates item rest := by
  have holds : txn.holds = pending := by simp [Txn.holds, updating]
  have decided : txn.Decided := by simp [Txn.Decided, updating]
  have split : ∀ other, other ∈ pending ↔ other = item ∨ other ∈ rest :=
    fun _ => mem_of_nextFor found
  have held : item ∈ txn.holds := by
    rw [holds]
    exact (split item).mpr (.inl rfl)
  have fewer : ∀ other ∈ rest, other ∈ txn.holds := by
    intro other member
    rw [holds]
    exact (split other).mpr (.inr member)
  obtain ⟨removed, nodup⟩ := nodup_of_nextFor found (holds ▸ ok.holds_nodup)
  refine ⟨held, fewer, nodup, ?_, ?_⟩
  · intro other member sameKey
    have same := List.inj_on_of_nodup_map ok.keys_nodup
      (ok.holds_subset other (fewer other member)) (ok.holds_subset item held) sameKey
    exact removed (same ▸ member)
  · intro other
    simp only [Txn.Installed, holds, split]
    constructor
    · rintro ⟨-, member, notLeft⟩
      by_cases same : other = item
      · exact .inr same
      · exact .inl ⟨decided, member, not_or.mpr ⟨same, notLeft⟩⟩
    · rintro (⟨-, member, notLeft⟩ | rfl)
      · exact ⟨trivial, member, fun left => notLeft (.inr left)⟩
      · exact ⟨trivial, ok.holds_subset other held, removed⟩

/-- The transaction that updates the record. -/
theorem TxnOk.install_own (ok : TxnOk config records history tid txn) {machine : Nat}
    {pending rest : List (ReadSetItem Key Value)} {item : ReadSetItem Key Value}
    (updating : txn.stage = .update pending)
    (found : nextFor (config.at ReadSetItem.key machine) pending = some (item, rest))
    {node : Node Value} (grows : rts (records item.key).seq ≤ rts node.seq)
    (newest : ∀ old ∈ history item.key, old.1 < txn.commitId)
    (below : ∀ old ∈ history item.key, old.1 ≤ version (records item.key)) :
    TxnOk config (Function.update records item.key node)
      (Function.update history item.key (history item.key ++ [(txn.commitId, item.data)])) tid
      { txn with stage := .update rest } := by
  have updates := ok.updates updating found
  have decided : txn.Decided := by simp [Txn.Decided, updating]
  have holdOk := ok.holds item updates.held
  have beyond : rts (records item.key).seq < txn.commitId :=
    holdOk.lease.trans_lt holdOk.after
  constructor
  case reads => exact fun read member => (ok.reads read member).install grows beyond
  case renewed =>
    intro read member _
    exact (ok.renewed read member (by simp [Txn.Renewed, updating])).install grows beyond
  case holds =>
    intro other member
    have different := updates.elsewhere other member
    rw [Function.update_of_ne different, Function.update_of_ne different]
    exact ok.holds other (updates.fewer other member)
  case installed =>
    intro done isDone
    rcases (updates.installs done).mp isDone with wasDone | rfl
    · exact (ok.installed done wasDone).install newest
    · simp only [Function.update_self]
      constructor
      · exact List.mem_append_left _ holdOk.loaded
      · exact List.mem_append_right _ (List.mem_singleton.mpr rfl)
      · exact holdOk.covered.trans_lt holdOk.after
      · intro write member
        rcases List.mem_append.mp member with member | member
        · left
          rw [holdOk.current]
          exact below write member
        · right
          rw [List.mem_singleton.mp member]
  case bounded => exact fun _ => ok.bounded decided.prepared
  case renewing =>
    intro left success renews
    cases renews
  case disjoint => exact fun _ => ok.disjoint decided
  case keys_nodup => exact ok.keys_nodup
  case holds_nodup => exact updates.nodup
  case holds_subset => exact fun other member => ok.holds_subset other (updates.fewer other member)

/-- A step of one transaction that keeps all commit ids and installs one item. -/
structure Installs (txns after : Tid → Txn Key Value) (tid : Tid)
    (item : ReadSetItem Key Value) : Prop where
  sameId : ∀ other, (after other).commitId = (txns other).commitId
  installed : ∀ other done, (after other).Installed done ↔
    (txns other).Installed done ∨ (other = tid ∧ done = item)

theorem Txn.Updates.moves {txns : Tid → Txn Key Value} {item : ReadSetItem Key Value}
    {rest : List (ReadSetItem Key Value)} (updates : (txns tid).Updates item rest) :
    Installs txns (Function.update txns tid { txns tid with stage := .update rest }) tid item := by
  constructor
  · rw [Function.forall_update_iff txns fun other txn => txn.commitId = (txns other).commitId]
    exact ⟨rfl, fun _ _ => rfl⟩
  · intro other done
    rcases eq_or_ne other tid with rfl | different
    · rw [Function.update_self, updates.installs]
      simp
    · rw [Function.update_of_ne different]
      simp [different]

/-- Every version is still accounted for, the new one by the item. -/
theorem Installs.written {txns after : Tid → Txn Key Value} {item : ReadSetItem Key Value}
    (installs : Installs txns after tid item) {history : Key → List (Nat × Value)}
    (written : ∀ key, ∀ write ∈ history key, Written value txns key write) :
    ∀ key, ∀ write ∈ Function.update history item.key
        (history item.key ++ [((txns tid).commitId, item.data)]) key,
      Written value after key write := by
  have kept : ∀ key write, Written value txns key write → Written value after key write := by
    intro key write was
    rcases was with first | ⟨writer, done, isDone, doneKey, same⟩
    · exact .inl first
    · exact .inr ⟨writer, done, (installs.installed writer done).mpr (.inl isDone), doneKey,
        by rw [installs.sameId]; exact same⟩
  intro key write member
  rcases eq_or_ne key item.key with rfl | different
  · simp only [Function.update_self] at member
    rcases List.mem_append.mp member with member | member
    · exact kept item.key write (written item.key write member)
    · exact .inr ⟨tid, item, (installs.installed tid item).mpr (.inr ⟨rfl, rfl⟩), rfl,
        by rw [installs.sameId]; exact List.mem_singleton.mp member⟩
  · simp only [Function.update_of_ne different] at member
    exact kept key write (written key write member)

/-- Commit ids still tell the writers of a record apart, when no one before has used the new
one. -/
theorem Installs.unique {txns after : Tid → Txn Key Value} {item : ReadSetItem Key Value}
    (installs : Installs txns after tid item)
    (unique : ∀ left right leftItem rightItem, (txns left).Installed leftItem →
      (txns right).Installed rightItem → leftItem.key = rightItem.key →
      (txns left).commitId = (txns right).commitId → left = right)
    (fresh : ∀ other done, (txns other).Installed done → done.key = item.key →
      (txns other).commitId ≠ (txns tid).commitId) :
    ∀ left right leftItem rightItem, (after left).Installed leftItem →
      (after right).Installed rightItem → leftItem.key = rightItem.key →
      (after left).commitId = (after right).commitId → left = right := by
  intro left right leftItem rightItem leftDone rightDone sameKey same
  simp only [installs.sameId] at same
  rcases (installs.installed left leftItem).mp leftDone with leftWas | ⟨rfl, rfl⟩
  · rcases (installs.installed right rightItem).mp rightDone with rightWas | ⟨rfl, rfl⟩
    · exact unique left right leftItem rightItem leftWas rightWas sameKey same
    · exact absurd same (fresh left leftItem leftWas sameKey)
  · rcases (installs.installed right rightItem).mp rightDone with rightWas | ⟨rfl, rfl⟩
    · exact absurd same.symm (fresh right rightItem rightWas sameKey.symm)
    · rfl

/-- A holder of the lock updates its record. -/
theorem Inv.install (inv : Inv config value state) {machine : Nat}
    {pending rest : List (ReadSetItem Key Value)} {item : ReadSetItem Key Value}
    {events : List (LockEvent Tid Key)}
    (updates : (state.txns tid).stage = .update pending)
    (found : nextFor (config.at ReadSetItem.key machine) pending = some (item, rest))
    (fits : rts (state.records item.key).seq + 2 < timestampBound) :
    Inv config value { state with
      records := Function.update state.records item.key
        ((state.records item.key).updateRpcHandler item.data (state.txns tid).commitId)
      txns := Function.update state.txns tid { state.txns tid with stage := .update rest }
      history := Function.update state.history item.key
        (state.history item.key ++ [((state.txns tid).commitId, item.data)])
      events } := by
  have ok := inv.txnOk tid
  have decided : (state.txns tid).Decided := by simp [Txn.Decided, updates]
  have left := ok.updates updates found
  have installs := left.moves
  have holdOk := ok.holds item left.held
  have beyond : rts (state.records item.key).seq < (state.txns tid).commitId :=
    holdOk.lease.trans_lt holdOk.after
  have newest : ∀ old ∈ state.history item.key, old.1 < (state.txns tid).commitId := by
    intro old member
    have atMost := inv.newest item.key old member
    rw [← holdOk.current] at atMost
    exact (atMost.trans holdOk.covered).trans_lt holdOk.after
  have grows : rts (state.records item.key).seq ≤ rts ((state.records item.key).updateRpcHandler
      item.data (state.txns tid).commitId).seq :=
    (Nat.le_add_right _ 2).trans (rts_count fits).ge
  have nowVersion : version ((state.records item.key).updateRpcHandler item.data
      (state.txns tid).commitId) = (state.txns tid).commitId :=
    Node.updateRpcHandler_readLock _ _ (ok.bounded decided.prepared)
  constructor
  case word =>
    rw [Function.forall_update_iff state.records fun _ node => node.seq < wordBound]
    exact ⟨Nat.mod_lt _ (by decide), fun other _ => inv.word other⟩
  case growing =>
    rw [Function.forall_update_iff state.history fun _ versions =>
      versions.Pairwise fun earlier later => earlier.1 < later.1]
    refine ⟨?_, fun other _ => inv.growing other⟩
    rw [List.pairwise_append]
    refine ⟨inv.growing item.key, by simp, ?_⟩
    intro old member last lastMember
    rw [List.mem_singleton.mp lastMember]
    exact newest old member
  case current =>
    intro key
    rcases eq_or_ne key item.key with rfl | different
    · simp only [Function.update_self, nowVersion]
      exact List.mem_append_right _ (List.mem_singleton.mpr rfl)
    · simp only [Function.update_of_ne different]
      exact inv.current key
  case newest =>
    intro key write member
    rcases eq_or_ne key item.key with rfl | different
    · simp only [Function.update_self, nowVersion] at member ⊢
      rcases List.mem_append.mp member with member | member
      · exact (newest write member).le
      · rw [List.mem_singleton.mp member]
    · simp only [Function.update_of_ne different] at member ⊢
      exact inv.newest key write member
  case written => exact installs.written inv.written
  case unique =>
    -- Commit ids of the versions installed before are smaller than the new one.
    apply installs.unique inv.unique
    intro other done isDone sameKey
    have written := ((inv.txnOk other).installed done isDone).written
    rw [sameKey] at written
    exact (newest _ written).ne
  case txnOk =>
    rw [Function.forall_update_iff state.txns fun other txn =>
      TxnOk config (Function.update state.records item.key _)
        (Function.update state.history item.key _) other txn]
    exact ⟨ok.install_own updates found grows newest (inv.newest item.key),
      fun other different => (inv.txnOk other).install grows beyond newest
        (inv.unheld (.inr holdOk.locked) other different)⟩
  case commits_nodup => exact inv.commits_nodup
  case mem_commits => exact inv.mem_commits_update (iff_of_true trivial decided)
  case ordered => exact inv.ordered_update fun _ => ⟨rfl, rfl, rfl⟩

theorem inv_updateItem {machine : Nat} (inv : Inv config value state)
    (fits : ∀ item ∈ state.next config tid machine,
      rts (state.records item.key).seq + 2 < timestampBound)
    (stepped : updateItem config state tid machine = some after) :
    Inv config value after := by
  simp only [updateItem] at stepped
  split at stepped
  · rename_i pending updates
    obtain ⟨⟨item, rest⟩, found, rfl⟩ := Option.map_eq_some_iff.mp stepped
    have inFlight : (state.txns tid).inFlight = pending := by simp [Txn.inFlight, updates]
    exact inv.install updates found (fits item (mem_next inFlight found))
  · cases stepped

/-! ## Release -/

/-- A transaction that has given up releases one item; the lock is its own, or free. -/
theorem Inv.releaseOne (inv : Inv config value state) {item : ReadSetItem Key Value}
    {stage : Stage Key Value}
    (lockMine : (state.records item.key).lock = 0 ∨
      (state.records item.key).lock = config.startTime tid)
    (fewer : ∀ other ∈ ({ state.txns tid with stage } : Txn Key Value).holds,
      other ∈ (state.txns tid).holds ∧ other.key ≠ item.key)
    (nodup : ({ state.txns tid with stage } : Txn Key Value).holds.Nodup)
    (unprepared : ¬ ({ state.txns tid with stage } : Txn Key Value).Prepared)
    (wasUndecided : ¬ (state.txns tid).Decided) :
    Inv config value (releaseOne config state tid item stage) := by
  have ok := inv.txnOk tid
  apply inv.touchRecord
  · rfl
  · rfl
  · exact inv.word item.key
  · exact le_rfl
  · exact lockMine
  · constructor
    case reads =>
      intro read member
      have readOk := ok.reads read member
      refine ⟨readOk.observed, readOk.loaded, readOk.before, ?_⟩
      rcases eq_or_ne read.key item.key with sameKey | different
      · have lease := readOk.lease
        rw [sameKey] at lease ⊢
        rw [Function.update_self]
        exact lease.grow le_rfl
      · rw [Function.update_of_ne different]
        exact readOk.lease
    case renewed => exact fun _ _ isRenewed => absurd isRenewed.prepared unprepared
    case holds =>
      intro other member
      rw [Function.update_of_ne (fewer other member).2]
      exact ok.holds other (fewer other member).1
    case installed => exact fun _ done => absurd done.1.prepared unprepared
    case bounded => exact fun isPrepared => absurd isPrepared unprepared
    case renewing =>
      rintro pending success rfl
      exact absurd trivial unprepared
    case disjoint => exact fun decided => absurd decided.prepared unprepared
    case keys_nodup => exact ok.keys_nodup
    case holds_nodup => exact nodup
    case holds_subset => exact fun other member => ok.holds_subset other (fewer other member).1
  · exact fun decided => unprepared decided.prepared
  · exact wasUndecided

theorem inv_releaseItem {machine : Nat} (inv : Inv config value state)
    (lockMine : ∀ item ∈ state.next config tid machine,
      (state.records item.key).lock = 0 ∨
        (state.records item.key).lock = config.startTime tid)
    (stepped : releaseItem config state tid machine = some after) :
    Inv config value after := by
  simp only [releaseItem] at stepped
  split at stepped
  · rename_i pending again releases
    obtain ⟨⟨item, rest⟩, found, rfl⟩ := Option.map_eq_some_iff.mp stepped
    have ok := inv.txnOk tid
    have holds : (state.txns tid).holds = pending := by simp [Txn.holds, releases]
    have inFlight : (state.txns tid).inFlight = pending := by simp [Txn.inFlight, releases]
    have split : ∀ other, other ∈ (state.txns tid).holds ↔ other = item ∨ other ∈ rest := by
      rw [holds]
      exact fun _ => mem_of_nextFor found
    have nodup := nodup_of_nextFor found (holds ▸ ok.holds_nodup)
    apply inv.releaseOne (lockMine item (mem_next inFlight found))
    · intro other member
      refine ⟨(split other).mpr (.inr member), fun sameKey => ?_⟩
      have same := List.inj_on_of_nodup_map ok.keys_nodup
        (ok.holds_subset other ((split other).mpr (.inr member)))
        (ok.holds_subset item ((split item).mpr (.inl rfl))) sameKey
      exact nodup.1 (same ▸ member)
    · exact nodup.2
    · simp [Txn.Prepared]
    · simp [Txn.Decided, releases]
  · rename_i pending releases
    obtain ⟨⟨item, rest⟩, found, rfl⟩ := Option.map_eq_some_iff.mp stepped
    have inFlight : (state.txns tid).inFlight = pending := by simp [Txn.inFlight, releases]
    apply inv.releaseOne (lockMine item (mem_next inFlight found))
    · intro other member
      simp [Txn.holds] at member
    · simp [Txn.holds]
    · simp [Txn.Prepared]
    · simp [Txn.Decided, releases]
  · cases stepped

/-! ## All steps -/

theorem inv_resume (inv : Inv config value state)
    (stepped : resume state tid = some after) : Inv config value after := by
  have ok := inv.txnOk tid
  simp only [resume] at stepped
  split at stepped
  · rename_i renews
    cases stepped
    have executing := executing_of_renew renews
    apply inv.client
    · apply ok.restage
      · exact executing.holds.symm
      · exact fun item _ _ => by simp [Txn.Renewed, renews]
      · simp [Txn.Decided]
      · exact fun _ => by simp [Txn.Prepared, renews]
      · intro pending success same
        cases same
    · simp [Txn.Decided]
    · exact executing.undecided
  · rename_i renews
    cases stepped
    have executing := executing_of_renew renews
    exact inv.keep executing.undecided executing.holds.symm (by simp [Txn.Prepared])
  · rename_i updates
    cases stepped
    have decided : (state.txns tid).Decided := by simp [Txn.Decided, updates]
    have holds : (state.txns tid).holds = [] := by simp [Txn.holds, updates]
    apply inv.frame (fun _ => rfl) (fun _ => rfl) inv.word (fun other _ => inv.txnOk other)
    · apply ok.restage
      · exact holds.symm
      · exact fun item _ _ => by simp [Txn.Renewed, updates]
      · exact fun _ => decided
      · exact fun _ => decided.prepared
      · intro pending success same
        cases same
    · intro item
      simp [Txn.Installed, Txn.holds, Txn.Decided, updates]
    · exact fun _ => rfl
    · exact inv.commits_nodup
    · exact inv.mem_commits_update (iff_of_true trivial decided)
    · exact inv.ordered_update fun _ => ⟨rfl, rfl, rfl⟩
  · rename_i releases
    cases stepped
    apply inv.keep
    · simp [Txn.Decided, releases]
    · simp [Txn.holds, releases]
    · simp [Txn.Prepared]
  · rename_i releases
    cases stepped
    apply inv.keep
    · simp [Txn.Decided, releases]
    · simp [Txn.holds, releases]
    · simp [Txn.Prepared]
  · rename_i releases
    cases stepped
    apply inv.keep
    · simp [Txn.Decided, releases]
    · simp [Txn.holds, releases]
    · simp [Txn.Prepared]
  · cases stepped

theorem inv_step (inv : Inv config value state) (action : Action Key Value Tid)
    (allowed : HeadersCurrent config state action)
    (stepped : step config state action = some after) : Inv config value after := by
  cases action with
  | begin tid commitId => exact inv_begin inv stepped
  | read tid key => exact inv_read inv allowed stepped
  | write tid key => exact inv_write inv allowed stepped
  | notify tid => exact inv_notify inv allowed stepped
  | modify tid key data => exact inv_modify inv stepped
  | prepare tid => exact inv_prepare inv allowed stepped
  | renewItem tid machine => exact inv_renewItem inv allowed stepped
  | vote tid commit => exact inv_vote inv stepped
  | updateItem tid machine => exact inv_updateItem inv allowed stepped
  | releaseItem tid machine => exact inv_releaseItem inv allowed stepped
  | resume tid => exact inv_resume inv stepped

/-- Every state of every run with current headers satisfies the invariant. -/
theorem inv_of_reach
    (reached : Reach (step config) (HeadersCurrent config) (State.initial value) state) :
    Inv config value state :=
  reached.invariant (Inv config value) (inv_initial config value)
    fun _ action _ inv allowed stepped => inv_step inv action allowed stepped

end Rocc.Sundial.Rpc
