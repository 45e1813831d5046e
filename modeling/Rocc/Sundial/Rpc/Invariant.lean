import Rocc.Base.Run
import Rocc.Base.Window
import Rocc.Sundial.Rpc.Model

/-!
# Leases and commit ids

`HeadersCurrent` singles out the runs in which no handler looks at a header that
an update has left behind its record, and no release takes the lock of another
transaction away.  `Inv` then links the leases handed to readers to the commit ids
of writers: a lease never reaches beyond the read timestamp of its record, and the
commit id of whoever locks the record is larger than that.
-/

set_option linter.unusedSectionVars false

namespace Rocc.Sundial.Rpc

open Rtx

universe u v w

variable {Key : Type u} {Value : Type v} {Tid : Type w}
variable [DecidableEq Key] [DecidableEq Tid]

/-- The commit id of the last update, as `read_lock` keeps it. -/
def version (node : Node Value) : Nat := wts node.readLock

/-- The write timestamp of the header is that of the last update. -/
def Current (node : Node Value) : Prop := wts node.seq = version node

/-- A lock that can be granted hands out a read timestamp that covers the last
update. -/
def Covered (node : Node Value) : Prop := node.lock = 0 → version node ≤ rts node.seq

instance (node : Node Value) : Decidable (Current node) :=
  inferInstanceAs (Decidable (_ = _))

instance (node : Node Value) : Decidable (Covered node) :=
  inferInstanceAs (Decidable (_ → _))

/-- The record whose lock a transaction waits for. -/
def Txn.waiting (txn : Txn Key Value) : Option Key :=
  match txn.stage with
  | .wait key => some key
  | _ => none

/-- Side condition on the steps of a run: reads and successful renewals find the write
timestamp of the last update in the header, locks find a read timestamp not below it, no timestamp
reaches its bound, and a release finds its record unlocked or locked by the releasing
transaction. -/
def HeadersCurrent (config : Config Key Tid) (state : State Key Value Tid) :
    Action Key Value Tid → Prop
  | .read _ key => Current (state.records key)
  | .write _ key => Covered (state.records key)
  | .notify tid => ∀ key ∈ (state.txns tid).waiting, Covered (state.records key)
  | .prepare tid => (state.txns tid).commitId < timestampBound
  | .renewItem tid machine => ∀ item ∈ state.next config tid machine,
      ((state.records item.key).renewLeaseLocal item.wts
        (state.txns tid).commitId).isSome → Current (state.records item.key)
  | .updateItem tid machine => ∀ item ∈ state.next config tid machine,
      rts (state.records item.key).seq + 2 < timestampBound
  | .releaseItem tid machine => ∀ item ∈ state.next config tid machine,
      (state.records item.key).lock = 0 ∨
        (state.records item.key).lock = config.startTime tid
  | _ => True

instance (config : Config Key Tid) (state : State Key Value Tid) :
    (action : Action Key Value Tid) → Decidable (HeadersCurrent config state action)
  | .begin _ _ => inferInstanceAs (Decidable True)
  | .read _ _ => inferInstanceAs (Decidable (Current _))
  | .write _ _ => inferInstanceAs (Decidable (Covered _))
  | .notify _ => inferInstanceAs (Decidable (∀ key ∈ _, Covered _))
  | .modify _ _ _ => inferInstanceAs (Decidable True)
  | .prepare _ => inferInstanceAs (Decidable (_ < _))
  | .renewItem _ _ => inferInstanceAs (Decidable (∀ item ∈ _, _ → Current _))
  | .vote _ _ => inferInstanceAs (Decidable True)
  | .updateItem _ _ => inferInstanceAs (Decidable (∀ item ∈ _, _ < _))
  | .releaseItem _ _ => inferInstanceAs (Decidable (∀ item ∈ _, _ ∨ _))
  | .resume _ => inferInstanceAs (Decidable True)

/-! ## What a transaction holds -/

/-- Items whose lock the transaction holds. -/
def Txn.holds (txn : Txn Key Value) : List (ReadSetItem Key Value) :=
  match txn.stage with
  | .execute => txn.writeSet
  | .wait _ => txn.writeSet
  | .renew _ _ => txn.writeSet
  | .prepared => txn.writeSet
  | .update pending => pending
  | .release pending _ => pending
  | _ => []

/-- Items whose new version is in the record. -/
def Txn.Installed (txn : Txn Key Value) (item : ReadSetItem Key Value) : Prop :=
  txn.Decided ∧ item ∈ txn.writeSet ∧ item ∉ txn.holds

/-- The lease of the item reaches to the commit id, unless another renewal has failed. -/
def Txn.Renewed (txn : Txn Key Value) (item : ReadSetItem Key Value) : Prop :=
  match txn.stage with
  | .renew pending success => success = true ∧ item ∉ pending
  | .prepared => True
  | .update _ => True
  | .finished true => True
  | _ => False

/-- The commit id is fixed and bounded. -/
def Txn.Prepared (txn : Txn Key Value) : Prop :=
  match txn.stage with
  | .renew _ _ => True
  | .prepared => True
  | .update _ => True
  | .finished true => True
  | _ => False

/-! ## Items -/

/-- No version of the history lies between a version and a bound. -/
def NoneBetween (history : List (Nat × Value)) (version bound : Nat) : Prop :=
  ∀ write ∈ history, write.1 ≤ version ∨ bound < write.1

theorem NoneBetween.mono {history : List (Nat × Value)} {version bound smaller : Nat}
    (none : NoneBetween history version bound) (le : smaller ≤ bound) :
    NoneBetween history version smaller := by
  intro write member
  rcases none write member with before | after
  · exact .inl before
  · exact .inr (le.trans_lt after)

theorem NoneBetween.concat {history : List (Nat × Value)} {version bound : Nat}
    (none : NoneBetween history version bound) {next : Nat × Value} (above : bound < next.1) :
    NoneBetween (history ++ [next]) version bound := by
  intro write member
  rcases List.mem_append.mp member with member | member
  · exact none write member
  · rw [List.mem_singleton.mp member]
    exact .inr above

/-- A lease: the read timestamp of the record covers it and no writer has come in
between. -/
structure LeaseOk (node : Node Value) (history : List (Nat × Value)) (version bound : Nat) :
    Prop where
  covered : bound ≤ rts node.seq
  undisturbed : NoneBetween history version bound

/-- An item that was read. -/
structure ReadOk (node : Node Value) (history : List (Nat × Value)) (commitId : Nat)
    (item : ReadSetItem Key Value) : Prop where
  observed : item.wts = item.version
  loaded : (item.version, item.value) ∈ history
  before : item.version ≤ commitId
  lease : LeaseOk node history item.version item.rts

/-- An item that is locked: its value is that of the newest version, and the commit id of
its transaction lies beyond every lease of the record. -/
structure HoldOk (node : Node Value) (history : List (Nat × Value)) (word commitId : Nat)
    (item : ReadSetItem Key Value) : Prop where
  locked : node.lock = word
  loaded : (item.version, item.value) ∈ history
  current : item.version = version node
  lease : rts node.seq ≤ item.rts
  covered : item.version ≤ item.rts
  after : item.rts < commitId

/-- An item that was installed. -/
structure InstallOk (history : List (Nat × Value)) (commitId : Nat)
    (item : ReadSetItem Key Value) : Prop where
  loaded : (item.version, item.value) ∈ history
  written : (commitId, item.data) ∈ history
  before : item.version < commitId
  between : ∀ write ∈ history, write.1 ≤ item.version ∨ commitId ≤ write.1

/-! ## The invariant -/

variable (config : Config Key Tid) (value : Key → Value)

/-- What holds for one transaction. -/
structure TxnOk (records : Key → Node Value) (history : Key → List (Nat × Value))
    (tid : Tid) (txn : Txn Key Value) : Prop where
  reads : ∀ item ∈ txn.readSet,
    ReadOk (records item.key) (history item.key) txn.commitId item
  renewed : ∀ item ∈ txn.readSet, txn.Renewed item →
    LeaseOk (records item.key) (history item.key) item.version txn.commitId
  holds : ∀ item ∈ txn.holds, HoldOk (records item.key) (history item.key)
    (config.startTime tid) txn.commitId item
  installed : ∀ item, txn.Installed item →
    InstallOk (history item.key) txn.commitId item
  bounded : txn.Prepared → txn.commitId < timestampBound
  renewing : ∀ pending success, txn.stage = .renew pending success →
    ∀ item ∈ pending, item ∈ txn.readSet
  disjoint : txn.Decided → ∀ read ∈ txn.readSet, ∀ write ∈ txn.writeSet,
    read.key ≠ write.key
  keys_nodup : (txn.writeSet.map (·.key)).Nodup
  holds_nodup : txn.holds.Nodup
  holds_subset : ∀ item ∈ txn.holds, item ∈ txn.writeSet

/-- A version is the initial one or was installed by a transaction. -/
def Written (txns : Tid → Txn Key Value) (key : Key) (write : Nat × Value) : Prop :=
  write = (0, value key) ∨ ∃ tid item, (txns tid).Installed item ∧ item.key = key ∧
    write = ((txns tid).commitId, item.data)

/-- The invariant of the runs with current headers. -/
structure Inv (state : State Key Value Tid) : Prop where
  word : ∀ key, (state.records key).seq < wordBound
  growing : ∀ key, (state.history key).Pairwise fun earlier later => earlier.1 < later.1
  current : ∀ key, (version (state.records key), (state.records key).value) ∈
    state.history key
  newest : ∀ key, ∀ write ∈ state.history key, write.1 ≤ version (state.records key)
  written : ∀ key, ∀ write ∈ state.history key, Written value state.txns key write
  unique : ∀ left right leftItem rightItem, (state.txns left).Installed leftItem →
    (state.txns right).Installed rightItem → leftItem.key = rightItem.key →
    (state.txns left).commitId = (state.txns right).commitId → left = right
  txnOk : ∀ tid, TxnOk config state.records state.history tid (state.txns tid)
  commits_nodup : state.commits.Nodup
  mem_commits : ∀ tid, tid ∈ state.commits ↔ (state.txns tid).Decided
  ordered : state.commits.Pairwise fun earlier later =>
    ∀ read ∈ (state.txns earlier).readSet, ∀ write ∈ (state.txns later).writeSet,
      read.key = write.key → read.version < (state.txns later).commitId

variable {config value}

/-- A transaction with empty sets that holds nothing. -/
theorem txnOk_empty (config : Config Key Tid) (records : Key → Node Value)
    (history : Key → List (Nat × Value)) (tid : Tid) {txn : Txn Key Value}
    (noReads : txn.readSet = []) (noWrites : txn.writeSet = []) (noHolds : txn.holds = [])
    (unprepared : ¬ txn.Prepared) : TxnOk config records history tid txn where
  reads item member := by simp [noReads] at member
  renewed item member := by simp [noReads] at member
  holds item member := by simp [noHolds] at member
  installed item done := by simp [Txn.Installed, noWrites] at done
  bounded isPrepared := absurd isPrepared unprepared
  renewing pending success same := by simp [Txn.Prepared, same] at unprepared
  disjoint _ read member := by simp [noReads] at member
  keys_nodup := by simp [noWrites]
  holds_nodup := by simp [noHolds]
  holds_subset item member := by simp [noHolds] at member

theorem inv_initial (config : Config Key Tid) (value : Key → Value) :
    Inv config value (State.initial value : State Key Value Tid) where
  word key := by simp [State.initial, Node.initial, wordBound]
  growing key := by simp [State.initial]
  current key := by simp [State.initial, Node.initial, version, wts]
  newest key := by simp [State.initial]
  written key write member := .inl (by simpa [State.initial] using member)
  unique left right leftItem rightItem done := by
    simp [State.initial, Txn.Installed] at done
  txnOk tid := txnOk_empty config _ _ tid rfl rfl rfl (by simp [State.initial, Txn.Prepared])
  commits_nodup := List.nodup_nil
  mem_commits tid := by simp [State.initial, Txn.Decided]
  ordered := List.Pairwise.nil

end Rocc.Sundial.Rpc
