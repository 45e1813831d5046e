import Rocc.Db.Farm.Model

/-!
# DBFarm: what holds in every state

`Locks` is about the lock words, the locks each transaction has and the messages on
their way: a lock that a finished transaction still has is given back by one of its
messages, and no message of another transaction of the same coroutine stands before it.
`Sound` is about the sequence numbers one transaction has read and compared.
-/

set_option linter.unusedSectionVars false

namespace Rocc.Db.Farm

open Rtx Schedule

universe u v w x

variable {Key : Type u} {Value : Type v} {Tid : Type w} {Owner : Type x}

/-! ## Stages -/

namespace Stage

/-- The transaction is running. -/
def Active : Stage Key Value → Prop
  | .idle => False
  | .finished _ => False
  | _ => True

/-- The releases or commits of the transaction have been sent. -/
def Sent : Stage Key Value → Prop
  | .releaseAllSet _ => True
  | .finished _ => True
  | _ => False

/-- `end` has returned. -/
def Done : Stage Key Value → Prop
  | .finished _ => True
  | _ => False

/-- The transaction has had all its locks and has not failed. -/
def Alive : Stage Key Value → Prop
  | .checkLocalSet _ _ => True
  | .commitLocalWrite _ => True
  | .finished committed => committed = true
  | _ => False

/-- The transaction may have had all its locks. -/
def Ranked : Stage Key Value → Prop
  | .checkLocalSet _ _ => True
  | .commitLocalWrite _ => True
  | .releaseAllSet _ => True
  | .finished _ => True
  | _ => False

theorem Alive.ranked {stage : Stage Key Value} (alive : stage.Alive) : stage.Ranked := by
  cases stage <;> simp_all [Alive, Ranked]

theorem Sent.ranked {stage : Stage Key Value} (sent : stage.Sent) : stage.Ranked := by
  cases stage <;> simp_all [Sent, Ranked]

theorem Done.sent {stage : Stage Key Value} (done : stage.Done) : stage.Sent := by
  cases stage <;> simp_all [Done, Sent]

end Stage

/-! ## Records of a transaction -/

namespace Txn

/-- The remote records to be written. -/
def remote (txn : Txn Key Value) : List (Access Key) :=
  txn.remoteWrites.map (·.access)

/-- The remote records fetched. -/
def fetched (txn : Txn Key Value) : List (Access Key) :=
  txn.rrwset.map (·.access)

/-- The records to be written. -/
def written (txn : Txn Key Value) : List (Access Key) :=
  txn.remote ++ txn.localWrites.map (·.access)

/-- The records read or expected. -/
def reads (txn : Txn Key Value) : List (Access Key) :=
  txn.rwset.map (·.access) ++ txn.fetched

/-- The records whose sequence numbers have been compared. -/
def checked (txn : Txn Key Value) : List (Access Key) :=
  match txn.stage with
  | .lockRemote _ false => txn.remote
  | .validateReads _ => txn.remote
  | .lockAllSet _ _ => txn.remote
  | .checkLocalSet passed _ => txn.remote ++ passed.map (·.access)
  | .commitLocalWrite _ => txn.remote ++ txn.rwset.map (·.access)
  | .finished true => txn.remote ++ txn.rwset.map (·.access)
  | _ => []

/-- The records whose sequence numbers are known to have been right. -/
def confirmed (txn : Txn Key Value) : List (Access Key) :=
  txn.checked ++ txn.fetched

/-- The locks that a transaction has in a stage. -/
def Shape (txn : Txn Key Value) : Prop :=
  match txn.stage with
  | .idle => txn.taken = []
  | .execute => txn.taken = []
  | .lockRemote pending failed =>
      (failed = false → (txn.taken ++ pending.map (·.access)).Perm txn.remote) ∧
        ∀ access ∈ txn.taken ++ pending.map (·.access), access ∈ txn.remote
  | .validateReads _ => txn.taken.Perm txn.remote
  | .lockAllSet walked pending =>
      txn.taken.Perm (txn.remote ++ walked.map (·.access)) ∧
        walked ++ pending.filter (fun item => !item.ro) = txn.localWrites
  | .checkLocalSet passed pending =>
      txn.taken.Perm txn.written ∧ passed ++ pending = txn.rwset
  | .commitLocalWrite pending =>
      txn.taken.Perm (txn.remote ++ pending.map (·.access)) ∧ pending.Sublist txn.localWrites
  | .releaseAllSet pending =>
      (∀ access ∈ txn.taken, access ∈ txn.remote ∨ access ∈ pending.map (·.access)) ∧
        pending.Sublist txn.localWrites
  | .finished _ => ∀ access ∈ txn.taken, access ∈ txn.remote

theorem mem_localWrites {txn : Txn Key Value} {item : RWSetItem Key Value}
    (member : item ∈ txn.localWrites) : item ∈ txn.rwset :=
  (List.mem_filter.mp member).1

end Txn

/-- Where the items of a transaction are, and which locks it has. -/
structure Own (config : Config Key Value Tid Owner) (tid : Tid) (txn : Txn Key Value) :
    Prop where
  inside : ∀ item ∈ txn.rwset, config.IsLocal tid item.access.key
  outside : ∀ access ∈ txn.fetched, ¬ config.IsLocal tid access.key
  remote_fetched : ∀ access ∈ txn.remote, access ∈ txn.fetched
  shape : txn.Shape

theorem Own.remote_outside {config : Config Key Value Tid Owner} {tid : Tid}
    {txn : Txn Key Value} (own : Own config tid txn) {access : Access Key}
    (member : access ∈ txn.remote) : ¬ config.IsLocal tid access.key :=
  own.outside access (own.remote_fetched access member)

/-- What a transaction knows of the sequence numbers of the records. -/
structure Sound (nodes : Key → Node Value) (txn : Txn Key Value) : Prop where
  seen : ∀ access ∈ txn.reads,
    access.seq ≤ (nodes access.key).seq ∧ (nodes access.key).value.isSome
  secured : ∀ access ∈ txn.taken, access ∈ txn.checked →
    (nodes access.key).seq = access.seq
  settled : txn.stage.Alive → ∀ access ∈ txn.written,
    access ∈ txn.taken ∨ access.seq + 2 ≤ (nodes access.key).seq

/-! ## Messages -/

/-- The messages on their way to a record a transaction has locked: first its own, one of
which gives the lock back once it has sent them, and then those of later transactions, of
which there are none while it runs. -/
def Channel (tid : Tid) (stage : Stage Key Value) (key : Key)
    (queue : List (Msg Key Value Tid)) : Prop :=
  ∃ own others, queue = own ++ others ∧ (∀ message ∈ own, message.tid = tid) ∧
    (¬ stage.Done → others = []) ∧ (stage.Sent → ∃ message ∈ own, message.key = key)

/-- No two messages commit one record. -/
def Apart (left right : Msg Key Value Tid) : Prop :=
  ∀ leftTid leftItem rightTid rightItem, left = .commit leftTid leftItem →
    right = .commit rightTid rightItem → leftItem.access.key ≠ rightItem.access.key

variable (config : Config Key Value Tid Owner) (state : State Key Value Tid Owner)

/-- A message on its way from a coroutine to a partition. -/
structure Posted (owner : Owner) (partition : Nat) (message : Msg Key Value Tid) : Prop where
  owner_eq : config.owner message.tid = owner
  pid_eq : config.pid message.key = partition
  outside : ¬ config.IsLocal message.tid message.key
  commits : ∀ tid item, message = .commit tid item →
    (state.txns tid).stage = .finished true ∧ item.access ∈ (state.txns tid).taken
  releases : ∀ tid access, message = .release tid access →
    (state.txns tid).stage.Sent ∧ ¬ (state.txns tid).stage.Alive

/-- The lock words, the locks of the transactions and the messages agree. -/
structure Locks : Prop where
  holding : Holding config.content (fun key => (state.nodes key).lock)
    fun tid => (state.txns tid).taken.map (·.key)
  own : ∀ tid, Own config tid (state.txns tid)
  running : ∀ tid, (state.txns tid).stage.Active →
    state.running (config.owner tid) = some tid
  channel : ∀ tid, ∀ access ∈ (state.txns tid).taken, ¬ config.IsLocal tid access.key →
    Channel tid (state.txns tid).stage access.key
      (state.flight (config.owner tid) (config.pid access.key))
  posted : ∀ owner partition, ∀ message ∈ state.flight owner partition,
    Posted config state owner partition message
  apart : ∀ owner partition, (state.flight owner partition).Pairwise Apart

/-! ## Order -/

/-- Two transactions that have had all their locks, in this order. -/
structure Ordered (earlier later : Txn Key Value) : Prop where
  writes_before : ∀ left ∈ earlier.written, ∀ right ∈ later.confirmed,
    left.key = right.key → left.seq + 2 ≤ right.seq
  reads_before : ∀ left ∈ earlier.reads, ∀ right ∈ later.written,
    right ∈ later.checked → left.key = right.key → left.seq ≤ right.seq

/-- `lockOrder` lists the transactions that have had all their locks, each one after those
it comes after. -/
structure Ranking : Prop where
  nodup : state.lockOrder.Nodup
  listed : ∀ tid, (state.txns tid).stage.Alive → tid ∈ state.lockOrder
  ranked : ∀ tid ∈ state.lockOrder, (state.txns tid).stage.Ranked
  ordered : state.lockOrder.Pairwise fun earlier later =>
    (state.txns earlier).stage.Alive → (state.txns later).stage.Alive →
      Ordered (state.txns earlier) (state.txns later)

/-- The sequence numbers that two accesses to one record found. -/
def InTurn (left right : Event Key Tid) : Prop :=
  left.key = right.key → left.seq ≤ right.seq ∧
    (left.write = true → right.write = false → left.tid ≠ right.tid →
      left.seq + 2 ≤ right.seq)

/-- The history agrees with the sets of the transactions and with the records. -/
structure Logged : Prop where
  read : ∀ event ∈ state.history, event.write = false →
    event.access ∈ (state.txns event.tid).reads
  wrote : ∀ event ∈ state.history, event.write = true →
    event.access ∈ (state.txns event.tid).written
  bound : ∀ event ∈ state.history, event.seq ≤ (state.nodes event.key).seq
  passed : ∀ event ∈ state.history, event.write = true →
    state.fresh event.key = some event.tid ∨ event.seq + 2 ≤ (state.nodes event.key).seq
  inTurn : state.history.Pairwise InTurn

/-- What holds in every state. -/
structure Inv : Prop where
  locks : Locks config state
  sound : ∀ tid, Sound state.nodes (state.txns tid)
  ranking : Ranking state
  logged : Logged state

end Rocc.Db.Farm
