import Rocc.Base.Batch
import Rocc.Base.Holding
import Rocc.Base.Run
import Rocc.Base.Schedule
import Rocc.Rtx.Record

/-!
# DBFarm: one-sided reads, locks and commits over RPC

A transaction of `DBFarm` keeps local records in an `RWSet` and remote ones, which it
reads with one-sided reads, in an `RRWSet`.  `end` locks the remote records to be written
through `lock_rpc_handler`, validates remote reads, locks the local records, validates
all local records, and writes.  Remote commits and releases are broadcast and not
awaited: `end` returns while they are on their way, and the coroutine may begin its next
transaction.  A connection delivers the messages of a coroutine in the order in which
they were sent.

The validation of remote reads is the one of `validate_reads`, with the flag and the
counter as `add` and `promote_to_write` leave them.
-/

set_option linter.unusedSectionVars false

namespace Rocc.Db.Farm

open Rtx Schedule

universe u v w x

/-! ## Data -/

/-- `Meta` and the value behind it; no value when the record is not there. -/
structure Node (Value : Type v) where
  lock : Nat
  seq : Nat
  value : Option Value
  deriving DecidableEq, Repr

/-- A record and the sequence number kept for it. -/
structure Access (Key : Type u) where
  key : Key
  seq : Nat
  deriving DecidableEq, Repr

/-- `RWSetItem`: the value read, none for an insert; and the new value, none after a
delete, which copies 0 bytes. -/
structure RWSetItem (Key : Type u) (Value : Type v) where
  access : Access Key
  value : Option Value
  addr : Option Value
  ro : Bool
  deriving DecidableEq, Repr

/-- `RemoteSetItem` with the record as it was fetched. -/
structure RemoteSetItem (Key : Type u) (Value : Type v) where
  access : Access Key
  value : Value
  ro : Bool
  deriving DecidableEq, Repr

/-- What `remote_write` appends to the lock and to the commit message. -/
structure RemoteWrite (Key : Type u) (Value : Type v) where
  access : Access Key
  val : Value
  deriving DecidableEq, Repr

/-- An item of a message that nobody waits for. -/
inductive Msg (Key : Type u) (Value : Type v) (Tid : Type w) where
  | commit (tid : Tid) (item : RemoteWrite Key Value)
  | release (tid : Tid) (access : Access Key)
  deriving DecidableEq, Repr

/-- Where `end` stands.  `passed` are the local items that `check_local_set` has
compared, `walked` the local items locked so far. -/
inductive Stage (Key : Type u) (Value : Type v) where
  | idle
  | execute
  | lockRemote (pending : List (RemoteWrite Key Value)) (failed : Bool)
  | validateReads (pending : List (RemoteSetItem Key Value))
  | lockAllSet (walked pending : List (RWSetItem Key Value))
  | checkLocalSet (passed pending : List (RWSetItem Key Value))
  | commitLocalWrite (pending : List (RWSetItem Key Value))
  | releaseAllSet (pending : List (RWSetItem Key Value))
  | finished (committed : Bool)
  deriving DecidableEq, Repr

/-- One transaction of a coroutine.  `taken` lists the locks it has; no step reads it. -/
structure Txn (Key : Type u) (Value : Type v) where
  stage : Stage Key Value
  rwset : List (RWSetItem Key Value)
  rrwset : List (RemoteSetItem Key Value)
  readNum : Int
  remoteWrites : List (RemoteWrite Key Value)
  taken : List (Access Key)
  deriving DecidableEq, Repr

/-- Placement of records and coroutines, their lock contents, the sizes of values, and
what the first bytes of a value make of an older one. -/
structure Config (Key : Type u) (Value : Type v) (Tid : Type w) (Owner : Type x) where
  pid : Key → Nat
  owner : Tid → Owner
  partition : Owner → Nat
  lockContent : Owner → Nat
  words : OwnWords lockContent
  vlen : Key → Nat
  cut : Value → Option Value → Value

/-- A read or write of a record and the sequence number it found. -/
structure Event (Key : Type u) (Tid : Type w) extends Operation Tid Key where
  seq : Nat
  deriving DecidableEq, Repr

/-- The records, the transactions, the transaction each coroutine runs and the messages
on their way from a coroutine to a partition.  No step reads the rest: `fresh` has the
transaction whose insert made a record that no commit has written yet, `lockOrder` the
transactions in the order in which they had all their locks, and `history` every read and
write of a record. -/
structure State (Key : Type u) (Value : Type v) (Tid : Type w) (Owner : Type x) where
  nodes : Key → Node Value
  txns : Tid → Txn Key Value
  running : Owner → Option Tid
  flight : Owner → Nat → List (Msg Key Value Tid)
  fresh : Key → Option Tid
  lockOrder : List Tid
  history : List (Event Key Tid)

variable {Key : Type u} {Value : Type v} {Tid : Type w} {Owner : Type x}

/-- The record of a message. -/
def Msg.key : Msg Key Value Tid → Key
  | .commit _ item => item.access.key
  | .release _ access => access.key

/-- The transaction that sent a message. -/
def Msg.tid : Msg Key Value Tid → Tid
  | .commit tid _ => tid
  | .release tid _ => tid

namespace Event

/-- A record is read. -/
def read (tid : Tid) (access : Access Key) : Event Key Tid :=
  { tid, key := access.key, write := false, seq := access.seq }

/-- A record is written by a commit, or appears. -/
def wrote (tid : Tid) (access : Access Key) : Event Key Tid :=
  { tid, key := access.key, write := true, seq := access.seq }

/-- The record with the sequence number found. -/
def access (event : Event Key Tid) : Access Key :=
  { key := event.key, seq := event.seq }

end Event

/-! ## Per-record bodies -/

/-- Sequence number of a record while it is written. -/
def writing : Nat := 1

/-- Number of values of the field `payload` of a commit item. -/
def payloadBound : Nat := 2 ^ 8

namespace Node

/-- Compare-and-swap of the lock back to 0. -/
def release (node : Node Value) (content : Nat) : Node Value :=
  if node.lock = content then { node with lock := 0 } else node

/-- The body of `commit_local_write` and `commit_rpc_handler`. -/
def commit (node : Node Value) (value : Option Value) : Node Value where
  lock := 0
  seq := (node.seq + 2) % wordBound
  value := value

end Node

/-! ## Steps -/

namespace State

/-- Unlocked records, those that are not there with a zero header; nothing has begun. -/
def initial (seq : Key → Nat) (value : Key → Option Value) : State Key Value Tid Owner where
  nodes key :=
    { lock := 0, seq := if (value key).isSome then seq key else 0, value := value key }
  txns _ :=
    { stage := .idle, rwset := [], rrwset := [], readNum := 0, remoteWrites := [],
      taken := [] }
  running _ := none
  flight _ _ := []
  fresh _ := none
  lockOrder := []
  history := []

/-- The reads and writes of records in the order in which they happened. -/
def schedule (state : State Key Value Tid Owner) : List (Operation Tid Key) :=
  state.history.map (·.toOperation)

end State

namespace Txn

/-- Move to another stage. -/
def setStage (txn : Txn Key Value) (stage : Stage Key Value) : Txn Key Value :=
  { txn with stage }

/-- The lock of a record is taken. -/
def take (txn : Txn Key Value) (access : Access Key) : Txn Key Value :=
  { txn with taken := txn.taken ++ [access] }

/-- `RWSet::add`. -/
def add (txn : Txn Key Value) (item : RWSetItem Key Value) : Txn Key Value :=
  { txn with rwset := txn.rwset ++ [item] }

/-- A fetched record is added to the `RRWSet`. -/
def addRemote (txn : Txn Key Value) (item : RemoteSetItem Key Value) : Txn Key Value :=
  { txn with rrwset := txn.rrwset ++ [item] }

/-- The local items that are written. -/
def localWrites (txn : Txn Key Value) : List (RWSetItem Key Value) :=
  txn.rwset.filter fun item => !item.ro

end Txn

namespace Config

variable (config : Config Key Value Tid Owner)

/-- Lock content of the coroutine running a transaction. -/
def content (tid : Tid) : Nat :=
  config.lockContent (config.owner tid)

/-- The record is in the partition of the coroutine running a transaction. -/
def IsLocal (tid : Tid) (key : Key) : Prop :=
  config.pid key = config.partition (config.owner tid)

instance (tid : Tid) : DecidablePred (config.IsLocal tid) :=
  fun _ => inferInstanceAs (Decidable (_ = _))

/-- The items of a commit message that the handlers find: `payload` keeps 8 bits of the
length of a value, so whatever stands behind a longer value is not read as an item.  What
the handlers do with those bytes is not modelled. -/
def understood : List (RemoteWrite Key Value) → List (RemoteWrite Key Value)
  | [] => []
  | item :: rest =>
      item :: if config.vlen item.access.key < payloadBound then understood rest else []

end Config

/-- The items of a lock message that a partition handles. -/
def Config.at (config : Config Key Value Tid Owner) (partition : Nat)
    (item : RemoteWrite Key Value) : Bool :=
  config.pid item.access.key == partition

section Steps

variable [DecidableEq Key] [DecidableEq Value] [DecidableEq Tid] [DecidableEq Owner]
variable (config : Config Key Value Tid Owner)

namespace Txn

/-- The lock of a record is cleared. -/
def drop (txn : Txn Key Value) (key : Key) : Txn Key Value :=
  { txn with taken := txn.taken.filter fun access => access.key ≠ key }

end Txn

namespace State

/-- Replace one transaction. -/
def setTxn (state : State Key Value Tid Owner) (tid : Tid) (txn : Txn Key Value) :
    State Key Value Tid Owner :=
  { state with txns := Function.update state.txns tid txn }

/-- Replace one record. -/
def setNode (state : State Key Value Tid Owner) (key : Key) (node : Node Value) :
    State Key Value Tid Owner :=
  { state with nodes := Function.update state.nodes key node }

/-- A coroutine broadcasts messages; every partition gets its own. -/
def send (state : State Key Value Tid Owner) (owner : Owner)
    (messages : List (Msg Key Value Tid)) : State Key Value Tid Owner :=
  { state with
    flight := Function.update state.flight owner fun partition =>
      state.flight owner partition ++
        messages.filter fun message => config.pid message.key = partition }

/-- Note a read or write. -/
def record (state : State Key Value Tid Owner) (event : Event Key Tid) :
    State Key Value Tid Owner :=
  { state with history := state.history ++ [event] }

/-- A commit writes a record. -/
def writeBack (state : State Key Value Tid Owner) (tid : Tid) (key : Key)
    (value : Option Value) : State Key Value Tid Owner :=
  let node := state.nodes key
  { (state.setNode key (node.commit value)).record (.wrote tid { key, seq := node.seq }) with
    fresh := Function.update state.fresh key none }

/-- The `ABORT` branch of `end`: `release_remote`, then `release_all_set` over the local
items locked so far. -/
def abort (state : State Key Value Tid Owner) (tid : Tid)
    (walked : List (RWSetItem Key Value)) : State Key Value Tid Owner :=
  let txn := state.txns tid
  (state.send config (config.owner tid)
    (txn.remoteWrites.map fun item => .release tid item.access)).setTxn tid
      (txn.setStage (.releaseAllSet walked))

/-- `end` returns. -/
def finish (state : State Key Value Tid Owner) (tid : Tid) (committed : Bool) :
    State Key Value Tid Owner :=
  { state.setTxn tid ((state.txns tid).setStage (.finished committed)) with
    running := Function.update state.running (config.owner tid) none }

end State

variable (state : State Key Value Tid Owner) (tid : Tid)

/-- The coroutine is executing the transaction, and the record is in its partition. -/
def Local (key : Key) : Prop :=
  (state.txns tid).stage = .execute ∧ config.IsLocal tid key

/-- The coroutine is executing the transaction, and the record is in another
partition. -/
def Remote (key : Key) : Prop :=
  (state.txns tid).stage = .execute ∧ ¬ config.IsLocal tid key

instance (key : Key) : Decidable (Local config state tid key) :=
  inferInstanceAs (Decidable (_ ∧ _))

instance (key : Key) : Decidable (Remote config state tid key) :=
  inferInstanceAs (Decidable (_ ∧ _))

/-- `_begin`. -/
def begin : Option (State Key Value Tid Owner) :=
  match (state.txns tid).stage, state.running (config.owner tid) with
  | .idle, none =>
      some { state.setTxn tid ((state.txns tid).setStage .execute) with
        running := Function.update state.running (config.owner tid) (some tid) }
  | _, _ => none

/-- `get` of a local record: it asserts that the record is there and retries while the
record is written. -/
def get (key : Key) : Option (State Key Value Tid Owner) :=
  let txn := state.txns tid
  let node := state.nodes key
  if Local config state tid key ∧ node.seq ≠ writing then
    let access := { key, seq := node.seq }
    node.value.map fun value =>
      (state.setTxn tid
        (txn.add { access, value := some value, addr := some value, ro := true })).record
          (.read tid access)
  else
    none

/-- The first item of a record is written with a new value; without an item nothing
happens. -/
def Txn.writeAt (txn : Txn Key Value) (index : Nat) (addr : Option Value) : Txn Key Value :=
  { txn with rwset := txn.rwset.modify index fun item => { item with addr, ro := false } }

/-- `write(tableid, key, val, len)` after a store into the buffer. -/
def write (key : Key) (value : Value) : Option (State Key Value Tid Owner) :=
  let txn := state.txns tid
  if Local config state tid key then
    some (state.setTxn tid
      (txn.writeAt (txn.rwset.findIdx fun item => item.access.key = key) (some value)))
  else
    none

/-- `write()` after a store into the buffer: the last item. -/
def writeLast (value : Value) : Option (State Key Value Tid Owner) :=
  let txn := state.txns tid
  if txn.stage = .execute then
    some (state.setTxn tid (txn.writeAt (txn.rwset.length - 1) (some value)))
  else
    none

/-- `delete_`. -/
def delete (key : Key) : Option (State Key Value Tid Owner) :=
  let txn := state.txns tid
  if Local config state tid key then
    some (state.setTxn tid
      (txn.writeAt (txn.rwset.findIdx fun item => item.access.key = key) none))
  else
    none

/-- `insert`: a record that is not there appears at once, with the new value behind a
zero header; the item expects sequence number 0. -/
def insert (key : Key) (value : Value) : Option (State Key Value Tid Owner) :=
  let txn := state.txns tid
  let node := state.nodes key
  if Local config state tid key then
    let added := state.setTxn tid (txn.add
      { access := { key, seq := 0 }, value := none, addr := some value, ro := false })
    match node.value with
    | some _ => some added
    | none => some { (added.setNode key { node with value := some value }).record
          (.wrote tid { key, seq := 0 }) with
        fresh := Function.update state.fresh key (some tid) }
  else
    none

/-- `RRWSet::add`: a one-sided read of a remote record; the item is not marked as
read-only and `read_num_` stays. -/
def remoteAdd (key : Key) : Option (State Key Value Tid Owner) :=
  let txn := state.txns tid
  let node := state.nodes key
  if Remote config state tid key then
    let access := { key, seq := node.seq }
    node.value.map fun value =>
      (state.setTxn tid (txn.addRemote { access, value, ro := false })).record
        (.read tid access)
  else
    none

/-- `remote_write` with `promote_to_write`. -/
def remoteWrite (index : Nat) (val : Value) : Option (State Key Value Tid Owner) :=
  let txn := state.txns tid
  match txn.stage, txn.rrwset[index]? with
  | .execute, some item =>
      some (state.setTxn tid { txn with
        rrwset := txn.rrwset.set index { item with ro := false }
        readNum := txn.readNum - 1
        remoteWrites := txn.remoteWrites ++ [{ access := item.access, val }] })
  | _, _ => none

/-- `abort`, after which `end` returns false at once. -/
def abort : Option (State Key Value Tid Owner) :=
  match (state.txns tid).stage with
  | .execute => some (state.finish config tid false)
  | _ => none

/-- `end` sends the lock requests. -/
def startEnd : Option (State Key Value Tid Owner) :=
  let txn := state.txns tid
  match txn.stage with
  | .execute =>
      some (state.setTxn tid (txn.setStage (.lockRemote txn.remoteWrites false)))
  | _ => none

/-- `lock_rpc_handler` of a partition processes its next item, after the messages that
the coroutine sent there before. -/
def lockRpc (partition : Nat) : Option (State Key Value Tid Owner) :=
  let txn := state.txns tid
  match txn.stage with
  | .lockRemote pending failed =>
      if state.flight (config.owner tid) partition = [] then
        (nextFor (config.at partition) pending).map fun (item, rest) =>
          let node := state.nodes item.access.key
          let stop := Stage.lockRemote (dropFor (config.at partition) rest) true
          if node.lock ≠ 0 then
            state.setTxn tid (txn.setStage stop)
          else
            (state.setNode item.access.key { node with lock := config.content tid }).setTxn
              tid ((txn.take item.access).setStage
                (if node.seq = item.access.seq then .lockRemote rest failed else stop))
      else
        none
  | _ => none

/-- `validate_reads` compares the sequence number of its next item. -/
def validateReads : Option (State Key Value Tid Owner) :=
  let txn := state.txns tid
  match txn.stage with
  | .validateReads (item :: rest) =>
      if (state.nodes item.access.key).seq = item.access.seq then
        some (state.setTxn tid (txn.setStage (.validateReads rest)))
      else
        some (state.abort config tid [])
  | _ => none

/-- One round of the loop of `lock_all_set`. -/
def lockLocal : Option (State Key Value Tid Owner) :=
  let txn := state.txns tid
  match txn.stage with
  | .lockAllSet walked (item :: rest) =>
      let node := state.nodes item.access.key
      if item.ro then
        some (state.setTxn tid (txn.setStage (.lockAllSet walked rest)))
      else if node.lock ≠ 0 then
        some (state.abort config tid walked)
      else
        some ((state.setNode item.access.key { node with lock := config.content tid }).setTxn
          tid ((txn.take item.access).setStage (.lockAllSet (walked ++ [item]) rest)))
  | _ => none

/-- One round of the loop of `check_local_set`. -/
def checkLocal : Option (State Key Value Tid Owner) :=
  let txn := state.txns tid
  match txn.stage with
  | .checkLocalSet passed (item :: rest) =>
      if (state.nodes item.access.key).seq = item.access.seq then
        some (state.setTxn tid (txn.setStage (.checkLocalSet (passed ++ [item]) rest)))
      else
        some (state.abort config tid txn.localWrites)
  | _ => none

/-- One round of the loop of `commit_local_write`. -/
def commitLocal : Option (State Key Value Tid Owner) :=
  let txn := state.txns tid
  match txn.stage with
  | .commitLocalWrite (item :: rest) =>
      let node := state.nodes item.access.key
      some ((state.writeBack tid item.access.key (item.addr <|> node.value)).setTxn tid
        ((txn.drop item.access.key).setStage (.commitLocalWrite rest)))
  | _ => none

/-- One round of the loop of `release_all_set`. -/
def releaseLocal : Option (State Key Value Tid Owner) :=
  let txn := state.txns tid
  match txn.stage with
  | .releaseAllSet (item :: rest) =>
      let node := state.nodes item.access.key
      some ((state.setNode item.access.key (node.release (config.content tid))).setTxn tid
        ((txn.drop item.access.key).setStage (.releaseAllSet rest)))
  | _ => none

/-- A message is off the wire. -/
def State.receive (owner : Owner) (partition : Nat) (rest : List (Msg Key Value Tid)) :
    State Key Value Tid Owner :=
  { state with
    flight := Function.update state.flight owner
      (Function.update (state.flight owner) partition rest) }

/-- One item of `commit_rpc_handler`. -/
def commitRpc (item : RemoteWrite Key Value) : State Key Value Tid Owner :=
  let key := item.access.key
  let value := if config.vlen key < payloadBound then item.val
    else config.cut item.val (state.nodes key).value
  (state.writeBack tid key (some value)).setTxn tid ((state.txns tid).drop key)

/-- One item of `release_rpc_handler`. -/
def releaseRpc (key : Key) : State Key Value Tid Owner :=
  (state.setNode key ((state.nodes key).release (config.content tid))).setTxn tid
    ((state.txns tid).drop key)

/-- A partition handles the next item that a coroutine sent it. -/
def deliver (owner : Owner) (partition : Nat) : Option (State Key Value Tid Owner) :=
  match state.flight owner partition with
  | [] => none
  | .commit tid item :: rest =>
      some (commitRpc config (state.receive owner partition rest) tid item)
  | .release tid access :: rest =>
      some (releaseRpc config (state.receive owner partition rest) tid access.key)

/-- `end` goes on after a phase. -/
def resume : Option (State Key Value Tid Owner) :=
  let txn := state.txns tid
  match txn.stage with
  | .lockRemote [] true => some (state.abort config tid [])
  | .lockRemote [] false =>
      some (state.setTxn tid (txn.setStage (.validateReads
        (if 0 < txn.readNum then txn.rrwset.filter (·.ro) else []))))
  | .validateReads [] =>
      some (state.setTxn tid (txn.setStage (.lockAllSet [] txn.rwset)))
  | .lockAllSet _ [] =>
      some { state.setTxn tid (txn.setStage (.checkLocalSet [] txn.rwset)) with
        lockOrder := state.lockOrder ++ [tid] }
  | .checkLocalSet _ [] =>
      some (state.setTxn tid (txn.setStage (.commitLocalWrite txn.localWrites)))
  | .commitLocalWrite [] =>
      some ((state.send config (config.owner tid)
        ((config.understood txn.remoteWrites).map fun item => .commit tid item)).finish
          config tid true)
  | .releaseAllSet [] => some (state.finish config tid false)
  | _ => none

/-- One atomic step of the system. -/
inductive Action (Key : Type u) (Value : Type v) (Tid : Type w) (Owner : Type x) where
  | begin (tid : Tid)
  | get (tid : Tid) (key : Key)
  | write (tid : Tid) (key : Key) (value : Value)
  | writeLast (tid : Tid) (value : Value)
  | delete (tid : Tid) (key : Key)
  | insert (tid : Tid) (key : Key) (value : Value)
  | remoteAdd (tid : Tid) (key : Key)
  | remoteWrite (tid : Tid) (index : Nat) (val : Value)
  | abort (tid : Tid)
  | startEnd (tid : Tid)
  | lockRpc (tid : Tid) (partition : Nat)
  | validateReads (tid : Tid)
  | lockLocal (tid : Tid)
  | checkLocal (tid : Tid)
  | commitLocal (tid : Tid)
  | releaseLocal (tid : Tid)
  | deliver (owner : Owner) (partition : Nat)
  | resume (tid : Tid)
  deriving DecidableEq, Repr

/-- The step function of the system. -/
def step : Action Key Value Tid Owner → Option (State Key Value Tid Owner)
  | .begin tid => begin config state tid
  | .get tid key => get config state tid key
  | .write tid key value => write config state tid key value
  | .writeLast tid value => writeLast state tid value
  | .delete tid key => delete config state tid key
  | .insert tid key value => insert config state tid key value
  | .remoteAdd tid key => remoteAdd config state tid key
  | .remoteWrite tid index val => remoteWrite state tid index val
  | .abort tid => abort config state tid
  | .startEnd tid => startEnd state tid
  | .lockRpc tid partition => lockRpc config state tid partition
  | .validateReads tid => validateReads config state tid
  | .lockLocal tid => lockLocal config state tid
  | .checkLocal tid => checkLocal config state tid
  | .commitLocal tid => commitLocal state tid
  | .releaseLocal tid => releaseLocal config state tid
  | .deliver owner partition => deliver config state owner partition
  | .resume tid => resume config state tid

end Steps

end Rocc.Db.Farm
