import Mathlib.Data.List.ModifyLast
import Rocc.Base.Batch
import Rocc.Base.Ledger
import Rocc.Base.Replay
import Rocc.Rtx.Record

/-!
# Two-phase locking over RPC: `NOWAIT` and `WAITDIE`

The two protocols share their client.  `read` and `write` append an item to a set
and request its lock; a refused request releases what the sets name, less the
item that was refused, and ends the transaction; `commit` writes back and then
releases the read locks.  The protocols differ in `lock_rpc_handler`, where only
`WAITDIE` may put a request on the wait list of the serving worker, and in
`release_rpc_handler`, where only `NOWAIT` asserts that the sender owns the lock.

Values are byte strings, because what a client buffers is decoded from the reply
buffer of its coroutine.  A reply only touches the coroutine that waits for it,
so the handler that answers a request and the client that takes the answer up
are one step.
-/

set_option linter.unusedSectionVars false

namespace Rocc.Locking

open Rtx

universe u v w

/-- Contents of a record or of a message. -/
abbrev Bytes := List UInt8

/-- `LOCK_SUCCESS_MAGIC`. -/
def lockSuccessMagic : UInt8 := 73

/-- `LOCK_FAIL_MAGIC`. -/
def lockFailMagic : UInt8 := 12

/-- `R_LEASE`: a start time shifted left by nine bits. -/
def rLease (time : Nat) : Nat := (time * 2 ^ 9) % wordBound

/-- `RTX_REQ_LOCK_READ` and `RTX_REQ_LOCK_WRITE`. -/
inductive LockType where
  | read
  | write
  deriving DecidableEq, Repr

/-- The word a request of this type stores into the lock. -/
def LockType.word (type : LockType) (time : Nat) : Nat :=
  match type with
  | .read => rLease time
  | .write => rLease time + 1

/-! ## Handlers, one item at a time -/

/-- `lock_rpc_handler`.  `mayWait` compares the lease of the request with the lock
word found; no reply stands for `LOCK_WAIT_MAGIC`. -/
def lockRpcHandler (mayWait : Nat → Nat → Bool) (record : Record Bytes)
    (type : LockType) (time len : Nat) : Record Bytes × Option Bytes :=
  if record.lock ≠ 0 then
    if mayWait (rLease time) record.lock then
      (record, none)
    else
      (record, some [lockFailMagic])
  else
    ({ record with lock := type.word time },
      some (lockSuccessMagic :: record.value.take len))

/-- `commit_rpc_handler`. -/
def commitRpcHandler (record : Record Bytes) (data : Bytes) : Record Bytes :=
  record.inplaceWriteOp data noCommitId

/-- The body of the loop of `check_to_notify` for `RTX_REQ_LOCK_READ` and
`RTX_REQ_LOCK_WRITE`. -/
def checkToNotifyItem (record : Record Bytes) (type : LockType) (time : Nat) :
    Record Bytes × Option Bytes :=
  if record.lock = 0 then
    ({ record with lock := type.word time }, some [lockSuccessMagic])
  else if type.word time < record.lock then
    (record, none)
  else
    (record, some [lockFailMagic])

namespace Nowait

/-- `NOWAIT::lock_rpc_handler` never waits. -/
def lockRpcHandler : Record Bytes → LockType → Nat → Nat → Record Bytes × Option Bytes :=
  Locking.lockRpcHandler fun _ _ => false

/-- `NOWAIT::release_rpc_handler` asserts that the lock word is the sender's. -/
def releaseRpcHandler (record : Record Bytes) (word : Nat) : Option (Record Bytes) :=
  if record.lock = word then some { record with lock := 0 } else none

end Nowait

namespace Waitdie

/-- `WAITDIE::lock_rpc_handler` lets the older transaction wait. -/
def lockRpcHandler : Record Bytes → LockType → Nat → Nat → Record Bytes × Option Bytes :=
  Locking.lockRpcHandler fun lease lock => decide (lease < lock)

/-- `WAITDIE::release_rpc_handler` stores 0 whatever it finds. -/
def releaseRpcHandler (record : Record Bytes) (_word : Nat) : Option (Record Bytes) :=
  some { record with lock := 0 }

end Waitdie

/-- Which of the two protocols the workers run. -/
inductive Protocol where
  | nowait
  | waitdie
  deriving DecidableEq, Repr

/-- The lock handler of a protocol. -/
def Protocol.lockRpcHandler :
    Protocol → Record Bytes → LockType → Nat → Nat → Record Bytes × Option Bytes
  | .nowait => Nowait.lockRpcHandler
  | .waitdie => Waitdie.lockRpcHandler

/-- The release handler of a protocol. -/
def Protocol.releaseRpcHandler : Protocol → Record Bytes → Nat → Option (Record Bytes)
  | .nowait => Nowait.releaseRpcHandler
  | .waitdie => Waitdie.releaseRpcHandler

/-! ## State -/

variable {Key : Type u} {Tid : Type v} {Owner : Type w}

/-- `ReadSetItem`.  `value` is what the reply to the lock request left in
`data_ptr`, `data` its current contents.  `locked` is the value of the record
when its lock was taken; no step reads it. -/
structure ReadSetItem (Key : Type u) where
  key : Key
  locked : Option Bytes
  value : Bytes
  data : Bytes
  deriving DecidableEq, Repr

/-- An item whose lock has not been granted yet. -/
def ReadSetItem.fresh (key : Key) : ReadSetItem Key where
  key
  locked := none
  value := []
  data := []

/-- The client takes over the value a grant left in its reply buffer. -/
def ReadSetItem.fill (item : ReadSetItem Key) (locked value : Bytes) : ReadSetItem Key :=
  { item with locked := some locked, value, data := value }

/-- Where the client stands.  A lock request is on its way until it is answered or
queued; a release or commit message keeps the items not processed yet. -/
inductive Stage (Key : Type u) where
  | idle
  | execute
  | request (type : LockType) (key : Key) (queued : Bool)
  | releaseReads (pending writes : List (ReadSetItem Key))
  | releaseWrites (pending : List (ReadSetItem Key))
  | writeBack (pending : List (ReadSetItem Key))
  | releaseCommitted (pending : List (ReadSetItem Key))
  | finished (committed : Bool)
  deriving DecidableEq, Repr

/-- One transaction of a coroutine. -/
structure Txn (Key : Type u) where
  stage : Stage Key
  readSet : List (ReadSetItem Key)
  writeSet : List (ReadSetItem Key)
  deriving DecidableEq, Repr

/-- `lock_waiter_t` with the record its `lock_ptr` points to. -/
structure Waiter (Key : Type u) (Tid : Type v) where
  type : LockType
  tid : Tid
  key : Key
  deriving DecidableEq, Repr

/-- Placement of records, coroutines and start times.  Requests of a coroutine are
served by the worker of the same number on the machine of the record. -/
structure Config (Key : Type u) (Tid : Type v) (Owner : Type w) where
  protocol : Protocol
  pid : Key → Nat
  len : Key → Nat
  owner : Tid → Owner
  worker : Owner → Nat
  startTime : Tid → Nat
  lease_ne_zero : ∀ tid, rLease (startTime tid) ≠ 0
  lease_injective : ∀ left right,
    rLease (startTime left) = rLease (startTime right) → left = right

/-- Initial values of the records, each as long as its table says. -/
structure Database (config : Config Key Tid Owner) where
  value : Key → Bytes
  sized : ∀ key, (value key).length = config.len key

/-- The records, the wait lists of the workers, the transactions and the
coroutines.  `events` and `commitOrder` are histories that no step reads. -/
structure State (Key : Type u) (Tid : Type v) (Owner : Type w) where
  records : Key → Record Bytes
  waitLists : Nat × Nat → List (Waiter Key Tid)
  txns : Tid → Txn Key
  running : Owner → Option Tid
  replyBuf : Owner → Bytes
  events : List (LockEvent Tid Key)
  commitOrder : List Tid

/-! ## Steps -/

section Steps

variable [DecidableEq Key] [DecidableEq Tid] [DecidableEq Owner]

/-- Word of a request of a transaction. -/
def Config.word (config : Config Key Tid Owner) (tid : Tid) (type : LockType) : Nat :=
  type.word (config.startTime tid)

/-- The worker that serves the requests of a transaction for a record. -/
def Config.server (config : Config Key Tid Owner) (tid : Tid) (key : Key) : Nat × Nat :=
  (config.pid key, config.worker (config.owner tid))

/-- Items of a message addressed to `machine`. -/
def Config.at (config : Config Key Tid Owner) (machine : Nat)
    (item : ReadSetItem Key) : Bool :=
  config.pid item.key == machine

/-- Every record unlocked and every coroutine idle. -/
def State.initial {config : Config Key Tid Owner} (database : Database config)
    (seq : Key → Nat) (replyBuf : Owner → Bytes) : State Key Tid Owner where
  records key := { lock := 0, seq := seq key, value := database.value key }
  waitLists _ := []
  txns _ := { stage := .idle, readSet := [], writeSet := [] }
  running _ := none
  replyBuf
  events := []
  commitOrder := []

/-- Replace one transaction. -/
def State.setTxn (state : State Key Tid Owner) (tid : Tid) (txn : Txn Key) :
    State Key Tid Owner :=
  { state with txns := Function.update state.txns tid txn }

/-- Move one transaction to another stage. -/
def State.setStage (state : State Key Tid Owner) (tid : Tid) (stage : Stage Key) :
    State Key Tid Owner :=
  state.setTxn tid { state.txns tid with stage }

/-- Replace one record. -/
def State.setRecord (state : State Key Tid Owner) (key : Key) (record : Record Bytes) :
    State Key Tid Owner :=
  { state with records := Function.update state.records key record }

/-- Extend the lock history. -/
def State.log (state : State Key Tid Owner) (event : LockEvent Tid Key) :
    State Key Tid Owner :=
  { state with events := state.events ++ [event] }

/-- `begin`. -/
def begin (config : Config Key Tid Owner) (state : State Key Tid Owner) (tid : Tid) :
    Option (State Key Tid Owner) :=
  match (state.txns tid).stage, state.running (config.owner tid) with
  | .idle, none =>
      some { state.setTxn tid { stage := .execute, readSet := [], writeSet := [] } with
        running := Function.update state.running (config.owner tid) (some tid) }
  | _, _ => none

/-- Append an item to the set of its type. -/
def Txn.push (txn : Txn Key) (type : LockType) (item : ReadSetItem Key) : Txn Key :=
  match type with
  | .read => { txn with readSet := txn.readSet ++ [item] }
  | .write => { txn with writeSet := txn.writeSet ++ [item] }

/-- `read` and `write` append an item and send the lock request for it. -/
def request (state : State Key Tid Owner) (tid : Tid) (type : LockType) (key : Key) :
    Option (State Key Tid Owner) :=
  match (state.txns tid).stage with
  | .execute =>
      some (state.setTxn tid
        { (state.txns tid).push type (.fresh key) with stage := .request type key false })
  | _ => none

/-- The application stores into a buffer of the write set. -/
def modify (config : Config Key Tid Owner) (state : State Key Tid Owner) (tid : Tid)
    (key : Key) (data : Bytes) : Option (State Key Tid Owner) :=
  let txn := state.txns tid
  match txn.stage with
  | .execute =>
      if data.length = config.len key then
        some (state.setTxn tid { txn with
          writeSet := txn.writeSet.map fun item =>
            if item.key = key then { item with data } else item })
      else
        none
  | _ => none

/-- The RPC layer copies a reply over the head of the reply buffer. -/
def receive (buffer reply : Bytes) : Bytes := reply ++ buffer.drop reply.length

/-- Fill the last item of the set of a type. -/
def Txn.fillLast (txn : Txn Key) (type : LockType) (locked value : Bytes) : Txn Key :=
  match type with
  | .read => { txn with readSet := txn.readSet.modifyLast (·.fill locked value) }
  | .write => { txn with writeSet := txn.writeSet.modifyLast (·.fill locked value) }

/-- What a transaction releases when a request of this type is refused: both sets
without the item that was refused. -/
def Txn.abortStage (txn : Txn Key) : LockType → Stage Key
  | .read => .releaseReads txn.readSet.dropLast txn.writeSet
  | .write => .releaseReads txn.readSet txn.writeSet.dropLast

/-- A reply arrives in the buffer of the coroutine. -/
def State.setReplyBuf (state : State Key Tid Owner) (owner : Owner) (buffer : Bytes) :
    State Key Tid Owner :=
  { state with replyBuf := Function.update state.replyBuf owner buffer }

/-- A granted request: the value behind the status byte is copied into the item.
`locked` is the value of the record at that moment. -/
def grant (config : Config Key Tid Owner) (state : State Key Tid Owner) (tid : Tid)
    (type : LockType) (key : Key) (locked payload : Bytes) : State Key Tid Owner :=
  (state.setTxn tid
    { (state.txns tid).fillLast type locked (payload.take (config.len key)) with
      stage := .execute }).log (.acquired tid key (config.word tid type))

/-- A refused request. -/
def refuse (state : State Key Tid Owner) (tid : Tid) (type : LockType) :
    State Key Tid Owner :=
  state.setStage tid ((state.txns tid).abortStage type)

/-- `try_lock_read_w_rwlock_rpc` and `try_lock_write_w_rwlock_rpc` after the reply. -/
def tryLock (config : Config Key Tid Owner) (state : State Key Tid Owner) (tid : Tid)
    (type : LockType) (key : Key) (locked reply : Bytes) :
    Option (State Key Tid Owner) :=
  let buffer := receive (state.replyBuf (config.owner tid)) reply
  let next := state.setReplyBuf (config.owner tid) buffer
  match buffer with
  | [] => none
  | status :: payload =>
      if status = lockSuccessMagic then
        some (grant config next tid type key locked payload)
      else if status = lockFailMagic then
        some (refuse next tid type)
      else
        none

/-- `add_to_waitlist` puts a waiter at the head of the list of its server. -/
def addToWaitlist (config : Config Key Tid Owner) (state : State Key Tid Owner)
    (tid : Tid) (type : LockType) (key : Key) : State Key Tid Owner :=
  let server := config.server tid key
  { state.setStage tid (.request type key true) with
    waitLists := Function.update state.waitLists server
      ({ type, tid, key } :: state.waitLists server) }

/-- The lock request of a transaction reaches its server. -/
def lockItem (config : Config Key Tid Owner) (state : State Key Tid Owner) (tid : Tid) :
    Option (State Key Tid Owner) :=
  match (state.txns tid).stage with
  | .request type key false =>
      let record := state.records key
      match config.protocol.lockRpcHandler record type (config.startTime tid)
        (config.len key) with
      | (after, some reply) =>
          tryLock config (state.setRecord key after) tid type key record.value reply
      | (_, none) =>
          some (addToWaitlist config state tid type key)
  | _ => none

/-- `check_to_notify` of a worker reaches the waiter of a transaction. -/
def notify (config : Config Key Tid Owner) (state : State Key Tid Owner)
    (server : Nat × Nat) (tid : Tid) : Option (State Key Tid Owner) :=
  match nextFor (fun waiter => waiter.tid == tid) (state.waitLists server) with
  | none => none
  | some (waiter, rest) =>
      let record := state.records waiter.key
      match checkToNotifyItem record waiter.type (config.startTime waiter.tid) with
      | (after, some reply) =>
          tryLock config
            { state.setRecord waiter.key after with
              waitLists := Function.update state.waitLists server rest }
            waiter.tid waiter.type waiter.key record.value reply
      | (_, none) => some state

/-- The loop of `check_to_notify` from one waiter to the next. -/
def notifyAll (config : Config Key Tid Owner) (server : Nat × Nat) :
    List (Waiter Key Tid) → State Key Tid Owner → State Key Tid Owner
  | [], state => state
  | waiter :: rest, state =>
      notifyAll config server rest ((notify config state server waiter.tid).getD state)

/-- A whole pass of `check_to_notify` over the wait list of a worker. -/
def checkToNotify (config : Config Key Tid Owner) (state : State Key Tid Owner)
    (server : Nat × Nat) : State Key Tid Owner :=
  notifyAll config server (state.waitLists server) state

/-- `commit` sends the write-back. -/
def commit (state : State Key Tid Owner) (tid : Tid) : Option (State Key Tid Owner) :=
  match (state.txns tid).stage with
  | .execute =>
      some { state.setStage tid (.writeBack (state.txns tid).writeSet) with
        commitOrder := state.commitOrder ++ [tid] }
  | _ => none

/-- `machine` processes the next item of a commit message. -/
def commitItem (config : Config Key Tid Owner) (state : State Key Tid Owner) (tid : Tid)
    (machine : Nat) : Option (State Key Tid Owner) :=
  match (state.txns tid).stage with
  | .writeBack pending =>
      (nextFor (config.at machine) pending).map fun (item, rest) =>
        ((state.setRecord item.key
          (commitRpcHandler (state.records item.key) item.data)).setStage tid
            (.writeBack rest)).log (.released tid item.key (config.word tid .write))
  | _ => none

/-- `machine` processes the next item of a release message of this type. -/
def releaseOne (config : Config Key Tid Owner) (state : State Key Tid Owner) (tid : Tid)
    (machine : Nat) (type : LockType) (pending : List (ReadSetItem Key))
    (next : List (ReadSetItem Key) → Stage Key) : Option (State Key Tid Owner) :=
  (nextFor (config.at machine) pending).bind fun (item, rest) =>
    (config.protocol.releaseRpcHandler (state.records item.key)
      (config.word tid type)).map fun after =>
        ((state.setRecord item.key after).setStage tid (next rest)).log
          (.released tid item.key (config.word tid type))

/-- `machine` processes the next item of the release message in flight. -/
def releaseItem (config : Config Key Tid Owner) (state : State Key Tid Owner) (tid : Tid)
    (machine : Nat) : Option (State Key Tid Owner) :=
  match (state.txns tid).stage with
  | .releaseReads pending writes =>
      releaseOne config state tid machine .read pending (.releaseReads · writes)
  | .releaseWrites pending =>
      releaseOne config state tid machine .write pending .releaseWrites
  | .releaseCommitted pending =>
      releaseOne config state tid machine .read pending .releaseCommitted
  | _ => none

/-- The call returns to the application and the transaction is over. -/
def State.finish (state : State Key Tid Owner) (owner : Owner) (tid : Tid)
    (committed : Bool) : State Key Tid Owner :=
  { state.setStage tid (.finished committed) with
    running := Function.update state.running owner none }

/-- The coroutine goes on after the last reply of a release or commit message. -/
def resume (config : Config Key Tid Owner) (state : State Key Tid Owner) (tid : Tid) :
    Option (State Key Tid Owner) :=
  match (state.txns tid).stage with
  | .releaseReads [] writes => some (state.setStage tid (.releaseWrites writes))
  | .releaseWrites [] => some (state.finish (config.owner tid) tid false)
  | .writeBack [] =>
      some (state.setStage tid (.releaseCommitted (state.txns tid).readSet))
  | .releaseCommitted [] => some (state.finish (config.owner tid) tid true)
  | _ => none

/-- One atomic step of the system. -/
inductive Action (Key : Type u) (Tid : Type v) where
  | begin (tid : Tid)
  | request (tid : Tid) (type : LockType) (key : Key)
  | modify (tid : Tid) (key : Key) (data : Bytes)
  | lockItem (tid : Tid)
  | notify (server : Nat × Nat) (tid : Tid)
  | commit (tid : Tid)
  | commitItem (tid : Tid) (machine : Nat)
  | releaseItem (tid : Tid) (machine : Nat)
  | resume (tid : Tid)
  deriving DecidableEq, Repr

/-- The transaction a step belongs to. -/
def Action.tid : Action Key Tid → Tid
  | .begin tid => tid
  | .request tid _ _ => tid
  | .modify tid _ _ => tid
  | .lockItem tid => tid
  | .notify _ tid => tid
  | .commit tid => tid
  | .commitItem tid _ => tid
  | .releaseItem tid _ => tid
  | .resume tid => tid

/-- The step function of the system. -/
def step (config : Config Key Tid Owner) (state : State Key Tid Owner) :
    Action Key Tid → Option (State Key Tid Owner)
  | .begin tid => begin config state tid
  | .request tid type key => request state tid type key
  | .modify tid key data => modify config state tid key data
  | .lockItem tid => lockItem config state tid
  | .notify server tid => notify config state server tid
  | .commit tid => commit state tid
  | .commitItem tid machine => commitItem config state tid machine
  | .releaseItem tid machine => releaseItem config state tid machine
  | .resume tid => resume config state tid

end Steps

/-! ## Outcome of a transaction -/

/-- `commit` of the transaction has returned true. -/
def Txn.Committed (txn : Txn Key) : Prop := txn.stage = .finished true

instance [DecidableEq Key] (txn : Txn Key) : Decidable txn.Committed :=
  inferInstanceAs (Decidable (_ = _))

/-- `commit` has been called, and it can only return true. -/
def Txn.Decided (txn : Txn Key) : Prop :=
  match txn.stage with
  | .writeBack _ => True
  | .releaseCommitted _ => True
  | .finished true => True
  | _ => False

/-- Values a transaction buffered and the buffers it writes back. -/
def Txn.footprint [DecidableEq Key] (txn : Txn Key) : Footprint Key Bytes where
  reads key := ((txn.readSet ++ txn.writeSet).find? (·.key = key)).map (·.value)
  writes key := (txn.writeSet.find? (·.key = key)).map (·.data)

end Rocc.Locking
