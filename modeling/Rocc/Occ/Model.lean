import Rocc.Base.Batch
import Rocc.Base.Replay
import Rocc.Rtx.Record

/-!
# Optimistic concurrency control over RPC

The model of `OCC` when every record is reached through the RPC handlers.  A
coroutine runs one transaction at a time: it loads records into its read and
write set, and `commit` drives the transaction through locking, validation and
write-back, or through a release.  Each phase broadcasts one message (one message
per record for the write-back), the handlers process it record by record, and
the coroutine goes on once every destination has replied.

A request and its reply only touch the state of the coroutine that waits for
them, so a load is one step here: the body of `read_write_rpc_handler` together
with the coroutine storing the reply.
-/

set_option linter.unusedSectionVars false

namespace Rocc.Occ

open Rtx

universe u v w x

/-- `ReadSetItem`: a record with the sequence word and value loaded for it, and
the current contents of its buffer `data_ptr`. -/
structure ReadSetItem (Key : Type u) (Value : Type v) where
  key : Key
  seq : Nat
  value : Value
  data : Value
  deriving DecidableEq, Repr

/-- Where `OCC::commit` stands.  A phase that waits for replies keeps the items no
handler has processed yet and whether some handler reported `LOCK_FAIL_MAGIC`. -/
inductive Stage (Key : Type u) (Value : Type v) where
  | idle
  | execute
  | lock (pending : List (ReadSetItem Key Value)) (failed : Bool)
  | validate (pending : List (ReadSetItem Key Value)) (failed : Bool)
  | writeBack (pending : List (ReadSetItem Key Value))
  | release (pending : List (ReadSetItem Key Value))
  | finished (committed : Bool)
  deriving DecidableEq, Repr

/-- One transaction of a coroutine. -/
structure Txn (Key : Type u) (Value : Type v) where
  stage : Stage Key Value
  readSet : List (ReadSetItem Key Value)
  writeSet : List (ReadSetItem Key Value)
  deriving DecidableEq, Repr

/-- Placement of records and identity of coroutines.  Every transaction belongs to
a coroutine; different coroutines use different, non-zero lock contents. -/
structure Config (Key : Type u) (Tid : Type w) (Owner : Type x) where
  pid : Key → Nat
  owner : Tid → Owner
  lockContent : Owner → Nat
  lockContent_ne_zero : ∀ owner, lockContent owner ≠ 0
  lockContent_injective : Function.Injective lockContent

/-- The database, the transactions, and the transaction each coroutine runs.
`lockOrder` lists the transactions in the order in which they held all their
locks; no step reads it. -/
structure State (Key : Type u) (Value : Type v) (Tid : Type w)
    (Owner : Type x) where
  records : Key → Record Value
  txns : Tid → Txn Key Value
  running : Owner → Option Tid
  lockOrder : List Tid

variable {Key : Type u} {Value : Type v} {Tid : Type w} {Owner : Type x}

/-! ## Bodies of the RPC handlers, one record at a time -/

/-- `lock_rpc_handler`: lock the record, then compare the sequence word; the flag
says whether the handler goes on to the next record. -/
def lockRpcHandler (record : Record Value) (lockContent seq : Nat) :
    Record Value × Bool :=
  match record.localTryLockOp lockContent with
  | none => (record, false)
  | some locked => (locked, locked.seq == seq)

/-- `validate_rpc_handler`. -/
def validateRpcHandler (record : Record Value) (seq : Nat) : Bool :=
  record.localValidateOp seq

/-- `commit_oneshot_handler`. -/
def commitOneshotHandler (record : Record Value) (value : Value) :
    Record Value :=
  record.inplaceWriteOp value noCommitId

/-- `release_rpc_handler`. -/
def releaseRpcHandler (record : Record Value) (lockContent : Nat) :
    Record Value :=
  record.localTryReleaseOp lockContent

/-- `read_write_rpc_handler`: the item a reply fills in. -/
def readWriteRpcHandler (key : Key) (record : Record Value) :
    Option (ReadSetItem Key Value) :=
  record.localGetOp.map fun loaded =>
    { key, seq := loaded.1, value := loaded.2, data := loaded.2 }

/-! ## Steps -/

section Steps

variable [DecidableEq Key] [DecidableEq Tid] [DecidableEq Owner]

/-- Database with every record unlocked and no transaction begun. -/
def State.initial (seq : Key → Nat) (value : Key → Value) :
    State Key Value Tid Owner where
  records key := { lock := 0, seq := seq key, value := value key }
  txns _ := { stage := .idle, readSet := [], writeSet := [] }
  running _ := none
  lockOrder := []

/-- Replace one transaction. -/
def State.setTxn (state : State Key Value Tid Owner) (tid : Tid)
    (txn : Txn Key Value) : State Key Value Tid Owner :=
  { state with txns := Function.update state.txns tid txn }

/-- Replace one record. -/
def State.setRecord (state : State Key Value Tid Owner) (key : Key)
    (record : Record Value) : State Key Value Tid Owner :=
  { state with records := Function.update state.records key record }

/-- Move one transaction to another stage. -/
def State.setStage (state : State Key Value Tid Owner) (tid : Tid)
    (stage : Stage Key Value) : State Key Value Tid Owner :=
  state.setTxn tid { state.txns tid with stage }

@[simp] theorem State.setStage_records (state : State Key Value Tid Owner)
    (tid : Tid) (stage : Stage Key Value) :
    (state.setStage tid stage).records = state.records := rfl

@[simp] theorem State.setStage_txns (state : State Key Value Tid Owner)
    (tid : Tid) (stage : Stage Key Value) :
    (state.setStage tid stage).txns =
      Function.update state.txns tid { state.txns tid with stage } := rfl

/-- `OCC::begin`. -/
def begin (config : Config Key Tid Owner) (state : State Key Value Tid Owner)
    (tid : Tid) : Option (State Key Value Tid Owner) :=
  match (state.txns tid).stage, state.running (config.owner tid) with
  | .idle, none =>
      some { state.setTxn tid { stage := .execute, readSet := [], writeSet := [] } with
        running := Function.update state.running (config.owner tid) (some tid) }
  | _, _ => none

/-- The record is in neither set of the transaction. -/
def Txn.Fresh (txn : Txn Key Value) (key : Key) : Prop :=
  ∀ item ∈ txn.readSet ++ txn.writeSet, item.key ≠ key

instance (txn : Txn Key Value) (key : Key) : Decidable (txn.Fresh key) :=
  inferInstanceAs (Decidable (∀ item ∈ _, _))

/-- `OCC::read` of a record, with the load of its value. -/
def read (state : State Key Value Tid Owner) (tid : Tid) (key : Key) :
    Option (State Key Value Tid Owner) :=
  let txn := state.txns tid
  match txn.stage with
  | .execute =>
      if txn.Fresh key then
        (readWriteRpcHandler key (state.records key)).map fun item =>
          state.setTxn tid { txn with readSet := txn.readSet ++ [item] }
      else
        none
  | _ => none

/-- `OCC::write` of a record, with the load of its value. -/
def write (state : State Key Value Tid Owner) (tid : Tid) (key : Key) :
    Option (State Key Value Tid Owner) :=
  let txn := state.txns tid
  match txn.stage with
  | .execute =>
      if txn.Fresh key then
        (readWriteRpcHandler key (state.records key)).map fun item =>
          state.setTxn tid { txn with writeSet := txn.writeSet ++ [item] }
      else
        none
  | _ => none

/-- The application stores into the buffer `load_write` gave it. -/
def modify (state : State Key Value Tid Owner) (tid : Tid) (key : Key)
    (data : Value) : Option (State Key Value Tid Owner) :=
  let txn := state.txns tid
  match txn.stage with
  | .execute =>
      some (state.setTxn tid { txn with
        writeSet := txn.writeSet.map fun item =>
          if item.key = key then { item with data } else item })
  | _ => none

/-- `OCC::commit` sends the lock requests of `lock_writes`. -/
def commit (state : State Key Value Tid Owner) (tid : Tid) :
    Option (State Key Value Tid Owner) :=
  match (state.txns tid).stage with
  | .execute => some (state.setStage tid (.lock (state.txns tid).writeSet false))
  | _ => none

/-- Items of a message addressed to `machine`. -/
def Config.at (config : Config Key Tid Owner) (machine : Nat)
    (item : ReadSetItem Key Value) : Bool :=
  config.pid item.key == machine

/-- Lock content of the coroutine running a transaction. -/
def Config.content (config : Config Key Tid Owner) (tid : Tid) : Nat :=
  config.lockContent (config.owner tid)

/-- `machine` processes the next item of a lock message; a failure ends its walk
through the message. -/
def lockItem (config : Config Key Tid Owner) (state : State Key Value Tid Owner)
    (tid : Tid) (machine : Nat) : Option (State Key Value Tid Owner) :=
  match (state.txns tid).stage with
  | .lock pending failed =>
      (nextFor (config.at machine) pending).map fun (item, rest) =>
        let reply := lockRpcHandler (state.records item.key) (config.content tid) item.seq
        (state.setRecord item.key reply.1).setStage tid
          (if reply.2 then .lock rest failed
            else .lock (dropFor (config.at machine) rest) true)
  | _ => none

/-- `machine` processes the next item of a validation message. -/
def validateItem (config : Config Key Tid Owner)
    (state : State Key Value Tid Owner) (tid : Tid) (machine : Nat) :
    Option (State Key Value Tid Owner) :=
  match (state.txns tid).stage with
  | .validate pending failed =>
      (nextFor (config.at machine) pending).map fun (item, rest) =>
        state.setStage tid
          (if validateRpcHandler (state.records item.key) item.seq then
            .validate rest failed
          else
            .validate (dropFor (config.at machine) rest) true)
  | _ => none

/-- The commit message of one record is processed. -/
def commitItem (state : State Key Value Tid Owner) (tid : Tid) (key : Key) :
    Option (State Key Value Tid Owner) :=
  match (state.txns tid).stage with
  | .writeBack pending =>
      (nextFor (fun item => item.key == key) pending).map fun (item, rest) =>
        (state.setRecord item.key
          (commitOneshotHandler (state.records item.key) item.data)).setStage tid
            (.writeBack rest)
  | _ => none

/-- `machine` processes the next item of a release message. -/
def releaseItem (config : Config Key Tid Owner)
    (state : State Key Value Tid Owner) (tid : Tid) (machine : Nat) :
    Option (State Key Value Tid Owner) :=
  match (state.txns tid).stage with
  | .release pending =>
      (nextFor (config.at machine) pending).map fun (item, rest) =>
        (state.setRecord item.key
          (releaseRpcHandler (state.records item.key) (config.content tid))).setStage
            tid (.release rest)
  | _ => none

/-- `commit` returns and the coroutine is free for its next transaction. -/
def State.finish (state : State Key Value Tid Owner) (owner : Owner) (tid : Tid)
    (committed : Bool) : State Key Value Tid Owner :=
  { state.setStage tid (.finished committed) with
    running := Function.update state.running owner none }

/-- The coroutine goes on with `OCC::commit` after the last reply of a phase. -/
def resume (config : Config Key Tid Owner) (state : State Key Value Tid Owner)
    (tid : Tid) : Option (State Key Value Tid Owner) :=
  let txn := state.txns tid
  match txn.stage with
  | .lock [] true => some (state.setStage tid (.release txn.writeSet))
  | .lock [] false =>
      some { state.setStage tid (.validate txn.readSet false) with
        lockOrder := state.lockOrder ++ [tid] }
  | .validate [] true => some (state.setStage tid (.release txn.writeSet))
  | .validate [] false => some (state.setStage tid (.writeBack txn.writeSet))
  | .writeBack [] => some (state.finish (config.owner tid) tid true)
  | .release [] => some (state.finish (config.owner tid) tid false)
  | _ => none

/-- One atomic step of the system. -/
inductive Action (Key : Type u) (Value : Type v) (Tid : Type w) where
  | begin (tid : Tid)
  | read (tid : Tid) (key : Key)
  | write (tid : Tid) (key : Key)
  | modify (tid : Tid) (key : Key) (data : Value)
  | commit (tid : Tid)
  | lockItem (tid : Tid) (machine : Nat)
  | validateItem (tid : Tid) (machine : Nat)
  | commitItem (tid : Tid) (key : Key)
  | releaseItem (tid : Tid) (machine : Nat)
  | resume (tid : Tid)
  deriving DecidableEq, Repr

/-- The step function of the system. -/
def step (config : Config Key Tid Owner) (state : State Key Value Tid Owner) :
    Action Key Value Tid → Option (State Key Value Tid Owner)
  | .begin tid => begin config state tid
  | .read tid key => read state tid key
  | .write tid key => write state tid key
  | .modify tid key data => modify state tid key data
  | .commit tid => commit state tid
  | .lockItem tid machine => lockItem config state tid machine
  | .validateItem tid machine => validateItem config state tid machine
  | .commitItem tid key => commitItem state tid key
  | .releaseItem tid machine => releaseItem config state tid machine
  | .resume tid => resume config state tid

end Steps

/-! ## Outcome of a transaction -/

/-- `commit` of the transaction has returned true. -/
def Txn.Committed (txn : Txn Key Value) : Prop := txn.stage = .finished true

instance [DecidableEq Key] [DecidableEq Value] (txn : Txn Key Value) :
    Decidable txn.Committed :=
  inferInstanceAs (Decidable (_ = _))

/-- The transaction has passed validation, so its commit can only return true. -/
def Txn.Decided (txn : Txn Key Value) : Prop :=
  match txn.stage with
  | .writeBack _ => True
  | .finished true => True
  | _ => False

/-- Values a transaction loaded for its read and write set, and the buffers it
writes back. -/
def Txn.footprint [DecidableEq Key] (txn : Txn Key Value) :
    Footprint Key Value where
  reads key := ((txn.readSet ++ txn.writeSet).find? (·.key = key)).map (·.value)
  writes key := (txn.writeSet.find? (·.key = key)).map (·.data)

end Rocc.Occ
