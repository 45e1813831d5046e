import Rocc.Base.Batch
import Rocc.Base.Ledger
import Rocc.Base.Replay
import Rocc.Sundial.Node

/-!
# SUNDIAL over RPC

A transaction reads records without locking them, locks the records it writes,
renews the leases of its reads in `prepare` and then updates or releases every
record of its write set.  The per-item body of each handler is one step; a
request is answered to the coroutine that waits for it, so the handler and the
client taking up its answer are one step as well.  Requests that were put on a
wait list are visited by `check_to_notify` in any order.

`commit_id_` belongs to the coroutine and is not reset when a transaction begins,
so `begin` takes the value left over.  When the renewal fails `prepare` releases
the write set and `commit` releases it once more.

`version` of an item is the commit id that `read_lock` held when the item was
loaded; with `history`, `commits` and `events` it records what happened and no
step reads it.
-/

set_option linter.unusedSectionVars false

namespace Rocc.Sundial

universe u v w

namespace Rpc

/-- `SundialReadSetItem`: the timestamps of the reply, the value it carried and the
current contents of the buffer. -/
structure ReadSetItem (Key : Type u) (Value : Type v) where
  key : Key
  wts : Nat
  rts : Nat
  version : Nat
  value : Value
  data : Value
  deriving DecidableEq, Repr

variable {Key : Type u} {Value : Type v} {Tid : Type w}

/-- The item a reply of `prepare_buf` fills. -/
def load (node : Node Value) (key : Key) : ReadSetItem Key Value :=
  { key, wts := node.prepareBuf.1, rts := node.prepareBuf.2.1, version := wts node.readLock,
    value := node.prepareBuf.2.2, data := node.prepareBuf.2.2 }

/-- Where a transaction stands; the messages keep the items not processed yet. -/
inductive Stage (Key : Type u) (Value : Type v) where
  | idle
  | execute
  | wait (key : Key)
  | renew (pending : List (ReadSetItem Key Value)) (success : Bool)
  | prepared
  | update (pending : List (ReadSetItem Key Value))
  | release (pending : List (ReadSetItem Key Value)) (again : Bool)
  | releaseAgain (pending : List (ReadSetItem Key Value))
  | finished (committed : Bool)
  deriving DecidableEq, Repr

/-- One transaction. -/
structure Txn (Key : Type u) (Value : Type v) where
  stage : Stage Key Value
  readSet : List (ReadSetItem Key Value)
  writeSet : List (ReadSetItem Key Value)
  commitId : Nat
  deriving DecidableEq, Repr

/-- The records and transactions, and the histories: the versions of every record, the
order of the commit decisions and the locks. -/
structure State (Key : Type u) (Value : Type v) (Tid : Type w) where
  records : Key → Node Value
  txns : Tid → Txn Key Value
  history : Key → List (Nat × Value)
  commits : List Tid
  events : List (LockEvent Tid Key)

variable [DecidableEq Key] [DecidableEq Tid]

/-- Every record is as loaded and no transaction has begun. -/
def State.initial (value : Key → Value) : State Key Value Tid where
  records key := .initial (value key)
  txns _ := { stage := .idle, readSet := [], writeSet := [], commitId := 0 }
  history key := [(0, value key)]
  commits := []
  events := []

/-- Replace one transaction. -/
def State.setTxn (state : State Key Value Tid) (tid : Tid) (txn : Txn Key Value) :
    State Key Value Tid :=
  { state with txns := Function.update state.txns tid txn }

/-- Move one transaction to another stage. -/
def State.setStage (state : State Key Value Tid) (tid : Tid)
    (stage : Stage Key Value) : State Key Value Tid :=
  state.setTxn tid { state.txns tid with stage }

/-- Replace one record. -/
def State.setRecord (state : State Key Value Tid) (key : Key) (node : Node Value) :
    State Key Value Tid :=
  { state with records := Function.update state.records key node }

/-- Extend the lock history. -/
def State.log (state : State Key Value Tid) (event : LockEvent Tid Key) :
    State Key Value Tid :=
  { state with events := state.events ++ [event] }

/-- `begin`. -/
def begin (state : State Key Value Tid) (tid : Tid) (commitId : Nat) :
    Option (State Key Value Tid) :=
  match (state.txns tid).stage with
  | .idle => some (state.setTxn tid { stage := .execute, readSet := [], writeSet := [], commitId })
  | _ => none

/-- `remote_read` with `read_rpc_handler`. -/
def read (state : State Key Value Tid) (tid : Tid) (key : Key) :
    Option (State Key Value Tid) :=
  let txn := state.txns tid
  match txn.stage with
  | .execute =>
      let item := load (state.records key) key
      some (state.setTxn tid { txn with
        readSet := txn.readSet ++ [item]
        commitId := max txn.commitId item.wts })
  | _ => none

/-- The transaction takes up the answer to a lock request; a refused transaction
releases what it had locked before. -/
def answer (config : Config Key Tid) (state : State Key Value Tid) (tid : Tid) (key : Key)
    (node : Node Value) : LockReply → State Key Value Tid
  | .granted =>
      let txn := state.txns tid
      let item := load node key
      ((state.setRecord key node).setTxn tid { txn with
        stage := .execute
        writeSet := txn.writeSet ++ [item]
        commitId := max txn.commitId (item.rts + 1) }).log
        (.acquired tid key (config.startTime tid))
  | .failed => (state.setRecord key node).setStage tid
      (.release (state.txns tid).writeSet false)
  | .queued => (state.setRecord key node).setStage tid (.wait key)

/-- `remote_write` with `lock_read_rpc_handler`. -/
def write (config : Config Key Tid) (state : State Key Value Tid) (tid : Tid)
    (key : Key) : Option (State Key Value Tid) :=
  match (state.txns tid).stage with
  | .execute =>
      ((state.records key).lockReadRpcHandler (config.startTime tid)).map
        fun (node, reply) => answer config state tid key node reply
  | _ => none

/-- `check_to_notify` visits the request of a waiting transaction. -/
def notify (config : Config Key Tid) (state : State Key Value Tid) (tid : Tid) :
    Option (State Key Value Tid) :=
  match (state.txns tid).stage with
  | .wait key =>
      let (node, reply) := (state.records key).checkToNotifyItem (config.startTime tid)
      some (answer config state tid key node reply)
  | _ => none

/-- The application stores into a buffer of the write set. -/
def modify (state : State Key Value Tid) (tid : Tid) (key : Key) (data : Value) :
    Option (State Key Value Tid) :=
  let txn := state.txns tid
  match txn.stage with
  | .execute =>
      some (state.setTxn tid { txn with
        writeSet := txn.writeSet.map fun item =>
          if item.key = key then { item with data } else item })
  | _ => none

/-- `prepare` sends the renewals of `try_renew_all_lease_rpc`; a lease that reaches
beyond the commit id is left alone. -/
def prepare (state : State Key Value Tid) (tid : Tid) : Option (State Key Value Tid) :=
  let txn := state.txns tid
  match txn.stage with
  | .execute => some (state.setStage tid
      (.renew (txn.readSet.filter fun item => decide (item.rts < txn.commitId)) true))
  | _ => none

/-- `machine` processes the next item of `renew_lease_rpc_handler`. -/
def renewItem (config : Config Key Tid) (state : State Key Value Tid) (tid : Tid)
    (machine : Nat) : Option (State Key Value Tid) :=
  let txn := state.txns tid
  match txn.stage with
  | .renew pending success =>
      (nextFor (config.at ReadSetItem.key machine) pending).map fun (item, rest) =>
        match (state.records item.key).renewLeaseLocal item.wts txn.commitId with
        | none => state.setStage tid (.renew rest false)
        | some node => (state.setRecord item.key node).setStage tid (.renew rest success)
  | _ => none

/-- The votes of `prepare_commit`: the transaction updates or releases its write set. -/
def vote (state : State Key Value Tid) (tid : Tid) (commit : Bool) :
    Option (State Key Value Tid) :=
  let txn := state.txns tid
  match txn.stage with
  | .prepared =>
      if commit then
        some { state.setStage tid (.update txn.writeSet) with
          commits := state.commits ++ [tid] }
      else
        some (state.setStage tid (.release txn.writeSet false))
  | _ => none

/-- `machine` processes the next item of `update_rpc_handler`. -/
def updateItem (config : Config Key Tid) (state : State Key Value Tid) (tid : Tid)
    (machine : Nat) : Option (State Key Value Tid) :=
  let txn := state.txns tid
  match txn.stage with
  | .update pending =>
      (nextFor (config.at ReadSetItem.key machine) pending).map fun (item, rest) =>
        ({ (state.setRecord item.key
              ((state.records item.key).updateRpcHandler item.data txn.commitId)).setStage tid
              (.update rest) with
            history := Function.update state.history item.key
              (state.history item.key ++ [(txn.commitId, item.data)]) }).log
          (.released tid item.key (config.startTime tid))
  | _ => none

/-- One unlock item of a message, with what is left of the message. -/
def releaseOne (config : Config Key Tid) (state : State Key Value Tid) (tid : Tid)
    (item : ReadSetItem Key Value) (stage : Stage Key Value) : State Key Value Tid :=
  ((state.setRecord item.key (state.records item.key).releaseRpcHandler).setStage tid
    stage).log (.released tid item.key (config.startTime tid))

/-- `machine` processes the next item of `release_rpc_handler`. -/
def releaseItem (config : Config Key Tid) (state : State Key Value Tid) (tid : Tid)
    (machine : Nat) : Option (State Key Value Tid) :=
  match (state.txns tid).stage with
  | .release pending again =>
      (nextFor (config.at ReadSetItem.key machine) pending).map fun (item, rest) =>
        releaseOne config state tid item (.release rest again)
  | .releaseAgain pending =>
      (nextFor (config.at ReadSetItem.key machine) pending).map fun (item, rest) =>
        releaseOne config state tid item (.releaseAgain rest)
  | _ => none

/-- The coroutine goes on after the last reply.  A failed renewal makes `prepare` release
the write set and, when this is done, `commit` release it again. -/
def resume (state : State Key Value Tid) (tid : Tid) : Option (State Key Value Tid) :=
  let txn := state.txns tid
  match txn.stage with
  | .renew [] true => some (state.setStage tid .prepared)
  | .renew [] false => some (state.setStage tid (.release txn.writeSet true))
  | .update [] => some (state.setStage tid (.finished true))
  | .release [] true => some (state.setStage tid (.releaseAgain txn.writeSet))
  | .release [] false => some (state.setStage tid (.finished false))
  | .releaseAgain [] => some (state.setStage tid (.finished false))
  | _ => none

/-- One atomic step of the system. -/
inductive Action (Key : Type u) (Value : Type v) (Tid : Type w) where
  | begin (tid : Tid) (commitId : Nat)
  | read (tid : Tid) (key : Key)
  | write (tid : Tid) (key : Key)
  | notify (tid : Tid)
  | modify (tid : Tid) (key : Key) (data : Value)
  | prepare (tid : Tid)
  | renewItem (tid : Tid) (machine : Nat)
  | vote (tid : Tid) (commit : Bool)
  | updateItem (tid : Tid) (machine : Nat)
  | releaseItem (tid : Tid) (machine : Nat)
  | resume (tid : Tid)
  deriving DecidableEq, Repr

/-- The step function of the system. -/
def step (config : Config Key Tid) (state : State Key Value Tid) :
    Action Key Value Tid → Option (State Key Value Tid)
  | .begin tid commitId => begin state tid commitId
  | .read tid key => read state tid key
  | .write tid key => write config state tid key
  | .notify tid => notify config state tid
  | .modify tid key data => modify state tid key data
  | .prepare tid => prepare state tid
  | .renewItem tid machine => renewItem config state tid machine
  | .vote tid commit => vote state tid commit
  | .updateItem tid machine => updateItem config state tid machine
  | .releaseItem tid machine => releaseItem config state tid machine
  | .resume tid => resume state tid

/-- Items of the message in flight. -/
def Txn.inFlight (txn : Txn Key Value) : List (ReadSetItem Key Value) :=
  match txn.stage with
  | .renew pending _ => pending
  | .update pending => pending
  | .release pending _ => pending
  | .releaseAgain pending => pending
  | _ => []

/-- The item of a transaction that `machine` processes next. -/
def State.next (config : Config Key Tid) (state : State Key Value Tid) (tid : Tid)
    (machine : Nat) : Option (ReadSetItem Key Value) :=
  (nextFor (config.at ReadSetItem.key machine) (state.txns tid).inFlight).map (·.1)

/-- `commit` can only return true. -/
def Txn.Decided (txn : Txn Key Value) : Prop :=
  match txn.stage with
  | .update _ => True
  | .finished true => True
  | _ => False

/-- `commit` has returned true. -/
def Txn.Committed (txn : Txn Key Value) : Prop := txn.stage = .finished true

instance [DecidableEq Value] (txn : Txn Key Value) : Decidable txn.Committed :=
  inferInstanceAs (Decidable (_ = _))

/-- Values a transaction was handed and the buffers it installs. -/
def Txn.footprint (txn : Txn Key Value) : Footprint Key Value where
  reads key := ((txn.readSet ++ txn.writeSet).find? (·.key = key)).map (·.value)
  writes key := (txn.writeSet.find? (·.key = key)).map (·.data)

end Rpc

end Rocc.Sundial
