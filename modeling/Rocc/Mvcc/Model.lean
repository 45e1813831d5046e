import Rocc.Base.Batch
import Rocc.Base.Ledger
import Rocc.Base.Replay
import Rocc.Mvcc.Header

/-!
# Multi-version concurrency control at the server

Transactions read and lock records through the RPC handlers and, at the end,
update or release every record they locked.  A request is answered to the
coroutine that waits for it, so a handler and the client taking up its answer are
one step.  A read of a record that is already in one of the sets is served from
there and a second write of a record reuses its item, so neither reaches a server.

`history` keeps all versions ever installed for a record, `commits` the order of
the commit calls and `events` the locks; no step reads them.  Values are the ones
the handlers select.
-/

set_option linter.unusedSectionVars false

namespace Rocc.Mvcc

open Rtx

universe u v w

/-- `ReadSetItem`: `seq` is the slot an update overwrites, `version` the write
timestamp of the version selected, `value` that version and `data` the current
contents of the buffer. -/
structure ReadSetItem (Key : Type u) (Value : Type v) where
  key : Key
  seq : Slot
  version : Nat
  value : Value
  data : Value
  deriving DecidableEq, Repr

/-- Where a transaction stands; the messages keep the items not processed yet. -/
inductive Stage (Key : Type u) (Value : Type v) where
  | idle
  | execute
  | update (pending : List (ReadSetItem Key Value))
  | release (pending : List (ReadSetItem Key Value))
  | finished (committed : Bool)
  deriving DecidableEq, Repr

/-- One transaction. -/
structure Txn (Key : Type u) (Value : Type v) where
  stage : Stage Key Value
  readSet : List (ReadSetItem Key Value)
  writeSet : List (ReadSetItem Key Value)
  deriving DecidableEq, Repr

/-- Placement of records and `txn_starting_timestamp` of every transaction. -/
structure Config (Key : Type u) (Tid : Type w) where
  pid : Key → Nat
  timestamp : Tid → Nat
  two_le_timestamp : ∀ tid, 2 ≤ timestamp tid
  timestamp_lt : ∀ tid, timestamp tid < wordBound
  timestamp_injective : Function.Injective timestamp

/-- The records and transactions, and the histories. -/
structure State (Key : Type u) (Value : Type v) (Tid : Type w) where
  records : Key → Header Value
  txns : Tid → Txn Key Value
  history : Key → List (Nat × Value)
  commits : List Tid
  events : List (LockEvent Tid Key)

variable {Key : Type u} {Value : Type v} {Tid : Type w}
variable [DecidableEq Key] [DecidableEq Tid]

/-- One version with timestamp 1 in slot 0, the other slots empty. -/
def Header.initial (value : Value) : Header Value where
  lock := 0
  rts := 0
  wts slot := if slot = 0 then 1 else 0
  data _ := value

/-- Every record holds its initial version and no transaction has begun. -/
def State.initial (value : Key → Value) : State Key Value Tid where
  records key := .initial (value key)
  txns _ := { stage := .idle, readSet := [], writeSet := [] }
  history key := [(1, value key)]
  commits := []
  events := []

/-- Replace one transaction. -/
def State.setTxn (state : State Key Value Tid) (tid : Tid) (txn : Txn Key Value) :
    State Key Value Tid :=
  { state with txns := Function.update state.txns tid txn }

/-- Move one transaction to another stage. -/
def State.setStage (state : State Key Value Tid) (tid : Tid)
    (stage : Stage Key Value) : State Key Value Tid :=
  state.setTxn tid { state.txns tid with stage }

/-- Replace one record. -/
def State.setRecord (state : State Key Value Tid) (key : Key) (header : Header Value) :
    State Key Value Tid :=
  { state with records := Function.update state.records key header }

/-- Extend the lock history. -/
def State.log (state : State Key Value Tid) (event : LockEvent Tid Key) :
    State Key Value Tid :=
  { state with events := state.events ++ [event] }

/-- Items of a message addressed to `machine`. -/
def Config.at (config : Config Key Tid) (machine : Nat) (item : ReadSetItem Key Value) :
    Bool :=
  config.pid item.key == machine

/-- `begin`. -/
def begin (state : State Key Value Tid) (tid : Tid) : Option (State Key Value Tid) :=
  match (state.txns tid).stage with
  | .idle => some (state.setTxn tid { stage := .execute, readSet := [], writeSet := [] })
  | _ => none

/-- `remote_read` with `read_rpc_handler`; a failure releases the write set. -/
def read (config : Config Key Tid) (state : State Key Value Tid) (tid : Tid) (key : Key) :
    Option (State Key Value Tid) :=
  let txn := state.txns tid
  match txn.stage with
  | .execute =>
      if ∀ item ∈ txn.readSet ++ txn.writeSet, item.key ≠ key then
        let header := state.records key
        match readRpcHandler header (config.timestamp tid) with
        | (after, none) => some ((state.setRecord key after).setStage tid
            (.release txn.writeSet))
        | (after, some pos) => some ((state.setRecord key after).setTxn tid
            { txn with readSet := txn.readSet ++ [{
                key, seq := 0, version := header.wts pos, value := header.data pos,
                data := header.data pos }] })
      else
        none
  | _ => none

/-- `remote_write` with `lock_read_rpc_handler`.  The item of a refused request is left
out of the release. -/
def write (config : Config Key Tid) (state : State Key Value Tid) (tid : Tid)
    (key : Key) : Option (State Key Value Tid) :=
  let txn := state.txns tid
  match txn.stage with
  | .execute =>
      if ∀ item ∈ txn.writeSet, item.key ≠ key then
        let header := state.records key
        match lockReadRpcHandler header (config.timestamp tid) with
        | none => none
        | some (after, .success pos maxpos) =>
            some (((state.setRecord key after).setTxn tid
              { txn with writeSet := txn.writeSet ++ [{
                  key, seq := pos, version := header.wts maxpos,
                  value := header.data maxpos, data := header.data maxpos }] }).log
              (.acquired tid key (config.timestamp tid)))
        | some (after, .fail) => some ((state.setRecord key after).setStage tid
            (.release txn.writeSet))
        | some (after, .updateTs _) => some ((state.setRecord key after).setStage tid
            (.release txn.writeSet))
      else
        none
  | _ => none

/-- The application stores into a buffer of the write set. -/
def modify (state : State Key Value Tid) (tid : Tid) (key : Key) (data : Value) :
    Option (State Key Value Tid) :=
  let txn := state.txns tid
  match txn.stage with
  | .execute =>
      some (state.setTxn tid { txn with
        writeSet := txn.writeSet.map fun item =>
          if item.key = key then { item with data } else item })
  | _ => none

/-- `commit` sends the updates. -/
def commit (state : State Key Value Tid) (tid : Tid) : Option (State Key Value Tid) :=
  match (state.txns tid).stage with
  | .execute =>
      some { state.setStage tid (.update (state.txns tid).writeSet) with
        commits := state.commits ++ [tid] }
  | _ => none

/-- The transaction gives up after a negative vote. -/
def abort (state : State Key Value Tid) (tid : Tid) : Option (State Key Value Tid) :=
  match (state.txns tid).stage with
  | .execute => some (state.setStage tid (.release (state.txns tid).writeSet))
  | _ => none

/-- `machine` processes the next item of an update message. -/
def updateItem (config : Config Key Tid) (state : State Key Value Tid) (tid : Tid)
    (machine : Nat) : Option (State Key Value Tid) :=
  match (state.txns tid).stage with
  | .update pending =>
      (nextFor (config.at machine) pending).bind fun (item, rest) =>
        (updateRpcHandler (state.records item.key) (config.timestamp tid) item.seq
          item.data).map fun after =>
            ({ (state.setRecord item.key after).setStage tid (.update rest) with
              history := Function.update state.history item.key
                (state.history item.key ++ [(config.timestamp tid, item.data)]) }).log
              (.released tid item.key (config.timestamp tid))
  | _ => none

/-- `machine` processes the next item of a release message. -/
def releaseItem (config : Config Key Tid) (state : State Key Value Tid) (tid : Tid)
    (machine : Nat) : Option (State Key Value Tid) :=
  match (state.txns tid).stage with
  | .release pending =>
      (nextFor (config.at machine) pending).bind fun (item, rest) =>
        (releaseRpcHandler (state.records item.key) (config.timestamp tid)).map fun after =>
          ((state.setRecord item.key after).setStage tid (.release rest)).log
            (.released tid item.key (config.timestamp tid))
  | _ => none

/-- The coroutine goes on after the last reply. -/
def resume (state : State Key Value Tid) (tid : Tid) : Option (State Key Value Tid) :=
  match (state.txns tid).stage with
  | .update [] => some (state.setStage tid (.finished true))
  | .release [] => some (state.setStage tid (.finished false))
  | _ => none

/-- One atomic step of the system. -/
inductive Action (Key : Type u) (Value : Type v) (Tid : Type w) where
  | begin (tid : Tid)
  | read (tid : Tid) (key : Key)
  | write (tid : Tid) (key : Key)
  | modify (tid : Tid) (key : Key) (data : Value)
  | commit (tid : Tid)
  | abort (tid : Tid)
  | updateItem (tid : Tid) (machine : Nat)
  | releaseItem (tid : Tid) (machine : Nat)
  | resume (tid : Tid)
  deriving DecidableEq, Repr

/-- The step function of the system. -/
def step (config : Config Key Tid) (state : State Key Value Tid) :
    Action Key Value Tid → Option (State Key Value Tid)
  | .begin tid => begin state tid
  | .read tid key => read config state tid key
  | .write tid key => write config state tid key
  | .modify tid key data => modify state tid key data
  | .commit tid => commit state tid
  | .abort tid => abort state tid
  | .updateItem tid machine => updateItem config state tid machine
  | .releaseItem tid machine => releaseItem config state tid machine
  | .resume tid => resume state tid

/-- `commit` has been called; it can only return true. -/
def Txn.Decided (txn : Txn Key Value) : Prop :=
  match txn.stage with
  | .update _ => True
  | .finished true => True
  | _ => False

/-- `commit` has returned true. -/
def Txn.Committed (txn : Txn Key Value) : Prop := txn.stage = .finished true

instance [DecidableEq Value] (txn : Txn Key Value) : Decidable txn.Committed :=
  inferInstanceAs (Decidable (_ = _))

/-- Versions a transaction was handed and the buffers it installs. -/
def Txn.footprint (txn : Txn Key Value) : Footprint Key Value where
  reads key := ((txn.readSet ++ txn.writeSet).find? (·.key = key)).map (·.value)
  writes key := (txn.writeSet.find? (·.key = key)).map (·.data)

end Rocc.Mvcc
