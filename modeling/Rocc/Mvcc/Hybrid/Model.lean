import Rocc.Base.Batch
import Rocc.Base.Run
import Rocc.Mvcc.Model
import Rocc.Mvcc.OneSided.Model

/-!
# Multi-version concurrency control in every build

`ONE_SIDED_READ` and `HYBRID_CODE` choose for reads, locks, releases and commits whether
they go through the RPC handlers or use one-sided verbs.  The program below has the choice
as a parameter, so it covers the RPC build, the one-sided build and every hybrid one.

An item enters the write set before its lock is requested, and `release_writes` walks over
the whole write set or over all but its last item; every failing return makes that choice
itself.  A request is answered to the coroutine that waits for it, so a handler and the
client taking up its answer are one step.  The workers construct `MVCC` with -1 for
`node_id_`, so no record counts as local.

`failed`, `taken` and `freed` record what happened and no step reads them: the record whose
lock was refused, the records whose lock word the transaction has set, and those whose lock
word it has cleared.
-/

set_option linter.unusedSectionVars false

namespace Rocc.Mvcc.Hybrid

open Rtx OneSided

universe u v w

/-- How an operation reaches a record. -/
inductive Path where
  | rpc
  | rdma
  deriving DecidableEq, Repr

/-- The operations that a build may do with one-sided verbs. -/
structure Build where
  read : Path
  lock : Path
  release : Path
  commit : Path
  deriving DecidableEq, Repr

/-- Placement of records, the records of table 7, which `remote_read` leaves alone, and
`txn_start_time` of every transaction. -/
structure Config (Key : Type u) (Tid : Type w) where
  pid : Key → Nat
  hardCoded : Key → Bool
  timestamp : Tid → Nat
  timestamp_ne_zero : ∀ tid, timestamp tid ≠ 0

/-- What `data_ptr` points into: nothing yet, the value of an RPC reply, or a copy of the
whole record. -/
inductive Buffer (Value : Type v) where
  | empty
  | value (value : Value)
  | record (header : Header Value)

/-- `ReadSetItem` of the write set; with a copy of the record `seq` packs two slots. -/
structure WriteItem (Key : Type u) (Value : Type v) where
  key : Key
  seq : Nat
  buffer : Buffer Value

/-- `ReadSetItem` of the read set; the buffer of a record that was not read is not set. -/
structure ReadItem (Key : Type u) (Value : Type v) where
  key : Key
  data : Option Value

variable {Key : Type u} {Value : Type v} {Tid : Type w}

/-! ## Items -/

/-- What `load_write` points to. -/
def WriteItem.data (item : WriteItem Key Value) : Option Value :=
  match item.buffer with
  | .empty => none
  | .value value => some value
  | .record header => some (header.data (slotOf (item.seq / versionNum)))

/-- The application stores through the pointer. -/
def WriteItem.modify (item : WriteItem Key Value) (data : Value) : WriteItem Key Value :=
  match item.buffer with
  | .empty => item
  | .value _ => { item with buffer := .value data }
  | .record header => { item with buffer := .record { header with
      data := Function.update header.data (slotOf (item.seq / versionNum)) data } }

/-- `process_received_data`: the reply carries the slot to overwrite and a value. -/
def WriteItem.processReceivedData (item : WriteItem Key Value) (pos : Slot) (value : Value) :
    WriteItem Key Value :=
  { item with seq := pos.val, buffer := .value value }

/-- `process_received_data_hybrid`: the reply carries the whole record. -/
def WriteItem.processReceivedDataHybrid (item : WriteItem Key Value) (header : Header Value) :
    Option (WriteItem Key Value) :=
  match (smallest header.wts).2, (largest header.wts fun _ => true).2 with
  | some pos, some maxpos =>
      some { item with seq := pos.val + maxpos.val * versionNum, buffer := .record header }
  | _, _ => none

/-- The client takes up a positive answer to a lock request; a hybrid build with one-sided
releases or commits is sent the whole record. -/
def WriteItem.fill (build : Build) (item : WriteItem Key Value) (header : Header Value)
    (pos maxpos : Slot) : Option (WriteItem Key Value) :=
  if build.release = .rdma ∨ build.commit = .rdma then
    item.processReceivedDataHybrid header
  else
    some (item.processReceivedData pos (header.data maxpos))

/-! ## Transactions -/

/-- Where a transaction stands.  `readRequest` and `lockRequest` wait for a handler, `read`,
`readAgain`, `header`, `lock` and `lockRead` for a verb; `update` and `release` keep what has
not been done yet. -/
inductive Stage (Key : Type u) (Value : Type v) where
  | idle
  | execute
  | readRequest (key : Key)
  | read (key : Key)
  | readAgain (key : Key) (buffer : Header Value) (pos : Slot)
  | lockRequest (key : Key)
  | header (key : Key)
  | lock (key : Key)
  | lockRead (key : Key) (old : Nat)
  | update (pending : List (WriteItem Key Value × Bool))
  | release (pending : List Key)
  | finished (committed : Bool)

/-- One transaction. -/
structure Txn (Key : Type u) (Value : Type v) where
  stage : Stage Key Value
  readSet : List (ReadItem Key Value)
  writeSet : List (WriteItem Key Value)
  failed : Option Key
  taken : List Key
  freed : List Key

/-- The records and the transactions. -/
structure State (Key : Type u) (Value : Type v) (Tid : Type w) where
  records : Key → Header Value
  txns : Tid → Txn Key Value

/-- A transaction before `begin`. -/
def Txn.initial : Txn Key Value where
  stage := .idle
  readSet := []
  writeSet := []
  failed := none
  taken := []
  freed := []

/-- Keys of the write set. -/
def Txn.keys (txn : Txn Key Value) : List Key := txn.writeSet.map WriteItem.key

/-- The records that `release_writes` walks over. -/
def Txn.releaseWrites (txn : Txn Key Value) (all : Bool) : List Key :=
  txn.keys.take (txn.writeSet.length - if all then 0 else 1)

/-- Replace the last item of the write set. -/
def Txn.setBack (txn : Txn Key Value) (item : WriteItem Key Value) :
    List (WriteItem Key Value) :=
  txn.writeSet.dropLast ++ [item]

variable [DecidableEq Key] [DecidableEq Tid]

/-- Every record holds its initial version and no transaction has begun. -/
def State.initial (value : Key → Value) : State Key Value Tid where
  records key := .initial (value key)
  txns _ := .initial

/-- Replace one transaction. -/
def State.setTxn (state : State Key Value Tid) (tid : Tid) (txn : Txn Key Value) :
    State Key Value Tid :=
  { state with txns := Function.update state.txns tid txn }

/-- Move one transaction to another stage. -/
def State.setStage (state : State Key Value Tid) (tid : Tid)
    (stage : Stage Key Value) : State Key Value Tid :=
  state.setTxn tid { state.txns tid with stage }

/-- Replace one record. -/
def State.setRecord (state : State Key Value Tid) (key : Key) (header : Header Value) :
    State Key Value Tid :=
  { state with records := Function.update state.records key header }

/-- `begin`. -/
def begin (state : State Key Value Tid) (tid : Tid) : Option (State Key Value Tid) :=
  match (state.txns tid).stage with
  | .idle => some (state.setTxn tid { Txn.initial with stage := .execute })
  | _ => none

/-! ## `remote_read` -/

/-- `remote_read`: a record of one of the sets is copied from there, the others are asked
for. -/
def read (config : Config Key Tid) (build : Build) (state : State Key Value Tid) (tid : Tid)
    (key : Key) : Option (State Key Value Tid) :=
  let txn := state.txns tid
  match txn.stage with
  | .execute =>
      match txn.writeSet.find? (·.key = key), txn.readSet.find? (·.key = key) with
      | some item, _ => some (state.setTxn tid
          { txn with readSet := txn.readSet ++ [{ key, data := item.data }] })
      | none, some item => some (state.setTxn tid
          { txn with readSet := txn.readSet ++ [{ key, data := item.data }] })
      | none, none =>
          if config.hardCoded key then
            some (state.setTxn tid
              { txn with readSet := txn.readSet ++ [{ key, data := none }] })
          else
            match build.read with
            | .rpc => some (state.setStage tid (.readRequest key))
            | .rdma => some (state.setStage tid (.read key))
  | _ => none

/-- `read_rpc_handler` serves a `try_read_rpc`; a failure releases the whole write set. -/
def readReply (config : Config Key Tid) (state : State Key Value Tid) (tid : Tid) :
    Option (State Key Value Tid) :=
  let txn := state.txns tid
  match txn.stage with
  | .readRequest key =>
      let header := state.records key
      match readRpcHandler header (config.timestamp tid) with
      | (after, none) => some ((state.setRecord key after).setStage tid
          (.release (txn.releaseWrites true)))
      | (after, some pos) => some ((state.setRecord key after).setTxn tid
          { txn with
            stage := .execute
            readSet := txn.readSet ++ [{ key, data := some (header.data pos) }] })
  | _ => none

/-- The first verb of `try_read_rdma`, with the first check. -/
def readVerb (config : Config Key Tid) (state : State Key Value Tid) (tid : Tid) :
    Option (State Key Value Tid) :=
  let txn := state.txns tid
  match txn.stage with
  | .read key =>
      let buffer := state.records key
      match checkRead buffer (config.timestamp tid) with
      | none => some (state.setStage tid (.release (txn.releaseWrites true)))
      | some pos => some (state.setStage tid (.readAgain key buffer pos))
  | _ => none

/-- The second verb, with the second check.  The loop that is to raise the read timestamp
posts nothing. -/
def readAgainVerb (config : Config Key Tid) (state : State Key Value Tid) (tid : Tid) :
    Option (State Key Value Tid) :=
  let txn := state.txns tid
  match txn.stage with
  | .readAgain key buffer pos =>
      let header := state.records key
      match checkRead header (config.timestamp tid) with
      | none => some (state.setStage tid (.release (txn.releaseWrites true)))
      | some newPos =>
          if newPos ≠ pos ∨ header.wts newPos ≠ buffer.wts pos then
            some (state.setStage tid (.release (txn.releaseWrites true)))
          else
            (rtsLoop (config.timestamp tid) 2 header.rts).map fun _ =>
              state.setTxn tid { txn with
                stage := .execute
                readSet := txn.readSet ++ [{ key, data := some (buffer.data pos) }] }
  | _ => none

/-! ## `remote_write` -/

/-- A lock is refused: the release that goes with the failing return. -/
def Txn.refused (txn : Txn Key Value) (key : Key) (all : Bool) : Txn Key Value :=
  { txn with stage := .release (txn.releaseWrites all), failed := some key }

/-- `remote_write`: a record of the write set keeps its item, another one gets an item and
is asked for. -/
def write (build : Build) (state : State Key Value Tid) (tid : Tid) (key : Key) :
    Option (State Key Value Tid) :=
  let txn := state.txns tid
  match txn.stage with
  | .execute =>
      if key ∈ txn.keys then
        some state
      else
        let item : WriteItem Key Value := { key, seq := 0, buffer := .empty }
        let stage : Stage Key Value :=
          match build.lock with
          | .rpc => .lockRequest key
          | .rdma => .header key
        some (state.setTxn tid { txn with stage, writeSet := txn.writeSet ++ [item] })
  | _ => none

/-- `lock_read_rpc_handler` serves a `try_lock_read_rpc`.  Whatever it refuses it has not
left locked, so the last item is left out of the release. -/
def lockReply (config : Config Key Tid) (build : Build) (state : State Key Value Tid)
    (tid : Tid) : Option (State Key Value Tid) :=
  let txn := state.txns tid
  match txn.stage with
  | .lockRequest key =>
      match lockReadRpcHandler (state.records key) (config.timestamp tid) with
      | none => none
      | some (after, .success pos maxpos) =>
          txn.writeSet.getLast?.bind fun item => (item.fill build after pos maxpos).map
            fun filled => (state.setRecord key after).setTxn tid { txn with
              stage := .execute
              writeSet := txn.setBack filled
              taken := txn.taken ++ [key] }
      | some (after, .fail) => some ((state.setRecord key after).setTxn tid
          (txn.refused key false))
      | some (after, .updateTs _) => some ((state.setRecord key after).setTxn tid
          (txn.refused key false))
  | _ => none

/-- The read of the header in `try_lock_read_rdma`, which may return -1. -/
def headerVerb (config : Config Key Tid) (state : State Key Value Tid) (tid : Tid) :
    Option (State Key Value Tid) :=
  let txn := state.txns tid
  match txn.stage with
  | .header key =>
      if RefusedByHeader (state.records key) (config.timestamp tid) then
        some (state.setTxn tid (txn.refused key false))
      else
        some (state.setStage tid (.lock key))
  | _ => none

/-- The compare-and-swap. -/
def lockVerb (config : Config Key Tid) (state : State Key Value Tid) (tid : Tid) :
    Option (State Key Value Tid) :=
  let txn := state.txns tid
  match txn.stage with
  | .lock key =>
      let header := state.records key
      some ((state.setRecord key (header.casLock (config.timestamp tid))).setTxn tid
        { txn with
          stage := .lockRead key header.lock
          taken := if header.lock = 0 then txn.taken ++ [key] else txn.taken })
  | _ => none

/-- The read behind it, with the checks: -1 leaves the last item out of the release, -2
does not. -/
def lockReadVerb (config : Config Key Tid) (state : State Key Value Tid) (tid : Tid) :
    Option (State Key Value Tid) :=
  let txn := state.txns tid
  match txn.stage with
  | .lockRead key old =>
      (checkBuffer key (fillBuffer old (state.records key)) (config.timestamp tid)).map fun
        | .fail => state.setTxn tid (txn.refused key false)
        | .failLocked => state.setTxn tid (txn.refused key true)
        | .success item => state.setTxn tid { txn with
            stage := .execute
            writeSet := txn.setBack { key, seq := item.seq, buffer := .record item.buffer } }
  | _ => none

/-! ## `commit` and `release_writes` -/

/-- The application stores into a buffer of the write set. -/
def modify (state : State Key Value Tid) (tid : Tid) (key : Key) (data : Value) :
    Option (State Key Value Tid) :=
  let txn := state.txns tid
  match txn.stage with
  | .execute =>
      some (state.setTxn tid { txn with
        writeSet := txn.writeSet.map fun item =>
          if item.key = key then item.modify data else item })
  | _ => none

/-- `commit` posts the updates. -/
def commit (state : State Key Value Tid) (tid : Tid) : Option (State Key Value Tid) :=
  let txn := state.txns tid
  match txn.stage with
  | .execute => some (state.setStage tid (.update (txn.writeSet.map (·, false))))
  | _ => none

/-- The transaction gives up after a negative vote. -/
def abort (state : State Key Value Tid) (tid : Tid) : Option (State Key Value Tid) :=
  let txn := state.txns tid
  match txn.stage with
  | .execute => some (state.setStage tid (.release (txn.releaseWrites true)))
  | _ => none

/-- Work on a record of `machine`. -/
def Config.at (config : Config Key Tid) (machine : Nat) (key : Key) : Bool :=
  config.pid key == machine

/-- The update of an item by `update_rpc_handler`. -/
def updateRpc (timestamp : Nat) (header : Header Value) (item : WriteItem Key Value) :
    Option (Header Value) :=
  if item.seq < versionNum * versionNum then
    item.data.bind fun data => updateRpcHandler header timestamp (slotOf item.seq) data
  else
    none

/-- The version array that `try_update_rdma` writes back. -/
def WriteItem.prepare (timestamp : Nat) (item : WriteItem Key Value) : Option (Header Value) :=
  match item.buffer with
  | .record buffer => OneSided.WriteItem.prepare ⟨item.key, item.seq, buffer⟩ timestamp
  | _ => none

/-- `machine` is reached by the next item of the update, or by one of its two verbs. -/
def updateItem (config : Config Key Tid) (build : Build) (state : State Key Value Tid)
    (tid : Tid) (machine : Nat) : Option (State Key Value Tid) :=
  let txn := state.txns tid
  match txn.stage with
  | .update pending =>
      (nextFor (fun entry => config.at machine entry.1.key) pending).bind
        fun ((item, written), rest) =>
          let header := state.records item.key
          let unlocked : Txn Key Value :=
            { txn with stage := .update rest, freed := txn.freed ++ [item.key] }
          match build.commit with
          | .rpc => (updateRpc (config.timestamp tid) header item).map fun after =>
              (state.setRecord item.key after).setTxn tid unlocked
          | .rdma =>
              if written then
                some ((state.setRecord item.key header.unlock).setTxn tid unlocked)
              else
                (item.prepare (config.timestamp tid)).map fun buffer =>
                  (state.setRecord item.key (header.writeVersions buffer)).setStage tid
                    (.update ((item, true) :: rest))
  | _ => none

/-- `machine` is reached by the next unlock of `release_writes`. -/
def releaseItem (config : Config Key Tid) (build : Build) (state : State Key Value Tid)
    (tid : Tid) (machine : Nat) : Option (State Key Value Tid) :=
  let txn := state.txns tid
  match txn.stage with
  | .release pending =>
      (nextFor (config.at machine) pending).bind fun (key, rest) =>
        let header := state.records key
        let unlocked : Txn Key Value :=
          { txn with stage := .release rest, freed := txn.freed ++ [key] }
        match build.release with
        | .rpc => (releaseRpcHandler header (config.timestamp tid)).map fun after =>
            (state.setRecord key after).setTxn tid unlocked
        | .rdma => some ((state.setRecord key header.unlock).setTxn tid unlocked)
  | _ => none

/-- The coroutine goes on after the last reply or completion: `commit` returns true, or
`remote_read` and `remote_write` return -1. -/
def finish (state : State Key Value Tid) (tid : Tid) : Option (State Key Value Tid) :=
  match (state.txns tid).stage with
  | .update [] => some (state.setStage tid (.finished true))
  | .release [] => some (state.setStage tid (.finished false))
  | _ => none

/-! ## Runs -/

/-- One atomic step of the system. -/
inductive Action (Key : Type u) (Value : Type v) (Tid : Type w) where
  | begin (tid : Tid)
  | read (tid : Tid) (key : Key)
  | readReply (tid : Tid)
  | readVerb (tid : Tid)
  | readAgainVerb (tid : Tid)
  | write (tid : Tid) (key : Key)
  | lockReply (tid : Tid)
  | headerVerb (tid : Tid)
  | lockVerb (tid : Tid)
  | lockReadVerb (tid : Tid)
  | modify (tid : Tid) (key : Key) (data : Value)
  | commit (tid : Tid)
  | abort (tid : Tid)
  | updateItem (tid : Tid) (machine : Nat)
  | releaseItem (tid : Tid) (machine : Nat)
  | finish (tid : Tid)
  deriving DecidableEq, Repr

/-- The step function of a build. -/
def step (config : Config Key Tid) (build : Build) (state : State Key Value Tid) :
    Action Key Value Tid → Option (State Key Value Tid)
  | .begin tid => begin state tid
  | .read tid key => read config build state tid key
  | .readReply tid => readReply config state tid
  | .readVerb tid => readVerb config state tid
  | .readAgainVerb tid => readAgainVerb config state tid
  | .write tid key => write build state tid key
  | .lockReply tid => lockReply config build state tid
  | .headerVerb tid => headerVerb config state tid
  | .lockVerb tid => lockVerb config state tid
  | .lockReadVerb tid => lockReadVerb config state tid
  | .modify tid key data => modify state tid key data
  | .commit tid => commit state tid
  | .abort tid => abort state tid
  | .updateItem tid machine => updateItem config build state tid machine
  | .releaseItem tid machine => releaseItem config build state tid machine
  | .finish tid => finish state tid

end Rocc.Mvcc.Hybrid
