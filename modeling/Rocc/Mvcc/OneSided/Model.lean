import Rocc.Base.Batch
import Rocc.Base.Run
import Rocc.Mvcc.Model
import Rocc.Mvcc.OneSided.Commit

/-!
# Multi-version concurrency control with one-sided verbs

Clients work on the records directly.  Every verb is one step: the two reads of
`try_read_rdma`, the header read of `try_lock_read_rdma`, its compare-and-swap and
the read batched behind it, and for every record of the write set the write of the
version array and the unlock.  Verbs posted to one machine take effect in the order
in which they were posted, verbs to different machines in any order.

A record of the reader's own machine is read in memory: both checks are the same,
and behind the second one the read timestamp is raised with a compare-and-swap.  For
a record of another machine that step prepares a request and never posts it, so
nothing reaches the record.  Locks and updates use verbs on every machine, since no
item has `pid` -1.

A read of a record that is already in one of the sets is served from there and a
second write of a record reuses its item, so neither reaches a record.
-/

set_option linter.unusedSectionVars false

namespace Rocc.Mvcc.OneSided

open Rtx

universe u v w

/-- `ReadSetItem` of the read set, with the write timestamp of the version chosen. -/
structure ReadItem (Key : Type u) (Value : Type v) where
  key : Key
  version : Nat
  data : Value
  deriving DecidableEq, Repr

/-- Where a transaction stands.  `read`, `header`, `lock` and `lockRead` wait for the verb
of that name; `update` and `release` keep the verbs that have not completed. -/
inductive Stage (Key : Type u) (Value : Type v) where
  | idle
  | execute
  | read (key : Key)
  | readAgain (key : Key) (buffer : Header Value) (pos : Slot)
  | publish (item : ReadItem Key Value)
  | header (key : Key)
  | lock (key : Key)
  | lockRead (key : Key) (old : Nat)
  | update (pending : List (WriteItem Key Value × Bool))
  | release (pending : List Key)
  | finished (committed : Bool)

/-- One transaction. -/
structure Txn (Key : Type u) (Value : Type v) where
  stage : Stage Key Value
  readSet : List (ReadItem Key Value)
  writeSet : List (WriteItem Key Value)

/-- The records and the transactions. -/
structure State (Key : Type u) (Value : Type v) (Tid : Type w) where
  records : Key → Header Value
  txns : Tid → Txn Key Value

/-- Timestamps, placement of records, and `node_id_` of every transaction. -/
structure Config (Key : Type u) (Tid : Type w) extends Mvcc.Config Key Tid where
  node : Tid → Nat

variable {Key : Type u} {Value : Type v} {Tid : Type w}
variable [DecidableEq Key] [DecidableEq Tid]

/-- Every record holds its initial version and no transaction has begun. -/
def State.initial (value : Key → Value) : State Key Value Tid where
  records key := .initial (value key)
  txns _ := { stage := .idle, readSet := [], writeSet := [] }

/-- Replace one transaction. -/
def State.setTxn (state : State Key Value Tid) (tid : Tid) (txn : Txn Key Value) :
    State Key Value Tid :=
  { state with txns := Function.update state.txns tid txn }

/-- Move one transaction to another stage. -/
def State.setStage (state : State Key Value Tid) (tid : Tid)
    (stage : Stage Key Value) : State Key Value Tid :=
  state.setTxn tid { state.txns tid with stage }

/-- Replace one record. -/
def State.setRecord (state : State Key Value Tid) (key : Key) (header : Header Value) :
    State Key Value Tid :=
  { state with records := Function.update state.records key header }

/-- `release_writes` of what is in the write set. -/
def Txn.giveUp (txn : Txn Key Value) : Stage Key Value :=
  .release (txn.writeSet.map WriteItem.key)

/-- `begin`. -/
def begin (state : State Key Value Tid) (tid : Tid) : Option (State Key Value Tid) :=
  match (state.txns tid).stage with
  | .idle => some (state.setTxn tid { stage := .execute, readSet := [], writeSet := [] })
  | _ => none

/-! ## `try_read_rdma` -/

/-- `remote_read` of a record that is in neither set. -/
def read (state : State Key Value Tid) (tid : Tid) (key : Key) :
    Option (State Key Value Tid) :=
  let txn := state.txns tid
  match txn.stage with
  | .execute =>
      if (∀ item ∈ txn.readSet, item.key ≠ key) ∧ ∀ item ∈ txn.writeSet, item.key ≠ key then
        some (state.setStage tid (.read key))
      else
        none
  | _ => none

/-- The read of header and versions, with the first check. -/
def readVerb (config : Config Key Tid) (state : State Key Value Tid) (tid : Tid) :
    Option (State Key Value Tid) :=
  let txn := state.txns tid
  match txn.stage with
  | .read key =>
      let buffer := state.records key
      match checkRead buffer (config.timestamp tid) with
      | none => some (state.setStage tid txn.giveUp)
      | some pos => some (state.setStage tid (.readAgain key buffer pos))
  | _ => none

/-- The loop that is to raise the read timestamp of a remote record, in `fuel` rounds.  No
request is posted, so `back` keeps the 0 it starts with. -/
def rtsLoop (timestamp : Nat) : Nat → Nat → Option Unit
  | 0, _ => none
  | fuel + 1, compare =>
      let back := 0
      if compare < timestamp then
        if compare = back then some () else rtsLoop timestamp fuel back
      else
        some ()

/-- The loop ends in its second round at the latest. -/
theorem rtsLoop_returns (timestamp compare fuel : Nat) :
    rtsLoop timestamp (fuel + 2) compare = some () := by
  simp only [rtsLoop]
  split
  · split
    · rfl
    · split <;> rfl
  · rfl

/-- The second read of the header, with the second check: the version must be in the same
slot.  Then the read timestamp is raised, for a remote record by `rtsLoop`. -/
def readAgainVerb (config : Config Key Tid) (state : State Key Value Tid) (tid : Tid) :
    Option (State Key Value Tid) :=
  let txn := state.txns tid
  match txn.stage with
  | .readAgain key buffer pos =>
      let header := state.records key
      match checkRead header (config.timestamp tid) with
      | none => some (state.setStage tid txn.giveUp)
      | some newPos =>
          if newPos ≠ pos ∨ header.wts newPos ≠ buffer.wts pos then
            some (state.setStage tid txn.giveUp)
          else
            let item : ReadItem Key Value :=
              { key, version := buffer.wts pos, data := buffer.data pos }
            if config.pid key = config.node tid then
              some (state.setStage tid (.publish item))
            else
              (rtsLoop (config.timestamp tid) 2 header.rts).map fun _ =>
                state.setTxn tid { txn with
                  stage := .execute, readSet := txn.readSet ++ [item] }
  | _ => none

/-- The compare-and-swap loop on the read timestamp of a local record. -/
def publish (config : Config Key Tid) (state : State Key Value Tid) (tid : Tid) :
    Option (State Key Value Tid) :=
  let txn := state.txns tid
  match txn.stage with
  | .publish item =>
      let header := state.records item.key
      some ((state.setRecord item.key
        { header with rts := max header.rts (config.timestamp tid) }).setTxn tid
          { txn with stage := .execute, readSet := txn.readSet ++ [item] })
  | _ => none

/-! ## `try_lock_read_rdma` -/

/-- `remote_write` of a record that is not in the write set. -/
def write (state : State Key Value Tid) (tid : Tid) (key : Key) :
    Option (State Key Value Tid) :=
  let txn := state.txns tid
  match txn.stage with
  | .execute =>
      if ∀ item ∈ txn.writeSet, item.key ≠ key then
        some (state.setStage tid (.header key))
      else
        none
  | _ => none

/-- The read of the header; the item of a refused request is left out of the release. -/
def headerVerb (config : Config Key Tid) (state : State Key Value Tid) (tid : Tid) :
    Option (State Key Value Tid) :=
  let txn := state.txns tid
  match txn.stage with
  | .header key =>
      if RefusedByHeader (state.records key) (config.timestamp tid) then
        some (state.setStage tid txn.giveUp)
      else
        some (state.setStage tid (.lock key))
  | _ => none

/-- The compare-and-swap of the batch. -/
def lockVerb (config : Config Key Tid) (state : State Key Value Tid) (tid : Tid) :
    Option (State Key Value Tid) :=
  match (state.txns tid).stage with
  | .lock key =>
      let header := state.records key
      some ((state.setRecord key (header.casLock (config.timestamp tid))).setStage tid
        (.lockRead key header.lock))
  | _ => none

/-- The read of the batch, with the checks.  The lock of a request refused for its
timestamp is released with the others. -/
def lockReadVerb (config : Config Key Tid) (state : State Key Value Tid) (tid : Tid) :
    Option (State Key Value Tid) :=
  let txn := state.txns tid
  match txn.stage with
  | .lockRead key old =>
      (checkBuffer key (fillBuffer old (state.records key)) (config.timestamp tid)).map fun
        | .fail => state.setStage tid txn.giveUp
        | .failLocked => state.setStage tid
            (.release (txn.writeSet.map WriteItem.key ++ [key]))
        | .success item => state.setTxn tid { txn with
            stage := .execute, writeSet := txn.writeSet ++ [item] }
  | _ => none

/-- The application stores through the pointer of an item. -/
def modify (state : State Key Value Tid) (tid : Tid) (key : Key) (data : Value) :
    Option (State Key Value Tid) :=
  let txn := state.txns tid
  match txn.stage with
  | .execute =>
      some (state.setTxn tid { txn with
        writeSet := txn.writeSet.map fun item =>
          if item.key = key then item.modify fun _ => data else item })
  | _ => none

/-! ## `commit` and `release_writes` -/

/-- `commit` posts the updates. -/
def commit (state : State Key Value Tid) (tid : Tid) : Option (State Key Value Tid) :=
  let txn := state.txns tid
  match txn.stage with
  | .execute => some (state.setStage tid (.update (txn.writeSet.map (·, false))))
  | _ => none

/-- The transaction gives up after a negative vote. -/
def abort (state : State Key Value Tid) (tid : Tid) : Option (State Key Value Tid) :=
  let txn := state.txns tid
  match txn.stage with
  | .execute => some (state.setStage tid txn.giveUp)
  | _ => none

/-- Verbs addressed to `machine`. -/
def Config.at (config : Config Key Tid) (machine : Nat) (key : Key) : Bool :=
  config.pid key == machine

/-- The next verb of `try_update_rdma` reaches `machine`: the version array of an item, or
the unlock that follows it. -/
def updateVerb (config : Config Key Tid) (state : State Key Value Tid) (tid : Tid)
    (machine : Nat) : Option (State Key Value Tid) :=
  match (state.txns tid).stage with
  | .update pending =>
      (nextFor (fun entry => config.at machine entry.1.key) pending).bind
        fun ((item, written), rest) =>
          let header := state.records item.key
          if written then
            some ((state.setRecord item.key header.unlock).setStage tid (.update rest))
          else
            (item.prepare (config.timestamp tid)).map fun buffer =>
              (state.setRecord item.key (header.writeVersions buffer)).setStage tid
                (.update ((item, true) :: rest))
  | _ => none

/-- The next unlock of `release_writes` reaches `machine`. -/
def releaseVerb (config : Config Key Tid) (state : State Key Value Tid) (tid : Tid)
    (machine : Nat) : Option (State Key Value Tid) :=
  match (state.txns tid).stage with
  | .release pending =>
      (nextFor (config.at machine) pending).map fun (key, rest) =>
        (state.setRecord key (state.records key).unlock).setStage tid (.release rest)
  | _ => none

/-- The last verb of an update or a release has completed. -/
def finish (state : State Key Value Tid) (tid : Tid) : Option (State Key Value Tid) :=
  match (state.txns tid).stage with
  | .update [] => some (state.setStage tid (.finished true))
  | .release [] => some (state.setStage tid (.finished false))
  | _ => none

/-! ## Runs -/

/-- One atomic step of the system. -/
inductive Action (Key : Type u) (Value : Type v) (Tid : Type w) where
  | begin (tid : Tid)
  | read (tid : Tid) (key : Key)
  | readVerb (tid : Tid)
  | readAgainVerb (tid : Tid)
  | publish (tid : Tid)
  | write (tid : Tid) (key : Key)
  | headerVerb (tid : Tid)
  | lockVerb (tid : Tid)
  | lockReadVerb (tid : Tid)
  | modify (tid : Tid) (key : Key) (data : Value)
  | commit (tid : Tid)
  | abort (tid : Tid)
  | updateVerb (tid : Tid) (machine : Nat)
  | releaseVerb (tid : Tid) (machine : Nat)
  | finish (tid : Tid)
  deriving DecidableEq, Repr

/-- The step function of the system. -/
def step (config : Config Key Tid) (state : State Key Value Tid) :
    Action Key Value Tid → Option (State Key Value Tid)
  | .begin tid => begin state tid
  | .read tid key => read state tid key
  | .readVerb tid => readVerb config state tid
  | .readAgainVerb tid => readAgainVerb config state tid
  | .publish tid => publish config state tid
  | .write tid key => write state tid key
  | .headerVerb tid => headerVerb config state tid
  | .lockVerb tid => lockVerb config state tid
  | .lockReadVerb tid => lockReadVerb config state tid
  | .modify tid key data => modify state tid key data
  | .commit tid => commit state tid
  | .abort tid => abort state tid
  | .updateVerb tid machine => updateVerb config state tid machine
  | .releaseVerb tid machine => releaseVerb config state tid machine
  | .finish tid => finish state tid

/-- Reads that have passed their second check. -/
def Txn.snapshots (txn : Txn Key Value) : List (ReadItem Key Value) :=
  match txn.stage with
  | .publish item => txn.readSet ++ [item]
  | _ => txn.readSet

/-- Some reader with a later timestamp has read past a version with `timestamp`: it has
chosen a version below it. -/
def ReadPast (config : Config Key Tid) (txns : Tid → Txn Key Value) (key : Key)
    (timestamp : Nat) : Prop :=
  ∃ reader, ∃ item ∈ (txns reader).snapshots, item.key = key ∧ item.version < timestamp ∧
    timestamp < config.timestamp reader

/-- The record whose compare-and-swap is next. -/
def Txn.locking (txn : Txn Key Value) : Option Key :=
  match txn.stage with
  | .lock key => some key
  | _ => none

/-- A write takes the lock of a record only when nobody has read past it, or when the
timestamps of the record show so. -/
def ReadsRespected (config : Config Key Tid) (state : State Key Value Tid) :
    Action Key Value Tid → Prop
  | .lockVerb tid => ∀ key ∈ (state.txns tid).locking, (state.records key).lock = 0 →
      ReadPast config state.txns key (config.timestamp tid) →
        checkWrite (state.records key) (config.timestamp tid) ≠ 0
  | _ => True

end Rocc.Mvcc.OneSided
