import Rocc.Base.Batch
import Rocc.Base.Ledger
import Rocc.Sundial.Node

/-!
# SUNDIAL with one-sided verbs

The same protocol as over RPC, carried out by the client alone.  Every verb is
one step: the two reads of `try_read_rdma`, the compare-and-swap of
`try_lock_read_rdma` and the read batched behind it, the header reads and the
header writes of a lease renewal, and for every record of the write set the
write-back and the unlock.  Verbs posted to one machine take effect in the order
in which they were posted, verbs to different machines in any order.

A lease is renewed by reading the header into the buffer of the item, checking it
there and writing the sequence word back; the write is blind.  So is the write of
0 that releases a lock, and as over RPC a failed renewal makes `prepare` and
then `commit` release the write set.  `try_renew_lease_rdma` has no caller;
the model lets a transaction call it for any item while it executes.

`history` and `events` record the write-backs and the locks; no step reads them.
-/

set_option linter.unusedSectionVars false

namespace Rocc.Sundial

universe u v w

namespace OneSided

/-- `SundialReadSetItem` with its buffer: the timestamps of the item, the header in front
of the buffer and its contents. -/
structure ReadSetItem (Key : Type u) (Value : Type v) where
  key : Key
  wts : Nat
  rts : Nat
  lock : Nat
  seq : Nat
  data : Value
  deriving DecidableEq, Repr

variable {Key : Type u} {Value : Type v} {Tid : Type w}

/-- A read of header and value fills the item and its buffer. -/
def load (node : Node Value) (key : Key) : ReadSetItem Key Value :=
  { key, wts := wts node.seq, rts := rts node.seq, lock := node.lock, seq := node.seq,
    data := node.value }

/-- A read of the header into the buffer of an item. -/
def ReadSetItem.readHeader (item : ReadSetItem Key Value) (node : Node Value) :
    ReadSetItem Key Value :=
  { item with lock := node.lock, seq := node.seq }

/-- The lease cannot be renewed, judged by the header in the buffer. -/
def ReadSetItem.Refused (item : ReadSetItem Key Value) (commitId : Nat) : Prop :=
  item.wts ≠ Sundial.wts item.seq ∨ (Sundial.rts item.seq < commitId ∧ item.lock ≠ 0)

instance (item : ReadSetItem Key Value) (commitId : Nat) :
    Decidable (item.Refused commitId) :=
  inferInstanceAs (Decidable (_ ∨ _))

/-- The sequence word is written when the lease in the buffer is too short. -/
def ReadSetItem.writeHeader (item : ReadSetItem Key Value) (commitId : Nat)
    (node : Node Value) : Node Value :=
  if Sundial.rts item.seq < commitId then
    { node with seq := renewed item.seq commitId }
  else
    node

/-- Where a transaction stands.  Verbs not completed yet are kept as the items, or the
indices into the read set, that they are about. -/
inductive Stage (Key : Type u) (Value : Type v) where
  | idle
  | execute
  | readAgain (item : ReadSetItem Key Value)
  | lockCas (key : Key)
  | lockRead (key : Key)
  | renewLease (item : ReadSetItem Key Value)
  | renewRead (pending : List Nat)
  | renewWrite (pending : List (ReadSetItem Key Value))
  | prepared
  | update (pending : List (ReadSetItem Key Value × Bool))
  | release (pending : List (ReadSetItem Key Value)) (again : Bool)
  | releaseAgain (pending : List (ReadSetItem Key Value))
  | finished (committed : Bool)
  deriving DecidableEq, Repr

/-- One transaction. -/
structure Txn (Key : Type u) (Value : Type v) where
  stage : Stage Key Value
  readSet : List (ReadSetItem Key Value)
  writeSet : List (ReadSetItem Key Value)
  commitId : Nat
  deriving DecidableEq, Repr

/-- The records and transactions, the write-backs of every record and the lock
history. -/
structure State (Key : Type u) (Value : Type v) (Tid : Type w) where
  records : Key → Node Value
  txns : Tid → Txn Key Value
  history : Key → List (Nat × Value)
  events : List (LockEvent Tid Key)

variable [DecidableEq Key] [DecidableEq Tid]

/-- Every record is as loaded and no transaction has begun. -/
def State.initial (value : Key → Value) : State Key Value Tid where
  records key := .initial (value key)
  txns _ := { stage := .idle, readSet := [], writeSet := [], commitId := 0 }
  history key := [(0, value key)]
  events := []

/-- Replace one transaction. -/
def State.setTxn (state : State Key Value Tid) (tid : Tid) (txn : Txn Key Value) :
    State Key Value Tid :=
  { state with txns := Function.update state.txns tid txn }

/-- Move one transaction to another stage. -/
def State.setStage (state : State Key Value Tid) (tid : Tid)
    (stage : Stage Key Value) : State Key Value Tid :=
  state.setTxn tid { state.txns tid with stage }

/-- Replace one record. -/
def State.setRecord (state : State Key Value Tid) (key : Key) (node : Node Value) :
    State Key Value Tid :=
  { state with records := Function.update state.records key node }

/-- Extend the lock history. -/
def State.log (state : State Key Value Tid) (event : LockEvent Tid Key) :
    State Key Value Tid :=
  { state with events := state.events ++ [event] }

/-- `begin`. -/
def begin (state : State Key Value Tid) (tid : Tid) (commitId : Nat) :
    Option (State Key Value Tid) :=
  match (state.txns tid).stage with
  | .idle => some (state.setTxn tid { stage := .execute, readSet := [], writeSet := [], commitId })
  | _ => none

/-! ## `try_read_rdma` -/

/-- The read of header and value. -/
def read (state : State Key Value Tid) (tid : Tid) (key : Key) :
    Option (State Key Value Tid) :=
  match (state.txns tid).stage with
  | .execute => some (state.setStage tid (.readAgain (load (state.records key) key)))
  | _ => none

/-- The second read of the header; when the version has changed `remote_read` releases
the write set. -/
def readAgain (state : State Key Value Tid) (tid : Tid) : Option (State Key Value Tid) :=
  let txn := state.txns tid
  match txn.stage with
  | .readAgain item =>
      let node := state.records item.key
      if wts node.seq ≠ item.wts then
        some (state.setStage tid (.release txn.writeSet false))
      else
        some (state.setTxn tid { txn with
          stage := .execute
          readSet := txn.readSet ++ [item.readHeader node]
          commitId := max txn.commitId item.wts })
  | _ => none

/-! ## `try_lock_read_rdma` -/

/-- The offset of the record is looked up. -/
def write (state : State Key Value Tid) (tid : Tid) (key : Key) :
    Option (State Key Value Tid) :=
  match (state.txns tid).stage with
  | .execute => some (state.setStage tid (.lockCas key))
  | _ => none

/-- The compare-and-swap on the lock word: an older transaction tries again, a younger
one releases what it had locked before. -/
def lockCas (config : Config Key Tid) (state : State Key Value Tid) (tid : Tid) :
    Option (State Key Value Tid) :=
  match (state.txns tid).stage with
  | .lockCas key =>
      let node := state.records key
      if node.lock ≠ 0 then
        if config.startTime tid < node.lock then
          some state
        else
          some (state.setStage tid (.release (state.txns tid).writeSet false))
      else
        some (((state.setRecord key { node with lock := config.startTime tid }).setStage tid
          (.lockRead key)).log (.acquired tid key (config.startTime tid)))
  | _ => none

/-- The read behind the compare-and-swap. -/
def lockRead (state : State Key Value Tid) (tid : Tid) : Option (State Key Value Tid) :=
  let txn := state.txns tid
  match txn.stage with
  | .lockRead key =>
      let item := load (state.records key) key
      some (state.setTxn tid { txn with
        stage := .execute
        writeSet := txn.writeSet ++ [item]
        commitId := max txn.commitId (item.rts + 1) })
  | _ => none

/-- The application stores into a buffer of the write set. -/
def modify (state : State Key Value Tid) (tid : Tid) (key : Key) (data : Value) :
    Option (State Key Value Tid) :=
  let txn := state.txns tid
  match txn.stage with
  | .execute =>
      some (state.setTxn tid { txn with
        writeSet := txn.writeSet.map fun item =>
          if item.key = key then { item with data } else item })
  | _ => none

/-! ## `try_renew_lease_rdma` -/

/-- The read of the header, into a buffer of its own. -/
def renewLease (state : State Key Value Tid) (tid : Tid) (index : Nat) :
    Option (State Key Value Tid) :=
  let txn := state.txns tid
  match txn.stage with
  | .execute => txn.readSet[index]?.map fun item =>
      state.setStage tid (.renewLease (item.readHeader (state.records item.key)))
  | _ => none

/-- The check of the header and the write. -/
def renewLeaseWrite (state : State Key Value Tid) (tid : Tid) :
    Option (State Key Value Tid) :=
  let txn := state.txns tid
  match txn.stage with
  | .renewLease item =>
      if item.Refused txn.commitId then
        some (state.setStage tid .execute)
      else
        some ((state.setRecord item.key
          (item.writeHeader txn.commitId (state.records item.key))).setStage tid .execute)
  | _ => none

/-! ## `try_renew_all_lease_rdma` -/

/-- `prepare` posts the header reads of the whole read set. -/
def prepare (state : State Key Value Tid) (tid : Tid) : Option (State Key Value Tid) :=
  let txn := state.txns tid
  match txn.stage with
  | .execute => some (state.setStage tid (.renewRead (List.range txn.readSet.length)))
  | _ => none

/-- The next header read from `machine` completes. -/
def renewRead (config : Config Key Tid) (state : State Key Value Tid) (tid : Tid)
    (machine : Nat) : Option (State Key Value Tid) :=
  let txn := state.txns tid
  match txn.stage with
  | .renewRead pending =>
      (nextFor (fun index => txn.readSet[index]?.any (config.at ReadSetItem.key machine))
        pending).bind fun (index, rest) =>
          txn.readSet[index]?.map fun item =>
            state.setTxn tid { txn with
              stage := .renewRead rest
              readSet := txn.readSet.set index (item.readHeader (state.records item.key)) }
  | _ => none

/-- The next item is checked and its header written; the loop waits for the write before
it goes on.  A refused item ends `prepare`. -/
def renewWrite (state : State Key Value Tid) (tid : Tid) : Option (State Key Value Tid) :=
  let txn := state.txns tid
  match txn.stage with
  | .renewWrite (item :: rest) =>
      if item.Refused txn.commitId then
        some (state.setStage tid (.release txn.writeSet true))
      else
        some ((state.setRecord item.key
          (item.writeHeader txn.commitId (state.records item.key))).setStage tid
            (.renewWrite rest))
  | _ => none

/-! ## `commit` -/

/-- The votes of `prepare_commit`: the transaction updates or releases its write set. -/
def vote (state : State Key Value Tid) (tid : Tid) (commit : Bool) :
    Option (State Key Value Tid) :=
  let txn := state.txns tid
  match txn.stage with
  | .prepared =>
      if commit then
        some (state.setStage tid (.update (txn.writeSet.map (·, false))))
      else
        some (state.setStage tid (.release txn.writeSet false))
  | _ => none

/-- The next verb of `try_update_rdma` reaches `machine`: the write-back of an item, or
the unlock that follows it. -/
def updateVerb (config : Config Key Tid) (state : State Key Value Tid) (tid : Tid)
    (machine : Nat) : Option (State Key Value Tid) :=
  let txn := state.txns tid
  match txn.stage with
  | .update pending =>
      (nextFor (config.at (fun entry => entry.1.key) machine) pending).map
        fun ((item, written), rest) =>
          let node := state.records item.key
          if written then
            ((state.setRecord item.key node.unlock).setStage tid (.update rest)).log
              (.released tid item.key (config.startTime tid))
          else
            { (state.setRecord item.key (node.writeBack item.data txn.commitId)).setStage tid
                (.update ((item, true) :: rest)) with
              history := Function.update state.history item.key
                (state.history item.key ++ [(txn.commitId, item.data)]) }
  | _ => none

/-- One unlock write, with the writes that are left. -/
def releaseOne (config : Config Key Tid) (state : State Key Value Tid) (tid : Tid)
    (item : ReadSetItem Key Value) (stage : Stage Key Value) : State Key Value Tid :=
  ((state.setRecord item.key (state.records item.key).unlock).setStage tid stage).log
    (.released tid item.key (config.startTime tid))

/-- The next unlock write of `release_writes` reaches `machine`. -/
def releaseVerb (config : Config Key Tid) (state : State Key Value Tid) (tid : Tid)
    (machine : Nat) : Option (State Key Value Tid) :=
  match (state.txns tid).stage with
  | .release pending again =>
      (nextFor (config.at ReadSetItem.key machine) pending).map fun (item, rest) =>
        releaseOne config state tid item (.release rest again)
  | .releaseAgain pending =>
      (nextFor (config.at ReadSetItem.key machine) pending).map fun (item, rest) =>
        releaseOne config state tid item (.releaseAgain rest)
  | _ => none

/-- The coroutine goes on when its verbs have completed.  A failed renewal makes `prepare`
release the write set and, when this is done, `commit` release it again. -/
def resume (state : State Key Value Tid) (tid : Tid) : Option (State Key Value Tid) :=
  let txn := state.txns tid
  match txn.stage with
  | .renewRead [] => some (state.setStage tid (.renewWrite txn.readSet))
  | .renewWrite [] => some (state.setStage tid .prepared)
  | .update [] => some (state.setStage tid (.finished true))
  | .release [] true => some (state.setStage tid (.releaseAgain txn.writeSet))
  | .release [] false => some (state.setStage tid (.finished false))
  | .releaseAgain [] => some (state.setStage tid (.finished false))
  | _ => none

/-! ## Runs -/

/-- One atomic step of the system. -/
inductive Action (Key : Type u) (Value : Type v) (Tid : Type w) where
  | begin (tid : Tid) (commitId : Nat)
  | read (tid : Tid) (key : Key)
  | readAgain (tid : Tid)
  | write (tid : Tid) (key : Key)
  | lockCas (tid : Tid)
  | lockRead (tid : Tid)
  | modify (tid : Tid) (key : Key) (data : Value)
  | renewLease (tid : Tid) (index : Nat)
  | renewLeaseWrite (tid : Tid)
  | prepare (tid : Tid)
  | renewRead (tid : Tid) (machine : Nat)
  | renewWrite (tid : Tid)
  | vote (tid : Tid) (commit : Bool)
  | updateVerb (tid : Tid) (machine : Nat)
  | releaseVerb (tid : Tid) (machine : Nat)
  | resume (tid : Tid)
  deriving DecidableEq, Repr

/-- The step function of the system. -/
def step (config : Config Key Tid) (state : State Key Value Tid) :
    Action Key Value Tid → Option (State Key Value Tid)
  | .begin tid commitId => begin state tid commitId
  | .read tid key => read state tid key
  | .readAgain tid => readAgain state tid
  | .write tid key => write state tid key
  | .lockCas tid => lockCas config state tid
  | .lockRead tid => lockRead state tid
  | .modify tid key data => modify state tid key data
  | .renewLease tid index => renewLease state tid index
  | .renewLeaseWrite tid => renewLeaseWrite state tid
  | .prepare tid => prepare state tid
  | .renewRead tid machine => renewRead config state tid machine
  | .renewWrite tid => renewWrite state tid
  | .vote tid commit => vote state tid commit
  | .updateVerb tid machine => updateVerb config state tid machine
  | .releaseVerb tid machine => releaseVerb config state tid machine
  | .resume tid => resume state tid

/-- The transaction that takes a step. -/
def Action.tid : Action Key Value Tid → Tid
  | .begin tid _ => tid
  | .read tid _ => tid
  | .readAgain tid => tid
  | .write tid _ => tid
  | .lockCas tid => tid
  | .lockRead tid => tid
  | .modify tid _ _ => tid
  | .renewLease tid _ => tid
  | .renewLeaseWrite tid => tid
  | .prepare tid => tid
  | .renewRead tid _ => tid
  | .renewWrite tid => tid
  | .vote tid _ => tid
  | .updateVerb tid _ => tid
  | .releaseVerb tid _ => tid
  | .resume tid => tid

/-- `commit` can only return true. -/
def Txn.Decided (txn : Txn Key Value) : Prop :=
  match txn.stage with
  | .update _ => True
  | .finished true => True
  | _ => False

/-- The renewal whose header is checked and written next. -/
def Txn.renewal (txn : Txn Key Value) : Option (ReadSetItem Key Value) :=
  match txn.stage with
  | .renewLease item => some item
  | .renewWrite (item :: _) => some item
  | _ => none

/-- Unlock writes of `release_writes` in flight. -/
def Txn.releasing (txn : Txn Key Value) : List (ReadSetItem Key Value) :=
  match txn.stage with
  | .release pending _ => pending
  | .releaseAgain pending => pending
  | _ => []

end OneSided

end Rocc.Sundial
