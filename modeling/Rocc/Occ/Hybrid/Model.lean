import Rocc.Base.Ledger
import Rocc.Occ.Model

/-!
# `OCCR` with a transport for every phase

`HYBRID_CODE` selects one-sided verbs or RPC for each phase of `OCCR::commit`, and a
record is local when its `pid` is `node_id_` of the coordinator.  A phase walks over a set
of the transaction: it posts verbs, appends to a batch that is sent at the end of the
walk, or works on a local record right away.  A local failure ends the walk at once, with
the verbs posted so far in flight and the batch unsent.

Verbs posted to one machine take effect in the order in which they were posted; a handler
processes its items of a message in order.  The coroutine goes on when `pending_counts_`
and `reply_counts_` are 0, so it waits for the verbs of an earlier phase as well.

`assert(false)` and a failing assertion of `inplace_write_op` stop the coroutine for good.
-/

set_option linter.unusedSectionVars false

namespace Rocc.Occ.Hybrid

open Rtx

universe u v w

/-- `ReadSetItem` with its buffer: `lock` and `headerSeq` are the two words of the
`RdmaValHeader` in front of `data_ptr`. -/
structure Item (Key : Type u) (Value : Type v) where
  key : Key
  seq : Nat
  lock : Nat
  headerSeq : Nat
  data : Value
  deriving DecidableEq, Repr

/-- A one-sided verb: the compare-and-swap of a lock word, the read of a sequence word
behind it, the read of both words of a validation, the write of sequence word and value,
and the write of a lock word of 0. -/
inductive Verb (Key : Type u) (Value : Type v) where
  | cas (key : Key)
  | fetch (key : Key)
  | check (key : Key)
  | write (key : Key) (seq : Nat) (data : Value)
  | unlock (key : Key)
  deriving DecidableEq, Repr

/-- The record a verb is addressed to. -/
def Verb.key {Key : Type u} {Value : Type v} : Verb Key Value → Key
  | .cas key => key
  | .fetch key => key
  | .check key => key
  | .write key _ _ => key
  | .unlock key => key

/-- An item of a message to one of the handlers. -/
inductive Call (Key : Type u) (Value : Type v) where
  | lock (key : Key) (seq : Nat)
  | validate (key : Key) (seq : Nat)
  | commit (key : Key) (data : Value)
  | release (key : Key)
  deriving DecidableEq, Repr

/-- The record an item of a message is about. -/
def Call.key {Key : Type u} {Value : Type v} : Call Key Value → Key
  | .lock key _ => key
  | .validate key _ => key
  | .commit key _ => key
  | .release key => key

/-- Where `OCCR::commit` stands: in the walk of a phase, with the records it has not come
to, or waiting behind it.  `lockLocal` stands between `local_try_lock_op` and
`local_validate_op` of a local record. -/
inductive Stage (Key : Type u) where
  | idle
  | execute
  | lock (todo : List Key)
  | lockLocal (key : Key) (todo : List Key)
  | lockWait (granted : List Key) (failed : Bool)
  | validate (todo : List Key)
  | validateWait (failed : Bool)
  | writeBack (todo : List Key)
  | writeBackWait
  | release (todo : List Key)
  | releaseWait
  | finished (committed : Bool)
  | crashed
  deriving DecidableEq, Repr

/-- One transaction, with the batch it has not sent and the verbs and message items that
are in flight. -/
structure Txn (Key : Type u) (Value : Type v) where
  stage : Stage Key
  readSet : List (Item Key Value)
  writeSet : List (Item Key Value)
  batch : List (Call Key Value)
  verbs : List (Verb Key Value)
  calls : List (Call Key Value)
  deriving DecidableEq, Repr

/-- The records and the transactions.  `stored` lists who has overwritten which record; no
step reads it. -/
structure State (Key : Type u) (Value : Type v) (Tid : Type w) where
  records : Key → Record Value
  txns : Tid → Txn Key Value
  stored : List (Tid × Key)

/-- Placement of records and coordinators, `ENCODE_LOCK_CONTENT` of every transaction, and
the flags of `HYBRID_CODE`.  `nodeId` is `none` where `node_id_` is -1. -/
structure Config (Key : Type u) (Tid : Type w) where
  pid : Key → Nat
  tableid : Key → Nat
  nodeId : Tid → Option Nat
  lockContent : Tid → Nat
  lockContent_ne_zero : ∀ tid, lockContent tid ≠ 0
  lockContent_injective : Function.Injective lockContent
  oneSidedRead : Bool
  oneSidedLock : Bool
  oneSidedValidate : Bool
  oneSidedCommit : Bool
  oneSidedRelease : Bool
  twoPhaseCommit : Bool

variable {Key : Type u} {Value : Type v} {Tid : Type w}
variable [DecidableEq Key] [DecidableEq Tid]

/-- The record is on the machine of the coordinator. -/
def Config.Local (config : Config Key Tid) (tid : Tid) (key : Key) : Prop :=
  config.nodeId tid = some (config.pid key)

instance (config : Config Key Tid) (tid : Tid) (key : Key) : Decidable (config.Local tid key) :=
  inferInstanceAs (Decidable (_ = _))

/-- Verbs and message items addressed to `machine`. -/
def Config.at (config : Config Key Tid) (machine : Nat) (key : Key) : Bool :=
  config.pid key == machine

/-- A transaction that has not begun. -/
def Txn.initial : Txn Key Value where
  stage := .idle
  readSet := []
  writeSet := []
  batch := []
  verbs := []
  calls := []

/-- Every record unlocked and no transaction begun. -/
def State.initial (seq : Key → Nat) (value : Key → Value) : State Key Value Tid where
  records key := { lock := 0, seq := seq key, value := value key }
  txns _ := .initial
  stored := []

/-- Replace one transaction. -/
def State.setTxn (state : State Key Value Tid) (tid : Tid) (txn : Txn Key Value) :
    State Key Value Tid :=
  { state with txns := Function.update state.txns tid txn }

/-- Replace one record. -/
def State.setRecord (state : State Key Value Tid) (key : Key) (record : Record Value) :
    State Key Value Tid :=
  { state with records := Function.update state.records key record }

/-- Note that a transaction has overwritten a record. -/
def State.note (state : State Key Value Tid) (tid : Tid) (key : Key) : State Key Value Tid :=
  { state with stored := state.stored ++ [(tid, key)] }

/-! ## Execution -/

/-- `begin`. -/
def begin (state : State Key Value Tid) (tid : Tid) : Option (State Key Value Tid) :=
  match (state.txns tid).stage with
  | .idle => some (state.setTxn tid { (Txn.initial : Txn Key Value) with stage := .execute })
  | _ => none

/-- The record is in neither set of the transaction. -/
def Txn.Fresh (txn : Txn Key Value) (key : Key) : Prop :=
  ∀ item ∈ txn.readSet ++ txn.writeSet, item.key ≠ key

instance (txn : Txn Key Value) (key : Key) : Decidable (txn.Fresh key) :=
  inferInstanceAs (Decidable (∀ item ∈ _, _))

/-- The item of a load.  A one-sided read fetches the header with the value.  The reply to
an RPC carries the sequence word only, and a fresh buffer has some word of its own where
the lock word belongs. -/
def Config.load (config : Config Key Tid) (tid : Tid) (key : Key) (record : Record Value)
    (garbage : Nat) : Item Key Value where
  key
  seq := record.seq
  lock := if config.oneSidedRead = true ∧ ¬ config.Local tid key then record.lock else garbage
  headerSeq := record.seq
  data := record.value

/-- `read`. -/
def read (config : Config Key Tid) (state : State Key Value Tid) (tid : Tid) (key : Key)
    (garbage : Nat) : Option (State Key Value Tid) :=
  let txn := state.txns tid
  match txn.stage with
  | .execute =>
      if txn.Fresh key then
        some (state.setTxn tid { txn with
          readSet := txn.readSet ++ [config.load tid key (state.records key) garbage] })
      else
        none
  | _ => none

/-- `write`. -/
def write (config : Config Key Tid) (state : State Key Value Tid) (tid : Tid) (key : Key)
    (garbage : Nat) : Option (State Key Value Tid) :=
  let txn := state.txns tid
  match txn.stage with
  | .execute =>
      if txn.Fresh key then
        some (state.setTxn tid { txn with
          writeSet := txn.writeSet ++ [config.load tid key (state.records key) garbage] })
      else
        none
  | _ => none

/-- `fill` is applied to the buffer of the item for `key`. -/
def receive (items : List (Item Key Value)) (key : Key)
    (fill : Item Key Value → Item Key Value) : List (Item Key Value) :=
  items.map fun item => if item.key = key then fill item else item

/-- The application stores into a buffer of the write set. -/
def modify (state : State Key Value Tid) (tid : Tid) (key : Key) (data : Value) :
    Option (State Key Value Tid) :=
  let txn := state.txns tid
  match txn.stage with
  | .execute =>
      some (state.setTxn tid { txn with
        writeSet := receive txn.writeSet key fun item => { item with data } })
  | _ => none

/-! ## The walk of a phase -/

/-- Records of a set. -/
def keysOf (items : List (Item Key Value)) : List Key := items.map (·.key)

/-- The item of a set for a record. -/
def lookup (items : List (Item Key Value)) (key : Key) : Option (Item Key Value) :=
  items.find? (·.key = key)

/-- The sequence word of the buffer is copied out before a verb overwrites it. -/
def Item.copySeq (item : Item Key Value) : Item Key Value := { item with seq := item.headerSeq }

/-- `commit` starts to lock. -/
def commit (state : State Key Value Tid) (tid : Tid) : Option (State Key Value Tid) :=
  let txn := state.txns tid
  match txn.stage with
  | .execute => some (state.setTxn tid { txn with stage := .lock (keysOf txn.writeSet) })
  | _ => none

/-- `release_writes` starts; what has been appended to a batch is never sent. -/
def Txn.abort (txn : Txn Key Value) : Txn Key Value :=
  { txn with stage := .release (keysOf txn.writeSet), batch := [] }

/-- The batch is sent at the end of a walk. -/
def Txn.send (txn : Txn Key Value) (stage : Stage Key) : Txn Key Value :=
  { txn with stage, batch := [], calls := txn.calls ++ txn.batch }

/-- `lock_writes` and `lock_writes_w_rdma` come to a record. -/
def lockItem (config : Config Key Tid) (state : State Key Value Tid) (tid : Tid) (key : Key)
    (todo : List Key) : Option (State Key Value Tid) :=
  let txn := state.txns tid
  if config.Local tid key then
    match (state.records key).localTryLockOp (config.lockContent tid) with
    | none => some (state.setTxn tid txn.abort)
    | some record =>
        some ((state.setRecord key record).setTxn tid { txn with stage := .lockLocal key todo })
  else if config.oneSidedLock then
    some (state.setTxn tid { txn with
      stage := .lock todo,
      writeSet := receive txn.writeSet key Item.copySeq,
      verbs := txn.verbs ++ [.cas key, .fetch key] })
  else
    (lookup txn.writeSet key).map fun item => state.setTxn tid { txn with
      stage := .lock todo,
      batch := txn.batch ++ [.lock key item.seq] }

/-- The comparison of the sequence word of a local record, which also asks for a lock word
of 0. -/
def lockLocalItem (state : State Key Value Tid) (tid : Tid) (key : Key) (todo : List Key) :
    Option (State Key Value Tid) :=
  let txn := state.txns tid
  (lookup txn.writeSet key).map fun item =>
    if (state.records key).localValidateOp item.seq then
      state.setTxn tid { txn with stage := .lock todo }
    else
      state.setTxn tid txn.abort

/-- `validate_reads` and `validate_reads_w_rdma` come to a record; the latter skips
table 7. -/
def validateItem (config : Config Key Tid) (state : State Key Value Tid) (tid : Tid)
    (key : Key) (todo : List Key) : Option (State Key Value Tid) :=
  let txn := state.txns tid
  (lookup txn.readSet key).map fun item =>
    if config.oneSidedValidate = true ∧ config.tableid key = 7 then
      state.setTxn tid { txn with stage := .validate todo }
    else if config.Local tid key then
      if (state.records key).localValidateOp item.seq then
        state.setTxn tid { txn with stage := .validate todo }
      else
        state.setTxn tid txn.abort
    else if config.oneSidedValidate then
      state.setTxn tid { txn with
        stage := .validate todo,
        readSet := receive txn.readSet key Item.copySeq,
        verbs := txn.verbs ++ [.check key] }
    else
      state.setTxn tid { txn with
        stage := .validate todo,
        batch := txn.batch ++ [.validate key item.seq] }

/-- `write_back_oneshot` and `write_back_w_rdma` come to a record.  For a local record
`inplace_write_op` is called with a `meta` of 0, which its assertion refuses. -/
def writeBackItem (config : Config Key Tid) (state : State Key Value Tid) (tid : Tid)
    (key : Key) (todo : List Key) : Option (State Key Value Tid) :=
  let txn := state.txns tid
  (lookup txn.writeSet key).map fun item =>
    if config.Local tid key then
      state.setTxn tid { txn with stage := .crashed }
    else if config.oneSidedCommit then
      state.setTxn tid { txn with
        stage := .writeBack todo,
        verbs := txn.verbs ++ [.write key ((item.seq + 2) % wordBound) item.data, .unlock key] }
    else
      state.setTxn tid { txn with
        stage := .writeBack todo,
        batch := txn.batch ++ [.commit key item.data] }

/-- `release_writes` and `release_writes_w_rdma` come to a record.  The latter unlocks
where the buffer has a lock word of 0, and is not implemented for local records. -/
def releaseItem (config : Config Key Tid) (state : State Key Value Tid) (tid : Tid)
    (key : Key) (todo : List Key) : Option (State Key Value Tid) :=
  let txn := state.txns tid
  if config.oneSidedRelease then
    if config.Local tid key then
      some (state.setTxn tid { txn with stage := .crashed })
    else
      (lookup txn.writeSet key).map fun item => state.setTxn tid { txn with
        stage := .release todo,
        verbs := if item.lock = 0 then txn.verbs ++ [.unlock key] else txn.verbs }
  else if config.Local tid key then
    some ((state.setRecord key
      ((state.records key).localTryReleaseOp (config.lockContent tid))).setTxn tid
        { txn with stage := .release todo })
  else
    some (state.setTxn tid { txn with
      stage := .release todo,
      batch := txn.batch ++ [.release key] })

/-- The walk of the current phase goes on. -/
def walk (config : Config Key Tid) (state : State Key Value Tid) (tid : Tid) :
    Option (State Key Value Tid) :=
  let txn := state.txns tid
  match txn.stage with
  | .lock [] => some (state.setTxn tid (txn.send (.lockWait [] false)))
  | .lock (key :: todo) => lockItem config state tid key todo
  | .lockLocal key todo => lockLocalItem state tid key todo
  | .validate [] => some (state.setTxn tid (txn.send (.validateWait false)))
  | .validate (key :: todo) => validateItem config state tid key todo
  | .writeBack [] => some (state.setTxn tid (txn.send .writeBackWait))
  | .writeBack (key :: todo) => writeBackItem config state tid key todo
  | .release [] => some (state.setTxn tid (txn.send .releaseWait))
  | .release (key :: todo) => releaseItem config state tid key todo
  | _ => none

/-! ## Verbs and handlers -/

/-- A compare-and-swap of the lock word from 0. -/
def casLock (record : Record Value) (content : Nat) : Record Value :=
  if record.lock = 0 then { record with lock := content } else record

/-- A verb takes effect and completes into the buffer of its item. -/
def perform (config : Config Key Tid) (state : State Key Value Tid) (tid : Tid)
    (verbs : List (Verb Key Value)) : Verb Key Value → State Key Value Tid
  | .cas key =>
      let record := state.records key
      let txn := state.txns tid
      (state.setRecord key (casLock record (config.lockContent tid))).setTxn tid { txn with
        verbs, writeSet := receive txn.writeSet key fun item => { item with lock := record.lock } }
  | .fetch key =>
      let record := state.records key
      let txn := state.txns tid
      state.setTxn tid { txn with
        verbs,
        writeSet := receive txn.writeSet key fun item => { item with headerSeq := record.seq } }
  | .check key =>
      let record := state.records key
      let txn := state.txns tid
      state.setTxn tid { txn with
        verbs,
        readSet := receive txn.readSet key fun item =>
          { item with lock := record.lock, headerSeq := record.seq } }
  | .write key seq data =>
      ((state.setRecord key { state.records key with seq, value := data }).note tid key).setTxn
        tid { state.txns tid with verbs }
  | .unlock key =>
      (state.setRecord key { state.records key with lock := 0 }).setTxn tid
        { state.txns tid with verbs }

/-- The next verb reaches `machine`. -/
def verb (config : Config Key Tid) (state : State Key Value Tid) (tid : Tid) (machine : Nat) :
    Option (State Key Value Tid) :=
  (nextFor (fun posted => config.at machine posted.key) (state.txns tid).verbs).map
    fun (posted, rest) => perform config state tid rest posted

/-- What a reply to a lock request says about a record. -/
def Stage.lockReply (stage : Stage Key) (key : Key) (locked goesOn : Bool) : Stage Key :=
  match stage with
  | .lockWait granted failed =>
      .lockWait (if locked then granted ++ [key] else granted) (failed || !goesOn)
  | _ => stage

/-- What a reply to a validation request says about a record. -/
def Stage.validateReply (stage : Stage Key) (goesOn : Bool) : Stage Key :=
  match stage with
  | .validateWait failed => .validateWait (failed || !goesOn)
  | _ => stage

/-- A handler processes an item.  The handlers of lock and validation stop at the first
failure: what is left of their message is answered without a look at the records. -/
def handle (config : Config Key Tid) (state : State Key Value Tid) (tid : Tid) (machine : Nat)
    (calls : List (Call Key Value)) : Call Key Value → State Key Value Tid
  | .lock key seq =>
      let record := state.records key
      let txn := state.txns tid
      let (next, goesOn) := lockRpcHandler record (config.lockContent tid) seq
      (state.setRecord key next).setTxn tid { txn with
        stage := txn.stage.lockReply key (record.lock == 0) goesOn,
        calls := if goesOn then calls else dropFor (fun call => config.at machine call.key) calls }
  | .validate key seq =>
      let txn := state.txns tid
      let goesOn := validateRpcHandler (state.records key) seq
      state.setTxn tid { txn with
        stage := txn.stage.validateReply goesOn,
        calls := if goesOn then calls else dropFor (fun call => config.at machine call.key) calls }
  | .commit key data =>
      ((state.setRecord key (commitOneshotHandler (state.records key) data)).note tid key).setTxn
        tid { state.txns tid with calls }
  | .release key =>
      (state.setRecord key
        (releaseRpcHandler (state.records key) (config.lockContent tid))).setTxn tid
          { state.txns tid with calls }

/-- The next item of a message is handled at `machine`. -/
def call (config : Config Key Tid) (state : State Key Value Tid) (tid : Tid) (machine : Nat) :
    Option (State Key Value Tid) :=
  (nextFor (fun item => config.at machine item.key) (state.txns tid).calls).map
    fun (item, rest) => handle config state tid machine rest item

/-! ## Between the phases -/

/-- What a phase left in the buffer of an item is as expected. -/
def Item.Matches (item : Item Key Value) : Prop := item.lock = 0 ∧ item.headerSeq = item.seq

instance (item : Item Key Value) : Decidable item.Matches :=
  inferInstanceAs (Decidable (_ ∧ _))

/-- The buffers of the remote items of a set are as expected. -/
def Config.AllMatch (config : Config Key Tid) (tid : Tid) (items : List (Item Key Value)) :
    Prop :=
  ∀ item ∈ items, ¬ config.Local tid item.key → item.Matches

instance (config : Config Key Tid) (tid : Tid) (items : List (Item Key Value)) :
    Decidable (config.AllMatch tid items) :=
  inferInstanceAs (Decidable (∀ item ∈ _, _))

/-- `lock_writes` notes in the buffers which locks were granted, when the release is
one-sided. -/
def Config.mark (config : Config Key Tid) (granted : List Key) (items : List (Item Key Value)) :
    List (Item Key Value) :=
  if config.oneSidedLock = false ∧ config.oneSidedRelease = true then
    items.map fun item => if item.key ∈ granted then { item with lock := 0 } else item
  else
    items

/-- The lock phase has succeeded. -/
def Config.Locked (config : Config Key Tid) (tid : Tid) (txn : Txn Key Value) (failed : Bool) :
    Prop :=
  if config.oneSidedLock then config.AllMatch tid txn.writeSet else failed = false

instance (config : Config Key Tid) (tid : Tid) (txn : Txn Key Value) (failed : Bool) :
    Decidable (config.Locked tid txn failed) := by
  unfold Config.Locked
  infer_instance

/-- The validation has succeeded. -/
def Config.Validated (config : Config Key Tid) (tid : Tid) (txn : Txn Key Value)
    (failed : Bool) : Prop :=
  if config.oneSidedValidate then config.AllMatch tid txn.readSet else failed = false

instance (config : Config Key Tid) (tid : Tid) (txn : Txn Key Value) (failed : Bool) :
    Decidable (config.Validated tid txn failed) := by
  unfold Config.Validated
  infer_instance

/-- The participants have voted against the transaction.  One that writes nothing asks
nobody. -/
def Config.Refused (config : Config Key Tid) (txn : Txn Key Value) (vote : Bool) : Prop :=
  config.twoPhaseCommit = true ∧ txn.writeSet ≠ [] ∧ vote = false

instance (config : Config Key Tid) (txn : Txn Key Value) (vote : Bool) :
    Decidable (config.Refused txn vote) := by
  unfold Config.Refused
  rw [← List.isEmpty_eq_false_iff]
  infer_instance

/-- The coroutine goes on when nothing of it is in flight.  `vote` is what
`prepare_commit` returns after a validation. -/
def resume (config : Config Key Tid) (state : State Key Value Tid) (tid : Tid) (vote : Bool) :
    Option (State Key Value Tid) :=
  let txn := state.txns tid
  if txn.verbs.isEmpty ∧ txn.calls.isEmpty then
    match txn.stage with
    | .lockWait granted failed =>
        let marked := { txn with writeSet := config.mark granted txn.writeSet }
        if config.Locked tid txn failed then
          some (state.setTxn tid { marked with stage := .validate (keysOf txn.readSet) })
        else
          some (state.setTxn tid marked.abort)
    | .validateWait failed =>
        if config.Validated tid txn failed ∧ ¬ config.Refused txn vote then
          some (state.setTxn tid { txn with stage := .writeBack (keysOf txn.writeSet) })
        else
          some (state.setTxn tid txn.abort)
    | .writeBackWait => some (state.setTxn tid { txn with stage := .finished true })
    | .releaseWait => some (state.setTxn tid { txn with stage := .finished false })
    | _ => none
  else
    none

/-! ## Runs -/

/-- One atomic step of the system. -/
inductive Action (Key : Type u) (Value : Type v) (Tid : Type w) where
  | begin (tid : Tid)
  | read (tid : Tid) (key : Key) (garbage : Nat)
  | write (tid : Tid) (key : Key) (garbage : Nat)
  | modify (tid : Tid) (key : Key) (data : Value)
  | commit (tid : Tid)
  | walk (tid : Tid)
  | verb (tid : Tid) (machine : Nat)
  | call (tid : Tid) (machine : Nat)
  | resume (tid : Tid) (vote : Bool)
  deriving DecidableEq, Repr

/-- The transaction a step belongs to. -/
def Action.tid : Action Key Value Tid → Tid
  | .begin tid => tid
  | .read tid _ _ => tid
  | .write tid _ _ => tid
  | .modify tid _ _ => tid
  | .commit tid => tid
  | .walk tid => tid
  | .verb tid _ => tid
  | .call tid _ => tid
  | .resume tid _ => tid

/-- The step function of the system. -/
def step (config : Config Key Tid) (state : State Key Value Tid) :
    Action Key Value Tid → Option (State Key Value Tid)
  | .begin tid => begin state tid
  | .read tid key garbage => read config state tid key garbage
  | .write tid key garbage => write config state tid key garbage
  | .modify tid key data => modify state tid key data
  | .commit tid => commit state tid
  | .walk tid => walk config state tid
  | .verb tid machine => verb config state tid machine
  | .call tid machine => call config state tid machine
  | .resume tid vote => resume config state tid vote

/-- The remote records of a walk that stand before the first local one. -/
def Config.ahead (config : Config Key Tid) (tid : Tid) (keys : List Key) : List Key :=
  keys.takeWhile fun key => ¬ config.Local tid key

/-- The transaction has no verb in flight when a local lock fails, and a one-sided release
finds no lock word of 0 in a buffer unless a lock request has put it there. -/
def Config.Marked (config : Config Key Tid) (tid : Tid) (writeSet : List (Item Key Value)) :
    Prop :=
  if config.oneSidedLock then
    (∀ key ∈ keysOf writeSet, ¬ config.Local tid key) ∨ config.ahead tid (keysOf writeSet) = []
  else
    config.oneSidedRelease = true →
      ∀ item ∈ writeSet, item.key ∈ config.ahead tid (keysOf writeSet) → item.lock ≠ 0

instance (config : Config Key Tid) (tid : Tid) (writeSet : List (Item Key Value)) :
    Decidable (config.Marked tid writeSet) := by
  unfold Config.Marked
  infer_instance

/-- A `commit` is called with a write set that is marked. -/
def Guarded (config : Config Key Tid) (state : State Key Value Tid) :
    Action Key Value Tid → Prop
  | .commit tid => config.Marked tid (state.txns tid).writeSet
  | _ => True

instance (config : Config Key Tid) (state : State Key Value Tid)
    (action : Action Key Value Tid) : Decidable (Guarded config state action) :=
  match action with
  | .commit _ => inferInstanceAs (Decidable (Config.Marked _ _ _))
  | .begin _ => inferInstanceAs (Decidable True)
  | .read _ _ _ => inferInstanceAs (Decidable True)
  | .write _ _ _ => inferInstanceAs (Decidable True)
  | .modify _ _ _ => inferInstanceAs (Decidable True)
  | .walk _ => inferInstanceAs (Decidable True)
  | .verb _ _ => inferInstanceAs (Decidable True)
  | .call _ _ => inferInstanceAs (Decidable True)
  | .resume _ _ => inferInstanceAs (Decidable True)

/-- The transaction has passed validation. -/
def Txn.Decided (txn : Txn Key Value) : Prop :=
  match txn.stage with
  | .writeBack _ => True
  | .writeBackWait => True
  | .finished true => True
  | _ => False

end Rocc.Occ.Hybrid
