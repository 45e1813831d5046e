import Rocc.Locking.OneSided.Model

/-!
# Two-phase locking in hybrid builds

`NOWAIT` and `WAITDIE` with `ONE_SIDED_READ` 0 or 2, where `HYBRID_CODE` decides for locks,
releases and commits on their own whether they are RPCs or one-sided verbs.  A build over RPC
sets none of the bits.  What one stage leaves in the buffer of an item is all the next one
knows: `release_reads_w_rdma` and `release_writes_w_rdma` look for the word 333 in the header
in front of the value, which an RPC lock has to write as a one-sided one does.

The sets are what the application makes of them.  `read` of table 7 appends an item without
a lock, a buffer or a machine of its own, and `add_to_write` moves an item with a read lock
into the set whose releases use the word of a write lock.

The loop of a release or a commit goes through a set item by item.  Verbs it posts take
effect from then on, in the order of their posting on one machine; entries of a batch are
sent behind the loop.  An assertion, a null pointer or a store outside a buffer halts the
transaction, also when it is the handler of one of its messages that fails.
-/

set_option linter.unusedSectionVars false

namespace Rocc.Locking.Hybrid

open Rtx OneSided

universe u v

variable {Key : Type u} {Tid : Type v}

/-- The bits of `HYBRID_CODE` for locks, releases and commits, each set for one-sided verbs,
and whether `TX_TWO_PHASE_COMMIT_STYLE` is positive. -/
structure Build where
  lock : Bool
  release : Bool
  commit : Bool
  votes : Bool
  deriving DecidableEq, Repr

/-- The two sets of a transaction allocate buffers with a header in different builds. -/
def Build.headers (build : Build) : LockType → Bool
  | .read => build.lock || build.release
  | .write => build.lock || build.release || build.commit

/-- Builds in which a granted RPC lock leaves the marker in the header. -/
def Build.marks (build : Build) : LockType → Bool
  | .read => build.release
  | .write => build.release || build.commit

/-- The protocol, its build, the workers and their start times.  `nodeId` is the `node_id_`
of the worker of a transaction, none for -1. -/
structure Config (Key : Type u) (Tid : Type v) where
  protocol : Protocol
  build : Build
  nodeId : Tid → Option Nat
  tableid : Key → Nat
  len : Key → Nat
  startTime : Tid → Nat
  lease_ne_zero : ∀ tid, rLease (startTime tid) ≠ 0
  lease_injective : ∀ left right,
    rLease (startTime left) = rLease (startTime right) → left = right

/-- The same start times over records named by their machine and their key. -/
def Config.words (config : Config Key Tid) : Locking.Config (Nat × Key) Tid Tid where
  protocol := config.protocol
  pid := Prod.fst
  len place := config.len place.2
  owner := id
  worker _ := 0
  startTime := config.startTime
  lease_ne_zero := config.lease_ne_zero
  lease_injective := config.lease_injective

/-- The word a lock of this type stores. -/
def Config.word (config : Config Key Tid) (tid : Tid) (type : LockType) : Nat :=
  config.words.word tid type

/-- The table whose records `read` does not lock. -/
def itemTable : Nat := 7

/-- `ReadSetItem`.  `node` says that the pointer to the record, or its offset, is set,
`header` is the lock word in front of the value in a buffer that has a header, and no `data`
is a null pointer.  `granted` is the type of the lock taken for the item; no step reads it. -/
structure ReadSetItem (Key : Type u) where
  pid : Nat
  key : Key
  node : Bool
  header : Option Nat
  data : Option Bytes
  granted : Option LockType
  deriving DecidableEq, Repr

/-- The record an item names. -/
def ReadSetItem.place (item : ReadSetItem Key) : Nat × Key := (item.pid, item.key)

/-- The record is on the machine of the worker. -/
def Config.isLocal (config : Config Key Tid) (tid : Tid) (pid : Nat) : Bool :=
  config.nodeId tid == some pid

/-- What a loop does next: release the read set of an abort, whose writes follow, release
its write set, write back, after which the reads follow, or release the read set of a
commit. -/
inductive Phase (Key : Type u) where
  | releaseReads (writes : List (ReadSetItem Key))
  | releaseWrites
  | writeBack (reads : List (ReadSetItem Key))
  | releaseCommitted
  deriving DecidableEq, Repr

/-- Where a transaction stands.  A request is sent or queued in a wait list, `lockRead` waits
for the read behind a compare-and-swap, `walk` is in a loop and `wait` behind it. -/
inductive Stage (Key : Type u) where
  | idle
  | execute
  | request (type : LockType) (queued : Bool)
  | lockRead (type : LockType)
  | refused (type : LockType)
  | walk (phase : Phase Key) (todo : List (ReadSetItem Key))
  | wait (phase : Phase Key)
  | finished (committed : Bool)
  | halted
  deriving DecidableEq, Repr

/-- What a loop has posted for an item: an entry of a release or commit message, or one of
the verbs of a one-sided commit or release. -/
inductive PostKind where
  | release (type : LockType)
  | commit
  | write
  | unlock
  deriving DecidableEq, Repr

/-- A post that has not taken effect. -/
structure Post (Key : Type u) where
  kind : PostKind
  item : ReadSetItem Key
  deriving DecidableEq, Repr

/-- One transaction. -/
structure Txn (Key : Type u) where
  stage : Stage Key
  readSet : List (ReadSetItem Key)
  writeSet : List (ReadSetItem Key)
  posts : List (Post Key)
  deriving DecidableEq, Repr

/-- The records, the transactions and what is left in their reply buffers.  `events` is a
history of the lock words that no step reads. -/
structure State (Key : Type u) (Tid : Type v) where
  records : Nat × Key → Record Bytes
  txns : Tid → Txn Key
  replyBuf : Tid → Bytes
  events : List (LockEvent Tid (Nat × Key))

variable [DecidableEq Key] [DecidableEq Tid]

/-- Every record unlocked and no transaction begun. -/
def State.initial (value : Nat × Key → Bytes) (seq : Nat × Key → Nat)
    (replyBuf : Tid → Bytes) : State Key Tid where
  records place := { lock := 0, seq := seq place, value := value place }
  txns _ := { stage := .idle, readSet := [], writeSet := [], posts := [] }
  replyBuf
  events := []

/-- Replace one transaction. -/
def State.setTxn (state : State Key Tid) (tid : Tid) (txn : Txn Key) : State Key Tid :=
  { state with txns := Function.update state.txns tid txn }

/-- Move one transaction to another stage. -/
def State.setStage (state : State Key Tid) (tid : Tid) (stage : Stage Key) :
    State Key Tid :=
  state.setTxn tid { state.txns tid with stage }

/-- How a store of a transaction changes a lock word. -/
def lockEvents (tid : Tid) (place : Nat × Key) (before after : Nat) :
    List (LockEvent Tid (Nat × Key)) :=
  if before = after then
    []
  else
    (if before = 0 then [] else [.released tid place before]) ++
      if after = 0 then [] else [.acquired tid place after]

/-- A transaction stores a record; the lock word it finds and the one it leaves are
logged. -/
def State.setRecord (state : State Key Tid) (tid : Tid) (place : Nat × Key)
    (record : Record Bytes) : State Key Tid :=
  { state with
    records := Function.update state.records place record
    events := state.events ++ lockEvents tid place (state.records place).lock record.lock }

/-- `begin`. -/
def begin (state : State Key Tid) (tid : Tid) : Option (State Key Tid) :=
  match (state.txns tid).stage with
  | .idle =>
      some (state.setTxn tid { stage := .execute, readSet := [], writeSet := [], posts := [] })
  | _ => none

/-! ## Items -/

/-- The set a request of this type belongs to. -/
def Txn.set (txn : Txn Key) : LockType → List (ReadSetItem Key)
  | .read => txn.readSet
  | .write => txn.writeSet

/-- Replace the set of a type. -/
def Txn.setSet (txn : Txn Key) (type : LockType) (items : List (ReadSetItem Key)) :
    Txn Key :=
  match type with
  | .read => { txn with readSet := items }
  | .write => { txn with writeSet := items }

/-- Append an item to the set of a type. -/
def Txn.push (txn : Txn Key) (type : LockType) (item : ReadSetItem Key) : Txn Key :=
  txn.setSet type (txn.set type ++ [item])

/-- Replace the last item of the set of a type. -/
def Txn.setLast (txn : Txn Key) (type : LockType) (item : ReadSetItem Key) : Txn Key :=
  txn.setSet type ((txn.set type).dropLast ++ [item])

/-- What `read` appends for a record of table 7. -/
def placeholder (key : Key) : ReadSetItem Key where
  pid := 0
  key
  node := false
  header := none
  data := none
  granted := none

/-- `local_read` and `local_write`. -/
def localItem (config : Config Key Tid) (state : State Key Tid) (pid : Nat) (key : Key) :
    Option (ReadSetItem Key) :=
  (state.records (pid, key)).localGetOp.map fun found =>
    { pid, key, node := true, header := none, data := some (found.2.take (config.len key))
      granted := none }

/-- `remote_read` and `remote_write`.  The buffer starts with the bytes the allocator and
the traversal of the store leave there. -/
def remoteItem (config : Config Key Tid) (type : LockType) (pid : Nat) (key : Key)
    (header : Nat) (data : Bytes) : ReadSetItem Key where
  pid
  key
  node := config.build.headers type
  header := if config.build.headers type then some header else none
  data := some data
  granted := none

/-- `read` and `write` append an item and request its lock. -/
def access (config : Config Key Tid) (state : State Key Tid) (tid : Tid) (type : LockType)
    (pid : Nat) (key : Key) (header : Nat) (data : Bytes) : Option (State Key Tid) :=
  let item :=
    if config.isLocal tid pid then
      localItem config state pid key
    else
      some (remoteItem config type pid key header data)
  item.map fun item =>
    state.setTxn tid
      { (state.txns tid).push type item with stage := .request type false }

/-- `read`. -/
def read (config : Config Key Tid) (state : State Key Tid) (tid : Tid) (pid : Nat)
    (key : Key) (header : Nat) (data : Bytes) : Option (State Key Tid) :=
  match (state.txns tid).stage with
  | .execute =>
      if config.tableid key = itemTable then
        some (state.setTxn tid ((state.txns tid).push .read (placeholder key)))
      else
        access config state tid .read pid key header data
  | _ => none

/-- `write`. -/
def write (config : Config Key Tid) (state : State Key Tid) (tid : Tid) (pid : Nat)
    (key : Key) (header : Nat) (data : Bytes) : Option (State Key Tid) :=
  match (state.txns tid).stage with
  | .execute => access config state tid .write pid key header data
  | _ => none

/-- `add_to_write` moves an item from the read set into the write set. -/
def addToWrite (state : State Key Tid) (tid : Tid) (index : Nat) : Option (State Key Tid) :=
  let txn := state.txns tid
  match txn.stage with
  | .execute =>
      txn.readSet[index]?.map fun item =>
        state.setTxn tid { txn with
          readSet := txn.readSet.eraseIdx index
          writeSet := txn.writeSet ++ [item] }
  | _ => none

/-- The application stores into a buffer of the write set. -/
def modify (state : State Key Tid) (tid : Tid) (index : Nat) (data : Bytes) :
    Option (State Key Tid) :=
  let txn := state.txns tid
  match txn.stage with
  | .execute =>
      some (state.setTxn tid { txn with
        writeSet := txn.writeSet.modify index fun item =>
          { item with data := item.data.map fun _ => data } })
  | _ => none

/-! ## Lock requests -/

/-- A lock that has been taken for an item. -/
def ReadSetItem.grant (item : ReadSetItem Key) (type : LockType) : ReadSetItem Key :=
  { item with granted := some type }

/-- The compare-and-swap of `try_lock_read_w_rdma` and `try_lock_write_w_rdma`. -/
def casVerb (config : Config Key Tid) (state : State Key Tid) (tid : Tid) (type : LockType)
    (item : ReadSetItem Key) : State Key Tid :=
  let record := state.records item.place
  let found := { item with header := some record.lock }
  let last := if record.lock = 0 then found.grant type else found
  (state.setRecord tid item.place (casLock record (config.word tid type))).setTxn tid
    { (state.txns tid).setLast type last with stage := .lockRead type }

/-- The read behind the compare-and-swap, and the tests on the word that was found. -/
def lockRead (config : Config Key Tid) (state : State Key Tid) (tid : Tid) :
    Option (State Key Tid) :=
  let txn := state.txns tid
  match txn.stage with
  | .lockRead type =>
      (txn.set type).getLast?.bind fun item =>
        let data := some ((state.records item.place).value.take (config.len item.key))
        item.header.map fun found =>
          if found ≠ 0 then
            let next := txn.setLast type { item with data }
            if spins config.protocol (config.word tid type) found then
              state.setTxn tid { next with stage := .request type false }
            else
              state.setTxn tid { next with stage := .refused type }
          else
            state.setTxn tid
              { txn.setLast type { item with data, header := some lockedMarker } with
                stage := .execute }
  | _ => none

/-- The local branch of `try_lock_read_w_rwlock_rpc` and `try_lock_write_w_rwlock_rpc`. -/
def lockLocal (config : Config Key Tid) (state : State Key Tid) (tid : Tid)
    (type : LockType) (item : ReadSetItem Key) : Option (State Key Tid) :=
  let record := state.records item.place
  if record.lock ≠ 0 then
    if spins config.protocol (rLease (config.startTime tid)) record.lock then
      none
    else
      some (state.setStage tid (.refused type))
  else
    some ((state.setRecord tid item.place { record with lock := config.word tid type }).setTxn
      tid { (state.txns tid).setLast type (item.grant type) with stage := .execute })

/-- What a granted RPC lock does to its item. -/
def ReadSetItem.take (item : ReadSetItem Key) (build : Build) (type : LockType)
    (data : Bytes) : ReadSetItem Key :=
  { item.grant type with
    header := if build.marks type then some lockedMarker else item.header
    data := some data }

/-- The remote branch of `try_lock_read_w_rwlock_rpc` and `try_lock_write_w_rwlock_rpc`
after a reply. -/
def tryLock (config : Config Key Tid) (state : State Key Tid) (tid : Tid) (type : LockType)
    (item : ReadSetItem Key) (reply : Bytes) : Option (State Key Tid) :=
  let buffer := receive (state.replyBuf tid) reply
  let next := { state with replyBuf := Function.update state.replyBuf tid buffer }
  match buffer with
  | [] => none
  | status :: payload =>
      if status = lockSuccessMagic then
        let data := payload.take (config.len item.key)
        some (next.setTxn tid
          { (state.txns tid).setLast type (item.take config.build type data) with
            stage := .execute })
      else if status = lockFailMagic then
        some (next.setStage tid (.refused type))
      else
        some (next.setStage tid .halted)

/-- The answer to a lock request, or a place on the wait list. -/
def answer (config : Config Key Tid) (state : State Key Tid) (tid : Tid) (type : LockType)
    (item : ReadSetItem Key) : Record Bytes × Option Bytes → Option (State Key Tid)
  | (after, some reply) =>
      tryLock config (state.setRecord tid item.place after) tid type item reply
  | (_, none) => some (state.setStage tid (.request type true))

/-- The lock request of a transaction reaches its record. -/
def lockItem (config : Config Key Tid) (state : State Key Tid) (tid : Tid) :
    Option (State Key Tid) :=
  match (state.txns tid).stage with
  | .request type false =>
      ((state.txns tid).set type).getLast?.bind fun item =>
        if config.build.lock then
          if config.isLocal tid item.pid then
            -- `assert(false)`
            some (state.setStage tid .halted)
          else
            some (casVerb config state tid type item)
        else if config.isLocal tid item.pid then
          lockLocal config state tid type item
        else
          answer config state tid type item
            (config.protocol.lockRpcHandler (state.records item.place) type
              (config.startTime tid) (config.len item.key))
  | _ => none

/-- `check_to_notify` reaches the waiter of a transaction. -/
def notify (config : Config Key Tid) (state : State Key Tid) (tid : Tid) :
    Option (State Key Tid) :=
  match (state.txns tid).stage with
  | .request type true =>
      ((state.txns tid).set type).getLast?.bind fun item =>
        answer config state tid type item
          (checkToNotifyItem (state.records item.place) type (config.startTime tid))
  | _ => none

/-! ## Releases and commits -/

/-- What the body of a loop does with one item. -/
inductive Effect (Key : Type u) where
  | skip
  | post (posts : List (Post Key))
  | store (record : Record Bytes)
  | spin
  | halt
  deriving DecidableEq, Repr

/-- The body of `release_reads_w_rdma` and `release_writes_w_rdma`.  On its own machine the
loop repeats `local_try_release_op` until the lock has the word of the set. -/
def releaseVerb (config : Config Key Tid) (tid : Tid) (type : LockType)
    (record : Record Bytes) (item : ReadSetItem Key) : Effect Key :=
  if config.isLocal tid item.pid then
    if record.lock = config.word tid type then
      .store (record.localTryReleaseOp (config.word tid type))
    else
      .spin
  else
    match item.header with
    | none => .halt
    | some found => if found = lockedMarker then .post [⟨.unlock, item⟩] else .skip

/-- The body of `release_reads` and `release_writes`. -/
def releaseEntry (config : Config Key Tid) (tid : Tid) (type : LockType)
    (record : Record Bytes) (item : ReadSetItem Key) : Effect Key :=
  if config.isLocal tid item.pid then
    if item.node then
      .store (record.localTryReleaseOp (config.word tid type))
    else
      .halt
  else
    .post [⟨.release type, item⟩]

/-- `do_release_reads` and `do_release_writes`. -/
def doRelease (config : Config Key Tid) (tid : Tid) (type : LockType)
    (record : Record Bytes) (item : ReadSetItem Key) : Effect Key :=
  if config.build.release then
    releaseVerb config tid type record item
  else
    releaseEntry config tid type record item

/-- `do_write_back`: the body of `write_back_w_rdma` or `write_back`.  For a record on its own
machine both call `inplace_write_op` without the length of the header, which that function
asserts. -/
def doWriteBack (config : Config Key Tid) (tid : Tid) (item : ReadSetItem Key) :
    Effect Key :=
  if config.isLocal tid item.pid then
    .halt
  else if config.build.commit then
    if item.header.isSome ∧ item.node ∧ item.data.isSome then
      .post [⟨.write, item⟩, ⟨.unlock, item⟩]
    else
      .halt
  else if item.data.isSome then
    .post [⟨.commit, item⟩]
  else
    .halt

/-- The body of the loop of a phase. -/
def Phase.body (config : Config Key Tid) (tid : Tid) (record : Record Bytes)
    (item : ReadSetItem Key) : Phase Key → Effect Key
  | .releaseReads _ => doRelease config tid .read record item
  | .releaseWrites => doRelease config tid .write record item
  | .writeBack _ => doWriteBack config tid item
  | .releaseCommitted => doRelease config tid .read record item

/-- What is left of the state once an item of a loop has been dealt with. -/
def Effect.apply (state : State Key Tid) (tid : Tid) (item : ReadSetItem Key)
    (stage : Stage Key) : Effect Key → Option (State Key Tid)
  | .skip => some (state.setStage tid stage)
  | .post posts =>
      some (state.setTxn tid
        { state.txns tid with stage, posts := (state.txns tid).posts ++ posts })
  | .store record => some ((state.setRecord tid item.place record).setStage tid stage)
  | .spin => none
  | .halt => some (state.setStage tid .halted)

/-- The loop of a phase deals with its next item. -/
def walkItem (config : Config Key Tid) (state : State Key Tid) (tid : Tid) :
    Option (State Key Tid) :=
  match (state.txns tid).stage with
  | .walk phase (item :: todo) =>
      (phase.body config tid (state.records item.place) item).apply state tid item
        (.walk phase todo)
  | _ => none

/-- The loop of a phase ends and the coroutine yields. -/
def walkEnd (state : State Key Tid) (tid : Tid) : Option (State Key Tid) :=
  match (state.txns tid).stage with
  | .walk phase [] => some (state.setStage tid (.wait phase))
  | _ => none

/-- The items that are released after a refused request: both sets without the item that was
refused. -/
def Txn.keptReads (txn : Txn Key) : LockType → List (ReadSetItem Key)
  | .read => txn.readSet.dropLast
  | .write => txn.readSet

/-- The write set of `Txn.keptReads`. -/
def Txn.keptWrites (txn : Txn Key) : LockType → List (ReadSetItem Key)
  | .read => txn.writeSet
  | .write => txn.writeSet.dropLast

/-- `read` or `write` gives up after a refused request. -/
def abort (state : State Key Tid) (tid : Tid) : Option (State Key Tid) :=
  let txn := state.txns tid
  match txn.stage with
  | .refused type =>
      some (state.setStage tid (.walk (.releaseReads (txn.keptWrites type))
        (txn.keptReads type)))
  | _ => none

/-- `commit` after the votes are in.  `prepare_write_contents` copies the buffer of every
item that is not local before anything is written back. -/
def commit (config : Config Key Tid) (state : State Key Tid) (tid : Tid) (vote : Bool) :
    Option (State Key Tid) :=
  let txn := state.txns tid
  match txn.stage with
  | .execute =>
      if vote then
        if txn.writeSet.any fun item =>
            !config.isLocal tid item.pid && item.data.isNone then
          some (state.setStage tid .halted)
        else
          some (state.setStage tid (.walk (.writeBack txn.readSet) txn.writeSet))
      else if config.build.votes then
        some (state.setStage tid (.walk (.releaseReads txn.writeSet) txn.readSet))
      else
        none
  | _ => none

/-- One-sided verbs are on their way as soon as they are posted. -/
def PostKind.isVerb : PostKind → Bool
  | .release _ => false
  | .commit => false
  | .write => true
  | .unlock => true

/-- The coroutine waits behind a loop. -/
def Stage.isWait : Stage Key → Bool
  | .wait _ => true
  | _ => false

/-- What a post stores; none if the handler asserts. -/
def Post.store (config : Config Key Tid) (tid : Tid) (record : Record Bytes)
    (post : Post Key) : Option (Record Bytes) :=
  match post.kind with
  | .release type => config.protocol.releaseRpcHandler record (config.word tid type)
  | .commit => post.item.data.map (commitRpcHandler record)
  | .write => post.item.data.map fun data => { record with value := data }
  | .unlock => some { record with lock := 0 }

/-- The next post of a transaction takes effect on `machine`. -/
def deliver (config : Config Key Tid) (state : State Key Tid) (tid : Tid) (machine : Nat) :
    Option (State Key Tid) :=
  let txn := state.txns tid
  (nextFor (fun post => post.item.pid == machine) txn.posts).bind fun (post, rest) =>
    if post.kind.isVerb || txn.stage.isWait then
      match post.store config tid (state.records post.item.place) with
      | some record =>
          some ((state.setRecord tid post.item.place record).setTxn tid
            { txn with posts := rest })
      | none => some (state.setStage tid .halted)
    else
      none

/-- The coroutine goes on after the last reply or completion it waits for. -/
def resume (state : State Key Tid) (tid : Tid) : Option (State Key Tid) :=
  match (state.txns tid).stage, (state.txns tid).posts with
  | .wait (.releaseReads writes), [] => some (state.setStage tid (.walk .releaseWrites writes))
  | .wait .releaseWrites, [] => some (state.setStage tid (.finished false))
  | .wait (.writeBack reads), [] => some (state.setStage tid (.walk .releaseCommitted reads))
  | .wait .releaseCommitted, [] => some (state.setStage tid (.finished true))
  | _, _ => none

/-! ## Runs -/

/-- One atomic step of the system. -/
inductive Action (Key : Type u) (Tid : Type v) where
  | begin (tid : Tid)
  | read (tid : Tid) (pid : Nat) (key : Key) (header : Nat) (data : Bytes)
  | write (tid : Tid) (pid : Nat) (key : Key) (header : Nat) (data : Bytes)
  | addToWrite (tid : Tid) (index : Nat)
  | modify (tid : Tid) (index : Nat) (data : Bytes)
  | lockItem (tid : Tid)
  | lockRead (tid : Tid)
  | notify (tid : Tid)
  | abort (tid : Tid)
  | commit (tid : Tid) (vote : Bool)
  | walkItem (tid : Tid)
  | walkEnd (tid : Tid)
  | deliver (tid : Tid) (machine : Nat)
  | resume (tid : Tid)
  deriving DecidableEq, Repr

/-- The transaction a step belongs to. -/
def Action.tid : Action Key Tid → Tid
  | .begin tid => tid
  | .read tid _ _ _ _ => tid
  | .write tid _ _ _ _ => tid
  | .addToWrite tid _ => tid
  | .modify tid _ _ => tid
  | .lockItem tid => tid
  | .lockRead tid => tid
  | .notify tid => tid
  | .abort tid => tid
  | .commit tid _ => tid
  | .walkItem tid => tid
  | .walkEnd tid => tid
  | .deliver tid _ => tid
  | .resume tid => tid

/-- The step function of the system. -/
def step (config : Config Key Tid) (state : State Key Tid) :
    Action Key Tid → Option (State Key Tid)
  | .begin tid => begin state tid
  | .read tid pid key header data => read config state tid pid key header data
  | .write tid pid key header data => write config state tid pid key header data
  | .addToWrite tid index => addToWrite state tid index
  | .modify tid index data => modify state tid index data
  | .lockItem tid => lockItem config state tid
  | .lockRead tid => lockRead config state tid
  | .notify tid => notify config state tid
  | .abort tid => abort state tid
  | .commit tid vote => commit config state tid vote
  | .walkItem tid => walkItem config state tid
  | .walkEnd tid => walkEnd state tid
  | .deliver tid machine => deliver config state tid machine
  | .resume tid => resume state tid

end Rocc.Locking.Hybrid
