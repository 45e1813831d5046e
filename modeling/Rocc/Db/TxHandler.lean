import Mathlib.Data.List.Dedup
import Rocc.Base.Batch
import Rocc.Base.Holding
import Rocc.Base.Run

/-!
# Transactions over a local write set and a remote set

`DBSI` and `DBRad` implement `TXHandler` in the same way.  A coroutine collects local
records in a `WriteSet` and remote ones in a `RemoteSet`; `end` locks the remote
records through `lock_rpc_handler` and then the local ones with `LockAllSet`, each
time comparing the sequence number remembered for the record, and afterwards installs
the new values with `CommitLocalWrite` and `commit_rpc_handler2`, or gives the locks
back.  What the two classes do differently (how a timestamp is collected, which
sequence number a commit stores) is the `TxHandler` parameter of the model.

The body of a loop over records is one step.  A coroutine waits for all replies
before it goes on, and it uses one lock content for all its transactions.
-/

set_option linter.unusedSectionVars false

namespace Rocc.Db

universe u v w x

/-! ## Data -/

/-- `MemNode`.  `oldValue` lists the older values of the record with the versions
that their headers carry. -/
structure MemNode (Value : Type v) where
  lock : Nat
  seq : Nat
  readTs : Nat
  value : Option Value
  oldValue : List (Nat × Value)
  deriving DecidableEq, Repr

/-- A record and the sequence number remembered for it.  `version` counts the commits
that the record had seen by then; no step reads it. -/
structure Seen (Key : Type u) where
  key : Key
  seq : Nat
  version : Nat
  deriving DecidableEq, Repr

/-- `WriteSetItem`; `addr` is the buffer with the new value, none for a delete. -/
structure WriteSetItem (Key : Type u) (Value : Type v) where
  seen : Seen Key
  addr : Option Value
  ro : Bool
  deriving DecidableEq, Repr

/-- The requests that `RemoteSet::add` appends. -/
inductive ReqType where
  | reqRead
  | reqInsert
  deriving DecidableEq, Repr

/-- `RemoteSetItem`. -/
structure RemoteSetItem (Key : Type u) where
  type : ReqType
  seen : Seen Key
  deriving DecidableEq, Repr

/-- What `promote_to_write` appends to the lock and to the commit message. -/
structure RemoteWrite (Key : Type u) (Value : Type v) where
  seen : Seen Key
  payload : Option Value
  deriving DecidableEq, Repr

/-- Where `end` stands.  A phase over remote records keeps the items no handler has
processed yet; `failed` says that some lock handler replied with 0 items.  `walked` are
the local items locked so far, those up to `current`. -/
inductive Stage (Key : Type u) (Value : Type v) where
  | idle
  | execute
  | lockRemote (pending : List (RemoteWrite Key Value)) (failed : Bool)
  | lockAllSet (walked pending : List (WriteSetItem Key Value))
  | commitLocalWrite (pending : List (WriteSetItem Key Value))
  | commitRemote (pending : List (RemoteWrite Key Value))
  | releaseRemote (pending : List (RemoteWrite Key Value))
      (walked : List (WriteSetItem Key Value))
  | releaseAllSet (pending : List (WriteSetItem Key Value))
  | finished (committed : Bool)
  deriving DecidableEq, Repr

/-- The transaction a coroutine runs.  `taken` lists the locks it has; no step reads
it. -/
structure Txn (Key : Type u) (Value : Type v) (Extra : Type x) where
  stage : Stage Key Value
  rwset : List (WriteSetItem Key Value)
  remoteset : List (RemoteSetItem Key)
  remoteWrites : List (RemoteWrite Key Value)
  extra : Extra
  taken : List (Seen Key)

/-- A value installed in a record: by whom, at which version its writer had seen the
record, which version it became, and the sequence number before and after. -/
structure Commit (Key : Type u) (Tid : Type w) where
  tid : Tid
  key : Key
  read : Nat
  installed : Nat
  before : Nat
  after : Nat
  deriving DecidableEq, Repr

/-- Placement of records and coroutines and their lock contents.  The node and the key
of a commit item share one word, which `promote_to_write` sets to the node and then to
the key; `nodeAt` is the node a handler finds at the address in that word. -/
structure Config (Key : Type u) (Tid : Type w) where
  pid : Key → Nat
  partition : Tid → Nat
  lockContent : Tid → Nat
  nodeAt : Key → Option Key
  words : OwnWords lockContent

/-- The nodes, the coroutines, and two records of the past that no step reads: the
sequence numbers each record has had and the commits in the order they happened. -/
structure State (Key : Type u) (Value : Type v) (Tid : Type w) (Extra : Type x) where
  nodes : Key → MemNode Value
  txns : Tid → Txn Key Value Extra
  seqs : Key → List Nat
  commits : List (Commit Key Tid)

/-- What a class adds to the common code; `Extra` is its part of a transaction. -/
structure TxHandler (Key : Type u) (Value : Type v) (Extra : Type x) where
  /-- `_begin`, with the time it reads. -/
  begin : Extra → Nat → Option Extra
  /-- `get`: the sequence number it remembers; nothing when the record has no value. -/
  get : MemNode Value → Option (Option Nat)
  /-- `get_rpc_handler` of a `REQ_READ`: the sequence number it replies. -/
  getRpcHandler : MemNode Value → Option Nat
  /-- What `get`, `write` and `delete_` do with the sequence number of their item. -/
  observe : Extra → Nat → Extra
  /-- `lock_rpc_handler` of a partition has locked a node. -/
  lockRpcHandler : Extra → Nat → MemNode Value → Extra
  /-- `_check_res` of the replies of these partitions. -/
  checkRes : Extra → List Nat → Extra
  /-- `LockAllSet` has locked a node. -/
  lockAllSet : Extra → MemNode Value → Extra
  /-- `end` between locking and committing, with the remote set. -/
  lockedAll : Extra → List (RemoteSetItem Key) → Extra
  /-- `CommitLocalWrite`: the new sequence number of a node, for an item. -/
  commitLocalWrite : Extra → Nat → MemNode Value → Option Nat
  /-- `commit_rpc_handler2`: the new sequence number of a node. -/
  commitRpcHandler : Extra → MemNode Value → Option Nat

variable {Key : Type u} {Value : Type v} {Tid : Type w} {Extra : Type x}

/-! ## Per-record bodies -/

namespace MemNode

/-- The value switch of a commit: the value moves into the chain under its version,
the new one takes its place, and the lock is cleared.  A record without value starts a
new chain. -/
def install (node : MemNode Value) (version : Nat) (value : Option Value) (seq : Nat) :
    MemNode Value where
  lock := 0
  seq := seq
  readTs := node.readTs
  value := value
  oldValue := match node.value with
    | some current => (version, current) :: node.oldValue
    | none => []

/-- `release_rpc_handler`: compare-and-swap of the lock back to 0. -/
def release (node : MemNode Value) (content : Nat) : MemNode Value :=
  if node.lock = content then { node with lock := 0 } else node

end MemNode

/-! ## Steps -/

section Steps

variable [DecidableEq Key] [DecidableEq Tid]

namespace State

/-- Every record unlocked with the given sequence number and value, no transaction
begun. -/
def initial (seq : Key → Nat) (value : Key → Option Value) (extra : Extra) :
    State Key Value Tid Extra where
  nodes key :=
    { lock := 0, seq := seq key, readTs := 0, value := value key, oldValue := [] }
  txns _ :=
    { stage := .idle, rwset := [], remoteset := [], remoteWrites := [], extra,
      taken := [] }
  seqs key := [seq key]
  commits := []

/-- Replace the transaction of a coroutine. -/
def setTxn (state : State Key Value Tid Extra) (tid : Tid) (txn : Txn Key Value Extra) :
    State Key Value Tid Extra :=
  { state with txns := Function.update state.txns tid txn }

/-- Replace one node. -/
def setNode (state : State Key Value Tid Extra) (key : Key) (node : MemNode Value) :
    State Key Value Tid Extra :=
  { state with nodes := Function.update state.nodes key node }

/-- A record at the sequence number remembered for it. -/
def see (state : State Key Value Tid Extra) (key : Key) (seq : Nat) : Seen Key :=
  { key, seq, version := (state.seqs key).length - 1 }

/-- A commit stores a node with a new sequence number. -/
def commit (state : State Key Value Tid Extra) (tid : Tid) (key : Key) (read : Nat)
    (node : MemNode Value) : State Key Value Tid Extra :=
  { state.setNode key node with
    seqs := Function.update state.seqs key (state.seqs key ++ [node.seq])
    commits := state.commits ++
      [{ tid, key, read, installed := (state.seqs key).length,
         before := (state.nodes key).seq, after := node.seq }] }

end State

namespace Txn

/-- Move to another stage. -/
def setStage (txn : Txn Key Value Extra) (stage : Stage Key Value) :
    Txn Key Value Extra :=
  { txn with stage }

/-- The lock of a record is taken. -/
def take (txn : Txn Key Value Extra) (seen : Seen Key) : Txn Key Value Extra :=
  { txn with taken := txn.taken ++ [seen] }

/-- The lock of a record is cleared. -/
def drop (txn : Txn Key Value Extra) (key : Key) : Txn Key Value Extra :=
  { txn with taken := txn.taken.filter fun seen => seen.key ≠ key }

/-- `WriteSet::Add`. -/
def add (txn : Txn Key Value Extra) (item : WriteSetItem Key Value) :
    Txn Key Value Extra :=
  { txn with rwset := txn.rwset ++ [item] }

/-- The local items that are written. -/
def localWrites (txn : Txn Key Value Extra) : List (WriteSetItem Key Value) :=
  txn.rwset.filter fun item => !item.ro

end Txn

/-- `read_server_num_` and `write_server_num_`: how many partitions the items are on. -/
def Config.servers (config : Config Key Tid) (keys : List Key) : List Nat :=
  (keys.map config.pid).dedup

variable [DecidableEq Value] (config : Config Key Tid) (handler : TxHandler Key Value Extra)
variable (state : State Key Value Tid Extra) (tid : Tid)

/-- The coroutine is executing its transaction, and the record is in its partition. -/
def Local (key : Key) : Prop :=
  (state.txns tid).stage = .execute ∧ config.pid key = config.partition tid

/-- The coroutine is executing its transaction, and the record is in another
partition. -/
def Remote (key : Key) : Prop :=
  (state.txns tid).stage = .execute ∧ config.pid key ≠ config.partition tid

instance (key : Key) : Decidable (Local config state tid key) :=
  inferInstanceAs (Decidable (_ ∧ _))

instance (key : Key) : Decidable (Remote config state tid key) :=
  inferInstanceAs (Decidable (_ ∧ _))

/-- `_begin`. -/
def begin (now : Nat) : Option (State Key Value Tid Extra) :=
  let txn := state.txns tid
  let fresh := (handler.begin txn.extra now).map fun extra =>
    state.setTxn tid
      { txn with stage := .execute, rwset := [], remoteset := [], remoteWrites := [], extra }
  match txn.stage with
  | .idle => fresh
  | .finished _ => fresh
  | _ => none

/-- `get` of a local record. -/
def get (key : Key) : Option (State Key Value Tid Extra) :=
  let txn := state.txns tid
  let node := state.nodes key
  if Local config state tid key then
    (handler.get node).map fun
      | none => state
      | some seq => state.setTxn tid
          { txn.add { seen := state.see key seq, addr := node.value, ro := true } with
            extra := handler.observe txn.extra seq }
  else
    none

/-- `insert` and `insert_index` of a local record. -/
def insert (key : Key) (value : Value) : Option (State Key Value Tid Extra) :=
  let txn := state.txns tid
  if Local config state tid key then
    some (state.setTxn tid (txn.add
      { seen := state.see key (state.nodes key).seq, addr := some value, ro := false }))
  else
    none

/-- The buffer of an item gets a value and the item is no longer read-only. -/
def WriteSetItem.write (item : WriteSetItem Key Value) (addr : Option Value) :
    WriteSetItem Key Value :=
  { item with addr, ro := false }

/-- Write the item at a position of the write set. -/
def Txn.writeAt (handler : TxHandler Key Value Extra) (txn : Txn Key Value Extra)
    (index : Nat) (addr : Option Value) : Option (Txn Key Value Extra) :=
  (txn.rwset[index]?).map fun item =>
    { txn with
      rwset := txn.rwset.modify index (·.write addr)
      extra := handler.observe txn.extra item.seen.seq }

/-- `write(tableid, key, val, len)` after a store into the buffer: the first item of
the record.  Without one the source exits. -/
def write (key : Key) (value : Value) : Option (State Key Value Tid Extra) :=
  let txn := state.txns tid
  if Local config state tid key then
    (txn.writeAt handler (txn.rwset.findIdx fun item => item.seen.key = key)
      (some value)).map (state.setTxn tid)
  else
    none

/-- `write()` after a store into the buffer: the last item. -/
def writeLast (value : Value) : Option (State Key Value Tid Extra) :=
  let txn := state.txns tid
  if txn.stage = .execute then
    (txn.writeAt handler (txn.rwset.length - 1) (some value)).map (state.setTxn tid)
  else
    none

/-- `delete_` and `delete_by_node`: the first item of the record, or a new one. -/
def delete (key : Key) : Option (State Key Value Tid Extra) :=
  let txn := state.txns tid
  let seq := (state.nodes key).seq
  if Local config state tid key then
    match txn.writeAt handler (txn.rwset.findIdx fun item => item.seen.key = key) none with
    | some written => some (state.setTxn tid written)
    | none => some (state.setTxn tid
        { txn.add { seen := state.see key seq, addr := none, ro := false } with
          extra := handler.observe txn.extra seq })
  else
    none

/-- `delete_index`: a new item unless the record has no value. -/
def deleteIndex (key : Key) : Option (State Key Value Tid Extra) :=
  let txn := state.txns tid
  let node := state.nodes key
  if Local config state tid key then
    match node.value with
    | none => some state
    | some _ => some (state.setTxn tid
        { txn.add { seen := state.see key node.seq, addr := none, ro := false } with
          extra := handler.observe txn.extra node.seq })
  else
    none

/-- What `get_rpc_handler` replies to a request. -/
def getRpcHandler (type : ReqType) (node : MemNode Value) : Option Nat :=
  match type with
  | .reqRead => handler.getRpcHandler node
  | .reqInsert => some node.seq

/-- `RemoteSet::add` of a request, its handler and `get_results`. -/
def remoteAdd (type : ReqType) (key : Key) : Option (State Key Value Tid Extra) :=
  let txn := state.txns tid
  if Remote config state tid key then
    (getRpcHandler handler type (state.nodes key)).map fun seq =>
      state.setTxn tid
        { txn with remoteset := txn.remoteset ++ [{ type, seen := state.see key seq }] }
  else
    none

/-- A further `do_reads` sends the requests of the whole remote set again; this is one
of them. -/
def refetch (index : Nat) : Option (State Key Value Tid Extra) :=
  let txn := state.txns tid
  match txn.stage, txn.remoteset[index]? with
  | .execute, some item =>
      (getRpcHandler handler item.type (state.nodes item.seen.key)).map fun seq =>
        state.setTxn tid
          { txn with
            remoteset := txn.remoteset.set index
              { item with seen := state.see item.seen.key seq } }
  | _, _ => none

/-- `remote_write`: `promote_to_write` of an item of the remote set. -/
def remoteWrite (index : Nat) (payload : Option Value) :
    Option (State Key Value Tid Extra) :=
  let txn := state.txns tid
  match txn.stage, txn.remoteset[index]? with
  | .execute, some item =>
      some (state.setTxn tid
        { txn with remoteWrites := txn.remoteWrites ++ [{ seen := item.seen, payload }] })
  | _, _ => none

/-- `end` sends the lock requests, if there are any. -/
def startEnd : Option (State Key Value Tid Extra) :=
  let txn := state.txns tid
  match txn.stage with
  | .execute => some (state.setTxn tid (txn.setStage
      (if txn.remoteWrites = [] then .lockAllSet [] txn.rwset
        else .lockRemote txn.remoteWrites false)))
  | _ => none

/-- Items of a message for a partition. -/
def Config.at (config : Config Key Tid) (partition : Nat)
    (item : RemoteWrite Key Value) : Bool :=
  config.pid item.seen.key == partition

/-- `lock_rpc_handler` of a partition processes its next item: it locks the node, then
compares the sequence number; a failure ends its walk. -/
def lockRpc (partition : Nat) : Option (State Key Value Tid Extra) :=
  let txn := state.txns tid
  match txn.stage with
  | .lockRemote pending failed =>
      (nextFor (config.at partition) pending).map fun (item, rest) =>
        let node := state.nodes item.seen.key
        let stop := Stage.lockRemote (dropFor (config.at partition) rest) true
        if node.lock ≠ 0 then
          state.setTxn tid (txn.setStage stop)
        else
          let locked :=
            state.setNode item.seen.key { node with lock := config.lockContent tid }
          if node.seq = item.seen.seq then
            locked.setTxn tid
              { (txn.take item.seen).setStage (.lockRemote rest failed) with
                extra := handler.lockRpcHandler txn.extra partition node }
          else
            locked.setTxn tid ((txn.take item.seen).setStage stop)
  | _ => none

/-- One round of the loop of `LockAllSet`. -/
def lockLocal : Option (State Key Value Tid Extra) :=
  let txn := state.txns tid
  match txn.stage with
  | .lockAllSet walked (item :: rest) =>
      let node := state.nodes item.seen.key
      if item.ro then
        some (state.setTxn tid (txn.setStage (.lockAllSet walked rest)))
      else if node.lock ≠ 0 then
        some (state.setTxn tid (txn.setStage (.releaseRemote txn.remoteWrites walked)))
      else
        let locked :=
          state.setNode item.seen.key { node with lock := config.lockContent tid }
        if node.seq = item.seen.seq then
          some (locked.setTxn tid
            { (txn.take item.seen).setStage (.lockAllSet (walked ++ [item]) rest) with
              extra := handler.lockAllSet txn.extra node })
        else
          some (locked.setTxn tid ((txn.take item.seen).setStage
            (.releaseRemote txn.remoteWrites (walked ++ [item]))))
  | _ => none

/-- One round of the loop of `CommitLocalWrite`. -/
def commitLocal : Option (State Key Value Tid Extra) :=
  let txn := state.txns tid
  match txn.stage with
  | .commitLocalWrite (item :: rest) =>
      let node := state.nodes item.seen.key
      (handler.commitLocalWrite txn.extra item.seen.seq node).map fun seq =>
        (state.commit tid item.seen.key item.seen.version
          (node.install item.seen.seq item.addr seq)).setTxn tid
            ((txn.drop item.seen.key).setStage (.commitLocalWrite rest))
  | _ => none

/-- `commit_rpc_handler2` of a partition processes its next item, at the node that the
word of the item leads to. -/
def commitRpc (partition : Nat) : Option (State Key Value Tid Extra) :=
  let txn := state.txns tid
  match txn.stage with
  | .commitRemote pending =>
      (nextFor (config.at partition) pending).bind fun (item, rest) =>
        (config.nodeAt item.seen.key).bind fun key =>
          let node := state.nodes key
          (handler.commitRpcHandler txn.extra node).map fun seq =>
            (state.commit tid key item.seen.version
              (node.install node.seq item.payload seq)).setTxn tid
                ((txn.drop key).setStage (.commitRemote rest))
  | _ => none

/-- `release_rpc_handler` of a partition processes its next item. -/
def releaseRpc (partition : Nat) : Option (State Key Value Tid Extra) :=
  let txn := state.txns tid
  match txn.stage with
  | .releaseRemote pending walked =>
      (nextFor (config.at partition) pending).map fun (item, rest) =>
        let node := state.nodes item.seen.key
        (state.setNode item.seen.key (node.release (config.lockContent tid))).setTxn tid
          ((txn.drop item.seen.key).setStage (.releaseRemote rest walked))
  | _ => none

/-- One round of the loop of `ReleaseAllSet`. -/
def releaseLocal : Option (State Key Value Tid Extra) :=
  let txn := state.txns tid
  match txn.stage with
  | .releaseAllSet (item :: rest) =>
      let node := state.nodes item.seen.key
      some ((state.setNode item.seen.key { node with lock := 0 }).setTxn tid
        ((txn.drop item.seen.key).setStage (.releaseAllSet rest)))
  | _ => none

/-- The coroutine goes on with `end` after a phase.  The lock requests went to the
partitions written, but as many replies are awaited as there are partitions read. -/
def resume : Option (State Key Value Tid Extra) :=
  let txn := state.txns tid
  match txn.stage with
  | .lockRemote [] failed =>
      let servers := config.servers (txn.remoteWrites.map (·.seen.key))
      let awaited := config.servers (txn.remoteset.map (·.seen.key))
      if awaited.length = servers.length then
        some (state.setTxn tid
          (if failed then txn.setStage (.releaseRemote txn.remoteWrites [])
            else { txn.setStage (.lockAllSet [] txn.rwset) with
              extra := handler.checkRes txn.extra servers }))
      else
        none
  | .lockAllSet _ [] =>
      some (state.setTxn tid
        { txn.setStage (.commitLocalWrite txn.localWrites) with
          extra := handler.lockedAll txn.extra txn.remoteset })
  | .commitLocalWrite [] =>
      some (state.setTxn tid (txn.setStage (.commitRemote txn.remoteWrites)))
  | .commitRemote [] => some (state.setTxn tid (txn.setStage (.finished true)))
  | .releaseRemote [] walked =>
      some (state.setTxn tid (txn.setStage (.releaseAllSet walked)))
  | .releaseAllSet [] => some (state.setTxn tid (txn.setStage (.finished false)))
  | _ => none

/-- One atomic step of the system. -/
inductive Action (Key : Type u) (Value : Type v) (Tid : Type w) where
  | begin (tid : Tid) (now : Nat)
  | get (tid : Tid) (key : Key)
  | insert (tid : Tid) (key : Key) (value : Value)
  | write (tid : Tid) (key : Key) (value : Value)
  | writeLast (tid : Tid) (value : Value)
  | delete (tid : Tid) (key : Key)
  | deleteIndex (tid : Tid) (key : Key)
  | remoteAdd (tid : Tid) (type : ReqType) (key : Key)
  | refetch (tid : Tid) (index : Nat)
  | remoteWrite (tid : Tid) (index : Nat) (payload : Option Value)
  | startEnd (tid : Tid)
  | lockRpc (tid : Tid) (partition : Nat)
  | lockLocal (tid : Tid)
  | commitLocal (tid : Tid)
  | commitRpc (tid : Tid) (partition : Nat)
  | releaseRpc (tid : Tid) (partition : Nat)
  | releaseLocal (tid : Tid)
  | resume (tid : Tid)
  deriving DecidableEq, Repr

/-- The coroutine that takes a step. -/
def Action.caller : Action Key Value Tid → Tid
  | .begin tid _ | .get tid _ | .insert tid _ _ | .write tid _ _ | .writeLast tid _
  | .delete tid _ | .deleteIndex tid _ | .remoteAdd tid _ _ | .refetch tid _
  | .remoteWrite tid _ _ | .startEnd tid | .lockRpc tid _ | .lockLocal tid
  | .commitLocal tid | .commitRpc tid _ | .releaseRpc tid _ | .releaseLocal tid
  | .resume tid => tid

/-- The step function of the system. -/
def step : Action Key Value Tid → Option (State Key Value Tid Extra)
  | .begin tid now => begin handler state tid now
  | .get tid key => get config handler state tid key
  | .insert tid key value => insert config state tid key value
  | .write tid key value => write config handler state tid key value
  | .writeLast tid value => writeLast handler state tid value
  | .delete tid key => delete config handler state tid key
  | .deleteIndex tid key => deleteIndex config handler state tid key
  | .remoteAdd tid type key => remoteAdd config handler state tid type key
  | .refetch tid index => refetch handler state tid index
  | .remoteWrite tid index payload => remoteWrite state tid index payload
  | .startEnd tid => startEnd state tid
  | .lockRpc tid partition => lockRpc config handler state tid partition
  | .lockLocal tid => lockLocal config handler state tid
  | .commitLocal tid => commitLocal handler state tid
  | .commitRpc tid partition => commitRpc config handler state tid partition
  | .releaseRpc tid partition => releaseRpc config state tid partition
  | .releaseLocal tid => releaseLocal state tid
  | .resume tid => resume config handler state tid

end Steps

end Rocc.Db
