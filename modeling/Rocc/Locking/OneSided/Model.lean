import Mathlib.Data.List.ModifyLast
import Rocc.Base.Batch
import Rocc.Base.Deferred
import Rocc.Locking.Invariant

/-!
# Two-phase locking with one-sided verbs

`NOWAIT` and `WAITDIE` with `ONE_SIDED_READ` 1.  A lock request is a compare-and-swap
of the lock word with a read of the value batched behind it; `NOWAIT` gives up when
the word was taken, `WAITDIE` repeats the batch as long as its own word is the smaller
one.  Every verb is one step.  Verbs posted to one machine take effect in the order in
which they were posted, verbs to different machines in any order.

Which locks a release gives back is decided by the lock word in the header of the local
buffer of an item, which `try_lock_read_w_rdma` and `try_lock_write_w_rdma` set to 333
when they return true.  A buffer is allocated for every item and starts with whatever
the allocator left there.
-/

set_option linter.unusedSectionVars false

namespace Rocc.Locking.OneSided

open Rtx

universe u v w x

/-- What a lock request that was granted leaves in the header of its buffer. -/
def lockedMarker : Nat := 333

/-- `ReadSetItem` with its buffer: `lock` is the lock word of the header, `data` the value
behind it.  `value` is what the last read of the lock request fetched; no step reads it. -/
structure Item (Key : Type u) (Value : Type v) where
  key : Key
  lock : Nat
  value : Value
  data : Value
  deriving DecidableEq, Repr

/-- Where a transaction stands.  `lock` and `lockRead` wait for the compare-and-swap and
for the read of a lock request; the other stages keep the verbs that have not completed. A
value that `writeBack` has stored is marked, its unlock follows. -/
inductive Stage (Key : Type u) (Value : Type v) where
  | idle
  | execute
  | lock (type : LockType)
  | lockRead (type : LockType)
  | releaseReads (posted : List Key) (allWrites : Bool)
  | releaseWrites (posted : List Key)
  | writeBack (posted : List (Item Key Value × Bool))
  | releaseCommitted (posted : List Key)
  | finished (committed : Bool)
  deriving DecidableEq, Repr

/-- One transaction. -/
structure Txn (Key : Type u) (Value : Type v) where
  stage : Stage Key Value
  readSet : List (Item Key Value)
  writeSet : List (Item Key Value)
  deriving DecidableEq, Repr

/-- The records and the transactions.  `events` and `commitOrder` are histories that no
step reads. -/
structure State (Key : Type u) (Value : Type v) (Tid : Type w) where
  records : Key → Record Value
  txns : Tid → Txn Key Value
  events : List (LockEvent Tid Key)
  commitOrder : List Tid

variable {Key : Type u} {Value : Type v} {Tid : Type w} {Owner : Type x}
variable [DecidableEq Key] [DecidableEq Tid]

/-- Every record unlocked and no transaction begun. -/
def State.initial (value : Key → Value) (seq : Key → Nat) : State Key Value Tid where
  records key := { lock := 0, seq := seq key, value := value key }
  txns _ := { stage := .idle, readSet := [], writeSet := [] }
  events := []
  commitOrder := []

/-- Replace one transaction. -/
def State.setTxn (state : State Key Value Tid) (tid : Tid) (txn : Txn Key Value) :
    State Key Value Tid :=
  { state with txns := Function.update state.txns tid txn }

/-- Replace one record. -/
def State.setRecord (state : State Key Value Tid) (key : Key) (record : Record Value) :
    State Key Value Tid :=
  { state with records := Function.update state.records key record }

/-- Extend the lock history. -/
def State.log (state : State Key Value Tid) (event : LockEvent Tid Key) :
    State Key Value Tid :=
  { state with events := state.events ++ [event] }

/-- `begin`. -/
def begin (state : State Key Value Tid) (tid : Tid) : Option (State Key Value Tid) :=
  match (state.txns tid).stage with
  | .idle => some (state.setTxn tid { stage := .execute, readSet := [], writeSet := [] })
  | _ => none

/-! ## Lock requests -/

/-- The set a request of this type belongs to. -/
def Txn.set (txn : Txn Key Value) : LockType → List (Item Key Value)
  | .read => txn.readSet
  | .write => txn.writeSet

/-- Replace the set of a type. -/
def Txn.setSet (txn : Txn Key Value) (type : LockType) (items : List (Item Key Value)) :
    Txn Key Value :=
  match type with
  | .read => { txn with readSet := items }
  | .write => { txn with writeSet := items }

/-- `read` and `write` append an item, `remote_read` and `remote_write` with a buffer that
has `lock` and `data` in it, and post the first lock request. -/
def request (state : State Key Value Tid) (tid : Tid) (type : LockType) (key : Key)
    (lock : Nat) (data : Value) : Option (State Key Value Tid) :=
  let txn := state.txns tid
  match txn.stage with
  | .execute =>
      let item : Item Key Value := { key, lock, value := data, data }
      some (state.setTxn tid
        { txn.setSet type (txn.set type ++ [item]) with stage := .lock type })
  | _ => none

/-- A compare-and-swap of the lock word from 0. -/
def casLock (record : Record Value) (word : Nat) : Record Value :=
  if record.lock = 0 then { record with lock := word } else record

/-- The compare-and-swap of a lock request.  The word it found goes into the header of the
buffer. -/
def casVerb (config : Config Key Tid Owner) (state : State Key Value Tid) (tid : Tid) :
    Option (State Key Value Tid) :=
  let txn := state.txns tid
  match txn.stage with
  | .lock type =>
      (txn.set type).getLast?.map fun item =>
        let record := state.records item.key
        let found := fun last : Item Key Value => { last with lock := record.lock }
        let next := (state.setRecord item.key
          (casLock record (config.word tid type))).setTxn tid
            { txn.setSet type ((txn.set type).modifyLast found) with stage := .lockRead type }
        if record.lock = 0 then
          next.log (.acquired tid item.key (config.word tid type))
        else
          next
  | _ => none

/-- The test on the word found that keeps a request in its loop: `false` in `NOWAIT`, the
comparison with the own word in `WAITDIE`. -/
def spins : Protocol → Nat → Nat → Bool
  | .nowait, _, _ => false
  | .waitdie, lockContent, found => decide (lockContent < found)

/-! ## Releases -/

/-- The items `release_reads_w_rdma` and `release_writes_w_rdma` look at. -/
def chosen (releaseAll : Bool) (items : List (Item Key Value)) : List (Item Key Value) :=
  if releaseAll then items else items.dropLast

/-- The unlocks that are posted for a list of items. -/
def unlocks (items : List (Item Key Value)) : List Key :=
  (items.filter (·.lock = lockedMarker)).map (·.key)

/-- Posting an unlock clears the marker. -/
def Item.clear (item : Item Key Value) : Item Key Value :=
  if item.lock = lockedMarker then { item with lock := 0 } else item

/-- A set after its unlocks have been posted. -/
def cleared (releaseAll : Bool) (items : List (Item Key Value)) : List (Item Key Value) :=
  if releaseAll then
    items.map Item.clear
  else
    items.dropLast.map Item.clear ++ items.getLast?.toList

/-- `do_release_reads` of an abort, with the argument `do_release_writes` will have. -/
def Txn.abort (txn : Txn Key Value) (allReads allWrites : Bool) : Txn Key Value where
  stage := .releaseReads (unlocks (chosen allReads txn.readSet)) allWrites
  readSet := cleared allReads txn.readSet
  writeSet := txn.writeSet

/-- `do_release_writes` of an abort. -/
def Txn.abortWrites (txn : Txn Key Value) (allWrites : Bool) : Txn Key Value where
  stage := .releaseWrites (unlocks (chosen allWrites txn.writeSet))
  readSet := txn.readSet
  writeSet := cleared allWrites txn.writeSet

/-- A refused request leaves its own item out of the release. -/
def Txn.refuse (txn : Txn Key Value) : LockType → Txn Key Value
  | .read => txn.abort false true
  | .write => txn.abort true false

/-- The read of a lock request and the tests behind it. -/
def readVerb (config : Config Key Tid Owner) (state : State Key Value Tid) (tid : Tid) :
    Option (State Key Value Tid) :=
  let txn := state.txns tid
  match txn.stage with
  | .lockRead type =>
      (txn.set type).getLast?.map fun item =>
        let value := (state.records item.key).value
        let fetched := fun last : Item Key Value => { last with value, data := value }
        let granted := fun last : Item Key Value => { fetched last with lock := lockedMarker }
        if item.lock ≠ 0 then
          let next := txn.setSet type ((txn.set type).modifyLast fetched)
          if spins config.protocol (config.word tid type) item.lock then
            state.setTxn tid { next with stage := .lock type }
          else
            state.setTxn tid (next.refuse type)
        else
          state.setTxn tid
            { txn.setSet type ((txn.set type).modifyLast granted) with stage := .execute }
  | _ => none

/-- The application stores into a buffer of the write set. -/
def modify (state : State Key Value Tid) (tid : Tid) (key : Key) (data : Value) :
    Option (State Key Value Tid) :=
  let txn := state.txns tid
  match txn.stage with
  | .execute =>
      some (state.setTxn tid { txn with
        writeSet := txn.writeSet.map fun item =>
          if item.key = key then { item with data } else item })
  | _ => none

/-! ## `commit` -/

/-- `commit` after the votes are in.  Without a two-phase committer the vote is positive. -/
def commit (state : State Key Value Tid) (tid : Tid) (vote : Bool) :
    Option (State Key Value Tid) :=
  let txn := state.txns tid
  match txn.stage with
  | .execute =>
      if vote then
        let posted := txn.writeSet.map fun item => ({ item with lock := 0 }, false)
        some { state.setTxn tid { txn with
            stage := .writeBack posted,
            writeSet := txn.writeSet.map fun item => { item with lock := 0 } } with
          commitOrder := state.commitOrder ++ [tid] }
      else
        some (state.setTxn tid (txn.abort true true))
  | _ => none

/-- The next verb of `write_back_w_rdma` reaches `machine`: the value of an item, or the
unlock that follows it. -/
def writeBackVerb (config : Config Key Tid Owner) (state : State Key Value Tid) (tid : Tid)
    (machine : Nat) : Option (State Key Value Tid) :=
  let txn := state.txns tid
  match txn.stage with
  | .writeBack posted =>
      (nextFor (fun entry => config.pid entry.1.key == machine) posted).map
        fun ((item, written), rest) =>
          let record := state.records item.key
          if written then
            ((state.setRecord item.key { record with lock := 0 }).setTxn tid
              { txn with stage := .writeBack rest }).log
                (.released tid item.key (config.word tid .write))
          else
            (state.setRecord item.key { record with value := item.data }).setTxn tid
              { txn with stage := .writeBack ((item, true) :: rest) }
  | _ => none

/-- `machine` executes the next of the unlocks posted. -/
def unlockVerb (config : Config Key Tid Owner) (state : State Key Value Tid) (tid : Tid)
    (machine : Nat) (type : LockType) (posted : List Key)
    (stage : List Key → Stage Key Value) : Option (State Key Value Tid) :=
  (nextFor (fun key => config.pid key == machine) posted).map fun (key, rest) =>
    ((state.setRecord key { state.records key with lock := 0 }).setTxn tid
      { state.txns tid with stage := stage rest }).log
        (.released tid key (config.word tid type))

/-- The next unlock of the release in flight reaches `machine`. -/
def releaseVerb (config : Config Key Tid Owner) (state : State Key Value Tid) (tid : Tid)
    (machine : Nat) : Option (State Key Value Tid) :=
  match (state.txns tid).stage with
  | .releaseReads posted allWrites =>
      unlockVerb config state tid machine .read posted (.releaseReads · allWrites)
  | .releaseWrites posted =>
      unlockVerb config state tid machine .write posted .releaseWrites
  | .releaseCommitted posted =>
      unlockVerb config state tid machine .read posted .releaseCommitted
  | _ => none

/-- The coroutine goes on after the last verb it waits for. -/
def resume (state : State Key Value Tid) (tid : Tid) : Option (State Key Value Tid) :=
  let txn := state.txns tid
  match txn.stage with
  | .releaseReads [] allWrites => some (state.setTxn tid (txn.abortWrites allWrites))
  | .releaseWrites [] => some (state.setTxn tid { txn with stage := .finished false })
  | .writeBack [] =>
      some (state.setTxn tid { txn with
        stage := .releaseCommitted (unlocks (chosen true txn.readSet)),
        readSet := cleared true txn.readSet })
  | .releaseCommitted [] => some (state.setTxn tid { txn with stage := .finished true })
  | _ => none

/-! ## Runs -/

/-- One atomic step of the system. -/
inductive Action (Key : Type u) (Value : Type v) (Tid : Type w) where
  | begin (tid : Tid)
  | request (tid : Tid) (type : LockType) (key : Key) (lock : Nat) (data : Value)
  | casVerb (tid : Tid)
  | readVerb (tid : Tid)
  | modify (tid : Tid) (key : Key) (data : Value)
  | commit (tid : Tid) (vote : Bool)
  | writeBackVerb (tid : Tid) (machine : Nat)
  | releaseVerb (tid : Tid) (machine : Nat)
  | resume (tid : Tid)
  deriving DecidableEq, Repr

/-- The transaction a step belongs to. -/
def Action.tid : Action Key Value Tid → Tid
  | .begin tid => tid
  | .request tid _ _ _ _ => tid
  | .casVerb tid => tid
  | .readVerb tid => tid
  | .modify tid _ _ => tid
  | .commit tid _ => tid
  | .writeBackVerb tid _ => tid
  | .releaseVerb tid _ => tid
  | .resume tid => tid

/-- The step function of the system. -/
def step (config : Config Key Tid Owner) (state : State Key Value Tid) :
    Action Key Value Tid → Option (State Key Value Tid)
  | .begin tid => begin state tid
  | .request tid type key lock data => request state tid type key lock data
  | .casVerb tid => casVerb config state tid
  | .readVerb tid => readVerb config state tid
  | .modify tid key data => modify state tid key data
  | .commit tid vote => commit state tid vote
  | .writeBackVerb tid machine => writeBackVerb config state tid machine
  | .releaseVerb tid machine => releaseVerb config state tid machine
  | .resume tid => resume state tid

/-- The application asks for every record at most once. -/
def Distinct (state : State Key Value Tid) : Action Key Value Tid → Prop
  | .request tid _ key _ _ =>
      ∀ item ∈ (state.txns tid).readSet ++ (state.txns tid).writeSet, item.key ≠ key
  | _ => True

instance (state : State Key Value Tid) (action : Action Key Value Tid) :
    Decidable (Distinct state action) :=
  match action with
  | .request _ _ _ _ _ => inferInstanceAs (Decidable (∀ _ ∈ _, _))
  | .begin _ => inferInstanceAs (Decidable True)
  | .casVerb _ => inferInstanceAs (Decidable True)
  | .readVerb _ => inferInstanceAs (Decidable True)
  | .modify _ _ _ => inferInstanceAs (Decidable True)
  | .commit _ _ => inferInstanceAs (Decidable True)
  | .writeBackVerb _ _ => inferInstanceAs (Decidable True)
  | .releaseVerb _ _ => inferInstanceAs (Decidable True)
  | .resume _ => inferInstanceAs (Decidable True)

/-- `commit` has been called, and it can only return true. -/
def Txn.Decided (txn : Txn Key Value) : Prop :=
  match txn.stage with
  | .writeBack _ => True
  | .releaseCommitted _ => True
  | .finished true => True
  | _ => False

/-- Values a transaction fetched and the buffers it writes back. -/
def Txn.footprint (txn : Txn Key Value) : Footprint Key Value where
  reads key := ((txn.readSet ++ txn.writeSet).find? (·.key = key)).map (·.value)
  writes key := (txn.writeSet.find? (·.key = key)).map (·.data)

end Rocc.Locking.OneSided
