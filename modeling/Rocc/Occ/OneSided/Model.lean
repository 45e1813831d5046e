import Rocc.Base.Batch
import Rocc.Base.Ledger
import Rocc.Base.Replay
import Rocc.Rtx.Record

/-!
# Optimistic concurrency control with one-sided verbs

`OCCR` with `ONE_SIDED_READ` 1 and compare-and-swap locks.  Every verb is one step: the
read of header and value of a record, the compare-and-swap of a lock word and the read
of the sequence word batched behind it, the read of lock and sequence word in the
validation, the write of sequence word and value and the unlock batched behind it, and
the unlock of a release.  Verbs posted to one machine take effect in the order in which
they were posted, verbs to different machines in any order; the coroutine looks at its
buffers when all the verbs of a phase have completed.

`TX_TWO_PHASE_COMMIT_STYLE` is 0, so there is no vote between validation and write-back.
-/

set_option linter.unusedSectionVars false

namespace Rocc.Occ.OneSided

open Rtx

universe u v w

/-- `ReadSetItem` with its buffer: `lock` and `headerSeq` are the two words of the
`RdmaValHeader` in front of `data_ptr`, `data` is the value behind it.  `value` is what
the load fetched; no step reads it. -/
structure Item (Key : Type u) (Value : Type v) where
  key : Key
  seq : Nat
  lock : Nat
  headerSeq : Nat
  value : Value
  data : Value
  deriving DecidableEq, Repr

/-- Where `OCCR::commit` stands, with the verbs that have not completed.  A lock request is
marked when its compare-and-swap is done, a write-back when its value is stored. -/
inductive Stage (Key : Type u) (Value : Type v) where
  | idle
  | execute
  | lock (posted : List (Item Key Value × Bool))
  | validate (posted : List (Item Key Value))
  | writeBack (posted : List (Item Key Value × Bool))
  | release (posted : List (Item Key Value))
  | finished (committed : Bool)
  deriving DecidableEq, Repr

/-- One transaction. -/
structure Txn (Key : Type u) (Value : Type v) where
  stage : Stage Key Value
  readSet : List (Item Key Value)
  writeSet : List (Item Key Value)
  deriving DecidableEq, Repr

/-- The records and the transactions.  `events` is a history that no step reads. -/
structure State (Key : Type u) (Value : Type v) (Tid : Type w) where
  records : Key → Record Value
  txns : Tid → Txn Key Value
  events : List (LockEvent Tid Key)

/-- Placement of records, and `ENCODE_LOCK_CONTENT` of every transaction. -/
structure Config (Key : Type u) (Tid : Type w) where
  pid : Key → Nat
  lockContent : Tid → Nat
  lockContent_ne_zero : ∀ tid, lockContent tid ≠ 0
  lockContent_injective : Function.Injective lockContent

variable {Key : Type u} {Value : Type v} {Tid : Type w}
variable [DecidableEq Key] [DecidableEq Tid]

/-- Every record unlocked and no transaction begun. -/
def State.initial (seq : Key → Nat) (value : Key → Value) : State Key Value Tid where
  records key := { lock := 0, seq := seq key, value := value key }
  txns _ := { stage := .idle, readSet := [], writeSet := [] }
  events := []

/-- Replace one transaction. -/
def State.setTxn (state : State Key Value Tid) (tid : Tid) (txn : Txn Key Value) :
    State Key Value Tid :=
  { state with txns := Function.update state.txns tid txn }

/-- Replace one record. -/
def State.setRecord (state : State Key Value Tid) (key : Key) (record : Record Value) :
    State Key Value Tid :=
  { state with records := Function.update state.records key record }

/-- Extend the lock history. -/
def State.log (state : State Key Value Tid) (event : LockEvent Tid Key) :
    State Key Value Tid :=
  { state with events := state.events ++ [event] }

/-! ## Execution -/

/-- `begin`. -/
def begin (state : State Key Value Tid) (tid : Tid) : Option (State Key Value Tid) :=
  match (state.txns tid).stage with
  | .idle => some (state.setTxn tid { stage := .execute, readSet := [], writeSet := [] })
  | _ => none

/-- `rdma_read_val` fetches header and value of a record. -/
def load (key : Key) (record : Record Value) : Item Key Value where
  key
  seq := record.seq
  lock := record.lock
  headerSeq := record.seq
  value := record.value
  data := record.value

/-- The record is in neither set of the transaction. -/
def Txn.Fresh (txn : Txn Key Value) (key : Key) : Prop :=
  ∀ item ∈ txn.readSet ++ txn.writeSet, item.key ≠ key

instance (txn : Txn Key Value) (key : Key) : Decidable (txn.Fresh key) :=
  inferInstanceAs (Decidable (∀ item ∈ _, _))

/-- `remote_read`. -/
def read (state : State Key Value Tid) (tid : Tid) (key : Key) :
    Option (State Key Value Tid) :=
  let txn := state.txns tid
  match txn.stage with
  | .execute =>
      if txn.Fresh key then
        some (state.setTxn tid
          { txn with readSet := txn.readSet ++ [load key (state.records key)] })
      else
        none
  | _ => none

/-- `remote_write`. -/
def write (state : State Key Value Tid) (tid : Tid) (key : Key) :
    Option (State Key Value Tid) :=
  let txn := state.txns tid
  match txn.stage with
  | .execute =>
      if txn.Fresh key then
        some (state.setTxn tid
          { txn with writeSet := txn.writeSet ++ [load key (state.records key)] })
      else
        none
  | _ => none

/-- The application stores into a buffer of the write set. -/
def modify (state : State Key Value Tid) (tid : Tid) (key : Key) (data : Value) :
    Option (State Key Value Tid) :=
  let txn := state.txns tid
  match txn.stage with
  | .execute =>
      some (state.setTxn tid { txn with
        writeSet := txn.writeSet.map fun item =>
          if item.key = key then { item with data } else item })
  | _ => none

/-! ## Verbs and buffers -/

/-- A verb completes into the buffer of the item for `key`. -/
def receive (items : List (Item Key Value)) (key : Key)
    (fill : Item Key Value → Item Key Value) : List (Item Key Value) :=
  items.map fun item => if item.key = key then fill item else item

/-- Verbs addressed to `machine`. -/
def Config.at (config : Config Key Tid) (machine : Nat) (key : Key) : Bool :=
  config.pid key == machine

/-- The sequence word of the buffer is copied out before the verb overwrites it. -/
def Item.copySeq (item : Item Key Value) : Item Key Value := { item with seq := item.headerSeq }

/-- `commit` posts the requests of `lock_writes_w_rdma`. -/
def commit (state : State Key Value Tid) (tid : Tid) : Option (State Key Value Tid) :=
  let txn := state.txns tid
  match txn.stage with
  | .execute =>
      let writeSet := txn.writeSet.map Item.copySeq
      some (state.setTxn tid
        { txn with stage := .lock (writeSet.map (·, false)), writeSet })
  | _ => none

/-- The compare-and-swap of a lock request leaves the word it found in the header. -/
def Item.found (item : Item Key Value) (lock : Nat) : Item Key Value := { item with lock }

/-- The read of a lock request leaves the sequence word in the header. -/
def Item.fetched (item : Item Key Value) (seq : Nat) : Item Key Value :=
  { item with headerSeq := seq }

/-- The read of the validation leaves both words in the header. -/
def Item.checked (item : Item Key Value) (record : Record Value) : Item Key Value :=
  { item with lock := record.lock, headerSeq := record.seq }

/-- The transaction after the compare-and-swap for an item. -/
def Txn.swap (txn : Txn Key Value) (item : Item Key Value)
    (rest : List (Item Key Value × Bool)) (lock : Nat) : Txn Key Value :=
  { txn with
    stage := .lock ((item, true) :: rest),
    writeSet := receive txn.writeSet item.key (·.found lock) }

/-- The transaction after the read for an item. -/
def Txn.fetch (txn : Txn Key Value) (item : Item Key Value)
    (rest : List (Item Key Value × Bool)) (seq : Nat) : Txn Key Value :=
  { txn with
    stage := .lock rest,
    writeSet := receive txn.writeSet item.key (·.fetched seq) }

/-- The transaction after the validation of an item. -/
def Txn.check (txn : Txn Key Value) (item : Item Key Value) (rest : List (Item Key Value))
    (record : Record Value) : Txn Key Value :=
  { txn with
    stage := .validate rest,
    readSet := receive txn.readSet item.key (·.checked record) }

/-- A compare-and-swap of the lock word from 0. -/
def casLock (record : Record Value) (content : Nat) : Record Value :=
  if record.lock = 0 then { record with lock := content } else record

/-- The next verb of `lock_writes_w_rdma` reaches `machine`. -/
def lockVerb (config : Config Key Tid) (state : State Key Value Tid) (tid : Tid)
    (machine : Nat) : Option (State Key Value Tid) :=
  let txn := state.txns tid
  match txn.stage with
  | .lock posted =>
      (nextFor (fun entry => config.at machine entry.1.key) posted).map
        fun ((item, swapped), rest) =>
          let record := state.records item.key
          if swapped then
            state.setTxn tid (txn.fetch item rest record.seq)
          else
            let next := (state.setRecord item.key
              (casLock record (config.lockContent tid))).setTxn tid
                (txn.swap item rest record.lock)
            if record.lock = 0 then
              next.log (.acquired tid item.key (config.lockContent tid))
            else
              next
  | _ => none

/-- The next read of `validate_reads_w_rdma` reaches `machine`. -/
def validateVerb (config : Config Key Tid) (state : State Key Value Tid) (tid : Tid)
    (machine : Nat) : Option (State Key Value Tid) :=
  let txn := state.txns tid
  match txn.stage with
  | .validate posted =>
      (nextFor (fun item => config.at machine item.key) posted).map fun (item, rest) =>
        state.setTxn tid (txn.check item rest (state.records item.key))
  | _ => none

/-- The next verb of `write_back_w_rdma` reaches `machine`: sequence word and value of an
item, or the unlock that follows them. -/
def writeBackVerb (config : Config Key Tid) (state : State Key Value Tid) (tid : Tid)
    (machine : Nat) : Option (State Key Value Tid) :=
  let txn := state.txns tid
  match txn.stage with
  | .writeBack posted =>
      (nextFor (fun entry => config.at machine entry.1.key) posted).map
        fun ((item, written), rest) =>
          let record := state.records item.key
          if written then
            ((state.setRecord item.key { record with lock := 0 }).setTxn tid
              { txn with stage := .writeBack rest }).log
                (.released tid item.key (config.lockContent tid))
          else
            (state.setRecord item.key
              { record with seq := item.headerSeq, value := item.data }).setTxn tid
                { txn with stage := .writeBack ((item, true) :: rest) }
  | _ => none

/-- The next unlock of `release_writes_w_rdma` reaches `machine`. -/
def releaseVerb (config : Config Key Tid) (state : State Key Value Tid) (tid : Tid)
    (machine : Nat) : Option (State Key Value Tid) :=
  let txn := state.txns tid
  match txn.stage with
  | .release posted =>
      (nextFor (fun item => config.at machine item.key) posted).map fun (item, rest) =>
        ((state.setRecord item.key { state.records item.key with lock := 0 }).setTxn tid
          { txn with stage := .release rest }).log
            (.released tid item.key (config.lockContent tid))
  | _ => none

/-! ## Between the phases -/

/-- `release_writes_w_rdma` posts an unlock where the buffer has a lock word of 0. -/
def Txn.releaseWrites (txn : Txn Key Value) : Txn Key Value :=
  { txn with stage := .release (txn.writeSet.filter (·.lock = 0)) }

/-- What a phase left in the buffer of an item is as expected. -/
def Item.Matches (item : Item Key Value) : Prop := item.lock = 0 ∧ item.headerSeq = item.seq

instance (item : Item Key Value) : Decidable item.Matches :=
  inferInstanceAs (Decidable (_ ∧ _))

/-- `write_back_w_rdma` advances the sequence word in the buffer. -/
def Item.advance (item : Item Key Value) : Item Key Value :=
  { item with headerSeq := (item.seq + 2) % wordBound, lock := 0 }

/-- The coroutine goes on after the last verb of a phase. -/
def resume (state : State Key Value Tid) (tid : Tid) : Option (State Key Value Tid) :=
  let txn := state.txns tid
  match txn.stage with
  | .lock [] =>
      if ∀ item ∈ txn.writeSet, item.Matches then
        let readSet := txn.readSet.map Item.copySeq
        some (state.setTxn tid { txn with stage := .validate readSet, readSet })
      else
        some (state.setTxn tid txn.releaseWrites)
  | .validate [] =>
      if ∀ item ∈ txn.readSet, item.Matches then
        let writeSet := txn.writeSet.map Item.advance
        some (state.setTxn tid
          { txn with stage := .writeBack (writeSet.map (·, false)), writeSet })
      else
        some (state.setTxn tid txn.releaseWrites)
  | .writeBack [] => some (state.setTxn tid { txn with stage := .finished true })
  | .release [] => some (state.setTxn tid { txn with stage := .finished false })
  | _ => none

/-! ## Runs -/

/-- One atomic step of the system. -/
inductive Action (Key : Type u) (Value : Type v) (Tid : Type w) where
  | begin (tid : Tid)
  | read (tid : Tid) (key : Key)
  | write (tid : Tid) (key : Key)
  | modify (tid : Tid) (key : Key) (data : Value)
  | commit (tid : Tid)
  | lockVerb (tid : Tid) (machine : Nat)
  | validateVerb (tid : Tid) (machine : Nat)
  | writeBackVerb (tid : Tid) (machine : Nat)
  | releaseVerb (tid : Tid) (machine : Nat)
  | resume (tid : Tid)
  deriving DecidableEq, Repr

/-- The transaction a step belongs to. -/
def Action.tid : Action Key Value Tid → Tid
  | .begin tid => tid
  | .read tid _ => tid
  | .write tid _ => tid
  | .modify tid _ _ => tid
  | .commit tid => tid
  | .lockVerb tid _ => tid
  | .validateVerb tid _ => tid
  | .writeBackVerb tid _ => tid
  | .releaseVerb tid _ => tid
  | .resume tid => tid

/-- The step function of the system. -/
def step (config : Config Key Tid) (state : State Key Value Tid) :
    Action Key Value Tid → Option (State Key Value Tid)
  | .begin tid => begin state tid
  | .read tid key => read state tid key
  | .write tid key => write state tid key
  | .modify tid key data => modify state tid key data
  | .commit tid => commit state tid
  | .lockVerb tid machine => lockVerb config state tid machine
  | .validateVerb tid machine => validateVerb config state tid machine
  | .writeBackVerb tid machine => writeBackVerb config state tid machine
  | .releaseVerb tid machine => releaseVerb config state tid machine
  | .resume tid => resume state tid

/-- The items that are written back next, if the validation has succeeded. -/
def Txn.validated (txn : Txn Key Value) : List (Item Key Value) :=
  match txn.stage with
  | .validate [] => if ∀ item ∈ txn.readSet, item.Matches then txn.writeSet else []
  | _ => []

/-- The sequence word of a record does not wrap around when it is written back. -/
def NoWrap (state : State Key Value Tid) : Action Key Value Tid → Prop
  | .resume tid => ∀ item ∈ (state.txns tid).validated, item.seq + 2 < wordBound
  | _ => True

instance (state : State Key Value Tid) (action : Action Key Value Tid) :
    Decidable (NoWrap state action) :=
  match action with
  | .resume _ => inferInstanceAs (Decidable (∀ _ ∈ _, _))
  | .begin _ => inferInstanceAs (Decidable True)
  | .read _ _ => inferInstanceAs (Decidable True)
  | .write _ _ => inferInstanceAs (Decidable True)
  | .modify _ _ _ => inferInstanceAs (Decidable True)
  | .commit _ => inferInstanceAs (Decidable True)
  | .lockVerb _ _ => inferInstanceAs (Decidable True)
  | .validateVerb _ _ => inferInstanceAs (Decidable True)
  | .writeBackVerb _ _ => inferInstanceAs (Decidable True)
  | .releaseVerb _ _ => inferInstanceAs (Decidable True)

/-- The transaction has passed validation, so its commit can only return true. -/
def Txn.Decided (txn : Txn Key Value) : Prop :=
  match txn.stage with
  | .writeBack _ => True
  | .finished true => True
  | _ => False

/-- `commit` of the transaction has returned true. -/
def Txn.Committed (txn : Txn Key Value) : Prop := txn.stage = .finished true

instance [DecidableEq Value] (txn : Txn Key Value) : Decidable txn.Committed :=
  inferInstanceAs (Decidable (_ = _))

/-- Values a transaction loaded for its read and write set, and the buffers it writes
back. -/
def Txn.footprint (txn : Txn Key Value) : Footprint Key Value where
  reads key := ((txn.readSet ++ txn.writeSet).find? (·.key = key)).map (·.value)
  writes key := (txn.writeSet.find? (·.key = key)).map (·.data)

end Rocc.Occ.OneSided
