import Rocc.Occ.Hybrid.Model

/-!
# Which locks a transaction has, in every phase of a hybrid commit

`Owns` lists the records a transaction may unlock without looking: it has locked them and
their lock word is its own.  `Covers` lists the records it still gets to: a record with
its lock word is one of them.  The two differ only where the release compares the lock
word itself.  `Shape` says what is in flight.
-/

set_option linter.unusedSectionVars false

namespace Rocc.Occ.Hybrid

open Rtx

universe u v w

variable {Key : Type u} {Value : Type v} {Tid : Type w}
variable [DecidableEq Key] [DecidableEq Tid]

/-! ## What is in flight -/

/-- The record of a posted compare-and-swap. -/
def Verb.casKey? : Verb Key Value → Option Key
  | .cas key => some key
  | _ => none

/-- The record of a posted unlock. -/
def Verb.unlockKey? : Verb Key Value → Option Key
  | .unlock key => some key
  | _ => none

/-- The record of a lock request. -/
def Call.lockKey? : Call Key Value → Option Key
  | .lock key _ => some key
  | _ => none

/-- The record of a write-back. -/
def Call.commitKey? : Call Key Value → Option Key
  | .commit key _ => some key
  | _ => none

/-- The record of a release request. -/
def Call.releaseKey? : Call Key Value → Option Key
  | .release key => some key
  | _ => none

def casKeys (verbs : List (Verb Key Value)) : List Key := verbs.filterMap Verb.casKey?
def unlockKeys (verbs : List (Verb Key Value)) : List Key := verbs.filterMap Verb.unlockKey?
def lockKeys (calls : List (Call Key Value)) : List Key := calls.filterMap Call.lockKey?
def commitKeys (calls : List (Call Key Value)) : List Key := calls.filterMap Call.commitKey?
def releaseKeys (calls : List (Call Key Value)) : List Key := calls.filterMap Call.releaseKey?

/-- Verbs of a lock phase. -/
def Verb.Locks : Verb Key Value → Prop
  | .cas _ => True
  | .fetch _ => True
  | _ => False

/-- Verbs of a validation. -/
def Verb.Checks : Verb Key Value → Prop
  | .check _ => True
  | _ => False

/-- Verbs of a write-back. -/
def Verb.Stores : Verb Key Value → Prop
  | .write _ _ _ => True
  | .unlock _ => True
  | _ => False

/-- Verbs of a one-sided release, with those of a validation that failed early. -/
def Verb.Releases : Verb Key Value → Prop
  | .unlock _ => True
  | .check _ => True
  | _ => False

/-- The item is a lock request for one of the records. -/
def Call.Locks (keys : List Key) : Call Key Value → Prop
  | .lock key _ => key ∈ keys
  | _ => False

def Call.Validates : Call Key Value → Prop
  | .validate _ _ => True
  | _ => False

def Call.Stores : Call Key Value → Prop
  | .commit _ _ => True
  | _ => False

def Call.Releases : Call Key Value → Prop
  | .release _ => True
  | _ => False

/-! ## The invariant of one transaction -/

/-- The buffer of the record has a lock word of 0. -/
def Txn.Marks (txn : Txn Key Value) (key : Key) : Prop :=
  ∃ item ∈ txn.writeSet, item.key = key ∧ item.lock = 0

variable (config : Config Key Tid) (tid : Tid)

/-- Every record of the write set is remote. -/
def Txn.Remote (txn : Txn Key Value) : Prop :=
  ∀ key ∈ keysOf txn.writeSet, ¬ config.Local tid key

/-- A one-sided release stops at a local record before it has unlocked anything. -/
def Txn.Clean (txn : Txn Key Value) (todo : List Key) : Prop :=
  ∀ key ∈ config.ahead tid todo, ¬ txn.Marks key

/-- Records that carry the lock word of the transaction. -/
def Txn.Owns (txn : Txn Key Value) (key : Key) : Prop :=
  match txn.stage with
  | .lock todo => config.oneSidedLock = true ∧ key ∉ todo ∧ key ∉ casKeys txn.verbs ∧
      txn.Marks key
  | .lockLocal own _ => key = own
  | .lockWait granted _ =>
      if config.oneSidedLock then key ∉ casKeys txn.verbs ∧ txn.Marks key else key ∈ granted
  | .validate _ => key ∈ keysOf txn.writeSet
  | .validateWait _ => key ∈ keysOf txn.writeSet
  | .writeBack todo => key ∈ todo ++ (unlockKeys txn.verbs ++ commitKeys txn.batch)
  | .writeBackWait => key ∈ unlockKeys txn.verbs ++ commitKeys txn.calls
  | .release todo =>
      (config.oneSidedRelease = true ∧ key ∈ todo ∧ (∀ other ∈ todo, ¬ config.Local tid other) ∧
        txn.Marks key) ∨ key ∈ unlockKeys txn.verbs
  | .releaseWait => key ∈ unlockKeys txn.verbs
  | _ => False

/-- Records the transaction still unlocks when they carry its lock word. -/
def Txn.Covers (txn : Txn Key Value) (key : Key) : Prop :=
  match txn.stage with
  | .release todo =>
      if config.oneSidedRelease then
        txn.Owns config tid key ∨ ∃ other ∈ todo, config.Local tid other
      else
        key ∈ todo ++ releaseKeys txn.batch
  | .releaseWait =>
      if config.oneSidedRelease then txn.Owns config tid key else key ∈ releaseKeys txn.calls
  | .crashed => True
  | _ => txn.Owns config tid key

/-- Nothing is in flight. -/
def Txn.Quiet (txn : Txn Key Value) : Prop := txn.verbs = [] ∧ txn.batch = [] ∧ txn.calls = []

/-- What is in flight while `lock_writes` walks. -/
structure Txn.Locking (txn : Txn Key Value) (todo : List Key) : Prop where
  calls : txn.calls = []
  subset : ∀ key ∈ todo, key ∈ keysOf txn.writeSet
  remote : ∀ key ∈ keysOf txn.writeSet, key ∉ todo → ¬ config.Local tid key
  verbs : ∀ verb ∈ txn.verbs, verb.Locks
  batch : ∀ call ∈ txn.batch, call.Locks (keysOf txn.writeSet)
  oneSided : config.oneSidedLock = true → txn.batch = [] ∧
    (casKeys txn.verbs ++ todo).Nodup ∧
    (∀ key ∈ casKeys txn.verbs, key ∈ keysOf txn.writeSet) ∧
    (txn.Remote config tid ∨ (txn.verbs = [] ∧ todo = keysOf txn.writeSet ∧
      config.ahead tid todo = []))
  rpc : config.oneSidedLock = false → txn.verbs = [] ∧
    (∀ key ∈ keysOf txn.writeSet, key ∈ todo ∨ key ∈ lockKeys txn.batch) ∧
    (config.oneSidedRelease = true → txn.Clean config tid (keysOf txn.writeSet))

/-- What is in flight while the coroutine waits for its locks. -/
structure Txn.LockWaiting (txn : Txn Key Value) (granted : List Key) (failed : Bool) : Prop where
  batch : txn.batch = []
  remote : txn.Remote config tid
  verbs : ∀ verb ∈ txn.verbs, verb.Locks
  calls : ∀ call ∈ txn.calls, call.Locks (keysOf txn.writeSet)
  oneSided : config.oneSidedLock = true → txn.calls = [] ∧ (casKeys txn.verbs).Nodup ∧
    ∀ key ∈ casKeys txn.verbs, key ∈ keysOf txn.writeSet
  rpc : config.oneSidedLock = false → txn.verbs = [] ∧
    (∀ key ∈ granted, key ∈ keysOf txn.writeSet) ∧
    (failed = false → ∀ key ∈ keysOf txn.writeSet, key ∈ granted ∨ key ∈ lockKeys txn.calls) ∧
    (config.oneSidedRelease = true → ∀ key, ¬ txn.Marks key)

/-- What is known during a validation. -/
structure Txn.Validating (txn : Txn Key Value) : Prop where
  remote : txn.Remote config tid
  marks : config.oneSidedRelease = true → ∀ key ∈ keysOf txn.writeSet, txn.Marks key
  verbs : ∀ verb ∈ txn.verbs, verb.Checks
  batch : ∀ call ∈ txn.batch, call.Validates
  calls : ∀ call ∈ txn.calls, call.Validates

/-- What is in flight during a write-back. -/
structure Txn.Storing (txn : Txn Key Value) (todo : List Key) : Prop where
  remote : txn.Remote config tid
  subset : ∀ key ∈ todo, key ∈ keysOf txn.writeSet
  verbs : ∀ verb ∈ txn.verbs, verb.Stores
  batch : ∀ call ∈ txn.batch, call.Stores
  calls : ∀ call ∈ txn.calls, call.Stores
  nodup : (todo ++ (unlockKeys txn.verbs ++ commitKeys txn.batch ++
    commitKeys txn.calls)).Nodup

/-- What is in flight during a release. -/
structure Txn.Releasing (txn : Txn Key Value) (todo : List Key) : Prop where
  subset : ∀ key ∈ todo, key ∈ keysOf txn.writeSet
  verbs : ∀ verb ∈ txn.verbs, verb.Releases
  oneSided : config.oneSidedRelease = true → txn.batch = [] ∧ txn.calls = [] ∧
    (todo ++ unlockKeys txn.verbs).Nodup ∧
    ((∃ key ∈ todo, config.Local tid key) → txn.verbs = [] ∧ txn.Clean config tid todo)
  rpc : config.oneSidedRelease = false → unlockKeys txn.verbs = [] ∧
    (∀ call ∈ txn.batch, call.Releases) ∧ ∀ call ∈ txn.calls, call.Releases

/-- What is in flight in every stage. -/
def Txn.Shape (txn : Txn Key Value) : Prop :=
  match txn.stage with
  | .lock todo => txn.Locking config tid todo
  | .lockLocal key _ => txn.verbs = [] ∧ txn.calls = [] ∧ key ∈ keysOf txn.writeSet ∧
      config.Local tid key ∧
      (config.oneSidedRelease = true → txn.Clean config tid (keysOf txn.writeSet))
  | .lockWait granted failed => txn.LockWaiting config tid granted failed
  | .validate _ => txn.Validating config tid ∧ txn.calls = []
  | .validateWait _ => txn.Validating config tid ∧ txn.batch = []
  | .writeBack todo => txn.Storing config tid todo ∧ txn.calls = []
  | .writeBackWait => txn.Storing config tid [] ∧ txn.batch = []
  | .release todo => txn.Releasing config tid todo ∧ txn.calls = []
  | .releaseWait => txn.Releasing config tid [] ∧ txn.batch = []
  | _ => txn.Quiet

/-- The invariant of one transaction. -/
structure Own (records : Key → Record Value) (txn : Txn Key Value) : Prop where
  nodup : (keysOf (txn.readSet ++ txn.writeSet)).Nodup
  shape : txn.Shape config tid
  owns : ∀ key, txn.Owns config tid key → (records key).lock = config.lockContent tid
  covers : ∀ key, (records key).lock = config.lockContent tid → txn.Covers config tid key

/-- The invariant of the system. -/
structure Inv (state : State Key Value Tid) : Prop where
  own : ∀ tid, Own config tid state.records (state.txns tid)
  stored : ∀ entry ∈ state.stored, (state.txns entry.1).Decided

variable {config tid}

theorem inv_initial (seq : Key → Nat) (value : Key → Value) :
    Inv config (State.initial seq value) where
  own tid := by
    constructor
    · exact List.nodup_nil
    · exact ⟨rfl, rfl, rfl⟩
    · exact fun _ owned => absurd owned id
    · exact fun _ locked => absurd locked.symm (config.lockContent_ne_zero tid)
  stored _ member := absurd member List.not_mem_nil

end Rocc.Occ.Hybrid
