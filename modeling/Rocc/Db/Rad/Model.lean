import Rocc.Db.Steps
import Rocc.Rtx.Record

/-!
# DBRad: multi-version reads beside timestamped commits

`DBRad` commits like every `TxHandler`, with a commit timestamp as the new sequence
number: one more than the transaction's timestamp and the `read_ts` of the local records
it locked, but at least the largest sequence number in its remote set.  A read-only
transaction reads at a snapshot timestamp: it raises `read_ts` of the record, waits for a
lock that it finds, and then searches the record and its older values for a version that
is not newer than the snapshot.  The loads and stores of this protocol are separate
steps, so that readers interleave with each other and with writers.
-/

set_option linter.unusedSectionVars false

namespace Rocc.Db.Rad

open Rtx

universe u v w x

/-! ## Writers -/

/-- The part of a transaction that `DBRad` adds.  `lockedTs` is the largest `read_ts`
that `LockAllSet` has met, `replies` the `max_time` that the lock handler of each
partition computes, and `maxTime` is `max_time_` of the remote set. -/
structure Extra where
  timestamp : Nat
  lockedTs : Nat
  replies : Nat → Nat
  maxTime : Nat

/-- Sequence number of a record while a commit switches its value. -/
def switching : Nat := 1

/-- Seconds that `get_timestamp` can shift by 24 bits. -/
def clockBound : Nat := 2 ^ 40

/-- Number of values of the reply field `payload_`. -/
def payloadBound : Nat := 2 ^ 32

variable {Key : Type u} {Value : Type v} {Tid : Type w} {Rid : Type x}

/-- The largest timestamp that `LockAllSet` has collected. -/
def Extra.tentative (extra : Extra) : Nat :=
  max extra.timestamp extra.lockedTs

/-- `DBRad`.  The lock replies are collected in `max_time_`, which `end` overwrites with
the timestamp it got from the local records and the remote sequence numbers. -/
def dbrad : TxHandler Key Value Extra where
  begin extra now :=
    if now < clockBound then
      some { extra with timestamp := now * 2 ^ 24, lockedTs := 0, replies := fun _ => 0 }
    else
      none
  get node :=
    match node.value with
    | none => some none
    | some _ => if node.seq = switching then none else some (some node.seq)
  getRpcHandler node :=
    if node.seq = switching ∨ node.value.isNone ∨ node.seq = 0 then none else some node.seq
  observe extra seq := { extra with timestamp := max seq extra.timestamp }
  lockRpcHandler extra partition node :=
    { extra with
      replies := Function.update extra.replies partition
        (max (extra.replies partition) node.readTs) }
  checkRes extra servers :=
    { extra with
      maxTime := servers.foldl
        (fun time server => max time (extra.replies server % payloadBound)) extra.maxTime }
  lockAllSet extra node := { extra with lockedTs := max node.readTs extra.lockedTs }
  lockedAll extra remoteset :=
    let timestamp := (remoteset.map (·.seen.seq)).foldl max
      ((extra.tentative + 1) % wordBound)
    { extra with timestamp, maxTime := timestamp }
  commitLocalWrite extra seq _ :=
    if seq < extra.timestamp then some extra.timestamp else none
  commitRpcHandler extra _ :=
    if switching < extra.maxTime then some extra.maxTime else none

/-! ## Readers -/

/-- Where `_get_ro_versioned_helper` stands for a record and a snapshot timestamp. -/
inductive ReadStage (Key : Type u) where
  | idle
  | publish (key : Key) (version : Nat)
  | loadSeq (key : Key) (version : Nat)
  | checkLock (key : Key) (version : Nat) (seq : Nat)
  | pollSeq (key : Key) (version : Nat) (seq : Nat)
  | pollLock (key : Key) (version : Nat) (seq : Nat)
  | search (key : Key) (version : Nat)
  deriving DecidableEq, Repr

/-- A version that a read-only transaction obtained at its snapshot, and how many commits
there were before. -/
structure Read (Key : Type u) (Rid : Type x) where
  rid : Rid
  key : Key
  snapshot : Nat
  version : Nat
  position : Nat
  deriving DecidableEq, Repr

/-- Writers, readers, and the reads that obtained a version; no step looks at those. -/
structure State (Key : Type u) (Value : Type v) (Tid : Type w) (Rid : Type x) where
  base : Db.State Key Value Tid Extra
  readers : Rid → ReadStage Key
  reads : List (Read Key Rid)

/-- One atomic step. -/
inductive Action (Key : Type u) (Value : Type v) (Tid : Type w) (Rid : Type x) where
  | txn (action : Db.Action Key Value Tid)
  | startRead (rid : Rid) (key : Key) (version : Nat)
  | publish (rid : Rid)
  | loadSeq (rid : Rid)
  | checkLock (rid : Rid)
  | pollSeq (rid : Rid)
  | pollLock (rid : Rid)
  | search (rid : Rid)
  deriving DecidableEq, Repr

/-- `_get_helper`: the version it obtains, none when it returns 1.  It retries while the
record is switching and asserts that an older version is a timestamp. -/
def getHelper (node : MemNode Value) (version : Nat) : Option (Option Nat) :=
  if node.seq ≤ version then
    match node.value with
    | none => some none
    | some _ => if node.seq = switching then none else some (some node.seq)
  else if node.seq = switching then
    none
  else
    match node.oldValue.find? fun old => old.1 ≤ version with
    | none => some none
    | some old => if old.1 ≤ switching then none else some (some old.1)

/-- No transaction has begun and nobody reads. -/
def State.initial (seq : Key → Nat) (value : Key → Option Value) :
    State Key Value Tid Rid where
  base := Db.State.initial seq value
    { timestamp := 0, lockedTs := 0, replies := fun _ => 0, maxTime := 0 }
  readers _ := .idle
  reads := []

section Steps

variable [DecidableEq Key] [DecidableEq Value] [DecidableEq Tid] [DecidableEq Rid]

/-- Move a reader. -/
def State.setReader (state : State Key Value Tid Rid) (rid : Rid) (stage : ReadStage Key) :
    State Key Value Tid Rid :=
  { state with readers := Function.update state.readers rid stage }

/-- The step function of the system. -/
def step (config : Config Key Tid) (state : State Key Value Tid Rid) :
    Action Key Value Tid Rid → Option (State Key Value Tid Rid)
  | .txn action => (Db.step config dbrad state.base action).map fun base => { state with base }
  | .startRead rid key version =>
      match state.readers rid with
      | .idle =>
          -- `MAX(version, read_ts) == version`
          some (state.setReader rid
            (if (state.base.nodes key).readTs ≤ version then .publish key version
              else .search key version))
      | _ => none
  | .publish rid =>
      match state.readers rid with
      | .publish key version =>
          let node := state.base.nodes key
          some { state.setReader rid (.loadSeq key version) with
            base := state.base.setNode key { node with readTs := version } }
      | _ => none
  | .loadSeq rid =>
      match state.readers rid with
      | .loadSeq key version =>
          some (state.setReader rid (.checkLock key version (state.base.nodes key).seq))
      | _ => none
  | .checkLock rid =>
      match state.readers rid with
      | .checkLock key version seq =>
          some (state.setReader rid
            (if (state.base.nodes key).lock ≠ 0 ∧ seq < version then .pollSeq key version seq
              else .search key version))
      | _ => none
  | .pollSeq rid =>
      match state.readers rid with
      | .pollSeq key version seq =>
          some (state.setReader rid
            (if (state.base.nodes key).seq ≠ seq then .search key version
              else .pollLock key version seq))
      | _ => none
  | .pollLock rid =>
      match state.readers rid with
      | .pollLock key version seq =>
          some (state.setReader rid
            (if (state.base.nodes key).lock = 0 then .search key version
              else .pollSeq key version seq))
      | _ => none
  | .search rid =>
      match state.readers rid with
      | .search key version =>
          (getHelper (state.base.nodes key) version).map fun
            | none => state.setReader rid .idle
            | some found =>
                { state.setReader rid .idle with
                  reads := state.reads ++
                    [{ rid, key, snapshot := version, version := found,
                       position := state.base.commits.length }] }
      | _ => none

end Steps

/-! ## Stable snapshots -/

/-- No commit after a read installs a version between the one obtained and the snapshot,
and every commit raises the sequence number. -/
def Stable (state : State Key Value Tid Rid) : Prop :=
  (∀ read ∈ state.reads, ∀ commit ∈ state.base.commits.drop read.position,
    commit.key = read.key → ¬ (read.version < commit.after ∧ commit.after ≤ read.snapshot)) ∧
  ∀ commit ∈ state.base.commits, commit.before < commit.after

instance [DecidableEq Key] (state : State Key Value Tid Rid) : Decidable (Stable state) :=
  inferInstanceAs (Decidable (_ ∧ _))

/-- The timestamp that a transaction fixes after its last lock is above `time`: what it
collected locally reaches `time`, or the remote set has a larger sequence number. -/
def Exceeds (txn : Txn Key Value Extra) (time : Nat) : Prop :=
  time ≤ txn.extra.tentative ∨ ∃ item ∈ txn.remoteset, time < item.seen.seq

instance (txn : Txn Key Value Extra) (time : Nat) : Decidable (Exceeds txn time) :=
  inferInstanceAs (Decidable (_ ∨ _))

variable [DecidableEq Key]

/-- The steps on which snapshots are stable.  The timestamp fixed after the last lock does
not wrap around and is above the sequence number and the reported `read_ts` of every
remote record to be written; a reader that finds a larger `read_ts` finds no lock on a
record older than its snapshot; and `read_ts` is not lowered. -/
def Orderly (config : Config Key Tid) (state : State Key Value Tid Rid) :
    Action Key Value Tid Rid → Prop
  | .txn action =>
      let txn := state.base.txns action.caller
      match txn.stage with
      | .lockAllSet _ [] =>
          txn.extra.tentative + 1 < wordBound ∧
            ∀ item ∈ txn.remoteWrites, Exceeds txn item.seen.seq ∧
              Exceeds txn (txn.extra.replies (config.pid item.seen.key))
      | _ => True
  | .startRead _ key version =>
      let node := state.base.nodes key
      version < node.readTs → node.lock = 0 ∨ version ≤ node.seq
  | .publish rid =>
      match state.readers rid with
      | .publish key version => (state.base.nodes key).readTs ≤ version
      | _ => True
  | _ => True

instance (config : Config Key Tid) (state : State Key Value Tid Rid)
    (action : Action Key Value Tid Rid) : Decidable (Orderly config state action) := by
  cases action with
  | txn action =>
      simp only [Orderly]
      split <;> infer_instance
  | startRead rid key version => exact inferInstanceAs (Decidable (_ → _))
  | publish rid =>
      simp only [Orderly]
      split <;> infer_instance
  | _ => exact inferInstanceAs (Decidable True)

end Rocc.Db.Rad
