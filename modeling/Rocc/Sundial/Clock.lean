import Rocc.Sundial.Rpc.Model

/-!
# Logical times and the words they are kept in

A write timestamp and a read timestamp share one word, each without its top bit, and
`commit_id_` has 32 bits.  Beside the handlers the runs below keep the times as they
should be, as numbers without a bound: the times of every record, those of every entry at
the time it was loaded, and the commit id of every transaction.  No step reads them.

Records are written back by `update_rpc_handler`, where `inplace_write_op` packs the commit
id into `read_lock` of the node, or, in the builds with one-sided commit, by
`try_update_rdma`, where it is packed into the header; reads, locks and renewals go through
the handlers in both.
-/

set_option linter.unusedSectionVars false

namespace Rocc.Sundial.Clock

open Rtx Rpc

universe u v w

variable {Key : Type u} {Value : Type v} {Tid : Type w}

/-! ## Times -/

/-- A write timestamp and a read timestamp. -/
structure Stamp where
  wts : Nat
  rts : Nat
  deriving DecidableEq, Repr

/-- A word unpacked by `WTS` and `RTS`. -/
def stampOf (word : Nat) : Stamp := ⟨wts word, rts word⟩

/-- The timestamps of an entry. -/
def entryStamp (item : ReadSetItem Key Value) : Stamp := ⟨item.wts, item.rts⟩

/-- The times of a transaction: those of the records it read and locked, when it did, and its
commit id. -/
structure TxnTimes where
  reads : List Stamp
  writes : List Stamp
  commitId : Nat
  deriving DecidableEq, Repr

/-- All times as they should be. -/
structure Times (Key : Type u) (Tid : Type w) where
  stamp : Key → Stamp
  txns : Tid → TxnTimes

/-- Times before any transaction. -/
def Times.initial : Times Key Tid where
  stamp _ := ⟨0, 0⟩
  txns _ := ⟨[], [], 0⟩

/-! ## Runs -/

/-- How a record is written back. -/
inductive WriteBack where
  | rpc
  | rdma
  deriving DecidableEq, Repr

/-- The handlers and transactions, the unlock verbs on their way, and the times. -/
structure State (Key : Type u) (Value : Type v) (Tid : Type w) where
  system : Rpc.State Key Value Tid
  unlocks : List (Tid × Key)
  times : Times Key Tid

/-- A step of the handlers or of a transaction, or an unlock verb. -/
inductive Action (Key : Type u) (Value : Type v) (Tid : Type w) where
  | step (action : Rpc.Action Key Value Tid)
  | unlock (tid : Tid) (key : Key)
  deriving DecidableEq, Repr

section Steps

variable [DecidableEq Key] [DecidableEq Tid]

/-- A database as it is loaded. -/
def State.initial (value : Key → Value) : State Key Value Tid where
  system := .initial value
  unlocks := []
  times := .initial

/-- Replace the times of one transaction. -/
def Times.setTxn (times : Times Key Tid) (tid : Tid) (txn : TxnTimes) : Times Key Tid :=
  { times with txns := Function.update times.txns tid txn }

/-- Replace the times of one record. -/
def Times.setStamp (times : Times Key Tid) (key : Key) (stamp : Stamp) : Times Key Tid :=
  { times with stamp := Function.update times.stamp key stamp }

/-- A read. -/
def Times.read (times : Times Key Tid) (tid : Tid) (key : Key) : Times Key Tid :=
  let txn := times.txns tid
  let stamp := times.stamp key
  times.setTxn tid { txn with
    reads := txn.reads ++ [stamp]
    commitId := max txn.commitId stamp.wts }

/-- A lock that is granted. -/
def Times.lock (times : Times Key Tid) (tid : Tid) (key : Key) : Times Key Tid :=
  let txn := times.txns tid
  let stamp := times.stamp key
  times.setTxn tid { txn with
    writes := txn.writes ++ [stamp]
    commitId := max txn.commitId (stamp.rts + 1) }

/-- The renewal of a lease is granted, and extends it. -/
def Extends (node : Node Value) (itemWts commitId : Nat) : Prop :=
  (node.renewLeaseLocal itemWts commitId).isSome ∧ rts node.seq < commitId

instance (node : Node Value) (itemWts commitId : Nat) :
    Decidable (Extends node itemWts commitId) :=
  inferInstanceAs (Decidable (_ ∧ _))

/-- The times after a step: a write sets both times of its record to the commit id, a renewal
that extends a lease sets the read time. -/
def Times.after (config : Config Key Tid) (system : Rpc.State Key Value Tid)
    (times : Times Key Tid) : Rpc.Action Key Value Tid → Times Key Tid
  | .begin tid commitId => times.setTxn tid ⟨[], [], commitId⟩
  | .read tid key => times.read tid key
  | .write tid key => if (system.records key).lock = 0 then times.lock tid key else times
  | .notify tid =>
      match (system.txns tid).stage with
      | .wait key => if (system.records key).lock = 0 then times.lock tid key else times
      | _ => times
  | .renewItem tid machine =>
      match system.next config tid machine with
      | none => times
      | some item =>
          if Extends (system.records item.key) item.wts (system.txns tid).commitId then
            times.setStamp item.key
              { times.stamp item.key with rts := (times.txns tid).commitId }
          else
            times
  | .updateItem tid machine =>
      match system.next config tid machine with
      | none => times
      | some item =>
          times.setStamp item.key
            { wts := (times.txns tid).commitId, rts := (times.txns tid).commitId }
  | _ => times

/-- The first verb of `try_update_rdma` for an item; the second one is on its way then. -/
def writeBackItem (config : Config Key Tid) (state : State Key Value Tid) (tid : Tid)
    (machine : Nat) : Option (State Key Value Tid) :=
  let system := state.system
  let txn := system.txns tid
  match txn.stage with
  | .update pending =>
      (nextFor (config.at ReadSetItem.key machine) pending).map fun (item, rest) =>
        { system :=
            { (system.setRecord item.key
                ((system.records item.key).writeBack item.data txn.commitId)).setStage tid
                (.update rest) with
              history := Function.update system.history item.key
                (system.history item.key ++ [(txn.commitId, item.data)]) }
          unlocks := (tid, item.key) :: state.unlocks
          times := state.times.after config system (.updateItem tid machine) }
  | _ => none

/-- An unlock verb. -/
def unlock (config : Config Key Tid) (state : State Key Value Tid) (tid : Tid) (key : Key) :
    Option (State Key Value Tid) :=
  if (tid, key) ∈ state.unlocks then
    some { state with
      system := (state.system.setRecord key (state.system.records key).unlock).log
        (.released tid key (config.startTime tid))
      unlocks := state.unlocks.erase (tid, key) }
  else
    none

/-- A step of the handlers with the times beside it. -/
def handle (config : Config Key Tid) (state : State Key Value Tid)
    (action : Rpc.Action Key Value Tid) : Option (State Key Value Tid) :=
  (Rpc.step config state.system action).map fun system =>
    { state with system, times := state.times.after config state.system action }

/-- The step function of a build. -/
def step (path : WriteBack) (config : Config Key Tid) (state : State Key Value Tid) :
    Action Key Value Tid → Option (State Key Value Tid)
  | .unlock tid key => unlock config state tid key
  | .step (.updateItem tid machine) =>
      match path with
      | .rpc => handle config state (.updateItem tid machine)
      | .rdma => writeBackItem config state tid machine
  | .step action => handle config state action

/-! ## What the words are promised to say -/

/-- The comparisons of `renew_lease_local` for an item are comparisons of the times. -/
def Compares (state : State Key Value Tid) (tid : Tid) (item : ReadSetItem Key Value)
    (time : Stamp) : Prop :=
  (item.wts ≠ wts (state.system.records item.key).seq ↔
    time.wts ≠ (state.times.stamp item.key).wts) ∧
  (rts (state.system.records item.key).seq < (state.system.txns tid).commitId ↔
    (state.times.stamp item.key).rts < (state.times.txns tid).commitId)

/-- The word of every record unpacks to its times, and so does what `inplace_write_op` packed
last; commit ids are the true ones and fit into 32 bits; every renewal under way compares
times; and a renewal changes no more than the lower half of a word. -/
structure Truthful (path : WriteBack) (config : Config Key Tid)
    (state : State Key Value Tid) : Prop where
  unpacked : ∀ key, stampOf (state.system.records key).seq = state.times.stamp key
  packed : path = .rpc → ∀ key, stampOf (state.system.records key).readLock =
    ⟨(state.times.stamp key).wts, (state.times.stamp key).wts⟩
  commitId : ∀ tid, (state.system.txns tid).commitId = (state.times.txns tid).commitId
  fits : ∀ tid, (state.system.txns tid).commitId < commitIdBound
  compares : ∀ tid pending success, (state.system.txns tid).stage = .renew pending success →
    ∀ item ∈ pending, ∃ (index : Nat) (time : Stamp),
      (state.system.txns tid).readSet[index]? = some item ∧
      (state.times.txns tid).reads[index]? = some time ∧ Compares state tid item time
  renews : ∀ tid machine after,
    step path config state (.step (.renewItem tid machine)) = some after →
    ∀ key, (after.system.records key).seq / 2 ^ 32 = (state.system.records key).seq / 2 ^ 32

/-- Side condition on the steps of a run: the commit id left over has 32 bits, one that is
written into a record is below 2^31, and `update_rpc_handler` finds a header that lags behind
it by one write. -/
def Bounded (path : WriteBack) (config : Config Key Tid) (state : State Key Value Tid) :
    Action Key Value Tid → Prop
  | .step (.begin _ commitId) => commitId < commitIdBound
  | .step (.renewItem tid machine) => ∀ item ∈ state.system.next config tid machine,
      Extends (state.system.records item.key) item.wts (state.system.txns tid).commitId →
        (state.system.txns tid).commitId < timestampBound
  | .step (.updateItem tid machine) => ∀ item ∈ state.system.next config tid machine,
      (state.system.txns tid).commitId < timestampBound ∧
        (path = .rpc →
          HeaderLags (state.system.records item.key).seq (state.system.txns tid).commitId)
  | _ => True

/-! ## The invariant -/

variable {path : WriteBack} {config : Config Key Tid}

/-- The words of a record say its times. -/
structure RecordAgrees (path : WriteBack) (node : Node Value) (stamp : Stamp) : Prop where
  word : node.seq < wordBound
  unpacked : stampOf node.seq = stamp
  packed : path = .rpc → stampOf node.readLock = ⟨stamp.wts, stamp.wts⟩

/-- A transaction has the times of the records it read and locked; renewals are for items of
its read set. -/
structure TxnAgrees (txn : Txn Key Value) (times : TxnTimes) : Prop where
  reads : txn.readSet.map entryStamp = times.reads
  writes : txn.writeSet.map entryStamp = times.writes
  commitId : txn.commitId = times.commitId
  fits : txn.commitId < commitIdBound
  pending : ∀ pending success, txn.stage = .renew pending success →
    ∀ item ∈ pending, item ∈ txn.readSet

/-- Records and transactions agree with the times. -/
structure Agrees (path : WriteBack) (records : Key → Node Value) (txns : Tid → Txn Key Value)
    (times : Times Key Tid) : Prop where
  records : ∀ key, RecordAgrees path (records key) (times.stamp key)
  txns : ∀ tid, TxnAgrees (txns tid) (times.txns tid)

/-- The invariant of a run. -/
def State.Agrees (path : WriteBack) (state : State Key Value Tid) : Prop :=
  Clock.Agrees path state.system.records state.system.txns state.times

theorem wts_lt (word : Nat) : wts word < timestampBound := by
  rw [wts_eq]
  exact Nat.mod_lt _ (by decide)

theorem stampOf_newlease {commitId : Nat} (bounded : commitId < timestampBound) :
    stampOf (newlease commitId) = ⟨commitId, commitId⟩ := by
  rw [stampOf, wts_newlease bounded, rts_newlease bounded]

/-- The lock word of a record says nothing about its times. -/
theorem RecordAgrees.relock {node node' : Node Value} {stamp : Stamp}
    (agrees : RecordAgrees path node stamp) (sameSeq : node'.seq = node.seq)
    (sameReadLock : node'.readLock = node.readLock) : RecordAgrees path node' stamp where
  word := sameSeq ▸ agrees.word
  unpacked := sameSeq ▸ agrees.unpacked
  packed := sameReadLock ▸ agrees.packed

/-- A lease that is renewed. -/
theorem RecordAgrees.renew {node : Node Value} {stamp : Stamp} {commitId : Nat}
    (agrees : RecordAgrees path node stamp) (bounded : commitId < timestampBound) :
    RecordAgrees path { node with seq := renewed node.seq commitId }
      { stamp with rts := commitId } where
  word := renewed_lt _ _
  unpacked := by
    have sameWts : wts node.seq = stamp.wts := congrArg Stamp.wts agrees.unpacked
    rw [stampOf, wts_renewed agrees.word bounded, rts_renewed agrees.word bounded, sameWts]
  packed := agrees.packed

/-- `update_rpc_handler` on a header that lags behind the commit id. -/
theorem RecordAgrees.update {node : Node Value} {stamp : Stamp} {commitId : Nat}
    (agrees : RecordAgrees path node stamp) (value : Value)
    (bounded : commitId < timestampBound) (lags : HeaderLags node.seq commitId) :
    RecordAgrees path (node.updateRpcHandler value commitId) ⟨commitId, commitId⟩ where
  word := Nat.mod_lt _ (by decide)
  unpacked := by
    obtain ⟨sameWts, sameRts⟩ := (headerLags_iff agrees.word).mp lags
    have seq : (node.updateRpcHandler value commitId).seq = (node.seq + 2) % wordBound := rfl
    rw [stampOf, seq, sameWts, sameRts]
  packed := by
    intro _
    have real : commitId ≠ noCommitId := by
      simp only [timestampBound, noCommitId] at *
      omega
    have packed : (node.updateRpcHandler value commitId).readLock = newlease commitId := by
      simp only [Node.updateRpcHandler, Node.inplaceWriteOp, if_neg real]
    rw [packed, stampOf_newlease bounded]

/-- The first verb of `try_update_rdma`. -/
theorem RecordAgrees.writeBack {node : Node Value} {commitId : Nat} (value : Value)
    (bounded : commitId < timestampBound) :
    RecordAgrees .rdma (node.writeBack value commitId) ⟨commitId, commitId⟩ where
  word := newlease_lt commitId
  unpacked := stampOf_newlease bounded
  packed rpc := nomatch rpc

section Frame

variable {records : Key → Node Value} {txns : Tid → Txn Key Value} {times : Times Key Tid}

/-- A transaction and its times change. -/
theorem Agrees.txn (agrees : Agrees path records txns times) {tid : Tid}
    {txn : Txn Key Value} {txnTimes : TxnTimes} (ok : TxnAgrees txn txnTimes) :
    Agrees path records (Function.update txns tid txn) (times.setTxn tid txnTimes) where
  records := agrees.records
  txns := by
    intro other
    by_cases same : other = tid
    · subst same
      simpa only [Times.setTxn, Function.update_self] using ok
    · simpa only [Times.setTxn, Function.update_of_ne same] using agrees.txns other

/-- A transaction changes and its times do not. -/
theorem Agrees.client (agrees : Agrees path records txns times) {tid : Tid}
    {txn : Txn Key Value} (ok : TxnAgrees txn (times.txns tid)) :
    Agrees path records (Function.update txns tid txn) times := by
  have changed : Agrees path records (Function.update txns tid txn)
      (times.setTxn tid (times.txns tid)) := agrees.txn ok
  rwa [Times.setTxn, Function.update_eq_self] at changed

/-- A record and its times change. -/
theorem Agrees.record (agrees : Agrees path records txns times) {key : Key}
    {node : Node Value} {stamp : Stamp} (ok : RecordAgrees path node stamp) :
    Agrees path (Function.update records key node) txns (times.setStamp key stamp) where
  records := by
    intro other
    by_cases same : other = key
    · subst same
      simpa only [Times.setStamp, Function.update_self] using ok
    · simpa only [Times.setStamp, Function.update_of_ne same] using agrees.records other
  txns := agrees.txns

/-- A record is locked or unlocked. -/
theorem Agrees.relock (agrees : Agrees path records txns times) {key : Key}
    {node : Node Value} (sameSeq : node.seq = (records key).seq)
    (sameReadLock : node.readLock = (records key).readLock) :
    Agrees path (Function.update records key node) txns times := by
  have changed : Agrees path (Function.update records key node) txns
      (times.setStamp key (times.stamp key)) :=
    agrees.record ((agrees.records key).relock sameSeq sameReadLock)
  rwa [Times.setStamp, Function.update_eq_self] at changed

end Frame

/-! ## Steps -/

theorem stampOf_zero : stampOf 0 = ⟨0, 0⟩ := by decide

theorem agrees_initial (value : Key → Value) :
    (State.initial value : State Key Value Tid).Agrees path where
  records _ := by
    refine ⟨?_, stampOf_zero, ?_⟩
    · show 0 < wordBound
      decide
    · intro _
      exact stampOf_zero
  txns _ := by
    refine ⟨rfl, rfl, rfl, ?_, nofun⟩
    show 0 < commitIdBound
    decide

/-- A transaction that only moves to another stage. -/
theorem TxnAgrees.restage {txn : Txn Key Value} {times : TxnTimes} (ok : TxnAgrees txn times)
    {stage : Stage Key Value}
    (pending : ∀ pending success, stage = .renew pending success →
      ∀ item ∈ pending, item ∈ txn.readSet) :
    TxnAgrees { txn with stage } times where
  reads := ok.reads
  writes := ok.writes
  commitId := ok.commitId
  fits := ok.fits
  pending := pending

/-- The timestamps a reply carries are those of the record. -/
theorem RecordAgrees.load {node : Node Value} {stamp : Stamp}
    (agrees : RecordAgrees path node stamp) (key : Key) :
    entryStamp (load node key) = stamp := agrees.unpacked

section Steps

variable {system : Rpc.State Key Value Tid} {times : Times Key Tid} {tid : Tid}

/-- A read: the commit id is raised to the write timestamp of the reply. -/
theorem Agrees.read (agrees : Agrees path system.records system.txns times) {key : Key}
    {after : Rpc.State Key Value Tid} (stepped : Rpc.read system tid key = some after) :
    Agrees path after.records after.txns (times.read tid key) := by
  have old := agrees.txns tid
  have loaded := (agrees.records key).load key
  have loadedWts : (load (system.records key) key).wts = (times.stamp key).wts :=
    congrArg Stamp.wts loaded
  simp only [Rpc.read] at stepped
  split at stepped
  · rename_i executes
    cases stepped
    refine agrees.txn ⟨?_, old.writes, ?_, ?_, ?_⟩
    · rw [List.map_append, List.map_singleton, old.reads, loaded]
    · show max (system.txns tid).commitId (load (system.records key) key).wts = _
      rw [old.commitId, loadedWts]
    · exact max_lt old.fits ((wts_lt _).trans (by decide))
    · intro pending success stage
      exact absurd (executes.symm.trans stage) nofun
  · cases stepped

/-- A granted lock: the commit id is raised above the read timestamp of the reply. -/
theorem Agrees.lock (agrees : Agrees path system.records system.txns times) {key : Key}
    {node : Node Value} (sameSeq : node.seq = (system.records key).seq)
    (sameReadLock : node.readLock = (system.records key).readLock) :
    Agrees path (answer config system tid key node .granted).records
      (answer config system tid key node .granted).txns (times.lock tid key) := by
  have old := agrees.txns tid
  have loaded := ((agrees.records key).relock sameSeq sameReadLock).load key
  have loadedRts : (load node key).rts = (times.stamp key).rts := congrArg Stamp.rts loaded
  refine (agrees.relock sameSeq sameReadLock).txn ⟨old.reads, ?_, ?_, ?_, nofun⟩
  · rw [List.map_append, List.map_singleton, old.writes, loaded]
  · show max (system.txns tid).commitId ((load node key).rts + 1) = _
    rw [old.commitId, loadedRts]
  · have short : rts node.seq + 1 < commitIdBound :=
      Nat.lt_of_le_of_lt (rts_lt node.seq) (by decide)
    exact max_lt old.fits short

/-- An answer to a lock request. -/
theorem Agrees.answer (agrees : Agrees path system.records system.txns times) {key : Key}
    {node : Node Value} {timestamp : Nat} {reply : LockReply}
    (outcome : LockOutcome (system.records key) timestamp node reply) :
    Agrees path (answer config system tid key node reply).records
      (answer config system tid key node reply).txns
      (if (system.records key).lock = 0 then times.lock tid key else times) := by
  cases outcome with
  | granted free =>
      rw [if_pos free]
      exact agrees.lock rfl rfl
  | failed taken =>
      rw [if_neg taken]
      exact (agrees.relock rfl rfl).client ((agrees.txns tid).restage nofun)
  | queued taken =>
      rw [if_neg taken]
      exact (agrees.relock rfl rfl).client ((agrees.txns tid).restage nofun)

/-- The application stores into its buffers. -/
theorem Agrees.modify (agrees : Agrees path system.records system.txns times) {key : Key}
    {data : Value} {after : Rpc.State Key Value Tid}
    (stepped : Rpc.modify system tid key data = some after) :
    Agrees path after.records after.txns times := by
  have old := agrees.txns tid
  simp only [Rpc.modify] at stepped
  split at stepped
  · rename_i executes
    cases stepped
    refine agrees.client ⟨old.reads, ?_, old.commitId, old.fits, old.pending⟩
    rw [List.map_map, ← old.writes]
    apply List.map_congr_left
    intro item _
    simp only [Function.comp_apply]
    split <;> rfl
  · cases stepped

/-- `prepare` asks for the renewal of items of the read set. -/
theorem Agrees.prepare (agrees : Agrees path system.records system.txns times)
    {after : Rpc.State Key Value Tid} (stepped : Rpc.prepare system tid = some after) :
    Agrees path after.records after.txns times := by
  simp only [Rpc.prepare] at stepped
  split at stepped
  · cases stepped
    refine agrees.client ((agrees.txns tid).restage ?_)
    intro pending success stage item waiting
    cases stage
    exact List.mem_of_mem_filter waiting
  · cases stepped

/-- A machine processes an item of a renewal. -/
theorem Agrees.renewItem (agrees : Agrees path system.records system.txns times)
    {machine : Nat} {after : Rpc.State Key Value Tid}
    (bounded : ∀ item ∈ system.next config tid machine,
      Extends (system.records item.key) item.wts (system.txns tid).commitId →
        (system.txns tid).commitId < timestampBound)
    (stepped : Rpc.renewItem config system tid machine = some after) :
    Agrees path after.records after.txns
      (times.after config system (.renewItem tid machine)) := by
  have old := agrees.txns tid
  simp only [Rpc.renewItem] at stepped
  split at stepped
  · rename_i pending success renewing
    obtain ⟨⟨item, rest⟩, found, reached⟩ := Option.map_eq_some_iff.mp stepped
    have next : system.next config tid machine = some item := by
      simp only [State.next, Txn.inFlight, renewing, found, Option.map_some]
    have restOk : ∀ success',
        TxnAgrees { system.txns tid with stage := .renew rest success' } (times.txns tid) := by
      intro success'
      apply old.restage
      intro later _ stage other waiting
      cases stage
      exact old.pending pending success renewing other
        ((mem_of_nextFor found).mpr (.inr waiting))
    simp only [Times.after, next]
    cases renewal : (system.records item.key).renewLeaseLocal item.wts
        (system.txns tid).commitId with
    | none =>
        have refused : ¬ Extends (system.records item.key) item.wts
            (system.txns tid).commitId := by
          rintro ⟨granted, _⟩
          rw [renewal] at granted
          cases granted
        rw [renewal] at reached
        cases reached
        rw [if_neg refused]
        exact agrees.client (restOk false)
    | some node =>
        rw [renewal] at reached
        cases reached
        obtain ⟨_, ⟨long, same⟩ | ⟨short, _, extended⟩⟩ :=
          Node.renewLeaseLocal_eq_some renewal
        · have kept : ¬ Extends (system.records item.key) item.wts
              (system.txns tid).commitId := fun short => absurd short.2 (not_lt.mpr long)
          rw [if_neg kept]
          subst same
          exact (agrees.relock rfl rfl).client (restOk success)
        · have granted : Extends (system.records item.key) item.wts
              (system.txns tid).commitId := ⟨by rw [renewal]; rfl, short⟩
          rw [if_pos granted, extended, ← old.commitId]
          exact (agrees.record ((agrees.records item.key).renew
            (bounded item next granted))).client (restOk success)
  · cases stepped

/-- A machine processes an item of an update. -/
theorem Agrees.updateItem (agrees : Agrees path system.records system.txns times)
    {machine : Nat} {after : Rpc.State Key Value Tid}
    (bounded : ∀ item ∈ system.next config tid machine,
      (system.txns tid).commitId < timestampBound ∧
        HeaderLags (system.records item.key).seq (system.txns tid).commitId)
    (stepped : Rpc.updateItem config system tid machine = some after) :
    Agrees path after.records after.txns
      (times.after config system (.updateItem tid machine)) := by
  have old := agrees.txns tid
  simp only [Rpc.updateItem] at stepped
  split at stepped
  · rename_i pending updating
    obtain ⟨⟨item, rest⟩, found, reached⟩ := Option.map_eq_some_iff.mp stepped
    cases reached
    have next : system.next config tid machine = some item := by
      simp only [State.next, Txn.inFlight, updating, found, Option.map_some]
    obtain ⟨small, lags⟩ := bounded item next
    simp only [Times.after, next, ← old.commitId]
    exact (agrees.record ((agrees.records item.key).update item.data small lags)).client
      (old.restage nofun)
  · cases stepped

theorem Agrees.releaseOne (agrees : Agrees path system.records system.txns times)
    (item : ReadSetItem Key Value) {stage : Stage Key Value}
    (quiet : ∀ pending success, stage ≠ .renew pending success) :
    Agrees path (releaseOne config system tid item stage).records
      (releaseOne config system tid item stage).txns times := by
  have restaged : TxnAgrees { system.txns tid with stage } (times.txns tid) :=
    (agrees.txns tid).restage fun pending success same => absurd same (quiet pending success)
  have unlocked : Agrees path (Function.update system.records item.key
      (system.records item.key).releaseRpcHandler) system.txns times := agrees.relock rfl rfl
  exact unlocked.client restaged

/-- A machine releases a record. -/
theorem Agrees.releaseItem (agrees : Agrees path system.records system.txns times)
    {machine : Nat} {after : Rpc.State Key Value Tid}
    (stepped : Rpc.releaseItem config system tid machine = some after) :
    Agrees path after.records after.txns times := by
  simp only [Rpc.releaseItem] at stepped
  split at stepped
  · obtain ⟨⟨item, rest⟩, _, reached⟩ := Option.map_eq_some_iff.mp stepped
    cases reached
    exact agrees.releaseOne item nofun
  · obtain ⟨⟨item, rest⟩, _, reached⟩ := Option.map_eq_some_iff.mp stepped
    cases reached
    exact agrees.releaseOne item nofun
  · cases stepped

/-- The votes and the replies move a transaction to a stage that renews nothing. -/
theorem Agrees.vote (agrees : Agrees path system.records system.txns times) {commit : Bool}
    {after : Rpc.State Key Value Tid} (stepped : Rpc.vote system tid commit = some after) :
    Agrees path after.records after.txns times := by
  simp only [Rpc.vote] at stepped
  split at stepped
  · split at stepped
    · cases stepped
      exact agrees.client ((agrees.txns tid).restage nofun)
    · cases stepped
      exact agrees.client ((agrees.txns tid).restage nofun)
  · cases stepped

theorem Agrees.resume (agrees : Agrees path system.records system.txns times)
    {after : Rpc.State Key Value Tid} (stepped : Rpc.resume system tid = some after) :
    Agrees path after.records after.txns times := by
  simp only [Rpc.resume] at stepped
  split at stepped
  all_goals cases stepped
  all_goals exact agrees.client ((agrees.txns tid).restage nofun)

/-- Every step of the handlers, but for an update under the one-sided commit. -/
theorem State.Agrees.handle {state after : State Key Value Tid} (agrees : state.Agrees path)
    (action : Rpc.Action Key Value Tid)
    (bounded : Bounded path config state (.step action))
    (written : ∀ tid machine, action = .updateItem tid machine → path = .rpc)
    (stepped : Clock.handle config state action = some after) : after.Agrees path := by
  have old : Clock.Agrees path state.system.records state.system.txns state.times := agrees
  obtain ⟨system, served, reached⟩ := Option.map_eq_some_iff.mp stepped
  subst reached
  cases action with
  | «begin» tid commitId =>
      simp only [Rpc.step, Rpc.begin] at served
      split at served
      · cases served
        exact old.txn ⟨rfl, rfl, rfl, bounded, nofun⟩
      · cases served
  | read tid key => exact old.read served
  | write tid key =>
      simp only [Rpc.step, Rpc.write] at served
      split at served
      · obtain ⟨⟨node, reply⟩, answered, reached⟩ := Option.map_eq_some_iff.mp served
        cases reached
        exact old.answer (Node.lockReadRpcHandler_outcome answered)
      · cases served
  | notify tid =>
      simp only [Rpc.step, Rpc.notify] at served
      split at served
      · rename_i key waiting
        cases served
        simp only [State.Agrees, Times.after, waiting]
        exact old.answer (Node.checkToNotifyItem_outcome _ _)
      · cases served
  | modify tid key data => exact old.modify served
  | prepare tid => exact old.prepare served
  | renewItem tid machine => exact old.renewItem bounded served
  | vote tid commit => exact old.vote served
  | updateItem tid machine =>
      apply old.updateItem _ served
      intro item next
      exact ⟨(bounded item next).1, (bounded item next).2 (written tid machine rfl)⟩
  | releaseItem tid machine => exact old.releaseItem served
  | resume tid => exact old.resume served

/-- A machine writes an item of an update back by one-sided verbs. -/
theorem State.Agrees.writeBackItem {state after : State Key Value Tid} {machine : Nat}
    (agrees : state.Agrees .rdma)
    (bounded : ∀ item ∈ state.system.next config tid machine,
      (state.system.txns tid).commitId < timestampBound)
    (stepped : Clock.writeBackItem config state tid machine = some after) :
    after.Agrees .rdma := by
  have old : Clock.Agrees .rdma state.system.records state.system.txns state.times := agrees
  simp only [Clock.writeBackItem] at stepped
  split at stepped
  · rename_i pending updating
    obtain ⟨⟨item, rest⟩, found, reached⟩ := Option.map_eq_some_iff.mp stepped
    cases reached
    have next : state.system.next config tid machine = some item := by
      simp only [State.next, Txn.inFlight, updating, found, Option.map_some]
    simp only [State.Agrees, Times.after, next, ← (old.txns tid).commitId]
    exact (old.record (.writeBack item.data (bounded item next))).client
      ((old.txns tid).restage nofun)
  · cases stepped

/-- One step of a run. -/
theorem State.Agrees.step {state after : State Key Value Tid} (agrees : state.Agrees path)
    (action : Action Key Value Tid) (bounded : Bounded path config state action)
    (stepped : Clock.step path config state action = some after) : after.Agrees path := by
  cases action with
  | unlock tid key =>
      simp only [Clock.step, unlock] at stepped
      split at stepped
      · cases stepped
        have old : Clock.Agrees path state.system.records state.system.txns state.times := agrees
        exact old.relock rfl rfl
      · cases stepped
  | step action =>
      by_cases written : ∃ tid machine, action = .updateItem tid machine
      · obtain ⟨tid, machine, rfl⟩ := written
        cases path with
        | rpc => exact agrees.handle _ bounded (fun _ _ _ => rfl) stepped
        | rdma =>
            exact agrees.writeBackItem (fun item next => (bounded item next).1) stepped
      · have handled : Clock.handle config state action = some after := by
          cases action
          case updateItem tid machine => exact absurd ⟨tid, machine, rfl⟩ written
          all_goals exact stepped
        apply agrees.handle action bounded _ handled
        intro tid machine same
        exact absurd ⟨tid, machine, same⟩ written

/-! ## Every word says the time -/

/-- A renewal leaves the upper half of every word alone. -/
theorem renewItem_upper {state after : State Key Value Tid} {machine : Nat}
    (agrees : state.Agrees path)
    (stepped : step path config state (.step (.renewItem tid machine)) = some after)
    (key : Key) :
    (after.system.records key).seq / 2 ^ 32 = (state.system.records key).seq / 2 ^ 32 := by
  obtain ⟨system, served, reached⟩ := Option.map_eq_some_iff.mp stepped
  subst reached
  simp only [Rpc.step, Rpc.renewItem] at served
  split at served
  · obtain ⟨⟨item, rest⟩, _, reached⟩ := Option.map_eq_some_iff.mp served
    cases renewal : (state.system.records item.key).renewLeaseLocal item.wts
        (state.system.txns tid).commitId with
    | none =>
        rw [renewal] at reached
        cases reached
        rfl
    | some node =>
        rw [renewal] at reached
        cases reached
        have kept : node.seq / 2 ^ 32 = (state.system.records item.key).seq / 2 ^ 32 := by
          obtain ⟨_, ⟨_, same⟩ | ⟨_, _, extended⟩⟩ := Node.renewLeaseLocal_eq_some renewal
          · rw [same]
          · have small : (state.system.txns tid).commitId < 2 ^ 32 := (agrees.txns tid).fits
            rw [extended]
            show renewed _ _ / 2 ^ 32 = _
            rw [renewed_eq (agrees.records item.key).word small, mul_comm,
              Nat.mul_add_div (by decide), Nat.div_eq_of_lt small, add_zero]
        show (Function.update state.system.records item.key node key).seq / 2 ^ 32 = _
        by_cases same : key = item.key
        · rw [same, Function.update_self, kept]
        · rw [Function.update_of_ne same]
  · cases served

/-- A renewal under way compares the times of the record and of its entry. -/
theorem State.Agrees.compares {state : State Key Value Tid} (agrees : state.Agrees path)
    {pending : List (ReadSetItem Key Value)} {success : Bool}
    (renewing : (state.system.txns tid).stage = .renew pending success)
    {item : ReadSetItem Key Value} (waiting : item ∈ pending) :
    ∃ (index : Nat) (time : Stamp), (state.system.txns tid).readSet[index]? = some item ∧
      (state.times.txns tid).reads[index]? = some time ∧ Compares state tid item time := by
  have txn := agrees.txns tid
  have record := agrees.records item.key
  obtain ⟨index, at_index⟩ :=
    List.mem_iff_getElem?.mp (txn.pending pending success renewing item waiting)
  refine ⟨index, entryStamp item, at_index, ?_, ?_, ?_⟩
  · rw [← txn.reads, List.getElem?_map, at_index, Option.map_some]
  · rw [← record.unpacked]
    rfl
  · rw [← record.unpacked, ← txn.commitId]
    rfl

end Steps

/-! ## Concrete runs -/

instance (path : WriteBack) (config : Config Key Tid) (state : State Key Value Tid)
    (action : Action Key Value Tid) : Decidable (Bounded path config state action) :=
  match action with
  | .step (.begin _ commitId) => inferInstanceAs (Decidable (commitId < commitIdBound))
  | .step (.renewItem tid machine) =>
      inferInstanceAs (Decidable (∀ item ∈ state.system.next config tid machine,
        Extends (state.system.records item.key) item.wts (state.system.txns tid).commitId →
          (state.system.txns tid).commitId < timestampBound))
  | .step (.updateItem tid machine) =>
      inferInstanceAs (Decidable (∀ item ∈ state.system.next config tid machine,
        (state.system.txns tid).commitId < timestampBound ∧ (path = .rpc →
          HeaderLags (state.system.records item.key).seq (state.system.txns tid).commitId)))
  | .step (.read ..) | .step (.write ..) | .step (.notify ..) | .step (.modify ..)
  | .step (.prepare ..) | .step (.vote ..) | .step (.releaseItem ..) | .step (.resume ..)
  | .unlock .. => inferInstanceAs (Decidable True)

end Steps

end Rocc.Sundial.Clock
