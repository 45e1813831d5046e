import Rocc.Rtx.Batch
import Rocc.Sundial.Node

/-!
# A transaction of `SUNDIAL` with no other beside it

The calls of `read` and `write` and then `commit`, over RPC, with `commit_id_` raised along
the way.  A record of table 7 is not read at all; its entry, for machine 0, keeps the
timestamps 0 it is built with, and its lease is renewed like any other.

No transaction runs beside this one, so a call is one function on the records and so is every
phase of `commit`.  `log_remote` does not touch them and is left out.
-/

set_option linter.unusedSectionVars false

namespace Rocc.Sundial.Solo

open Rtx Rtx.Batch Memory

/-! ## Data -/

/-- Contents of a record. -/
abbrev Bytes := List UInt8

/-- The records of all machines. -/
abbrev Records := Place → Node Bytes

/-- A database where no record is locked. -/
structure Database where
  record : Records
  word : ∀ place, (record place).seq < wordBound
  unlocked : ∀ place, (record place).lock = 0

/-- `node_id_`, which is -1 when every record counts as remote, `txn_start_time`, and the
`commit_id_` that earlier transactions left. -/
structure Client where
  nodeId : Int
  timestamp : Nat
  timestamp_ne_zero : timestamp ≠ 0
  commitId : Nat
  commitId_lt : commitId < commitIdBound

/-- `read`, or `write` with what the application stores into the buffer. -/
inductive Call where
  | read (place : Place)
  | write (place : Place) (data : Bytes)
  deriving DecidableEq, Repr

/-- `SundialReadSetItem`; no `data` stands for `NULL`. -/
structure ReadSetItem where
  place : Place
  wts : Nat
  rts : Nat
  data : Option Bytes
  deriving DecidableEq, Repr

/-- The transaction between two calls. -/
structure Txn where
  records : Records
  readSet : List ReadSetItem
  writeSet : List ReadSetItem
  commitId : Nat

/-- `pid == node_id_`. -/
def Client.Local (client : Client) (item : ReadSetItem) : Prop :=
  (item.place.pid.toNat : Int) = client.nodeId

instance (client : Client) (item : ReadSetItem) : Decidable (client.Local item) :=
  inferInstanceAs (Decidable (_ = _))

/-- The entries of a set that go into a message. -/
def Client.remote (client : Client) (set : List ReadSetItem) : List ReadSetItem :=
  set.filter fun item => ¬client.Local item

/-! ## Calls -/

/-- `begin`. -/
def begin (client : Client) (database : Database) : Txn where
  records := database.record
  readSet := []
  writeSet := []
  commitId := client.commitId

/-- The table that is not read. -/
def itemTable : UInt8 := 7

/-- The entry of a read, local or remote. -/
def readEntry (records : Records) (place : Place) : ReadSetItem :=
  if place.tableid = itemTable then
    { place := { place with pid := 0 }, wts := 0, rts := 0, data := none }
  else
    let reply := (records place).prepareBuf
    { place, wts := reply.1, rts := reply.2.1, data := some reply.2.2 }

/-- `read`. -/
def Txn.read (txn : Txn) (place : Place) : Txn :=
  let item := readEntry txn.records place
  { txn with
    readSet := txn.readSet ++ [item]
    commitId := if place.tableid = itemTable then txn.commitId else max txn.commitId item.wts }

/-- `try_lock_read_rpc`: a request that waits, fails or runs into the assertion has no
result. -/
def tryLockRead (client : Client) (item : ReadSetItem) (node : Node Bytes) :
    Option (Node Bytes) :=
  if client.Local item then
    if node.lock = 0 then some { node with lock := client.timestamp } else none
  else
    match node.lockReadRpcHandler client.timestamp with
    | some (locked, .granted) => some locked
    | _ => none

/-- The entry of a write. -/
def writeEntry (records : Records) (place : Place) (data : Bytes) : ReadSetItem :=
  let reply := (records place).prepareBuf
  { place, wts := reply.1, rts := reply.2.1, data := some data }

/-- `write`. -/
def Txn.write (client : Client) (txn : Txn) (place : Place) (data : Bytes) : Option Txn :=
  match tryLockRead client (writeEntry txn.records place data) (txn.records place) with
  | none => none
  | some locked =>
      let records := Function.update txn.records place locked
      let item := writeEntry records place data
      some
        { txn with
          records
          writeSet := txn.writeSet ++ [item]
          commitId := max txn.commitId (item.rts + 1) }

/-- All calls of a transaction. -/
def execute (client : Client) : List Call → Txn → Option Txn
  | [], txn => some txn
  | .read place :: rest, txn => execute client rest (txn.read place)
  | .write place data :: rest, txn =>
      match txn.write client place data with
      | none => none
      | some next => execute client rest next

/-! ## Messages -/

/-- The `RTXRenewLeaseItem` of an entry. -/
def ReadSetItem.renewItem (commitId : Nat) (item : ReadSetItem) : Item rtxRenewLeaseItem where
  args := [item.place.pid.toNat, item.place.tableid.toNat, item.place.key.toNat, item.wts,
    commitId]
  payload := []
  arity := rfl
  sized := List.length_nil

/-- The `RTXUpdateItem` of an entry with the bytes behind it. -/
def ReadSetItem.updateItem (commitId : Nat) (item : ReadSetItem) : Item rtxUpdateItem where
  args := [item.place.pid.toNat, item.place.tableid.toNat, item.place.key.toNat,
    (item.data.getD []).length, commitId]
  payload := item.data.getD []
  arity := rfl
  sized := rfl

/-- The `RTXSundialUnlockItem` of an entry. -/
def ReadSetItem.unlockItem (item : ReadSetItem) : Item rtxSundialUnlockItem where
  args := [item.place.pid.toNat, item.place.key.toNat, item.place.tableid.toNat]
  payload := []
  arity := rfl
  sized := List.length_nil

/-- A record from the fields of an item. -/
def placeOf (pid tableid key : Nat) : Place :=
  ⟨UInt8.ofNat pid, UInt8.ofNat tableid, UInt64.ofNat key⟩

/-! ## The servers -/

/-- What a renewal asks for: a record, its write timestamp and a commit id. -/
structure Renewal where
  place : Place
  wts : Nat
  commitId : Nat
  deriving DecidableEq, Repr

/-- A renewal from the fields of its item. -/
def Renewal.decode : List Nat → Option Renewal
  | [pid, tableid, key, wts, commitId] => some ⟨placeOf pid tableid key, wts, commitId⟩
  | _ => none

/-- The loop of `renew_lease_rpc_handler`, with the status of each item. -/
def renewLeaseRpcHandler : List Renewal → Records → Records × List Bool
  | [], records => (records, [])
  | renewal :: rest, records =>
      match (records renewal.place).renewLeaseLocal renewal.wts renewal.commitId with
      | none =>
          let others := renewLeaseRpcHandler rest records
          (others.1, false :: others.2)
      | some renewed =>
          let others := renewLeaseRpcHandler rest (Function.update records renewal.place renewed)
          (others.1, true :: others.2)

/-- The machines renew one after the other; a machine that finds no item runs into the
assertion on `num_returned`. -/
def serveRenewals (msg : Memory) : List Nat → Records → Option (Records × List Bool)
  | [], records => some (records, [])
  | machine :: rest, records =>
      let items := handled rtxRenewLeaseItem msg machine
      if items = [] then
        none
      else
        let reply := renewLeaseRpcHandler (items.filterMap (Renewal.decode ·.1)) records
        (serveRenewals msg rest reply.1).map fun others => (others.1, reply.2 ++ others.2)

/-- The loop of `update_rpc_handler`. -/
def updateRpcHandler (items : List (List Nat × Bytes)) (records : Records) : Records :=
  items.foldl (fun records item =>
    match item with
    | ([pid, tableid, key, _, commitId], payload) =>
        let place := placeOf pid tableid key
        Function.update records place ((records place).updateRpcHandler payload commitId)
    | _ => records) records

/-- The loop of `release_rpc_handler`. -/
def releaseRpcHandler (items : List (List Nat × Bytes)) (records : Records) : Records :=
  items.foldl (fun records item =>
    match item.1 with
    | [pid, key, tableid] =>
        let place := placeOf pid tableid key
        Function.update records place (records place).releaseRpcHandler
    | _ => records) records

/-! ## Committing -/

/-- The entries whose lease ends before the commit id. -/
def Txn.due (txn : Txn) : List ReadSetItem :=
  txn.readSet.filter fun item => item.rts < txn.commitId

/-- The deliveries of all phases. -/
structure Schedule (client : Client) (txn : Txn) where
  renew : Delivery ((client.remote txn.due).map (ReadSetItem.renewItem txn.commitId))
  update : Delivery ((client.remote txn.writeSet).map (ReadSetItem.updateItem txn.commitId))
  release : Delivery ((client.remote txn.writeSet).map ReadSetItem.unlockItem)
  again : Delivery ((client.remote txn.writeSet).map ReadSetItem.unlockItem)

/-- `try_renew_all_lease_rpc`; a local entry runs into an assertion. -/
def tryRenewAllLeaseRpc (client : Client) (txn : Txn)
    (delivery : Delivery ((client.remote txn.due).map (ReadSetItem.renewItem txn.commitId))) :
    Option (Records × Bool) :=
  if ∃ item ∈ txn.due, client.Local item then
    none
  else
    match delivery.message with
    | none => some (txn.records, true)
    | some msg =>
        (serveRenewals msg delivery.order txn.records).map fun reply => (reply.1, reply.2.all id)

/-- `try_update_rpc`. -/
def tryUpdateRpc (client : Client) (txn : Txn)
    (delivery : Delivery
      ((client.remote txn.writeSet).map (ReadSetItem.updateItem txn.commitId)))
    (records : Records) : Records :=
  let records := txn.writeSet.foldl (fun records item =>
    if client.Local item then
      Function.update records item.place
        ((records item.place).updateRpcHandler (item.data.getD []) txn.commitId)
    else
      records) records
  match delivery.message with
  | none => records
  | some msg => delivery.order.foldl (fun records machine =>
      updateRpcHandler (handled rtxUpdateItem msg machine) records) records

/-- `release_writes`. -/
def releaseWrites (client : Client) (txn : Txn)
    (delivery : Delivery ((client.remote txn.writeSet).map ReadSetItem.unlockItem))
    (records : Records) : Records :=
  let records := txn.writeSet.foldl (fun records item =>
    if client.Local item ∧ (records item.place).lock = client.timestamp then
      Function.update records item.place { records item.place with lock := 0 }
    else
      records) records
  match delivery.message with
  | none => records
  | some msg => delivery.order.foldl (fun records machine =>
      releaseRpcHandler (handled rtxSundialUnlockItem msg machine) records) records

/-- `commit`: what it returns, and the records after it.  When `prepare` fails, the locks are
released twice. -/
def commit (client : Client) (txn : Txn) (schedule : Schedule client txn) :
    Option (Bool × Records) :=
  (tryRenewAllLeaseRpc client txn schedule.renew).map fun reply =>
    if reply.2 then
      (true, tryUpdateRpc client txn schedule.update reply.1)
    else
      (false, releaseWrites client txn schedule.again
        (releaseWrites client txn schedule.release reply.1))

/-! ## What a transaction is promised -/

/-- Every call succeeds, `commit` returns true in whatever order the machines take the
messages, and the commit id is no smaller than what was read and greater than the old read
timestamp of what was written. -/
def CommitsAlone (client : Client) (database : Database) (calls : List Call) : Prop :=
  ∃ txn, execute client calls (begin client database) = some txn ∧
    (∀ schedule : Schedule client txn, ∃ after,
      commit client txn schedule = some (true, after)) ∧
    (∀ item ∈ txn.readSet, item.wts ≤ txn.commitId) ∧
    ∀ item ∈ txn.writeSet, rts (database.record item.place).seq < txn.commitId

/-- The records that are read. -/
def reads (calls : List Call) : List Place :=
  calls.filterMap fun
    | .read place => some place
    | .write _ _ => none

/-- The records that are written. -/
def writes (calls : List Call) : List Place :=
  calls.filterMap fun
    | .read _ => none
    | .write place _ => some place

/-- The entries of a message the handlers look at; these are all of them when there are at
most 127. -/
def looked (items : List ReadSetItem) : List ReadSetItem := items.take (turns items.length)

section Condition

variable (client : Client) (database : Database) (calls : List Call)

/-- The lease of an entry ends before a timestamp that raises the commit id. -/
def Outlived (item : ReadSetItem) : Prop :=
  item.rts < client.commitId ∨
    (∃ place ∈ reads calls, item.rts < (readEntry database.record place).wts) ∨
    ∃ place ∈ writes calls, item.rts ≤ rts (database.record place).seq

instance (item : ReadSetItem) : Decidable (Outlived client database calls item) :=
  inferInstanceAs (Decidable (_ ∨ (∃ place ∈ reads calls, _) ∨ ∃ place ∈ writes calls, _))

/-- The entries whose leases have to be renewed. -/
def outlived : List ReadSetItem :=
  ((reads calls).map (readEntry database.record)).filter
    fun item => Outlived client database calls item

/-- Those of them the handlers look at. -/
def seen : List ReadSetItem := looked (outlived client database calls)

/-- The transaction does not stand in its own way: it writes no record twice, and of the leases
it has to renew none is that of a local record, none that of a record it has locked, and all
are of the current version; and every machine that is asked for a renewal finds one. -/
structure Unhindered : Prop where
  once : (writes calls).Nodup
  remote : ∀ item ∈ outlived client database calls, ¬client.Local item
  current : ∀ item ∈ seen client database calls,
    item.wts = wts (database.record item.place).seq
  apart : ∀ item ∈ seen client database calls, item.place ∉ writes calls
  answered : ∀ item ∈ outlived client database calls,
    ∃ other ∈ seen client database calls, other.place.pid = item.place.pid

end Condition

/-! ## The calls -/

/-- The records after some of them were locked. -/
def mark (timestamp : Nat) (places : List Place) (records : Records) : Records := fun place =>
  if place ∈ places then { records place with lock := timestamp } else records place

theorem mark_update (timestamp : Nat) (place : Place) (places : List Place)
    (records : Records) :
    mark timestamp places
        (Function.update records place { records place with lock := timestamp }) =
      mark timestamp (place :: places) records := by
  funext other
  unfold mark
  by_cases here : other = place
  · subst here
    simp
  · rw [Function.update_of_ne here]
    simp only [List.mem_cons, here, false_or]

theorem mark_singleton (timestamp : Nat) (place : Place) (records : Records) :
    mark timestamp [place] records =
      Function.update records place { records place with lock := timestamp } := by
  funext other
  by_cases here : other = place
  · subst here
    simp [mark]
  · simp [mark, here]

@[simp] theorem mark_seq (timestamp : Nat) (places : List Place) (records : Records)
    (place : Place) : (mark timestamp places records place).seq = (records place).seq := by
  unfold mark
  split <;> rfl

theorem prepareBuf_mark (timestamp : Nat) (places : List Place) (records : Records)
    (place : Place) :
    (mark timestamp places records place).prepareBuf = (records place).prepareBuf := by
  unfold mark
  split <;> rfl

@[simp] theorem readEntry_mark (timestamp : Nat) (places : List Place) (records : Records) :
    readEntry (mark timestamp places records) = readEntry records := by
  funext place
  unfold readEntry
  rw [prepareBuf_mark]

@[simp] theorem writeEntry_mark (timestamp : Nat) (places : List Place) (records : Records) :
    writeEntry (mark timestamp places records) = writeEntry records := by
  funext place data
  unfold writeEntry
  rw [prepareBuf_mark]

/-- What a call raises the commit id to. -/
def Call.time (records : Records) : Call → Nat
  | .read place => (readEntry records place).wts
  | .write place _ => rts (records place).seq + 1

@[simp] theorem time_mark (timestamp : Nat) (places : List Place) (records : Records) :
    Call.time (mark timestamp places records) = Call.time records := by
  funext call
  cases call with
  | read place => rw [Call.time, Call.time, readEntry_mark]
  | write place data => rw [Call.time, Call.time, mark_seq]

/-- The entries of the writes. -/
def writeEntries (records : Records) (calls : List Call) : List ReadSetItem :=
  calls.filterMap fun
    | .read _ => none
    | .write place data => some (writeEntry records place data)

/-- The transaction after some calls that succeed. -/
def Txn.after (client : Client) (calls : List Call) (txn : Txn) : Txn where
  records := mark client.timestamp (writes calls) txn.records
  readSet := txn.readSet ++ (reads calls).map (readEntry txn.records)
  writeSet := txn.writeSet ++ writeEntries txn.records calls
  commitId := calls.foldl (fun commitId call => max commitId (call.time txn.records)) txn.commitId

section Calls

variable {client : Client} {calls : List Call} {txn next : Txn}

/-- Taking a lock succeeds exactly on a record that is free. -/
theorem tryLockRead_eq (client : Client) (item : ReadSetItem) (node : Node Bytes) :
    tryLockRead client item node =
      if node.lock = 0 then some { node with lock := client.timestamp } else none := by
  unfold tryLockRead Node.lockReadRpcHandler
  by_cases free : node.lock = 0
  · by_cases isLocal : client.Local item
    · simp [isLocal, free]
    · simp [isLocal, free]
  · by_cases isLocal : client.Local item
    · simp [isLocal, free]
    · simp only [isLocal, free, if_false, ne_eq, not_false_eq_true, if_true]
      split_ifs <;> rfl

/-- A read is a call that always succeeds. -/
theorem after_read (place : Place) (rest : List Call) :
    (txn.read place).after client rest = txn.after client (.read place :: rest) := by
  have raised : (txn.read place).commitId =
      max txn.commitId (Call.time txn.records (.read place)) := by
    simp only [Txn.read, Call.time, readEntry]
    split <;> simp
  simp only [Txn.after, raised, List.foldl_cons]
  simp [Txn.read, reads, writes, writeEntries]

/-- A write succeeds exactly on a free record. -/
theorem write_eq (place : Place) (data : Bytes) :
    txn.write client place data =
      if (txn.records place).lock = 0 then
        some (txn.after client [.write place data])
      else
        none := by
  unfold Txn.write
  rw [tryLockRead_eq]
  split
  · rename_i none
    split at none
    · cases none
    · rename_i taken
      rw [if_neg taken]
  · rename_i locked found
    split at found
    · rename_i free
      rw [Option.some.injEq] at found
      subst found
      rw [if_pos free, ← mark_singleton]
      simp only [writeEntry_mark]
      simp [Txn.after, reads, writes, writeEntries, Call.time, writeEntry, Node.prepareBuf]
    · cases found

theorem after_write (place : Place) (data : Bytes) (rest : List Call) :
    (txn.after client [.write place data]).after client rest =
      txn.after client (.write place data :: rest) := by
  have marked : (txn.after client [.write place data]).records =
      mark client.timestamp [place] txn.records := rfl
  have entries : writeEntries (mark client.timestamp [place] txn.records) rest =
      writeEntries txn.records rest := by
    unfold writeEntries
    rw [writeEntry_mark]
  rw [Txn.after, marked, readEntry_mark, time_mark, entries, mark_singleton, mark_update]
  simp [Txn.after, reads, writes, writeEntries]

/-- The calls succeed exactly when the written records are different ones and free. -/
theorem execute_eq_some :
    execute client calls txn = some next ↔ (writes calls).Nodup ∧
      (∀ place ∈ writes calls, (txn.records place).lock = 0) ∧
      next = txn.after client calls := by
  induction calls generalizing txn with
  | nil =>
      have nothing : txn.after client [] = txn := by
        have unmarked : mark client.timestamp [] txn.records = txn.records := by
          funext place
          simp [mark]
        simp [Txn.after, reads, writes, writeEntries, unmarked]
      simp [execute, writes, nothing, eq_comm]
  | cons call rest ih =>
      cases call with
      | read place =>
          rw [execute, ih, after_read]
          rfl
      | write place data =>
          have cons : writes (.write place data :: rest) = place :: writes rest := rfl
          rw [execute, cons, List.nodup_cons, List.forall_mem_cons]
          rw [write_eq]
          by_cases free : (txn.records place).lock = 0
          · rw [if_pos free]
            simp only
            rw [ih, after_write]
            have others : (∀ other ∈ writes rest,
                ((txn.after client [.write place data]).records other).lock = 0) ↔
                place ∉ writes rest ∧ ∀ other ∈ writes rest, (txn.records other).lock = 0 := by
              have locked : (txn.after client [.write place data]).records =
                  mark client.timestamp [place] txn.records := rfl
              rw [locked]
              constructor
              · intro allFree
                have absent : place ∉ writes rest := by
                  intro member
                  have lock := allFree place member
                  rw [mark_singleton, Function.update_self] at lock
                  exact client.timestamp_ne_zero lock
                refine ⟨absent, ?_⟩
                intro other member
                have different : other ≠ place := fun same => absent (same ▸ member)
                have lock := allFree other member
                rwa [mark_singleton, Function.update_of_ne different] at lock
              · rintro ⟨absent, allFree⟩ other member
                have different : other ≠ place := fun same => absent (same ▸ member)
                rw [mark_singleton, Function.update_of_ne different]
                exact allFree other member
            rw [others]
            tauto
          · simp [free]

/-- What the commit id exceeds. -/
theorem lt_foldl_time (records : Records) (start time : Nat) :
    time < calls.foldl (fun commitId call => max commitId (call.time records)) start ↔
      time < start ∨ (∃ place ∈ reads calls, time < (readEntry records place).wts) ∨
        ∃ place ∈ writes calls, time ≤ rts (records place).seq := by
  induction calls generalizing start with
  | nil => simp [reads, writes]
  | cons call rest ih =>
      rw [List.foldl_cons, ih, lt_max_iff]
      cases call with
      | read place =>
          have consReads : reads (.read place :: rest) = place :: reads rest := rfl
          have sameWrites : writes (.read place :: rest) = writes rest := rfl
          rw [consReads, sameWrites, Call.time]
          simp only [List.mem_cons, exists_eq_or_imp, or_assoc]
      | write place data =>
          have sameReads : reads (.write place data :: rest) = reads rest := rfl
          have consWrites : writes (.write place data :: rest) = place :: writes rest := rfl
          rw [sameReads, consWrites, Call.time, Nat.lt_succ_iff]
          simp only [List.mem_cons, exists_eq_or_imp]
          rw [or_assoc]
          exact or_congr_right or_left_comm

end Calls

/-! ## Renewing -/

/-- The renewal an entry asks for. -/
def ReadSetItem.renewal (commitId : Nat) (item : ReadSetItem) : Renewal :=
  ⟨item.place, item.wts, commitId⟩

theorem decode_renewItem (commitId : Nat) (item : ReadSetItem) :
    Renewal.decode (item.renewItem commitId).args = some (item.renewal commitId) := by
  simp [Renewal.decode, ReadSetItem.renewItem, ReadSetItem.renewal, placeOf]

theorem fits_renewItem {commitId : Nat} {item : ReadSetItem} (wtsFits : item.wts < commitIdBound)
    (idFits : commitId < commitIdBound) :
    rtxRenewLeaseItem.layout.Fits (item.renewItem commitId).args := by
  have pid := item.place.pid.toNat_lt
  have tableid := item.place.tableid.toNat_lt
  have key := item.place.key.toNat_lt
  simp only [commitIdBound] at wtsFits idFits
  simp only [Layout.Fits, ReadSetItem.renewItem, rtxRenewLeaseItem, List.forall₂_cons,
    List.forall₂_nil_left_iff, and_true]
  refine ⟨by omega, by omega, by omega, by omega, by omega⟩

/-- The version is the one that was read, and the lease is long enough or the record
unlocked. -/
def Renewable (node : Node Bytes) (renewal : Renewal) : Prop :=
  renewal.wts = wts node.seq ∧ (rts node.seq < renewal.commitId → node.lock = 0)

theorem renewLeaseLocal_eq_none {node : Node Bytes} {renewal : Renewal} :
    node.renewLeaseLocal renewal.wts renewal.commitId = none ↔ ¬Renewable node renewal := by
  unfold Node.renewLeaseLocal Renewable
  split
  · rename_i refused
    rw [eq_self, true_iff]
    tauto
  · rename_i passed
    split
    · simp only [reduceCtorEq, false_iff, not_not]
      tauto
    · simp only [reduceCtorEq, false_iff, not_not]
      tauto

/-- A renewal changes neither which version a record has nor whether another lease can be
renewed. -/
theorem renewable_of_renewed {node renewed : Node Bytes} {renewal : Renewal}
    (word : node.seq < wordBound) (bounded : renewal.commitId < commitIdBound)
    (success : node.renewLeaseLocal renewal.wts renewal.commitId = some renewed)
    (other : Renewal) :
    renewed.seq < wordBound ∧ (Renewable renewed other ↔ Renewable node other) := by
  rcases (Node.renewLeaseLocal_eq_some success).2 with ⟨-, rfl⟩ | ⟨-, unlocked, rfl⟩
  · exact ⟨word, Iff.rfl⟩
  · refine ⟨renewed_lt _ _, ?_⟩
    simp only [Renewable, wts_renewed_of_lt word bounded, unlocked, implies_true]

/-- All renewals of a message succeed exactly when each of them would alone. -/
theorem renewLeaseRpcHandler_all {renewals : List Renewal} {records : Records}
    (words : ∀ place, (records place).seq < wordBound)
    (bounded : ∀ renewal ∈ renewals, renewal.commitId < commitIdBound) :
    (renewLeaseRpcHandler renewals records).2.all id = true ↔
      ∀ renewal ∈ renewals, Renewable (records renewal.place) renewal := by
  induction renewals generalizing records with
  | nil => simp [renewLeaseRpcHandler]
  | cons renewal rest ih =>
      rw [List.forall_mem_cons] at bounded ⊢
      rw [renewLeaseRpcHandler]
      cases renewing : (records renewal.place).renewLeaseLocal renewal.wts renewal.commitId with
      | none => simp [renewLeaseLocal_eq_none.mp renewing]
      | some renewed =>
          have renewable : Renewable (records renewal.place) renewal := by
            by_contra refused
            rw [renewLeaseLocal_eq_none.mpr refused] at renewing
            cases renewing
          have kept := renewable_of_renewed (words _) bounded.1 renewing
          have nextWords : ∀ place,
              (Function.update records renewal.place renewed place).seq < wordBound := by
            intro place
            by_cases here : place = renewal.place
            · subst here
              rw [Function.update_self]
              exact (kept renewal).1
            · rw [Function.update_of_ne here]
              exact words place
          simp only [List.all_cons, id_eq, Bool.true_and, ih nextWords bounded.2, renewable,
            true_and]
          apply forall₂_congr
          intro other _
          by_cases here : other.place = renewal.place
          · rw [here, Function.update_self]
            exact (kept other).2
          · rw [Function.update_of_ne here]

theorem renewLeaseRpcHandler_append (front back : List Renewal) (records : Records) :
    renewLeaseRpcHandler (front ++ back) records =
      ((renewLeaseRpcHandler back (renewLeaseRpcHandler front records).1).1,
        (renewLeaseRpcHandler front records).2 ++
          (renewLeaseRpcHandler back (renewLeaseRpcHandler front records).1).2) := by
  induction front generalizing records with
  | nil => rfl
  | cons renewal rest ih =>
      rw [List.cons_append, renewLeaseRpcHandler, renewLeaseRpcHandler]
      cases (records renewal.place).renewLeaseLocal renewal.wts renewal.commitId with
      | none => simp [ih]
      | some renewed => simp [ih]

/-- The renewals a machine finds. -/
def renewalsFor (msg : Memory) (machine : Nat) : List Renewal :=
  (handled rtxRenewLeaseItem msg machine).filterMap (Renewal.decode ·.1)

/-- The machines renew what one machine would, provided each of them finds something. -/
theorem serveRenewals_eq (msg : Memory) (order : List Nat) (records : Records) :
    serveRenewals msg order records =
      if ∃ machine ∈ order, handled rtxRenewLeaseItem msg machine = [] then
        none
      else
        some (renewLeaseRpcHandler (order.flatMap (renewalsFor msg)) records) := by
  induction order generalizing records with
  | nil => simp [serveRenewals, renewLeaseRpcHandler]
  | cons machine rest ih =>
      simp only [serveRenewals, ih]
      by_cases empty : handled rtxRenewLeaseItem msg machine = []
      · simp [empty]
      · simp only [empty, if_false, List.mem_cons, exists_eq_or_imp, false_or]
        split
        · rfl
        · rw [List.flatMap_cons, renewLeaseRpcHandler_append]
          rfl

/-- Every machine that is asked for a renewal finds one, and every lease the handlers look at
can be renewed. -/
def Renews (records : Records) (commitId : Nat) (items : List ReadSetItem) : Prop :=
  (∀ item ∈ items, ∃ other ∈ looked items, other.place.pid = item.place.pid) ∧
    ∀ item ∈ looked items, Renewable (records item.place) (item.renewal commitId)

/-- When a message succeeds. -/
theorem serveRenewals_eq_true {items : List ReadSetItem} {commitId : Nat} {records : Records}
    (words : ∀ place, (records place).seq < wordBound)
    (wtsFit : ∀ item ∈ items, item.wts < commitIdBound) (idFits : commitId < commitIdBound)
    (delivery : Delivery (items.map (ReadSetItem.renewItem commitId))) {msg : Memory}
    (sent : delivery.message = some msg) :
    (∃ after statuses, serveRenewals msg delivery.order records = some (after, statuses) ∧
        statuses.all id = true) ↔ Renews records commitId items := by
  have fits : ∀ one ∈ items.map (ReadSetItem.renewItem commitId),
      rtxRenewLeaseItem.layout.Fits one.args := by
    rw [List.forall_mem_map]
    exact fun item member => fits_renewItem (wtsFit item member) idFits
  -- what the machines find, together and each alone
  have perm := (delivery.perm_handled rfl sent fits).filterMap (Renewal.decode ·.1)
  have each := delivery.handled_eq rfl sent fits
  rw [List.length_map, ← List.map_take, List.map_map, List.filterMap_map,
    List.filterMap_flatMap] at perm
  simp only [Function.comp_def, Item.content, decode_renewItem] at perm
  have found : (delivery.order.flatMap (renewalsFor msg)).Perm
      ((looked items).map (ReadSetItem.renewal commitId)) := by
    refine perm.trans ?_
    rw [← List.filterMap_eq_map]
    rfl
  have idle : (∃ machine ∈ delivery.order, handled rtxRenewLeaseItem msg machine = []) ↔
      ¬∀ item ∈ items, ∃ other ∈ looked items, other.place.pid = item.place.pid := by
    rw [List.length_map, ← List.map_take] at each
    push Not
    constructor
    · rintro ⟨machine, inOrder, empty⟩
      obtain ⟨one, member, isMachine⟩ := (delivery.mem_order machine).mp inOrder
      obtain ⟨item, inItems, rfl⟩ := List.mem_map.mp member
      refine ⟨item, inItems, ?_⟩
      intro other isLooked samePid
      rw [each, List.map_eq_nil_iff, List.filter_eq_nil_iff] at empty
      apply empty (other.renewItem commitId) (List.mem_map_of_mem isLooked)
      have otherPid : (other.renewItem commitId).pid = other.place.pid.toNat := rfl
      rw [decide_eq_true_eq, otherPid, samePid]
      exact isMachine
    · rintro ⟨item, member, unanswered⟩
      refine ⟨item.place.pid.toNat, ?_, ?_⟩
      · rw [delivery.mem_order]
        exact ⟨_, List.mem_map_of_mem member, rfl⟩
      · rw [each, List.map_eq_nil_iff, List.filter_eq_nil_iff, List.forall_mem_map]
        intro other isLooked samePid
        rw [decide_eq_true_eq] at samePid
        exact unanswered other isLooked (UInt8.toNat_inj.mp samePid)
  have bounded : ∀ renewal ∈ delivery.order.flatMap (renewalsFor msg),
      renewal.commitId < commitIdBound := by
    intro renewal member
    rw [found.mem_iff] at member
    obtain ⟨item, -, rfl⟩ := List.mem_map.mp member
    exact idFits
  have all := renewLeaseRpcHandler_all words bounded
  simp only [found.mem_iff, List.forall_mem_map] at all
  simp only [serveRenewals_eq, idle]
  split
  · rename_i unanswered
    constructor
    · rintro ⟨after, statuses, impossible, -⟩
      cases impossible
    · intro condition
      exact absurd condition.1 unanswered
  · rename_i answered
    rw [not_not] at answered
    constructor
    · rintro ⟨after, statuses, isReply, success⟩
      rw [Option.some.injEq] at isReply
      rw [isReply] at all
      exact ⟨answered, all.mp success⟩
    · intro condition
      exact ⟨_, _, rfl, all.mpr condition.2⟩

/-- The renewal succeeds exactly when no due lease is that of a local record and the message for
them succeeds. -/
theorem tryRenewAllLeaseRpc_eq_true {client : Client} {txn : Txn}
    (words : ∀ place, (txn.records place).seq < wordBound)
    (wtsFit : ∀ item ∈ txn.due, item.wts < commitIdBound) (idFits : txn.commitId < commitIdBound)
    (delivery : Delivery ((client.remote txn.due).map (ReadSetItem.renewItem txn.commitId))) :
    (∃ after, tryRenewAllLeaseRpc client txn delivery = some (after, true)) ↔
      (∀ item ∈ txn.due, ¬client.Local item) ∧ Renews txn.records txn.commitId txn.due := by
  unfold tryRenewAllLeaseRpc
  by_cases someLocal : ∃ item ∈ txn.due, client.Local item
  · rw [if_pos someLocal]
    obtain ⟨item, member, isLocal⟩ := someLocal
    constructor
    · rintro ⟨after, impossible⟩
      cases impossible
    · intro condition
      exact absurd isLocal (condition.1 item member)
  · rw [if_neg someLocal]
    have allRemote : ∀ item ∈ txn.due, ¬client.Local item := fun item member isLocal =>
      someLocal ⟨item, member, isLocal⟩
    have remoteEq : client.remote txn.due = txn.due := by
      rw [Client.remote, List.filter_eq_self]
      simpa using allRemote
    cases sent : delivery.message with
    | none =>
        have empty := List.map_eq_nil_iff.mp (eq_nil_of_sendBatchOp sent)
        rw [remoteEq] at empty
        simp [empty, looked, Renews]
    | some msg =>
        have remoteFit : ∀ item ∈ client.remote txn.due, item.wts < commitIdBound := by
          rw [remoteEq]
          exact wtsFit
        have served := serveRenewals_eq_true words remoteFit idFits delivery sent
        have sameItems : Renews txn.records txn.commitId (client.remote txn.due) ↔
            Renews txn.records txn.commitId txn.due := by
          rw [remoteEq]
        simp only [Option.map_eq_some_iff, Prod.mk.injEq]
        constructor
        · rintro ⟨after, ⟨records, statuses⟩, isReply, -, success⟩
          exact ⟨allRemote, sameItems.mp (served.mp ⟨records, statuses, isReply, success⟩)⟩
        · rintro ⟨-, renews⟩
          obtain ⟨records, statuses, isReply, success⟩ := served.mpr (sameItems.mpr renews)
          exact ⟨records, (records, statuses), isReply, rfl, success⟩

/-! ## The whole transaction -/

section Commit

variable (client : Client) (database : Database) (calls : List Call)

/-- The transaction before `commit`. -/
def executed : Txn := (begin client database).after client calls

variable {client database calls}

theorem wts_lt (word : Nat) : wts word < timestampBound := by
  rw [wts_eq]
  exact Nat.mod_lt _ (by decide)

theorem readEntry_wts_lt (records : Records) (place : Place) :
    (readEntry records place).wts < timestampBound := by
  unfold readEntry
  split
  · exact Nat.two_pow_pos 31
  · exact wts_lt _

/-- The commit id exceeds a time exactly when it was left so by earlier transactions or raised
so by a call. -/
theorem lt_commitId_iff (time : Nat) :
    time < (executed client database calls).commitId ↔
      time < client.commitId ∨
        (∃ place ∈ reads calls, time < (readEntry database.record place).wts) ∨
        ∃ place ∈ writes calls, time ≤ rts (database.record place).seq :=
  lt_foldl_time database.record client.commitId time

/-- The commit id stays a 32-bit word. -/
theorem commitId_lt : (executed client database calls).commitId < commitIdBound := by
  by_contra large
  rw [not_lt] at large
  have before : commitIdBound - 1 < (executed client database calls).commitId :=
    lt_of_lt_of_le (by decide) large
  have bounds : timestampBound < commitIdBound - 1 := by decide
  rcases (lt_commitId_iff _).mp before with left | ⟨place, -, read⟩ | ⟨place, -, write⟩
  · have small := client.commitId_lt
    omega
  · have small := readEntry_wts_lt database.record place
    omega
  · have small := rts_lt (database.record place).seq
    omega

theorem readSet_executed : (executed client database calls).readSet =
    (reads calls).map (readEntry database.record) := rfl

/-- The due leases are those that a timestamp outlived. -/
theorem due_executed :
    (executed client database calls).due = outlived client database calls := by
  rw [Txn.due, readSet_executed, outlived]
  apply List.filter_congr
  intro item _
  rw [decide_eq_decide]
  exact lt_commitId_iff item.rts

/-- With its locks, the transaction can renew exactly the leases of current versions on records
it has not locked. -/
theorem renewable_executed (item : ReadSetItem) :
    Renewable ((executed client database calls).records item.place)
        (item.renewal (executed client database calls).commitId) ↔
      item.wts = wts (database.record item.place).seq ∧ item.place ∉ writes calls := by
  have marked : (executed client database calls).records =
      mark client.timestamp (writes calls) database.record := rfl
  rw [Renewable, marked, mark_seq]
  apply and_congr_right
  intro _
  by_cases written : item.place ∈ writes calls
  · have raised : rts (database.record item.place).seq <
        (executed client database calls).commitId :=
      (lt_commitId_iff _).mpr (.inr (.inr ⟨item.place, written, le_refl _⟩))
    simp only [ReadSetItem.renewal, raised, mark, written, if_true, true_imp_iff, not_true_eq_false,
      iff_false]
    exact client.timestamp_ne_zero
  · simp [mark, written, database.unlocked]

/-- `commit` returns true exactly when the renewal succeeds. -/
theorem commit_eq_true {txn : Txn} (schedule : Schedule client txn) :
    (∃ after, commit client txn schedule = some (true, after)) ↔
      ∃ after, tryRenewAllLeaseRpc client txn schedule.renew = some (after, true) := by
  unfold commit
  constructor
  · rintro ⟨after, committed⟩
    obtain ⟨⟨records, success⟩, renewed, isReply⟩ := Option.map_eq_some_iff.mp committed
    cases success with
    | true => exact ⟨records, renewed⟩
    | false => simp at isReply
  · rintro ⟨records, renewed⟩
    rw [renewed]
    exact ⟨_, rfl⟩

/-- Every message taken in the order in which its items stand. -/
def Schedule.inOrder (client : Client) (txn : Txn) : Schedule client txn where
  renew := .inOrder _
  update := .inOrder _
  release := .inOrder _
  again := .inOrder _

/-- When the calls succeed, `commit` does exactly if the leases stand in no way. -/
theorem commit_executed (schedule : Schedule client (executed client database calls)) :
    (∃ after, commit client (executed client database calls) schedule = some (true, after)) ↔
      (∀ item ∈ outlived client database calls, ¬client.Local item) ∧
      (∀ item ∈ outlived client database calls,
        ∃ other ∈ seen client database calls, other.place.pid = item.place.pid) ∧
      ∀ item ∈ seen client database calls,
        item.wts = wts (database.record item.place).seq ∧ item.place ∉ writes calls := by
  have words : ∀ place, ((executed client database calls).records place).seq < wordBound := by
    intro place
    have marked : (executed client database calls).records =
        mark client.timestamp (writes calls) database.record := rfl
    rw [marked, mark_seq]
    exact database.word place
  have wtsFit : ∀ item ∈ (executed client database calls).due, item.wts < commitIdBound := by
    intro item member
    rw [Txn.due, readSet_executed] at member
    obtain ⟨place, -, rfl⟩ := List.mem_map.mp (List.mem_filter.mp member).1
    exact (readEntry_wts_lt _ _).trans (by decide)
  rw [commit_eq_true, tryRenewAllLeaseRpc_eq_true words wtsFit commitId_lt, due_executed]
  simp only [Renews, renewable_executed]
  rfl

/-- Calls that succeed leave the commit id where it should be. -/
theorem bounds_executed :
    (∀ item ∈ (executed client database calls).readSet,
      item.wts ≤ (executed client database calls).commitId) ∧
    ∀ item ∈ (executed client database calls).writeSet,
      rts (database.record item.place).seq < (executed client database calls).commitId := by
  constructor
  · rw [readSet_executed, List.forall_mem_map]
    intro place member
    by_contra large
    have raised : (executed client database calls).commitId <
        (executed client database calls).commitId :=
      (lt_commitId_iff _).mpr (.inr (.inl ⟨place, member, not_le.mp large⟩))
    exact lt_irrefl _ raised
  · have entries : (executed client database calls).writeSet =
        writeEntries database.record calls := rfl
    rw [entries]
    intro item member
    obtain ⟨call, inCalls, isEntry⟩ := List.mem_filterMap.mp member
    cases call with
    | read place => cases isEntry
    | write place data =>
        rw [Option.some.injEq] at isEntry
        subst isEntry
        have written : place ∈ writes calls := List.mem_filterMap.mpr ⟨_, inCalls, rfl⟩
        exact (lt_commitId_iff _).mpr (.inr (.inr ⟨place, written, le_refl _⟩))

/-- The calls succeed exactly when no record is written twice. -/
theorem execute_begin (txn : Txn) :
    execute client calls (begin client database) = some txn ↔
      (writes calls).Nodup ∧ txn = executed client database calls := by
  rw [execute_eq_some]
  constructor
  · rintro ⟨once, -, txnIs⟩
    exact ⟨once, txnIs⟩
  · rintro ⟨once, txnIs⟩
    exact ⟨once, fun place _ => database.unlocked place, txnIs⟩

/-- A transaction that commits does not stand in its own way. -/
theorem CommitsAlone.unhindered (commits : CommitsAlone client database calls) :
    Unhindered client database calls := by
  obtain ⟨txn, succeeded, committed, -⟩ := commits
  obtain ⟨once, rfl⟩ := (execute_begin txn).mp succeeded
  obtain ⟨remote, answered, free⟩ := (commit_executed _).mp (committed (.inOrder _ _))
  exact ⟨once, remote, fun item member => (free item member).1,
    fun item member => (free item member).2, answered⟩

/-- A transaction that does not stand in its own way commits. -/
theorem Unhindered.commits (unhindered : Unhindered client database calls) :
    CommitsAlone client database calls := by
  refine ⟨_, (execute_begin _).mpr ⟨unhindered.once, rfl⟩, ?_, bounds_executed⟩
  intro schedule
  exact (commit_executed schedule).mpr ⟨unhindered.remote, unhindered.answered,
    fun item member => ⟨unhindered.current item member, unhindered.apart item member⟩⟩

end Commit

/-- A database as it is loaded. -/
def loaded : Database where
  record _ := .initial []
  word _ := by decide
  unlocked _ := rfl

/-- A client for which every record is remote. -/
def remoteClient : Client where
  nodeId := -1
  timestamp := 1
  timestamp_ne_zero := by decide
  commitId := 0
  commitId_lt := by decide

end Rocc.Sundial.Solo
