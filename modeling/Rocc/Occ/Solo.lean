import Mathlib.Data.List.Count
import Rocc.Rtx.Batch
import Rocc.Rtx.Record

/-!
# A transaction of `OCC` with no other beside it

`OCC::commit` with the loops of the client and of the handlers.  A local record is reached
through the node in its entry, in the loop of the client; a remote one through the messages
of `Rtx.Batch`, which the servers take in any order.

No transaction runs beside this one, so a phase is one function on the records.
`log_remote` does not touch them and is left out, as is two-phase commit, which is not
compiled in.
-/

set_option linter.unusedSectionVars false

namespace Rocc.Occ.Solo

open Rtx Rtx.Batch Memory

universe u

variable {Value : Type u}

/-! ## Data -/

/-- `ReadSetItem`: the record, the sequence word loaded for it and the current contents of
`data_ptr`. -/
structure ReadSetItem (Value : Type u) where
  place : Place
  seq : Nat
  data : Value
  deriving DecidableEq, Repr

/-- The records of all machines. -/
abbrev Records (Value : Type u) := Place → Record Value

/-- A database where no record is locked. -/
structure Database (Value : Type u) where
  record : Records Value
  word : ∀ place, (record place).seq < wordBound
  unlocked : ∀ place, (record place).lock = 0

/-- `max_size` of a vector of `ReadSetItem`, which has 48 bytes. -/
def maxSize : Nat := (2 ^ 63 - 1) / 48

/-- The sets of a transaction that has loaded its records. -/
structure Txn (database : Database Value) where
  readSet : List (ReadSetItem Value)
  writeSet : List (ReadSetItem Value)
  loaded : ∀ item ∈ readSet ++ writeSet, item.seq = (database.record item.place).seq
  bounded : writeSet.length ≤ maxSize

/-- `node_id_`, which is -1 when every record counts as remote, and the lock content of the
coroutine. -/
structure Config where
  nodeId : Int
  lockContent : Nat
  lockContent_ne_zero : lockContent ≠ 0

/-- `pid == node_id_`. -/
def Config.Local (config : Config) (item : ReadSetItem Value) : Prop :=
  (item.place.pid.toNat : Int) = config.nodeId

instance (config : Config) (item : ReadSetItem Value) : Decidable (config.Local item) :=
  inferInstanceAs (Decidable (_ = _))

/-- The remote entries of a set, which go into a message. -/
def Config.remote (config : Config) (set : List (ReadSetItem Value)) :
    List (ReadSetItem Value) :=
  set.filter fun item => ¬config.Local item

/-- The `RtxLockItem` of an entry; its `index` is -1. -/
def ReadSetItem.lockItem (item : ReadSetItem Value) : Item rtxLockItem where
  args := [item.place.pid.toNat, item.place.tableid.toNat, item.place.key.toNat, item.seq,
    wordBound - 1]
  payload := []
  arity := rfl
  sized := List.length_nil

/-- A delivery of the items of some entries. -/
abbrev Delivers (items : List (ReadSetItem Value)) : Type :=
  Delivery (items.map ReadSetItem.lockItem)

/-! ## The servers -/

/-- Record and sequence word of an `RtxLockItem`. -/
def decode : List Nat → Option (Place × Nat)
  | [pid, tableid, key, seq, _] =>
      some (⟨UInt8.ofNat pid, UInt8.ofNat tableid, UInt64.ofNat key⟩, seq)
  | _ => none

/-- The items of a message for a machine. -/
def itemsFor (msg : Memory) (machine : Nat) : List (Place × Nat) :=
  (handled rtxLockItem msg machine).filterMap fun item => decode item.1

/-- `lock_rpc_handler` over its items; the flag is false for `LOCK_FAIL_MAGIC`. -/
def lockRpcHandler (lockContent : Nat) :
    List (Place × Nat) → Records Value → Records Value × Bool
  | [], records => (records, true)
  | (place, seq) :: rest, records =>
      match (records place).localTryLockOp lockContent with
      | none => (records, false)
      | some locked =>
          let records := Function.update records place locked
          if locked.seq = seq then lockRpcHandler lockContent rest records else (records, false)

/-- `validate_rpc_handler`. -/
def validateRpcHandler (items : List (Place × Nat)) (records : Records Value) :
    Records Value × Bool :=
  (records, items.all fun item => (records item.1).localValidateOp item.2)

/-- `release_rpc_handler`; its reply is a dummy. -/
def releaseRpcHandler (lockContent : Nat) (items : List (Place × Nat))
    (records : Records Value) : Records Value × Bool :=
  (items.foldl (fun records item =>
    Function.update records item.1 ((records item.1).localTryReleaseOp lockContent)) records,
    true)

/-- `commit_oneshot_handler`. -/
def commitOneshotHandler (records : Records Value) (item : ReadSetItem Value) :
    Records Value :=
  Function.update records item.place
    ((records item.place).inplaceWriteOp item.data noCommitId)

/-- The machines take a message one after the other; the flag tells whether no reply is
`LOCK_FAIL_MAGIC`. -/
def serve (handler : List (Place × Nat) → Records Value → Records Value × Bool)
    (msg : Memory) : List Nat → Records Value → Records Value × Bool
  | [], records => (records, true)
  | machine :: rest, records =>
      let reply := handler (itemsFor msg machine) records
      let others := serve handler msg rest reply.1
      (others.1, reply.2 && others.2)

/-- `send_batch_rpc_op` and the look at the replies; an empty batch is not sent. -/
def exchange (handler : List (Place × Nat) → Records Value → Records Value × Bool)
    {items : List (ReadSetItem Value)} (delivery : Delivers items) (records : Records Value) :
    Records Value × Bool :=
  match delivery.message with
  | none => (records, true)
  | some msg => serve handler msg delivery.order records

/-! ## The client -/

/-- Local records in the loop of `lock_writes`. -/
def lockLocal (config : Config) :
    List (ReadSetItem Value) → Records Value → Records Value × Bool
  | [], records => (records, true)
  | item :: rest, records =>
      if config.Local item then
        match (records item.place).localTryLockOp config.lockContent with
        | none => (records, false)
        | some locked =>
            let records := Function.update records item.place locked
            if locked.localValidateOp item.seq then
              lockLocal config rest records
            else
              (records, false)
      else
        lockLocal config rest records

/-- `lock_writes`; when it fails at a local record, the batch is not sent. -/
def lockWrites (config : Config) (set : List (ReadSetItem Value))
    (delivery : Delivers (config.remote set)) (records : Records Value) :
    Records Value × Bool :=
  let client := lockLocal config set records
  if client.2 then
    exchange (lockRpcHandler config.lockContent) delivery client.1
  else
    client

/-- `validate_reads`. -/
def validateReads (config : Config) (set : List (ReadSetItem Value))
    (delivery : Delivers (config.remote set)) (records : Records Value) : Bool :=
  set.all (fun item =>
    !(decide (config.Local item)) || (records item.place).localValidateOp item.seq) &&
  (exchange validateRpcHandler delivery records).2

/-- Local records in the loop of `release_writes`. -/
def releaseLocal (config : Config) (set : List (ReadSetItem Value)) (records : Records Value) :
    Records Value :=
  set.foldl (fun records item =>
    if config.Local item then
      Function.update records item.place
        ((records item.place).localTryReleaseOp config.lockContent)
    else
      records) records

/-- `release_writes`. -/
def releaseWrites (config : Config) (set : List (ReadSetItem Value))
    (delivery : Delivers (config.remote set)) (records : Records Value) : Records Value :=
  (exchange (releaseRpcHandler config.lockContent) delivery (releaseLocal config set records)).1

/-- `sizeof(RdmaValHeader)`. -/
def headerSize : Nat := 16

/-- The default of the parameter `meta` of `inplace_write_op` on a node. -/
def defaultMeta : Nat := 0

/-- `inplace_write_op` on a node with its assertion on `meta`. -/
def inplaceWriteNode (record : Record Value) (value : Value) (metaLen : Nat) :
    Option (Record Value) :=
  if headerSize ≤ metaLen then some (record.inplaceWriteOp value noCommitId) else none

/-- Local records in the loop of `write_back_oneshot`. -/
def writeBackLocal (config : Config) :
    List (ReadSetItem Value) → Records Value → Option (Records Value)
  | [], records => some records
  | item :: rest, records =>
      if config.Local item then
        match inplaceWriteNode (records item.place) item.data defaultMeta with
        | none => none
        | some written =>
            writeBackLocal config rest (Function.update records item.place written)
      else
        writeBackLocal config rest records

/-- `write_back_oneshot`, with the order in which its messages are taken; no result stands for
a failed assertion. -/
def writeBackOneshot (config : Config) (set order : List (ReadSetItem Value))
    (records : Records Value) : Option (Records Value) :=
  (writeBackLocal config set records).map fun records => order.foldl commitOneshotHandler records

variable {database : Database Value}

/-- Deliveries of all phases of a transaction; every record that is written back has a
message of its own. -/
structure Schedule (config : Config) (txn : Txn database) where
  lock : Delivers (config.remote txn.writeSet)
  validate : Delivers (config.remote txn.readSet)
  release : Delivers (config.remote txn.writeSet)
  commit : List (ReadSetItem Value)
  commit_perm : commit.Perm (config.remote txn.writeSet)

/-- `OCC::commit`: what it returns, and the records after it. -/
def commit (config : Config) (txn : Txn database) (schedule : Schedule config txn) :
    Option (Bool × Records Value) :=
  let locking := lockWrites config txn.writeSet schedule.lock database.record
  if locking.2 && validateReads config txn.readSet schedule.validate locking.1 then
    (writeBackOneshot config txn.writeSet schedule.commit locking.1).map (true, ·)
  else
    some (false, releaseWrites config txn.writeSet schedule.release locking.1)

/-! ## What a transaction is promised -/

/-- Whatever the order of the messages, `commit` returns true with every value installed,
every sequence word of a written record advanced by 2, and no record locked. -/
def CommitsAlone (config : Config) (txn : Txn database) : Prop :=
  ∀ schedule : Schedule config txn, ∃ after,
    commit config txn schedule = some (true, after) ∧
    (∀ item ∈ txn.writeSet, (after item.place).value = item.data ∧
      (after item.place).seq = ((database.record item.place).seq + 2) % wordBound) ∧
    ∀ place, (after place).lock = 0

/-- The entries of a message the handlers look at; these are all of them when there are at
most 127. -/
def Config.seen (config : Config) (set : List (ReadSetItem Value)) :
    List (ReadSetItem Value) :=
  (config.remote set).take (turns (config.remote set).length)

/-- The transaction does not stand in its own way: it writes no local record, no record twice, and
reads no record that it has locked. -/
structure Unhindered (config : Config) (txn : Txn database) : Prop where
  remote : ∀ item ∈ txn.writeSet, ¬config.Local item
  once : (txn.writeSet.map ReadSetItem.place).Nodup
  apart : ∀ read ∈ config.seen txn.readSet, ∀ write ∈ config.seen txn.writeSet,
    read.place ≠ write.place

/-! ## Messages -/

/-- What a server reads of an entry. -/
def ReadSetItem.request (item : ReadSetItem Value) : Place × Nat := (item.place, item.seq)

theorem fits_lockItem {item : ReadSetItem Value} (word : item.seq < wordBound) :
    rtxLockItem.layout.Fits item.lockItem.args := by
  have pid := item.place.pid.toNat_lt
  have tableid := item.place.tableid.toNat_lt
  have key := item.place.key.toNat_lt
  simp only [Layout.Fits, ReadSetItem.lockItem, rtxLockItem, List.forall₂_cons,
    List.forall₂_nil_left_iff, and_true]
  refine ⟨by omega, by omega, by omega, ?_, by decide⟩
  exact word

theorem decode_lockItem (item : ReadSetItem Value) :
    decode item.lockItem.args = some item.request := by
  simp [decode, ReadSetItem.lockItem, ReadSetItem.request]

/-- All machines together find every entry they look at, each once. -/
theorem perm_itemsFor {items : List (ReadSetItem Value)} (delivery : Delivers items)
    {msg : Memory} (words : ∀ item ∈ items, item.seq < wordBound)
    (sent : delivery.message = some msg) :
    (delivery.order.flatMap (itemsFor msg)).Perm
      ((items.take (turns items.length)).map ReadSetItem.request) := by
  have all := (delivery.perm_handled rfl sent
    (by simpa using fun item member => fits_lockItem (words item member))).filterMap
      fun item => decode item.1
  rw [List.length_map, ← List.map_take, List.map_map, List.filterMap_map,
    List.filterMap_flatMap] at all
  simp only [Function.comp_def, Item.content, decode_lockItem] at all
  refine all.trans ?_
  rw [← List.filterMap_eq_map]
  rfl

/-! ## Locking -/

/-- The records after some of them were locked. -/
def mark (lockContent : Nat) (places : List Place) (records : Records Value) : Records Value :=
  fun place =>
    if place ∈ places then { records place with lock := lockContent } else records place

/-- Locking one record and then others locks them all. -/
theorem mark_update (lockContent : Nat) (place : Place) (places : List Place)
    (records : Records Value) :
    mark lockContent places
        (Function.update records place { records place with lock := lockContent }) =
      mark lockContent (place :: places) records := by
  funext other
  unfold mark
  by_cases here : other = place
  · subst here
    simp
  · rw [Function.update_of_ne here]
    simp only [List.mem_cons, here, false_or]

/-- Every requested record is free and as it was loaded. -/
def Free (records : Records Value) (items : List (Place × Nat)) : Prop :=
  ∀ item ∈ items, (records item.1).lock = 0 ∧ (records item.1).seq = item.2

theorem lockRpcHandler_append {lockContent : Nat} {front back : List (Place × Nat)}
    {records after : Records Value} :
    lockRpcHandler lockContent (front ++ back) records = (after, true) ↔
      ∃ between, lockRpcHandler lockContent front records = (between, true) ∧
        lockRpcHandler lockContent back between = (after, true) := by
  induction front generalizing records with
  | nil => simp [lockRpcHandler]
  | cons item rest ih =>
      obtain ⟨place, seq⟩ := item
      rw [List.cons_append, lockRpcHandler, lockRpcHandler]
      cases (records place).localTryLockOp lockContent with
      | none => simp
      | some locked =>
          by_cases same : locked.seq = seq
          · simp only [if_pos same]
            exact ih
          · simp [if_neg same]

/-- A lock message succeeds exactly when its records are different ones, free and as they were
loaded. -/
theorem lockRpcHandler_eq_true {lockContent : Nat} (content : lockContent ≠ 0)
    {items : List (Place × Nat)} {records after : Records Value} :
    lockRpcHandler lockContent items records = (after, true) ↔
      (items.map Prod.fst).Nodup ∧ Free records items ∧
        after = mark lockContent (items.map Prod.fst) records := by
  induction items generalizing records with
  | nil =>
      have nothing : mark lockContent [] records = records := by
        funext place
        simp [mark]
      simp [lockRpcHandler, Free, nothing, eq_comm]
  | cons item rest ih =>
      obtain ⟨place, seq⟩ := item
      rw [lockRpcHandler, Record.localTryLockOp]
      by_cases taken : (records place).lock = 0
      · rw [if_neg (not_not.mpr taken)]
        simp only
        by_cases same : (records place).seq = seq
        · rw [if_pos same, ih, mark_update, List.map_cons, List.nodup_cons]
          have others : (place ∉ rest.map Prod.fst ∧ Free records rest) ↔
              Free (Function.update records place { records place with lock := lockContent })
                rest := by
            constructor
            · rintro ⟨absent, free⟩ item member
              have different : item.1 ≠ place := by
                rintro rfl
                exact absent (List.mem_map_of_mem member)
              rw [Function.update_of_ne different]
              exact free item member
            · intro free
              have different : ∀ item ∈ rest, item.1 ≠ place := by
                rintro item member rfl
                have unlocked := (free item member).1
                rw [Function.update_self] at unlocked
                exact content unlocked
              constructor
              · intro member
                obtain ⟨item, inRest, isPlace⟩ := List.mem_map.mp member
                exact different item inRest isPlace
              · intro item member
                have found := free item member
                rwa [Function.update_of_ne (different item member)] at found
          rw [← others]
          have head : Free records ((place, seq) :: rest) ↔ Free records rest := by
            simp [Free, taken, same]
          rw [head]
          tauto
        · simp [taken, same, Free]
      · simp [taken, Free]

/-- The machines succeed exactly when one machine would with all their items. -/
theorem serve_lock {lockContent : Nat} {msg : Memory} {order : List Nat}
    {records after : Records Value} :
    serve (lockRpcHandler lockContent) msg order records = (after, true) ↔
      lockRpcHandler lockContent (order.flatMap (itemsFor msg)) records = (after, true) := by
  induction order generalizing records with
  | nil => rfl
  | cons machine rest ih =>
      rw [List.flatMap_cons, lockRpcHandler_append]
      simp only [serve, Prod.mk.injEq, Bool.and_eq_true]
      constructor
      · rintro ⟨afterIs, first, others⟩
        exact ⟨_, Prod.ext rfl first, ih.mp (Prod.ext afterIs others)⟩
      · rintro ⟨between, first, others⟩
        have restOk := ih.mpr others
        simp only [first, restOk, and_self]

/-- The lock phase of a batch. -/
theorem exchange_lock {lockContent : Nat} (content : lockContent ≠ 0)
    {items : List (ReadSetItem Value)} (delivery : Delivers items)
    (words : ∀ item ∈ items, item.seq < wordBound) {records after : Records Value} :
    exchange (lockRpcHandler lockContent) delivery records = (after, true) ↔
      ((items.take (turns items.length)).map ReadSetItem.place).Nodup ∧
      Free records ((items.take (turns items.length)).map ReadSetItem.request) ∧
      after = mark lockContent ((items.take (turns items.length)).map ReadSetItem.place)
        records := by
  rw [exchange]
  cases sent : delivery.message with
  | none =>
      have empty := List.map_eq_nil_iff.mp (eq_nil_of_sendBatchOp sent)
      have nothing : mark lockContent [] records = records := by
        funext place
        simp [mark]
      simp [empty, Free, nothing, eq_comm]
  | some msg =>
      have perm := perm_itemsFor delivery words sent
      have places := perm.map Prod.fst
      rw [List.map_map] at places
      have asPlaces : (items.take (turns items.length)).map
          (Prod.fst ∘ ReadSetItem.request) =
          (items.take (turns items.length)).map ReadSetItem.place := rfl
      rw [asPlaces] at places
      simp only
      rw [serve_lock, lockRpcHandler_eq_true content, places.nodup_iff]
      have sameFree : Free records (delivery.order.flatMap (itemsFor msg)) ↔
          Free records ((items.take (turns items.length)).map ReadSetItem.request) := by
        simp only [Free, perm.mem_iff]
      have sameMark : mark lockContent ((delivery.order.flatMap (itemsFor msg)).map Prod.fst)
          records = mark lockContent
            ((items.take (turns items.length)).map ReadSetItem.place) records := by
        funext place
        simp only [mark, places.mem_iff]
      rw [sameFree, sameMark]

/-- Without local records the loop of the client does nothing. -/
theorem lockLocal_remote {config : Config} {set : List (ReadSetItem Value)}
    (remote : ∀ item ∈ set, ¬config.Local item) (records : Records Value) :
    lockLocal config set records = (records, true) := by
  induction set with
  | nil => rfl
  | cons item rest ih =>
      rw [List.forall_mem_cons] at remote
      rw [lockLocal, if_neg remote.1, ih remote.2]

/-- A local record fails: the lock that was just taken is what the comparison of the
sequence words stumbles over. -/
theorem lockLocal_local {config : Config} {set : List (ReadSetItem Value)}
    {item : ReadSetItem Value} (member : item ∈ set) (isLocal : config.Local item)
    (records : Records Value) : (lockLocal config set records).2 = false := by
  induction set generalizing records with
  | nil => cases member
  | cons head rest ih =>
      rw [lockLocal]
      by_cases headLocal : config.Local head
      · rw [if_pos headLocal, Record.localTryLockOp]
        split
        · rfl
        · rename_i locked found
          have content : locked.lock = config.lockContent := by
            split at found
            · cases found
            · rw [Option.some.injEq] at found
              rw [← found]
          simp [Record.localValidateOp, content, config.lockContent_ne_zero]
      · rw [if_neg headLocal]
        rcases List.mem_cons.mp member with rfl | inRest
        · exact absurd isLocal headLocal
        · exact ih inRest records

/-! ## Validating -/

theorem serve_validate (msg : Memory) (order : List Nat) (records : Records Value) :
    serve validateRpcHandler msg order records =
      (records, (order.flatMap (itemsFor msg)).all fun item =>
        (records item.1).localValidateOp item.2) := by
  induction order with
  | nil => rfl
  | cons machine rest ih =>
      simp only [serve, validateRpcHandler, List.flatMap_cons, List.all_append] at ih ⊢
      rw [ih]

/-- The validation phase of a batch. -/
theorem exchange_validate {items : List (ReadSetItem Value)} (delivery : Delivers items)
    (words : ∀ item ∈ items, item.seq < wordBound) (records : Records Value) :
    (exchange validateRpcHandler delivery records).2 = true ↔
      ∀ item ∈ items.take (turns items.length),
        (records item.place).localValidateOp item.seq = true := by
  rw [exchange]
  cases sent : delivery.message with
  | none =>
      have empty := List.map_eq_nil_iff.mp (eq_nil_of_sendBatchOp sent)
      simp [empty]
  | some msg =>
      have perm := perm_itemsFor delivery words sent
      simp only [serve_validate, List.all_eq_true, perm.mem_iff, List.forall_mem_map]
      rfl

/-- After the lock phase of this transaction an entry validates exactly when its record is not
locked by it. -/
theorem validate_mark {config : Config} {txn : Txn database} {item : ReadSetItem Value}
    (member : item ∈ txn.readSet) (places : List Place) :
    (mark config.lockContent places database.record item.place).localValidateOp item.seq = true ↔
      item.place ∉ places := by
  have loaded := txn.loaded item (List.mem_append_left _ member)
  have unlocked := database.unlocked item.place
  unfold mark
  split
  · rename_i locked
    simp [Record.localValidateOp, locked, config.lockContent_ne_zero]
  · rename_i notLocked
    simp [Record.localValidateOp, loaded, unlocked, notLocked]

/-! ## Writing back -/

theorem writeBackLocal_remote {config : Config} {set : List (ReadSetItem Value)}
    (remote : ∀ item ∈ set, ¬config.Local item) (records : Records Value) :
    writeBackLocal config set records = some records := by
  induction set with
  | nil => rfl
  | cons item rest ih =>
      rw [List.forall_mem_cons] at remote
      rw [writeBackLocal, if_neg remote.1, ih remote.2]

/-- Every message for a record advances its sequence word by 2. -/
theorem foldl_commit_seq {items : List (ReadSetItem Value)} {records : Records Value}
    {place : Place} (word : (records place).seq < wordBound) :
    ((items.foldl commitOneshotHandler records) place).seq =
      ((records place).seq + 2 * (items.map ReadSetItem.place).count place) % wordBound := by
  induction items generalizing records with
  | nil => simp [Nat.mod_eq_of_lt word]
  | cons item rest ih =>
      rw [List.foldl_cons, ih, commitOneshotHandler, List.map_cons, List.count_cons]
      · by_cases here : place = item.place
        · subst here
          simp only [Function.update_self, Record.inplaceWriteOp, beq_self_eq_true, if_true]
          rw [Nat.mod_add_mod]
          congr 1
          omega
        · rw [Function.update_of_ne here]
          simp [Ne.symm here]
      · rw [commitOneshotHandler]
        by_cases here : place = item.place
        · subst here
          rw [Function.update_self]
          exact Nat.mod_lt _ (by decide)
        · rwa [Function.update_of_ne here]

theorem foldl_commit_absent {items : List (ReadSetItem Value)} {records : Records Value}
    {place : Place} (absent : place ∉ items.map ReadSetItem.place) :
    (items.foldl commitOneshotHandler records) place = records place := by
  induction items generalizing records with
  | nil => rfl
  | cons item rest ih =>
      rw [List.map_cons, List.mem_cons, not_or] at absent
      rw [List.foldl_cons, ih absent.2, commitOneshotHandler, Function.update_of_ne absent.1]

/-- A record with one message holds what the message carries, and is unlocked. -/
theorem foldl_commit_present {items : List (ReadSetItem Value)} {records : Records Value}
    (once : (items.map ReadSetItem.place).Nodup) {item : ReadSetItem Value}
    (member : item ∈ items) :
    (items.foldl commitOneshotHandler records) item.place =
      (records item.place).inplaceWriteOp item.data noCommitId := by
  induction items generalizing records with
  | nil => cases member
  | cons head rest ih =>
      obtain ⟨absent, restOnce⟩ := List.nodup_cons.mp once
      rw [List.foldl_cons]
      rcases List.mem_cons.mp member with rfl | inRest
      · rw [foldl_commit_absent absent, commitOneshotHandler, Function.update_self]
      · rw [ih restOnce inRest, commitOneshotHandler]
        have different : item.place ≠ head.place := by
          intro same
          exact absent (same ▸ List.mem_map_of_mem inRest)
        rw [Function.update_of_ne different]

/-! ## The whole transaction -/

section Commit

variable {config : Config} {txn : Txn database}

theorem Txn.word (txn : Txn database) {item : ReadSetItem Value}
    (member : item ∈ txn.readSet ++ txn.writeSet) : item.seq < wordBound := by
  rw [txn.loaded item member]
  exact database.word item.place

theorem remote_eq_self {set : List (ReadSetItem Value)}
    (remote : ∀ item ∈ set, ¬config.Local item) : config.remote set = set := by
  rw [Config.remote, List.filter_eq_self]
  simpa using remote

theorem of_mem_seen {set : List (ReadSetItem Value)} {item : ReadSetItem Value}
    (member : item ∈ config.seen set) : item ∈ set ∧ ¬config.Local item := by
  have inRemote := List.mem_of_mem_take member
  simpa [Config.remote] using inRemote

/-- Locking succeeds exactly when no written record is local and the machines find every
record once; they then hold the records they looked at. -/
theorem lockWrites_eq_true (schedule : Schedule config txn) {after : Records Value} :
    lockWrites config txn.writeSet schedule.lock database.record = (after, true) ↔
      (∀ item ∈ txn.writeSet, ¬config.Local item) ∧
      ((config.seen txn.writeSet).map ReadSetItem.place).Nodup ∧
      after = mark config.lockContent ((config.seen txn.writeSet).map ReadSetItem.place)
        database.record := by
  have words : ∀ item ∈ config.remote txn.writeSet, item.seq < wordBound := fun item member =>
    txn.word (List.mem_append_right _ (List.mem_filter.mp member).1)
  have free : Free database.record ((config.seen txn.writeSet).map ReadSetItem.request) := by
    rw [Free, List.forall_mem_map]
    intro item member
    have inSet := (of_mem_seen member).1
    exact ⟨database.unlocked _, (txn.loaded item (List.mem_append_right _ inSet)).symm⟩
  by_cases remote : ∀ item ∈ txn.writeSet, ¬config.Local item
  · rw [lockWrites, lockLocal_remote remote]
    simp only [if_true]
    rw [exchange_lock config.lockContent_ne_zero schedule.lock words]
    exact ⟨fun ⟨nodup, _, afterIs⟩ => ⟨remote, nodup, afterIs⟩,
      fun ⟨_, nodup, afterIs⟩ => ⟨nodup, free, afterIs⟩⟩
  · have failed : (lockLocal config txn.writeSet database.record).2 = false := by
      push Not at remote
      obtain ⟨item, member, isLocal⟩ := remote
      exact lockLocal_local member isLocal _
    rw [lockWrites, failed]
    constructor
    · intro locked
      simp [Prod.ext_iff, failed] at locked
    · intro condition
      exact absurd condition.1 remote

/-- With its locks, the transaction validates exactly when it has locked no record that it
looks at again. -/
theorem validateReads_mark (schedule : Schedule config txn) :
    validateReads config txn.readSet schedule.validate
        (mark config.lockContent ((config.seen txn.writeSet).map ReadSetItem.place)
          database.record) = true ↔
      ∀ read ∈ config.seen txn.readSet, ∀ write ∈ config.seen txn.writeSet,
        read.place ≠ write.place := by
  have words : ∀ item ∈ config.remote txn.readSet, item.seq < wordBound := fun item member =>
    txn.word (List.mem_append_left _ (List.mem_filter.mp member).1)
  have localReads : ∀ item ∈ txn.readSet, config.Local item →
      item.place ∉ (config.seen txn.writeSet).map ReadSetItem.place := by
    intro item _ isLocal locked
    obtain ⟨write, member, same⟩ := List.mem_map.mp locked
    apply (of_mem_seen member).2
    rw [Config.Local, same]
    exact isLocal
  rw [validateReads, Bool.and_eq_true, exchange_validate schedule.validate words]
  constructor
  · rintro ⟨-, remoteReads⟩ read member write written same
    have notLocked := (validate_mark (of_mem_seen member).1 _).mp (remoteReads read member)
    rw [same] at notLocked
    exact notLocked (List.mem_map_of_mem written)
  · intro apart
    constructor
    · rw [List.all_eq_true]
      intro item member
      rw [Bool.or_eq_true, Bool.not_eq_true', decide_eq_false_iff_not]
      by_cases isLocal : config.Local item
      · exact .inr ((validate_mark member _).mpr (localReads item member isLocal))
      · exact .inl isLocal
    · intro item member
      rw [validate_mark (of_mem_seen member).1]
      intro locked
      obtain ⟨write, written, same⟩ := List.mem_map.mp locked
      exact apart item member write written same.symm

/-- `commit` returns true exactly when locking and validation succeed, and then the records
are those the messages of the write-back leave. -/
theorem commit_eq_true (schedule : Schedule config txn) {after : Records Value} :
    commit config txn schedule = some (true, after) ↔
      (∀ item ∈ txn.writeSet, ¬config.Local item) ∧
      ((config.seen txn.writeSet).map ReadSetItem.place).Nodup ∧
      (∀ read ∈ config.seen txn.readSet, ∀ write ∈ config.seen txn.writeSet,
        read.place ≠ write.place) ∧
      after = schedule.commit.foldl commitOneshotHandler
        (mark config.lockContent ((config.seen txn.writeSet).map ReadSetItem.place)
          database.record) := by
  have locking := @lockWrites_eq_true _ _ _ _ schedule
  rw [commit]
  cases locked : lockWrites config txn.writeSet schedule.lock database.record with
  | mk records success =>
      cases success with
      | false =>
          constructor
          · intro committed
            simp at committed
          · rintro ⟨remote, nodup, -, -⟩
            have succeeded := locking.mpr ⟨remote, nodup, rfl⟩
            rw [locked] at succeeded
            cases succeeded
      | true =>
          obtain ⟨remote, nodup, recordsAre⟩ := locking.mp locked
          subst recordsAre
          have validating := validateReads_mark schedule
          by_cases valid : validateReads config txn.readSet schedule.validate
              (mark config.lockContent ((config.seen txn.writeSet).map ReadSetItem.place)
                database.record) = true
          · simp only [valid, Bool.and_self, if_true, writeBackOneshot,
              writeBackLocal_remote remote, Option.map_some, Option.some.injEq, Prod.mk.injEq,
              true_and]
            exact ⟨fun afterIs => ⟨remote, nodup, validating.mp valid, afterIs.symm⟩,
              fun condition => condition.2.2.2.symm⟩
          · constructor
            · intro committed
              simp [valid] at committed
            · intro condition
              exact absurd (validating.mpr condition.2.2.1) valid

/-- A schedule with every order as the entries stand. -/
def Schedule.inOrder (config : Config) (txn : Txn database) : Schedule config txn where
  lock := .inOrder _
  validate := .inOrder _
  release := .inOrder _
  commit := config.remote txn.writeSet
  commit_perm := .refl _

/-- A transaction that commits does not stand in its own way. -/
theorem CommitsAlone.unhindered (commits : CommitsAlone config txn) : Unhindered config txn := by
  obtain ⟨after, committed, installed, -⟩ := commits (.inOrder config txn)
  obtain ⟨remote, -, apart, afterIs⟩ := (commit_eq_true _).mp committed
  refine ⟨remote, ?_, apart⟩
  rw [List.nodup_iff_count_le_one]
  intro place
  by_contra many
  have written : place ∈ txn.writeSet.map ReadSetItem.place :=
    List.count_pos_iff.mp (by omega)
  obtain ⟨item, member, rfl⟩ := List.mem_map.mp written
  -- the sequence word was advanced once for each entry of the record
  have advanced := (installed item member).2
  have few := (List.count_le_length (l := txn.writeSet.map ReadSetItem.place)
    (a := item.place)).trans_eq (List.length_map ReadSetItem.place)
  have bounded := txn.bounded
  have marked : ((mark config.lockContent
      ((config.seen txn.writeSet).map ReadSetItem.place) database.record) item.place).seq =
        (database.record item.place).seq := by
    unfold mark
    split <;> rfl
  have word := database.word item.place
  have messages : (Schedule.inOrder config txn).commit = txn.writeSet := remote_eq_self remote
  rw [afterIs, foldl_commit_seq (marked ▸ word), marked, messages] at advanced
  simp only [wordBound, maxSize] at advanced bounded word
  omega

/-- A transaction that does not stand in its own way commits. -/
theorem Unhindered.commits (unhindered : Unhindered config txn) : CommitsAlone config txn := by
  intro schedule
  have remote := remote_eq_self unhindered.remote
  have perm := schedule.commit_perm
  rw [remote] at perm
  have once : (schedule.commit.map ReadSetItem.place).Nodup :=
    (perm.map ReadSetItem.place).nodup_iff.mpr unhindered.once
  have seenOnce : ((config.seen txn.writeSet).map ReadSetItem.place).Nodup := by
    rw [Config.seen, remote, List.map_take]
    exact unhindered.once.sublist (List.take_sublist _ _)
  refine ⟨_, (commit_eq_true schedule).mpr
    ⟨unhindered.remote, seenOnce, unhindered.apart, rfl⟩, ?_, ?_⟩
  · intro item member
    rw [foldl_commit_present once (perm.mem_iff.mpr member)]
    refine ⟨rfl, ?_⟩
    simp only [Record.inplaceWriteOp, mark]
    split <;> rfl
  · intro place
    by_cases written : place ∈ schedule.commit.map ReadSetItem.place
    · obtain ⟨item, member, rfl⟩ := List.mem_map.mp written
      rw [foldl_commit_present once member, Record.inplaceWriteOp_lock]
    · rw [foldl_commit_absent written, mark, if_neg]
      · exact database.unlocked place
      · intro locked
        apply written
        rw [(perm.map ReadSetItem.place).mem_iff]
        obtain ⟨item, member, rfl⟩ := List.mem_map.mp locked
        exact List.mem_map_of_mem (of_mem_seen member).1

end Commit

/-- A database with the same contents everywhere. -/
def blank : Database Nat where
  record _ := { lock := 0, seq := 2, value := 0 }
  word _ := by decide
  unlocked _ := rfl

/-- A transaction that reads and writes one record of machine 1. -/
def readAndWrite : Txn blank where
  readSet := [⟨⟨1, 0, 0⟩, 2, 0⟩]
  writeSet := [⟨⟨1, 0, 0⟩, 2, 5⟩]
  loaded := by decide
  bounded := by decide

end Rocc.Occ.Solo
