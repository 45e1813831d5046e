import Rocc.Db.RemoteSet
import Rocc.Db.TxHandler

/-!
# Write-back messages

`commit_remote` sends the items that `promote_to_write` collected to all servers of a
transaction.  An item has one word for the address of the record and for the key, and
`promote_to_write` leaves the key in it.  The handler of `DBTX` looks the key up; those of `DBSI`
and `DBRad` take the word for the address.
-/

namespace Rocc.Db.WriteBack

open Memory Layout Rtx.Batch RemoteSet

/-! ## Records of a server -/

/-- A store or an index: the length of its keys and where the record of a key is. -/
structure Table where
  klen : Nat
  record : List UInt8 → Option UInt64

/-- `Get` and `GetWithInsert`: a key of 64 bits is given as such, a longer one by its address. -/
def Table.get (table : Table) (memory : Memory) (key : UInt64) : Option UInt64 :=
  table.record (if table.klen = 8 then toBytes 8 key.toNat else memory.read key.toNat table.klen)

/-- `stores_` and `_indexs`, and the memory of the process. -/
structure Server where
  stores : UInt8 → Table
  indexs : UInt8 → Table
  memory : Memory

/-- `REQ_TYPE`, as far as a handler knows it. -/
inductive ReqType where
  | reqRead
  | reqReadLock
  | reqReadIdx
  | reqInsert
  | reqInsertIdx
  deriving DecidableEq, Repr

/-- How the handlers of `RPC_READ` find the record of an item; `keyPtr` is the address of `key`
in the request. -/
def Server.fetch (server : Server) (type : ReqType) (tableid : UInt8) (keyPtr : UInt64) :
    Option UInt64 :=
  match type with
  | .reqRead | .reqReadLock =>
      let store := server.stores tableid
      if store.klen = 8 then
        store.get server.memory (UInt64.ofNat (server.memory.readWord keyPtr.toNat))
      else store.get server.memory keyPtr
  | .reqInsert => (server.stores tableid).get server.memory keyPtr
  | .reqReadIdx | .reqInsertIdx => (server.indexs tableid).get server.memory keyPtr

/-! ## The message -/

/-- `commit_remote`: the message, unless nothing was promoted or the assertion on `num`
fails. -/
def commitRemote (set : RemoteSet) (corId : UInt8) (maxTime : UInt64) : Option Memory :=
  let num := UInt8.ofNat set.writeItems.toNat
  if 0 < set.writeItems ∧ 0 < num.toNat ∧ num.toNat < 128 then
    some ((set.writeBackRequestBuf.writeWord 8 maxTime.toNat).write 0 [corId, num])
  else none

/-! ## The handlers -/

/-- The transaction layers with a `commit_rpc_handler2`. -/
inductive Layer where
  | dbtx
  | dbsi
  | dbrad
  deriving DecidableEq, Repr

/-- The record that an item with these fields is applied to. -/
def Layer.node (layer : Layer) (server : Server) (fields : List Nat) : Option UInt64 :=
  match layer with
  | .dbtx => (server.stores (UInt8.ofNat (fields.getD 3 0))).get server.memory
      (UInt64.ofNat (fields.getD 1 0))
  | .dbsi | .dbrad => some (UInt64.ofNat (fields.getD 1 0))

/-- The write to a record.  Its sequence number is 1 by then: `DBSI` adds 1 to it, and `DBRad`
asserts that it is below the desired one. -/
def Layer.install (layer : Layer) (desiredSeq : Nat) (node : MemNode (List UInt8))
    (newVal : Option (List UInt8)) : Option (MemNode (List UInt8)) :=
  match layer with
  | .dbtx => some { node with lock := 0, seq := node.seq + 2, value := newVal }
  | .dbsi => some (node.install node.seq newVal (1 + 1))
  | .dbrad => if 1 < desiredSeq then some (node.install node.seq newVal desiredSeq) else none

/-- The records that the handler of a partition writes to, with the payloads. -/
def updates (layer : Layer) (server : Server) (currentPartition : Nat) (msg : Memory) :
    List (Option UInt64 × List UInt8) :=
  ((rtxIterItem rtxRemoteWriteItem msg (numItems (msg 1)) headerSize).filter fun item =>
    item.1.getD 0 0 = currentPartition).map fun item => (layer.node server item.1, item.2)

/-- One turn of the loop; an item without payload deletes the value. -/
def applyUpdate (layer : Layer) (desiredSeq : Nat) (nodes : UInt64 → MemNode (List UInt8))
    (update : Option UInt64 × List UInt8) : Option (UInt64 → MemNode (List UInt8)) := do
  let node ← update.1
  let new ← layer.install desiredSeq (nodes node)
    (if update.2.length = 0 then none else some update.2)
  return Function.update nodes node new

/-- `commit_rpc_handler2`. -/
def commitRpcHandler2 (layer : Layer) (server : Server) (currentPartition : Nat) (msg : Memory)
    (nodes : UInt64 → MemNode (List UInt8)) : Option (UInt64 → MemNode (List UInt8)) :=
  (updates layer server currentPartition msg).foldlM (applyUpdate layer (msg.readWord 8)) nodes

/-! ## Decoding -/

/-- Nothing has been promoted since the transaction began. -/
structure Unpromoted (set : RemoteSet) : Prop where
  writeItems : set.writeItems = 0
  writeServers : set.writeServers = []
  lockRequestBufEnd : set.lockRequestBufEnd = headerSize
  writeBackRequestBufEnd : set.writeBackRequestBufEnd = headerSize

/-- The updates of a partition: the payload of each of its items for the record that was read and
is locked for the item. -/
def promotedTo (set : RemoteSet) (promoted : List (Nat × List UInt8)) (partition : Nat) :
    List (Option UInt64 × List UInt8) :=
  (promoted.filter fun call => (set.kvs call.1).pid.toNat = partition).map fun call =>
    (some (set.kvs call.1).node, call.2)

/-- The message reaches the servers of all promoted items, and each of them applies its items. -/
def Decodes (layer : Layer) (servers : Nat → Server) (set : RemoteSet)
    (promoted : List (Nat × List UInt8)) (corId : UInt8) (maxTime : UInt64) : Prop :=
  match commitRemote (set.promoteAll promoted) corId maxTime with
  | none => promoted = []
  | some msg =>
      (∀ call ∈ promoted, (set.kvs call.1).pid.toNat ∈ (set.promoteAll promoted).writeServers) ∧
      ∀ partition ∈ (set.promoteAll promoted).writeServers,
        updates layer (servers partition) partition msg = promotedTo set promoted partition

/-- The fields of the item for a record. -/
def fields (item : RemoteSet.RemoteSetItem) (val : List UInt8) : List Nat :=
  [item.pid.toNat, item.key.toNat, val.length, item.tableid.toNat]

/-- The item for a record. -/
def writeItem (item : RemoteSet.RemoteSetItem) (val : List UInt8) : Item rtxRemoteWriteItem where
  args := fields item val
  payload := val
  arity := rfl
  sized := rfl

variable {set : RemoteSet} {promoted : List (Nat × List UInt8)}

/-! ### A transaction that has promoted nothing -/

theorem Unpromoted.start (set : RemoteSet) : Unpromoted set.clear.updateWriteBuf :=
  ⟨rfl, rfl, rfl, rfl⟩

theorem Unpromoted.add (fresh : Unpromoted set) {added : RemoteSet} {pid : Nat}
    {tableid : UInt8} {key : UInt64} (done : set.add pid tableid key = some added) :
    Unpromoted added := by
  rw [RemoteSet.add] at done
  split at done
  · obtain rfl := Option.some.inj done
    exact ⟨fresh.writeItems, fresh.writeServers, fresh.lockRequestBufEnd,
      fresh.writeBackRequestBufEnd⟩
  · cases done

theorem Unpromoted.addLong (fresh : Unpromoted set) {added : RemoteSet}
    {currentPartition pid klen : Nat} {tableid : UInt8} {key : UInt64}
    (done : set.addLong currentPartition pid tableid key klen = some added) :
    Unpromoted added := by
  rw [RemoteSet.addLong] at done
  split at done
  · obtain ⟨short, shortDone, rfl⟩ := Option.map_eq_some_iff.mp done
    have same := fresh.add shortDone
    exact ⟨same.writeItems, same.writeServers, same.lockRequestBufEnd,
      same.writeBackRequestBufEnd⟩
  · cases done

theorem Unpromoted.getResult (fresh : Unpromoted set) (idx : Nat) (node seq : UInt64) :
    Unpromoted (set.getResult idx node seq) :=
  ⟨fresh.writeItems, fresh.writeServers, fresh.lockRequestBufEnd, fresh.writeBackRequestBufEnd⟩

/-! ### Filling the message -/

/-- The address does not reach the message: the key is written over it. -/
theorem promoteToWrite_buf (set : RemoteSet) (call : Nat × List UInt8) (macSet : Finset Nat)
    (batchSize : Nat) :
    (set.promoteToWrite call.1 call.2).writeBackRequestBuf =
      ((Ctrl.mk set.writeBackRequestBuf set.writeBackRequestBufEnd macSet
        batchSize).addBatchEntry (writeItem (set.kvs call.1) call.2)).reqBuf := by
  have covered : ∀ address,
      (∀ field ∈ rtxRemoteWriteItem.layout.fields,
        address < set.writeBackRequestBufEnd + field.offset ∨
          set.writeBackRequestBufEnd + field.offset + field.width ≤ address) →
      (set.writeBackRequestBuf.writeWord (set.writeBackRequestBufEnd + 8)
        (set.kvs call.1).node.toNat) address = set.writeBackRequestBuf address := by
    intro address outside
    exact writeWord_outside _ (outside ⟨8, 8, 8⟩ (by simp [rtxRemoteWriteItem]))
  change (storeFields _ _ _ _).write _ _ = (storeFields _ _ _ _).write _ _
  rw [Layout.storeFields_congr rfl covered]
  rfl

theorem promoteAll_eq (set : RemoteSet) (promoted : List (Nat × List UInt8))
    (macSet : Finset Nat) (batchSize : Nat) :
    (set.promoteAll promoted).writeBackRequestBuf =
      ((Ctrl.mk set.writeBackRequestBuf set.writeBackRequestBufEnd macSet batchSize).addAll
        (promoted.map fun call => writeItem (set.kvs call.1) call.2)).reqBuf := by
  induction promoted generalizing set macSet batchSize with
  | nil => rfl
  | cons call rest ih =>
      have others := ih (set.promoteToWrite call.1 call.2)
        (Insert.insert (writeItem (set.kvs call.1) call.2).pid macSet) (batchSize + 1)
      rw [promoteToWrite_buf set call macSet batchSize] at others
      exact others

theorem promoteAll_writeItems (set : RemoteSet) (promoted : List (Nat × List UInt8)) :
    (set.promoteAll promoted).writeItems = set.writeItems + UInt16.ofNat promoted.length := by
  induction promoted generalizing set with
  | nil => exact (UInt16.add_zero _).symm
  | cons call rest ih =>
      refine (ih (set.promoteToWrite call.1 call.2)).trans ?_
      change set.writeItems + 1 + UInt16.ofNat rest.length = _
      rw [List.length_cons, UInt16.ofNat_add, UInt16.add_assoc, UInt16.add_comm 1]
      rfl

theorem mem_promoteAll_writeServers (set : RemoteSet) (promoted : List (Nat × List UInt8))
    (server : Nat) :
    server ∈ (set.promoteAll promoted).writeServers ↔
      server ∈ set.writeServers ∨ ∃ call ∈ promoted, (set.kvs call.1).pid.toNat = server := by
  induction promoted generalizing set with
  | nil => simp [promoteAll]
  | cons call rest ih =>
      refine (ih (set.promoteToWrite call.1 call.2)).trans ?_
      change server ∈ addServer set.writeServers _ ∨ _ ↔ _
      rw [mem_addServer, List.exists_mem_cons_iff, or_assoc, eq_comm]
      rfl

/-! ### Walking over the message -/

/-- Two lists, shared out by the same keys, agree in every part if their heads agree in the part
of the first key and the others agree. -/
theorem forall_parts_cons {Left Right Out : Type} (key : Left → Nat) (other : Right → Nat)
    (out : Nat → Left → Out) (expected : Right → Out) {parts : Nat → Prop} {left : Left}
    {right : Right} (lefts : List Left) (rights : List Right) (sameKey : key left = other right)
    (part : parts (other right)) :
    (∀ place, parts place →
      ((left :: lefts).filter (key · = place)).map (out place) =
        ((right :: rights).filter (other · = place)).map expected) ↔
      out (other right) left = expected right ∧
        ∀ place, parts place →
          (lefts.filter (key · = place)).map (out place) =
            (rights.filter (other · = place)).map expected := by
  simp only [List.filter_cons, sameKey, decide_eq_true_eq]
  constructor
  · intro agree
    have first := agree _ part
    rw [if_pos rfl, if_pos rfl, List.map_cons, List.map_cons, List.cons.injEq] at first
    refine ⟨first.1, fun place inside => ?_⟩
    by_cases here : other right = place
    · subst here
      exact first.2
    · have others := agree place inside
      rwa [if_neg here, if_neg here] at others
  · rintro ⟨first, others⟩ place inside
    by_cases here : other right = place
    · subst here
      rw [if_pos rfl, if_pos rfl, List.map_cons, List.map_cons, first, others _ inside]
    · rw [if_neg here, if_neg here]
      exact others place inside

/-- An item arrives but for the length of its payload. -/
theorem cut_fields (item : RemoteSet.RemoteSetItem) (val : List UInt8) :
    List.zipWith Field.cut rtxRemoteWriteItem.layout.fields (fields item val) =
      [item.pid.toNat, item.key.toNat, val.length % 65536, item.tableid.toNat] := by
  have pid : item.pid.toNat % 256 = item.pid.toNat := Nat.mod_eq_of_lt item.pid.toNat_lt
  have key : item.key.toNat % 18446744073709551616 = item.key.toNat :=
    Nat.mod_eq_of_lt item.key.toNat_lt
  have tableid : item.tableid.toNat % 256 = item.tableid.toNat :=
    Nat.mod_eq_of_lt item.tableid.toNat_lt
  simp [rtxRemoteWriteItem, fields, Field.cut, pid, key, tableid]

/-- The word of an item leads the handler to the record of the item. -/
def Layer.Finds (layer : Layer) (server : Server) (item : RemoteSet.RemoteSetItem) : Prop :=
  match layer with
  | .dbtx => (server.stores item.tableid).get server.memory item.key = some item.node
  | .dbsi | .dbrad => item.key = item.node

theorem node_fields_iff (layer : Layer) (server : Server) (item : RemoteSet.RemoteSetItem)
    (val : List UInt8) :
    layer.node server (fields item val) = some item.node ↔ layer.Finds server item := by
  cases layer <;> simp [Layer.node, Layer.Finds, fields]

/-- The handlers apply the items as they were promoted exactly if they visit all of them, no
payload is too long and each handler finds the record of each of its items. -/
theorem walk_iff (layer : Layer) (servers : Nat → Server) {parts : Nat → Prop} (ctrl : Ctrl)
    (set : RemoteSet) (promoted : List (Nat × List UInt8)) {msg : Memory} {num : Nat}
    (same : ∀ address, ctrl.reqBufEnd ≤ address → msg address =
      (ctrl.addAll (promoted.map fun call => writeItem (set.kvs call.1) call.2)).reqBuf address)
    (few : num ≤ promoted.length)
    (reached : ∀ call ∈ promoted, parts (set.kvs call.1).pid.toNat) :
    (∀ partition, parts partition →
      ((rtxIterItem rtxRemoteWriteItem msg num ctrl.reqBufEnd).filter fun item =>
        item.1.getD 0 0 = partition).map
          (fun item => (layer.node (servers partition) item.1, item.2)) =
        promotedTo set promoted partition) ↔
      num = promoted.length ∧ ∀ call ∈ promoted, call.2.length < 65536 ∧
        layer.Finds (servers (set.kvs call.1).pid.toNat) (set.kvs call.1) := by
  induction promoted generalizing ctrl num with
  | nil =>
      rw [List.length_nil, Nat.le_zero] at few
      simp [few, rtxIterItem, promotedTo]
  | cons call rest ih =>
      obtain ⟨here, elsewhere⟩ := List.forall_mem_cons.mp reached
      cases num with
      | zero =>
          constructor
          · intro agree
            have missed := agree _ here
            simp [rtxIterItem, promotedTo] at missed
          · rintro ⟨all, -⟩
            cases all
      | succ num =>
          let item := writeItem (set.kvs call.1) call.2
          obtain ⟨loaded, payload⟩ := load_addBatchEntry ctrl item fun address behind before =>
            (same address behind).trans ((ctrl.addBatchEntry item).addAll_outside _ before)
          rw [Layout.load_store _ _ _ _ item.arity] at loaded
          replace loaded := loaded.trans (cut_fields (set.kvs call.1) call.2)
          rw [rtxIterItem, loaded]
          refine (forall_parts_cons (fun item : List Nat × List UInt8 => item.1.getD 0 0)
            (fun call : Nat × List UInt8 => (set.kvs call.1).pid.toNat)
            (fun partition item => (layer.node (servers partition) item.1, item.2))
            (fun call => (some (set.kvs call.1).node, call.2)) _ rest rfl here).trans ?_
          rw [Prod.mk.injEq, List.forall_mem_cons, List.length_cons, Nat.add_right_cancel_iff]
          by_cases short : call.2.length < 65536
          · have kept : call.2.length % 65536 = call.2.length := Nat.mod_eq_of_lt short
            have walked := ih (ctrl.addBatchEntry item) (by
              intro address behind
              apply same address
              simp only [Ctrl.addBatchEntry] at behind
              omega) (by simpa using few) elsewhere
            have next : (ctrl.addBatchEntry item).reqBufEnd =
                ctrl.reqBufEnd + call.2.length + rtxRemoteWriteItem.layout.size :=
              Nat.add_right_comm _ _ _
            have arrived : msg.read (ctrl.reqBufEnd + rtxRemoteWriteItem.layout.size)
                call.2.length = call.2 := payload
            rw [next] at walked
            rw [kept, ← node_fields_iff layer _ _ call.2]
            constructor
            · rintro ⟨⟨node, -⟩, others⟩
              obtain ⟨all, good⟩ := walked.mp others
              exact ⟨all, ⟨short, node⟩, good⟩
            · rintro ⟨all, ⟨-, node⟩, good⟩
              exact ⟨⟨node, arrived⟩, walked.mpr ⟨all, good⟩⟩
          · have cutOff : call.2.length % 65536 ≠ call.2.length := fun kept =>
              short (kept ▸ Nat.mod_lt _ (by decide))
            constructor
            · rintro ⟨⟨-, arrived⟩, -⟩
              have lengths := congrArg List.length arrived
              rw [length_read] at lengths
              exact absurd lengths cutOff
            · rintro ⟨-, ⟨isShort, -⟩, -⟩
              exact absurd isShort short

/-! ### All messages -/

/-- The first two bytes of a message are the coroutine and the number of items. -/
theorem write_num (memory : Memory) (corId num : UInt8) : memory.write 0 [corId, num] 1 = num := by
  simp [Memory.write]

theorem write_num_outside (memory : Memory) (corId num : UInt8) {address : Nat}
    (behind : headerSize ≤ address) : memory.write 0 [corId, num] address = memory address :=
  write_outside _ (.inr (le_trans (show 2 ≤ headerSize by decide) behind))

/-- `num` is the number of items, as far as it fits. -/
theorem num_toNat (fresh : Unpromoted set) (promoted : List (Nat × List UInt8)) :
    (UInt8.ofNat (set.promoteAll promoted).writeItems.toNat).toNat = promoted.length % 256 := by
  rw [promoteAll_writeItems, fresh.writeItems, UInt16.zero_add, UInt16.toNat_ofNat',
    UInt8.toNat_ofNat']
  omega

theorem commitRemote_eq_some (fresh : Unpromoted set) {corId : UInt8} {maxTime : UInt64}
    {msg : Memory}
    (sent : commitRemote (set.promoteAll promoted) corId maxTime = some msg) :
    numItems (msg 1) = promoted.length % 256 ∧ promoted.length % 256 < 128 ∧
      ∀ address, headerSize ≤ address → msg address =
        ((Ctrl.mk set.writeBackRequestBuf headerSize ∅ 0).addAll
          (promoted.map fun call => writeItem (set.kvs call.1) call.2)).reqBuf address := by
  have num := num_toNat fresh promoted
  have filled := promoteAll_eq set promoted ∅ 0
  rw [fresh.writeBackRequestBufEnd] at filled
  simp only [commitRemote] at sent
  split at sent
  · rename_i some
    obtain rfl := Option.some.inj sent
    rw [num] at some
    refine ⟨?_, some.2.2, ?_⟩
    · rw [write_num, numItems, num, if_pos some.2.2]
    · intro address behind
      rw [write_num_outside _ _ _ behind, writeWord_outside _ (.inr behind), filled]
  · cases sent

/-- A message is not sent only if nothing was promoted, as long as the number of items fits. -/
theorem commitRemote_eq_none (fresh : Unpromoted set) {corId : UInt8} {maxTime : UInt64}
    (few : promoted.length ≤ 127)
    (sent : commitRemote (set.promoteAll promoted) corId maxTime = none) : promoted = [] := by
  have count := promoteAll_writeItems set promoted
  rw [fresh.writeItems, UInt16.zero_add] at count
  by_contra some
  have positive := List.length_pos_iff.mpr some
  have num := num_toNat fresh promoted
  simp only [commitRemote, num, ite_eq_right_iff, reduceCtorEq, imp_false] at sent
  refine sent ⟨?_, by omega, by omega⟩
  rw [count, UInt16.lt_iff_toNat_lt, UInt16.toNat_ofNat', UInt16.toNat_zero]
  omega

/-- What the handlers make of a message that is sent. -/
theorem decodes_some_iff (layer : Layer) (servers : Nat → Server) (fresh : Unpromoted set)
    {corId : UInt8} {maxTime : UInt64} {msg : Memory}
    (sent : commitRemote (set.promoteAll promoted) corId maxTime = some msg) :
    Decodes layer servers set promoted corId maxTime ↔
      promoted.length ≤ 127 ∧ ∀ call ∈ promoted, call.2.length < 65536 ∧
        layer.Finds (servers (set.kvs call.1).pid.toNat) (set.kvs call.1) := by
  have reached : ∀ call ∈ promoted,
      (set.kvs call.1).pid.toNat ∈ (set.promoteAll promoted).writeServers := fun call member =>
    (mem_promoteAll_writeServers set promoted _).mpr (.inr ⟨call, member, rfl⟩)
  obtain ⟨num, few, filled⟩ := commitRemote_eq_some fresh sent
  have walked := walk_iff layer servers (Ctrl.mk set.writeBackRequestBuf headerSize ∅ 0) set
    promoted filled (Nat.mod_le promoted.length 256) reached
  simp only [Decodes, sent, updates, num, and_iff_right reached]
  refine walked.trans ?_
  rw [Nat.mod_eq_iff_lt (by decide)]
  constructor
  · rintro ⟨small, good⟩
    exact ⟨by omega, good⟩
  · rintro ⟨few, good⟩
    exact ⟨by omega, good⟩

variable {layer : Layer} {servers : Nat → Server} {corId : UInt8} {maxTime : UInt64}
  {msg : Memory}

/-- Then the handler of a server writes the payloads of its items to their records, one after the
other. -/
theorem Decodes.commitRpcHandler2 (decodes : Decodes layer servers set promoted corId maxTime)
    (sent : commitRemote (set.promoteAll promoted) corId maxTime = some msg) {partition : Nat}
    (member : partition ∈ (set.promoteAll promoted).writeServers)
    (nodes : UInt64 → MemNode (List UInt8)) :
    commitRpcHandler2 layer (servers partition) partition msg nodes =
      (promotedTo set promoted partition).foldlM (applyUpdate layer (msg.readWord 8)) nodes := by
  simp only [Decodes, sent] at decodes
  rw [WriteBack.commitRpcHandler2, decodes.2 _ member]

/-- The handler of `DBTX` finds what was read for a 64-bit key. -/
theorem finds_of_fetch {server later : Server} {item : RemoteSet.RemoteSetItem} {type : ReqType}
    {keyPtr : UInt64} (read : type = .reqRead ∨ type = .reqReadLock)
    (short : (server.stores item.tableid).klen = 8)
    (key : server.memory.readWord keyPtr.toNat = item.key.toNat)
    (fetched : server.fetch type item.tableid keyPtr = some item.node)
    (sameStores : later.stores = server.stores) : Layer.dbtx.Finds later item := by
  have found : (server.stores item.tableid).get server.memory item.key = some item.node := by
    rcases read with rfl | rfl
    all_goals simpa only [Server.fetch, short, if_true, key, UInt64.ofNat_toNat] using fetched
  rw [Layer.Finds, sameStores]
  simpa only [Table.get, short, if_true] using found

/-! ### The lock request -/

/-- The lock item for a record. -/
def lockItem (item : RemoteSet.RemoteSetItem) : Item remoteLockItem where
  args := [item.pid.toNat, item.seq.toNat, item.node.toNat, item.tableid.toNat]
  payload := []
  arity := rfl
  sized := rfl

theorem fits_lockItem (item : RemoteSet.RemoteSetItem) :
    remoteLockItem.layout.Fits (lockItem item).args :=
  .cons item.pid.toNat_lt (.cons item.seq.toNat_lt (.cons item.node.toNat_lt
    (.cons item.tableid.toNat_lt .nil)))

theorem promoteAll_lock_eq (set : RemoteSet) (promoted : List (Nat × List UInt8))
    (macSet : Finset Nat) (batchSize : Nat) :
    (set.promoteAll promoted).lockRequestBuf =
      ((Ctrl.mk set.lockRequestBuf set.lockRequestBufEnd macSet batchSize).addAll
        (promoted.map fun call => lockItem (set.kvs call.1))).reqBuf := by
  induction promoted generalizing set macSet batchSize with
  | nil => rfl
  | cons call rest ih =>
      have others := ih (set.promoteToWrite call.1 call.2)
        (Insert.insert (lockItem (set.kvs call.1)).pid macSet) (batchSize + 1)
      have kept : (set.promoteToWrite call.1 call.2).lockRequestBuf =
          ((Ctrl.mk set.lockRequestBuf set.lockRequestBufEnd macSet batchSize).addBatchEntry
            (lockItem (set.kvs call.1))).reqBuf := (write_nil _ _).symm
      rw [kept] at others
      exact others

/-- `lock_remote`: the lock request. -/
def lockRequest (set : RemoteSet) (corId : UInt8) : Memory :=
  set.lockRequestBuf.write 0 [corId, UInt8.ofNat set.writeItems.toNat]

/-- The records that the lock handler of a partition locks, as long as no lock is taken. -/
def locked (currentPartition : Nat) (msg : Memory) : List Nat :=
  ((rtxIterItem remoteLockItem msg (numOf msg) headerSize).filter fun item =>
    item.1.getD 0 0 = currentPartition).map fun item => item.1.getD 2 0

/-- These are the records that were read for the items. -/
theorem locked_lockRequest (fresh : Unpromoted set) (promoted : List (Nat × List UInt8))
    (few : promoted.length ≤ 127) (corId : UInt8) (partition : Nat) :
    locked partition (lockRequest (set.promoteAll promoted) corId) =
      (promoted.filter fun call => (set.kvs call.1).pid.toNat = partition).map fun call =>
        (set.kvs call.1).node.toNat := by
  have num := num_toNat fresh promoted
  have filled := promoteAll_lock_eq set promoted ∅ 0
  rw [fresh.lockRequestBufEnd] at filled
  have count : numOf (lockRequest (set.promoteAll promoted) corId) = promoted.length := by
    rw [numOf, lockRequest, write_num, num, Nat.mod_eq_of_lt (by omega), if_pos (by omega)]
  have same : ∀ address, headerSize ≤ address →
      lockRequest (set.promoteAll promoted) corId address =
        ((Ctrl.mk set.lockRequestBuf headerSize ∅ 0).addAll
          (promoted.map fun call => lockItem (set.kvs call.1))).reqBuf address := by
    intro address behind
    rw [lockRequest, write_num_outside _ _ _ behind, filled]
  have walked := (rtxIterItem_addAll (Ctrl.mk set.lockRequestBuf headerSize ∅ 0)
    (promoted.map fun call => lockItem (set.kvs call.1)) same).mpr
      (List.forall_mem_map.mpr fun call _ => fits_lockItem (set.kvs call.1))
  rw [List.length_map] at walked
  rw [locked, count, walked, List.filter_map, List.filter_map, List.map_map, List.map_map]
  rfl

end Rocc.Db.WriteBack
