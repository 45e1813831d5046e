import Rocc.Occ.Solo

/-!
# The messages of `write_back_oneshot`

`prepare_write_contents` lays the remote items of the write set one behind the other, each
with its payload, in the buffer of `write_batch_helper_`.  `write_back_oneshot` posts every item
out of this buffer as a message of its own and flushes in the end; until then a message
may be read from the buffer at any time.  The header of a message goes into the eight bytes in
front of it, which belong to the item before.

`log_remote`, which runs in between, changes the buffer in front of the first item only.
`msg_padding` of the message layer is 0.
-/

namespace Rocc.Occ.Solo.Oneshot

open Rtx Rtx.Batch Memory

/-! ## The buffer -/

/-- An item of the write set with the bytes of its value. -/
abbrev WriteSetItem := ReadSetItem (List UInt8)

/-- The `RtxWriteItem` of an entry, and what `data_ptr` points to. -/
def writeItem (item : WriteSetItem) : Item rtxWriteItem where
  args := [item.place.pid.toNat, item.place.tableid.toNat, item.place.key.toNat, item.data.length]
  payload := item.data
  arity := rfl
  sized := rfl

/-- `sizeof(RtxWriteItem) + it->len`. -/
def itemSize (item : WriteSetItem) : Nat := rtxWriteItem.layout.size + item.data.length

/-- `clear_buf`. -/
def clearBuf (ctrl : Ctrl) : Ctrl :=
  { ctrl with reqBufEnd := Batch.headerSize, batchSize := 0 }

/-- `add_batch_entry_wo_mac`, and the `memcpy` of the payload behind it. -/
def addBatchEntryWoMac (ctrl : Ctrl) (item : WriteSetItem) : Ctrl :=
  { ctrl.addBatchEntry (writeItem item) with macSet := ctrl.macSet }

/-- The loop of `prepare_write_contents`; no result stands for a store behind the buffer. -/
def addRemote (config : Config) : List WriteSetItem → Ctrl → Option Ctrl
  | [], ctrl => some ctrl
  | item :: rest, ctrl =>
      if config.Local item then
        addRemote config rest ctrl
      else if (addBatchEntryWoMac ctrl item).reqBufEnd ≤ maxMsgSize then
        addRemote config rest (addBatchEntryWoMac ctrl item)
      else
        none

/-- `prepare_write_contents`. -/
def prepareWriteContents (config : Config) (set : List WriteSetItem) (ctrl : Ctrl) :
    Option Ctrl :=
  addRemote config set (clearBuf ctrl)

/-! ## The messages -/

/-- `sizeof(rrpc_header)`. -/
def rrpcHeaderSize : Nat := 8

/-- `RRpc::REQ`. -/
def req : Nat := 0

/-- `RTX_COMMIT_RPC_ID`. -/
def rtxCommitRpcId : Nat := 3

/-- `rrpc_meta`: `type` of 2 bits, `rpc_id` of 5, `payload` of 18 and `cid` of 7. -/
def rrpcMeta (rpcId size cid type : Nat) : List UInt8 :=
  toBytes 4 (type % 4 + rpcId % 32 * 4 + size % 2 ^ 18 * 128 + cid % 128 * 2 ^ 25)

/-- `prepare_header`; the upper half of the header is padding. -/
def prepareHeader (reqBuf : Memory) (msg rpcId size cid type : Nat) : Memory :=
  reqBuf.write (msg - rrpcHeaderSize) (rrpcMeta rpcId size cid type)

/-- A call of `post_pending` with the buffer at that time; `msg` is the place behind the
header. -/
structure Post where
  serverId : Nat
  msg : Nat
  size : Nat
  reqBuf : Memory

/-- What a run of `write_back_oneshot` has posted, and the local items it has written. -/
structure Outcome where
  posted : List Post
  written : List WriteSetItem

/-- The loop of `write_back_oneshot` from `cur_ptr` on; no result stands for a failed
assertion of `inplace_write_op`. -/
def writeBackOneshot (config : Config) (cid : Nat) :
    List WriteSetItem → Nat → Memory → Option Outcome
  | [], _, _ => some ⟨[], []⟩
  | item :: rest, curPtr, reqBuf =>
      if config.Local item then
        if Solo.headerSize ≤ defaultMeta then
          (writeBackOneshot config cid rest curPtr reqBuf).map fun outcome =>
            { outcome with written := item :: outcome.written }
        else
          none
      else
        let reqBuf := prepareHeader reqBuf curPtr rtxCommitRpcId (itemSize item) cid req
        (writeBackOneshot config cid rest (curPtr + itemSize item) reqBuf).map fun outcome =>
          { outcome with
            posted := ⟨item.place.pid.toNat, curPtr, itemSize item, reqBuf⟩ :: outcome.posted }

/-- The messages that machines receive: every byte is read out of the buffer as it is after
the post of the message or after a later one. -/
def Received : List Post → List (Nat × Memory) → Prop
  | [], [] => True
  | post :: later, msg :: msgs =>
      msg.1 = post.serverId ∧
        (∀ index < rrpcHeaderSize + post.size, ∃ moment ∈ post :: later,
          msg.2 index = moment.reqBuf (post.msg - rrpcHeaderSize + index)) ∧
        Received later msgs
  | _, _ => False

/-- What `commit_oneshot_handler` reads of the message at a place: the item and the bytes
behind it. -/
def commitOneshotHandler (msg : Memory) (place : Nat) : List Nat × List UInt8 :=
  let item := rtxWriteItem.layout.load msg place
  (item, msg.read (place + rtxWriteItem.layout.size) (rtxWriteItem.payloadLength item))

/-- `poll_comp_callback`, as far as it calls `commit_oneshot_handler`. -/
def pollCompCallback (msg : Memory) : Option (List Nat × List UInt8) :=
  let header := ofBytes (msg.read 0 4)
  if header % 4 = req ∧ header / 4 % 32 = rtxCommitRpcId then
    some (commitOneshotHandler msg rrpcHeaderSize)
  else
    none

/-- Every remote item arrives at its machine once and unharmed, and every local item is
written once. -/
def Delivered (config : Config) (cid : Nat) (set : List WriteSetItem) (ctrl : Ctrl) : Prop :=
  ∃ prepared, prepareWriteContents config set ctrl = some prepared ∧
    ∃ outcome, writeBackOneshot config cid set Batch.headerSize prepared.reqBuf = some outcome ∧
      outcome.written = set.filter (fun item => config.Local item) ∧
      ∀ msgs, Received outcome.posted msgs →
        msgs.map (fun msg => (msg.1, pollCompCallback msg.2)) =
          (config.remote set).map fun item =>
            (item.place.pid.toNat, some (writeItem item).content)

/-! ## When the messages are safe -/

/-- Bytes of the buffer that all remote items take. -/
def totalSize (set : List WriteSetItem) : Nat := (set.map itemSize).sum

/-- The header of the message of `next` does no harm to the item before: the bytes of the
payload that it covers are what the header has there, and it does not reach the fields. -/
def Spared (cid : Nat) (item next : WriteSetItem) : Prop :=
  2 ≤ item.data.length ∧
    ∀ index < 4, 8 ≤ item.data.length + index →
      item.data[item.data.length + index - 8]? =
        (rrpcMeta rtxCommitRpcId (itemSize next) cid req)[index]?

instance (cid : Nat) (item next : WriteSetItem) : Decidable (Spared cid item next) :=
  inferInstanceAs (Decidable (_ ∧ _))

/-! ## Filling the buffer -/

theorem fits_writeItem {item : WriteSetItem} (short : item.data.length < 2 ^ 16) :
    rtxWriteItem.layout.Fits (writeItem item).args := by
  have pid := item.place.pid.toNat_lt
  have tableid := item.place.tableid.toNat_lt
  have key := item.place.key.toNat_lt
  simp only [Layout.Fits, writeItem, rtxWriteItem, List.forall₂_cons,
    List.forall₂_nil_left_iff, and_true]
  exact ⟨by omega, by omega, by omega, by omega⟩

/-- The items stand in the buffer, one behind the other. -/
def Laid (reqBuf : Memory) : List WriteSetItem → Nat → Prop
  | [], _ => True
  | item :: rest, place =>
      commitOneshotHandler reqBuf place = (writeItem item).content ∧
        Laid reqBuf rest (place + itemSize item)

/-- The handler reads an item the same from memories that agree on its fields and its payload. -/
theorem commitOneshotHandler_congr {reqBuf msg : Memory} {item : WriteSetItem} {place start : Nat}
    (laid : commitOneshotHandler reqBuf place = (writeItem item).content)
    (fields : ∀ index < 18, msg (start + index) = reqBuf (place + index))
    (payload : ∀ index < item.data.length,
      msg (start + 24 + index) = reqBuf (place + 24 + index)) :
    commitOneshotHandler msg start = (writeItem item).content := by
  have loaded : rtxWriteItem.layout.load msg start = rtxWriteItem.layout.load reqBuf place := by
    apply List.map_congr_left
    intro field member
    have low : field.offset + field.width ≤ 18 := by
      revert field
      decide
    rw [Layout.loadField, Layout.loadField]
    congr 1
    apply List.map_congr_left
    intro index inside
    rw [List.mem_range] at inside
    rw [Nat.add_assoc, Nat.add_assoc]
    exact fields _ (by omega)
  rw [commitOneshotHandler, Item.content, Prod.mk.injEq] at laid ⊢
  rw [loaded]
  refine ⟨laid.1, ?_⟩
  rw [← laid.2, laid.1]
  apply List.map_congr_left
  intro index inside
  exact payload index (List.mem_range.mp inside)

/-- Only the bytes of the items matter. -/
theorem Laid.congr {reqBuf other : Memory} {set : List WriteSetItem} {place : Nat}
    (laid : Laid reqBuf set place)
    (same : ∀ address, place ≤ address → other address = reqBuf address) :
    Laid other set place := by
  induction set generalizing place with
  | nil => trivial
  | cons item rest ih =>
      refine ⟨commitOneshotHandler_congr laid.1 (fun index _ => same _ (by omega))
        (fun index _ => same _ (by omega)), ?_⟩
      exact ih laid.2 fun address behind => same address (by omega)

/-- Later items do not touch the earlier ones. -/
theorem addRemote_outside {config : Config} {set : List WriteSetItem} {ctrl prepared : Ctrl}
    (added : addRemote config set ctrl = some prepared) {address : Nat}
    (before : address < ctrl.reqBufEnd) : prepared.reqBuf address = ctrl.reqBuf address := by
  induction set generalizing ctrl with
  | nil =>
      rw [addRemote, Option.some.injEq] at added
      rw [added]
  | cons item rest ih =>
      rw [addRemote] at added
      split at added
      · exact ih added before
      · split at added
        · have grown : ctrl.reqBufEnd ≤ (addBatchEntryWoMac ctrl item).reqBufEnd := by
            simp only [addBatchEntryWoMac, Ctrl.addBatchEntry]
            omega
          rw [ih added (before.trans_le grown)]
          exact ctrl.addBatchEntry_outside (writeItem item) before
        · cases added

/-- Remote items are laid into the buffer while they fit. -/
theorem addRemote_eq_some {config : Config} {set : List WriteSetItem}
    (remote : ∀ item ∈ set, ¬config.Local item) {ctrl : Ctrl}
    (room : ctrl.reqBufEnd ≤ maxMsgSize) :
    (∃ prepared, addRemote config set ctrl = some prepared) ↔
      ctrl.reqBufEnd + totalSize set ≤ maxMsgSize := by
  induction set generalizing ctrl with
  | nil => simpa [addRemote, totalSize] using room
  | cons item rest ih =>
      obtain ⟨first, others⟩ := List.forall_mem_cons.mp remote
      have step : (addBatchEntryWoMac ctrl item).reqBufEnd = ctrl.reqBufEnd + itemSize item := by
        simp only [addBatchEntryWoMac, Ctrl.addBatchEntry, itemSize, writeItem]
        omega
      rw [addRemote, if_neg first, totalSize, List.map_cons, List.sum_cons, ← totalSize]
      split
      · rename_i fits
        rw [ih others fits, step]
        omega
      · rename_i full
        constructor
        · rintro ⟨prepared, none⟩
          cases none
        · intro fits
          omega

theorem laid_addRemote {config : Config} {set : List WriteSetItem}
    (remote : ∀ item ∈ set, ¬config.Local item) {ctrl prepared : Ctrl}
    (added : addRemote config set ctrl = some prepared) :
    Laid prepared.reqBuf set ctrl.reqBufEnd := by
  induction set generalizing ctrl with
  | nil => trivial
  | cons item rest ih =>
      obtain ⟨first, others⟩ := List.forall_mem_cons.mp remote
      rw [addRemote, if_neg first] at added
      split at added
      · rename_i fits
        obtain ⟨fields, payload⟩ := load_addBatchEntry ctrl (writeItem item)
          fun address _ before => addRemote_outside added before
        have short : item.data.length < 2 ^ 16 := by
          simp only [addBatchEntryWoMac, Ctrl.addBatchEntry, writeItem, maxMsgSize] at fits
          omega
        have loaded := (rtxWriteItem.layout.load_store_eq_iff ctrl.reqBuf ctrl.reqBufEnd
          (writeItem item).args (writeItem item).arity).mpr (fits_writeItem short)
        rw [← fields] at loaded
        refine ⟨?_, ?_⟩
        · rw [commitOneshotHandler, loaded, ← (writeItem item).sized, payload]
          rfl
        · have rested := ih others added
          have step : (addBatchEntryWoMac ctrl item).reqBufEnd =
              ctrl.reqBufEnd + itemSize item := by
            simp only [addBatchEntryWoMac, Ctrl.addBatchEntry, itemSize, writeItem]
            omega
          rwa [step] at rested
      · cases added

/-! ## Posting -/

/-- The buffer when the next item, if there is one, has its header. -/
def headed (cid : Nat) (set : List WriteSetItem) (place : Nat) (reqBuf : Memory) : Memory :=
  match set with
  | [] => reqBuf
  | next :: _ => prepareHeader reqBuf place rtxCommitRpcId (itemSize next) cid req

/-- The posts of remote items. -/
def posts (cid : Nat) : List WriteSetItem → Nat → Memory → List Post
  | [], _, _ => []
  | item :: rest, curPtr, reqBuf =>
      let reqBuf := prepareHeader reqBuf curPtr rtxCommitRpcId (itemSize item) cid req
      ⟨item.place.pid.toNat, curPtr, itemSize item, reqBuf⟩ ::
        posts cid rest (curPtr + itemSize item) reqBuf

/-- `write_back_oneshot` comes to its end exactly when there is no local item. -/
theorem writeBackOneshot_eq_some {config : Config} {cid : Nat} {set : List WriteSetItem}
    {curPtr : Nat} {reqBuf : Memory} {outcome : Outcome} :
    writeBackOneshot config cid set curPtr reqBuf = some outcome ↔
      (∀ item ∈ set, ¬config.Local item) ∧ outcome = ⟨posts cid set curPtr reqBuf, []⟩ := by
  induction set generalizing curPtr reqBuf outcome with
  | nil => simp [writeBackOneshot, posts, eq_comm]
  | cons item rest ih =>
      rw [writeBackOneshot, List.forall_mem_cons]
      by_cases here : config.Local item
      · simp [here, Solo.headerSize, defaultMeta]
      · simp only [here, if_false, Option.map_eq_some_iff, ih, not_false_eq_true, true_and]
        constructor
        · rintro ⟨later, ⟨others, rfl⟩, rfl⟩
          exact ⟨others, rfl⟩
        · rintro ⟨others, rfl⟩
          exact ⟨_, ⟨others, rfl⟩, rfl⟩

theorem prepareHeader_outside (reqBuf : Memory) {msg rpcId size cid type address : Nat}
    (outside : address < msg - 8 ∨ msg - 8 + 4 ≤ address) :
    prepareHeader reqBuf msg rpcId size cid type address = reqBuf address := by
  apply write_outside
  rw [rrpcMeta, length_toBytes, rrpcHeaderSize]
  exact outside

/-- Later posts add the header of the next item to what is in front of it, and no more. -/
theorem reqBuf_of_mem_posts {cid : Nat} {set : List WriteSetItem} {place : Nat}
    {reqBuf : Memory} {post : Post} (member : post ∈ posts cid set place reqBuf)
    {address : Nat} (before : address < place) :
    post.reqBuf address = headed cid set place reqBuf address := by
  induction set generalizing place reqBuf with
  | nil => cases member
  | cons item rest ih =>
      rw [posts, List.mem_cons] at member
      rcases member with rfl | member
      · rfl
      · rw [ih member (by omega)]
        cases rest with
        | nil => rfl
        | cons next others =>
            apply prepareHeader_outside
            left
            simp only [itemSize, rtxWriteItem]
            omega

/-! ## One message -/

/-- The header of the message calls the handler. -/
theorem pollCompCallback_eq {msg : Memory} {size cid : Nat}
    (bytes : ∀ index < 4, some (msg index) = (rrpcMeta rtxCommitRpcId size cid req)[index]?) :
    pollCompCallback msg = some (commitOneshotHandler msg rrpcHeaderSize) := by
  have header : msg.read 0 4 = rrpcMeta rtxCommitRpcId size cid req := by
    apply List.ext_getElem?
    intro index
    by_cases inside : index < 4
    · rw [← bytes index inside]
      simp [Memory.read, inside]
    · simp [Memory.read, rrpcMeta, inside]
  rw [pollCompCallback, header, rrpcMeta, ofBytes_toBytes, if_pos]
  simp only [req, rtxCommitRpcId]
  omega

/-- The payload of an item in the buffer. -/
theorem getElem?_data {reqBuf : Memory} {item : WriteSetItem} {place index : Nat}
    (laid : commitOneshotHandler reqBuf place = (writeItem item).content)
    (inside : index < item.data.length) :
    item.data[index]? = some (reqBuf (place + 24 + index)) := by
  rw [commitOneshotHandler, Item.content, Prod.mk.injEq] at laid
  have payload : reqBuf.read (place + 24) item.data.length = item.data := by
    rw [laid.1] at laid
    exact laid.2
  have found := congrArg (fun bytes => bytes[index]?) payload.symm
  simpa [Memory.read, inside] using found

/-- A header that spares an item leaves what the handler reads of it. -/
theorem Spared.agree {cid : Nat} {item next : WriteSetItem} (spared : Spared cid item next)
    {reqBuf : Memory} {place : Nat}
    (laid : commitOneshotHandler reqBuf place = (writeItem item).content) {index : Nat}
    (inside : index < itemSize item) (used : index < 18 ∨ 24 ≤ index) :
    headed cid (next :: []) (place + itemSize item) reqBuf (place + index) =
      reqBuf (place + index) := by
  obtain ⟨long, covered⟩ := spared
  simp only [itemSize, rtxWriteItem] at inside ⊢
  by_cases below : index < 16 + item.data.length
  · exact prepareHeader_outside reqBuf (.inl (by omega))
  · by_cases above : 20 + item.data.length ≤ index
    · exact prepareHeader_outside reqBuf (.inr (by omega))
    · obtain ⟨offset, rfl⟩ : ∃ offset, index = 16 + item.data.length + offset :=
        ⟨index - 16 - item.data.length, by omega⟩
      have same := covered offset (by omega) (by omega)
      have stored := getElem?_data laid
        (show item.data.length + offset - 8 < item.data.length by omega)
      have header := getElem?_write reqBuf (place + (24 + item.data.length) - rrpcHeaderSize)
        (show offset < (rrpcMeta rtxCommitRpcId (itemSize next) cid req).length by
          rw [rrpcMeta, length_toBytes]
          omega)
      rw [stored, header, Option.some.injEq, rrpcHeaderSize] at same
      rw [headed, prepareHeader, rrpcHeaderSize]
      convert same.symm using 2 <;> omega

/-- The lowest byte of a header. -/
theorem head_rrpcMeta (size cid : Nat) :
    ∃ byte, (rrpcMeta rtxCommitRpcId size cid req)[0]? = some byte ∧ 12 ≤ byte.toNat := by
  refine ⟨_, rfl, ?_⟩
  rw [UInt8.toNat_ofNat']
  simp only [req, rtxCommitRpcId]
  omega

/-- A header that leaves the item as it is spares it. -/
theorem spared_of_kept {cid : Nat} {item next : WriteSetItem} {reqBuf : Memory} {place : Nat}
    (kept : commitOneshotHandler (headed cid (next :: []) (place + itemSize item) reqBuf) place =
      (writeItem item).content) : Spared cid item next := by
  have header : ∀ index < 4, (rrpcMeta rtxCommitRpcId (itemSize next) cid req)[index]? =
      some (headed cid (next :: []) (place + itemSize item) reqBuf
        (place + 16 + item.data.length + index)) := by
    intro index inside
    rw [headed, prepareHeader, getElem?_write reqBuf (place + itemSize item - rrpcHeaderSize)
      (by rw [rrpcMeta, length_toBytes]; exact inside)]
    simp only [itemSize, rtxWriteItem, rrpcHeaderSize]
    congr 2
    omega
  constructor
  · -- Behind a shorter payload the header begins in the field `len`.
    by_contra short
    obtain ⟨byte, first, low⟩ := head_rrpcMeta (itemSize next) cid
    rw [header 0 (by decide), Option.some.injEq] at first
    have len : ofBytes ((headed cid (next :: []) (place + itemSize item) reqBuf).read
        (place + 16) 2) = item.data.length := by
      rw [commitOneshotHandler, Item.content, Prod.mk.injEq] at kept
      exact congrArg (fun args => args.getD 3 0) kept.1
    simp only [Memory.read, List.range_succ, List.range_zero, List.nil_append,
      List.map_cons, List.map_nil, List.cons_append, ofBytes] at len
    have empty : item.data.length = 0 ∨ item.data.length = 1 := by omega
    rcases empty with zero | one
    · rw [zero] at first len
      rw [first] at len
      omega
    · rw [one] at first len
      rw [first] at len
      omega
  · intro index inside long
    rw [header index inside, getElem?_data kept (by omega)]
    congr 2
    omega

/-! ## All messages -/

/-- A message as it stands in the buffer. -/
theorem commitOneshotHandler_shift (reqBuf : Memory) {place : Nat} (start : 8 ≤ place) :
    commitOneshotHandler (fun index => reqBuf (place - rrpcHeaderSize + index)) rrpcHeaderSize =
      commitOneshotHandler reqBuf place := by
  have moved : ∀ offset length,
      Memory.read (fun index => reqBuf (place - rrpcHeaderSize + index)) (rrpcHeaderSize + offset)
        length = reqBuf.read (place + offset) length := by
    intro offset length
    apply List.map_congr_left
    intro index _
    simp only [rrpcHeaderSize]
    congr 1
    omega
  have loaded : rtxWriteItem.layout.load
        (fun index => reqBuf (place - rrpcHeaderSize + index)) rrpcHeaderSize =
      rtxWriteItem.layout.load reqBuf place := by
    apply List.map_congr_left
    intro field _
    unfold Layout.loadField
    rw [moved]
  unfold commitOneshotHandler
  simp only [loaded, moved]

theorem laid_prepareHeader {reqBuf : Memory} {set : List WriteSetItem} {place : Nat}
    (laid : Laid reqBuf set place) (start : 8 ≤ place) (size cid : Nat) :
    Laid (prepareHeader reqBuf place rtxCommitRpcId size cid req) set place :=
  laid.congr fun address behind => prepareHeader_outside reqBuf (.inr (by omega))

/-- The header of a message, seen after the next post. -/
theorem headed_header {cid size : Nat} {rest : List WriteSetItem} {place next : Nat}
    {reqBuf : Memory} (start : 8 ≤ place) (behind : place + 4 ≤ next) {index : Nat}
    (inside : index < 4) :
    some (headed cid rest next (prepareHeader reqBuf place rtxCommitRpcId size cid req)
        (place - rrpcHeaderSize + index)) =
      (rrpcMeta rtxCommitRpcId size cid req)[index]? := by
  have written := getElem?_write reqBuf (place - rrpcHeaderSize)
    (show index < (rrpcMeta rtxCommitRpcId size cid req).length by
      rw [rrpcMeta, length_toBytes]
      exact inside)
  rw [written, Option.some.injEq]
  cases rest with
  | nil => rfl
  | cons item others =>
      apply prepareHeader_outside
      left
      simp only [rrpcHeaderSize]
      omega

/-- Bytes of an item are read before or after the next header is put into the buffer. -/
theorem reqBuf_of_mem_later {cid : Nat} {item : WriteSetItem} {rest : List WriteSetItem}
    {place : Nat} {reqBuf : Memory} {moment : Post}
    (member : moment ∈ posts cid (item :: rest) place reqBuf) {address : Nat}
    (before : address < place + itemSize item) :
    moment.reqBuf address =
        prepareHeader reqBuf place rtxCommitRpcId (itemSize item) cid req address ∨
      moment.reqBuf address = headed cid rest (place + itemSize item)
        (prepareHeader reqBuf place rtxCommitRpcId (itemSize item) cid req) address := by
  rw [posts, List.mem_cons] at member
  rcases member with rfl | member
  · exact .inl rfl
  · exact .inr (reqBuf_of_mem_posts member before)

/-- A message is unharmed when its item is spared, whenever its bytes are read. -/
theorem message_unharmed {cid : Nat} {item : WriteSetItem} {rest : List WriteSetItem}
    {place : Nat} {reqBuf msg : Memory} (start : 8 ≤ place)
    (laid : commitOneshotHandler
      (prepareHeader reqBuf place rtxCommitRpcId (itemSize item) cid req) place =
        (writeItem item).content)
    (spared : (item :: rest).IsChain (Spared cid))
    (bytes : ∀ index < rrpcHeaderSize + itemSize item,
      ∃ moment ∈ posts cid (item :: rest) place reqBuf,
        msg index = moment.reqBuf (place - rrpcHeaderSize + index)) :
    pollCompCallback msg = some (writeItem item).content := by
  have size : itemSize item = 24 + item.data.length := rfl
  have header : ∀ index < 4,
      some (msg index) = (rrpcMeta rtxCommitRpcId (itemSize item) cid req)[index]? := by
    intro index inside
    obtain ⟨moment, member, same⟩ := bytes index (by simp only [rrpcHeaderSize]; omega)
    rw [same]
    have before : place - rrpcHeaderSize + index < place + itemSize item := by
      simp only [rrpcHeaderSize]
      omega
    rcases reqBuf_of_mem_later member before with early | late
    · rw [early]
      exact @headed_header cid (itemSize item) [] place (place + 4) reqBuf start
        (Nat.le_refl _) index inside
    · rw [late]
      exact headed_header start (by omega) inside
  have kept : ∀ index < itemSize item, index < 18 ∨ 24 ≤ index →
      msg (rrpcHeaderSize + index) =
        prepareHeader reqBuf place rtxCommitRpcId (itemSize item) cid req (place + index) := by
    intro index inside used
    have address : place - rrpcHeaderSize + (rrpcHeaderSize + index) = place + index := by
      simp only [rrpcHeaderSize]
      omega
    obtain ⟨moment, member, same⟩ := bytes (rrpcHeaderSize + index) (by omega)
    rw [same, address]
    have before : place + index < place + itemSize item := Nat.add_lt_add_left inside place
    rcases reqBuf_of_mem_later member before with early | late
    · exact early
    · rw [late]
      cases rest with
      | nil => rfl
      | cons next others => exact (List.isChain_cons_cons.mp spared).1.agree laid inside used
  rw [pollCompCallback_eq header]
  congr 1
  apply commitOneshotHandler_congr laid
  · intro index low
    exact kept index (by omega) (.inl low)
  · intro index inside
    have byte := kept (24 + index) (by omega) (.inr (by omega))
    rwa [← Nat.add_assoc, ← Nat.add_assoc] at byte

/-- Along items that are spared every message is unharmed. -/
theorem received_unharmed {cid : Nat} {set : List WriteSetItem} {place : Nat} {reqBuf : Memory}
    {msgs : List (Nat × Memory)} (start : 8 ≤ place) (laid : Laid reqBuf set place)
    (spared : set.IsChain (Spared cid)) (received : Received (posts cid set place reqBuf) msgs) :
    msgs.map (fun msg => (msg.1, pollCompCallback msg.2)) =
      set.map fun item => (item.place.pid.toNat, some (writeItem item).content) := by
  induction set generalizing place reqBuf msgs with
  | nil =>
      cases msgs with
      | nil => rfl
      | cons msg others => exact received.elim
  | cons item rest ih =>
      cases msgs with
      | nil => exact received.elim
      | cons msg others =>
          obtain ⟨machine, bytes, others⟩ := received
          obtain ⟨own, laid⟩ := laid_prepareHeader laid start (itemSize item) cid
          have later : 8 ≤ place + itemSize item := start.trans (Nat.le_add_right _ _)
          rw [List.map_cons, List.map_cons, ih later laid spared.of_cons others, machine,
            message_unharmed start own spared bytes]

/-! ## The latest messages -/

/-- Messages that are read right after the next post. -/
def late : List Post → List (Nat × Memory)
  | [] => []
  | post :: later =>
      (post.serverId, fun index =>
        (later.headD post).reqBuf (post.msg - rrpcHeaderSize + index)) :: late later

theorem received_late (posted : List Post) : Received posted (late posted) := by
  induction posted with
  | nil => trivial
  | cons post later ih =>
      refine ⟨rfl, fun index _ => ⟨later.headD post, ?_, rfl⟩, ih⟩
      cases later with
      | nil => exact List.mem_cons_self
      | cons next others => exact List.mem_cons_of_mem _ List.mem_cons_self

/-- If the latest messages are unharmed, all items are spared. -/
theorem spared_of_late {cid : Nat} {set : List WriteSetItem} {place : Nat} {reqBuf : Memory}
    (start : 8 ≤ place)
    (unharmed : (late (posts cid set place reqBuf)).map
        (fun msg => (msg.1, pollCompCallback msg.2)) =
      set.map fun item => (item.place.pid.toNat, some (writeItem item).content)) :
    set.IsChain (Spared cid) := by
  induction set generalizing place reqBuf with
  | nil => exact .nil
  | cons item rest ih =>
      rw [posts, late, List.map_cons, List.map_cons, List.cons.injEq] at unharmed
      obtain ⟨here, others⟩ := unharmed
      have behind := ih (start.trans (Nat.le_add_right _ _)) others
      cases rest with
      | nil => exact .singleton item
      | cons next later =>
          refine List.isChain_cons_cons.mpr ⟨?_, behind⟩
          apply spared_of_kept
          have header := fun index inside => @headed_header cid (itemSize item) (next :: later)
            place (place + itemSize item) reqBuf start
            (by simp only [itemSize, rtxWriteItem]; omega) index inside
          have read := pollCompCallback_eq header
          rw [commitOneshotHandler_shift _ start] at read
          simp only [posts, List.headD_cons, Prod.mk.injEq, true_and] at here
          exact Option.some.inj (read.symm.trans here)

theorem eight_le_clearBuf (ctrl : Ctrl) : 8 ≤ (clearBuf ctrl).reqBufEnd :=
  show 8 ≤ Batch.headerSize by decide

theorem clearBuf_le (ctrl : Ctrl) : (clearBuf ctrl).reqBufEnd ≤ maxMsgSize :=
  show Batch.headerSize ≤ maxMsgSize by decide

/-- Items that are delivered are spared, since a message may be read after the next post. -/
theorem Delivered.spared {config : Config} {cid : Nat} {set : List WriteSetItem} {ctrl : Ctrl}
    (delivered : Delivered config cid set ctrl) : set.IsChain (Spared cid) := by
  obtain ⟨prepared, _, outcome, done, -, unharmed⟩ := delivered
  obtain ⟨remote, rfl⟩ := writeBackOneshot_eq_some.mp done
  have arrived := unharmed _ (received_late _)
  rw [remote_eq_self remote] at arrived
  exact spared_of_late (eight_le_clearBuf ctrl) arrived

/-- `write_back_oneshot` delivers everything, whenever the messages are read, exactly when no
item is local, the items fit into the buffer and every header spares the item before it. -/
theorem delivered_iff (config : Config) (cid : Nat) (set : List WriteSetItem) (ctrl : Ctrl) :
    Delivered config cid set ctrl ↔
      (∀ item ∈ set, ¬config.Local item) ∧
        Batch.headerSize + totalSize set ≤ maxMsgSize ∧ set.IsChain (Spared cid) := by
  constructor
  · intro delivered
    have spared := delivered.spared
    obtain ⟨prepared, added, outcome, done, -⟩ := delivered
    have remote := (writeBackOneshot_eq_some.mp done).1
    exact ⟨remote, (addRemote_eq_some remote (clearBuf_le ctrl)).mp ⟨prepared, added⟩, spared⟩
  · rintro ⟨remote, fits, spared⟩
    obtain ⟨prepared, added⟩ := (addRemote_eq_some remote (clearBuf_le ctrl)).mpr fits
    refine ⟨prepared, added, _, writeBackOneshot_eq_some.mpr ⟨remote, rfl⟩, ?_, ?_⟩
    · rw [eq_comm, List.filter_eq_nil_iff]
      intro item member isLocal
      exact remote item member (of_decide_eq_true isLocal)
    · intro msgs received
      rw [remote_eq_self remote]
      exact received_unharmed (eight_le_clearBuf ctrl) (laid_addRemote remote added) spared received

/-- The header of the second message goes into the last bytes of the first payload. -/
theorem not_delivered :
    ¬ ∀ (config : Config) (cid : Nat) (set : List WriteSetItem) (ctrl : Ctrl),
        Delivered config cid set ctrl := by
  intro all
  have delivered := all ⟨-1, 1, by decide⟩ 1
    [⟨⟨0, 0, 5⟩, 2, [1, 2, 3, 4, 5, 6, 7, 8]⟩, ⟨⟨1, 0, 6⟩, 2, [1, 2, 3, 4, 5, 6, 7, 8]⟩]
    (Ctrl.clear fun _ => 0)
  exact absurd delivered.spared (by decide)

end Rocc.Occ.Solo.Oneshot
