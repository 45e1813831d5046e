import Mathlib.Data.Finset.Insert
import Mathlib.Data.List.Dedup
import Rocc.Base.Batch
import Rocc.Base.Layout

/-!
# Batched request messages

`BatchOpCtrlBlock` collects the items of a request behind a header, each with the bytes of
its payload when it has one, and sends the message to every machine an item was added
for.  The handler walks the message with `RTX_ITER_ITEM`; where items carry payloads it
moves over `item->len` bytes more.

The number of items is stored in one signed byte of the header.
-/

namespace Rocc.Rtx.Batch

open Memory

/-! ## Items -/

/-- A type of request item: its layout, which of its fields is `pid`, and, for items that are
followed by a payload, which one is `len`. -/
structure Format where
  layout : Layout
  pid : Nat
  len : Option Nat

/-- `RTXReadItem`: `type`, `pid`, `key`, `tableid`, `len` and `idx`. -/
def rtxReadItem : Format where
  layout :=
    { size := 24
      fields := [⟨0, 4, 4⟩, ⟨4, 1, 1⟩, ⟨8, 8, 8⟩, ⟨16, 1, 1⟩, ⟨20, 2, 2⟩, ⟨18, 2, 1⟩]
      inside := by decide
      apart := by decide
      param_le := by decide }
  pid := 1
  len := none

/-- `RTXSundialReadItem`: `pid`, `key`, `tableid`, `len` and `timestamp`. -/
def rtxSundialReadItem : Format where
  layout :=
    { size := 32
      fields := [⟨0, 1, 1⟩, ⟨8, 8, 8⟩, ⟨16, 1, 1⟩, ⟨18, 2, 2⟩, ⟨24, 8, 8⟩]
      inside := by decide
      apart := by decide
      param_le := by decide }
  pid := 0
  len := none

/-- `RTXSundialUnlockItem`: `pid`, `key` and `tableid`. -/
def rtxSundialUnlockItem : Format where
  layout :=
    { size := 24
      fields := [⟨0, 1, 1⟩, ⟨8, 8, 8⟩, ⟨16, 1, 1⟩]
      inside := by decide
      apart := by decide
      param_le := by decide }
  pid := 0
  len := none

/-- `RTXMVCCUnlockItem`: `pid`, `key`, `tableid` and `txn_starting_timestamp`. -/
def rtxMvccUnlockItem : Format where
  layout :=
    { size := 24
      fields := [⟨0, 1, 1⟩, ⟨8, 8, 8⟩, ⟨1, 1, 1⟩, ⟨16, 8, 8⟩]
      inside := by decide
      apart := by decide
      param_le := by decide }
  pid := 0
  len := none

/-- `RTXRenewLeaseItem`: `pid`, `tableid`, `key`, `wts` and `commit_id`. -/
def rtxRenewLeaseItem : Format where
  layout :=
    { size := 24
      fields := [⟨0, 1, 1⟩, ⟨1, 1, 1⟩, ⟨8, 8, 8⟩, ⟨16, 4, 4⟩, ⟨20, 4, 4⟩]
      inside := by decide
      apart := by decide
      param_le := by decide }
  pid := 0
  len := none

/-- `RTXLockRequestItem`: `type`, `pid`, `tableid`, `len`, `key`, `seq` and
`txn_starting_timestamp`. -/
def rtxLockRequestItem : Format where
  layout :=
    { size := 32
      fields := [⟨0, 4, 4⟩, ⟨4, 1, 1⟩, ⟨5, 1, 1⟩, ⟨6, 2, 2⟩, ⟨8, 8, 8⟩, ⟨16, 8, 8⟩, ⟨24, 8, 8⟩]
      inside := by decide
      apart := by decide
      param_le := by decide }
  pid := 1
  len := none

/-- `RtxLockItem`: `pid`, `tableid`, `key`, `seq` and `index`. -/
def rtxLockItem : Format where
  layout :=
    { size := 32
      fields := [⟨0, 1, 1⟩, ⟨1, 1, 1⟩, ⟨8, 8, 8⟩, ⟨16, 8, 8⟩, ⟨24, 8, 8⟩]
      inside := by decide
      apart := by decide
      param_le := by decide }
  pid := 0
  len := none

/-- `RtxWriteItem`: `pid`, `tableid`, `key` and `len`; the parameters of `pid`, `tableid` and
`len` are as wide as an `int`, the fields are not. -/
def rtxWriteItem : Format where
  layout :=
    { size := 24
      fields := [⟨0, 1, 1⟩, ⟨1, 1, 1⟩, ⟨8, 8, 8⟩, ⟨16, 2, 2⟩]
      inside := by decide
      apart := by decide
      param_le := by decide }
  pid := 0
  len := some 3

/-- `RTXUpdateItem`: `pid`, `tableid`, `key`, `len` and `commit_id`. -/
def rtxUpdateItem : Format where
  layout :=
    { size := 24
      fields := [⟨0, 1, 1⟩, ⟨1, 1, 1⟩, ⟨8, 8, 8⟩, ⟨16, 2, 2⟩, ⟨20, 4, 4⟩]
      inside := by decide
      apart := by decide
      param_le := by decide }
  pid := 0
  len := some 3

/-- `RTXMVCCUpdateItem`: `pid`, `key`, `tableid`, `len`, `pos` and
`txn_starting_timestamp`. -/
def rtxMvccUpdateItem : Format where
  layout :=
    { size := 32
      fields := [⟨0, 1, 1⟩, ⟨8, 8, 8⟩, ⟨1, 1, 1⟩, ⟨16, 2, 2⟩, ⟨18, 2, 2⟩, ⟨24, 8, 8⟩]
      inside := by decide
      apart := by decide
      param_le := by decide }
  pid := 0
  len := some 3

/-- Length of the payload behind an item with these arguments. -/
def Format.payloadLength (format : Format) (args : List Nat) : Nat :=
  match format.len with
  | none => 0
  | some index => args.getD index 0

/-- One call of `add_batch_entry` with the arguments of the constructor and the bytes that are
copied behind the item. -/
structure Item (format : Format) where
  args : List Nat
  payload : List UInt8
  arity : args.length = format.layout.fields.length
  sized : payload.length = format.payloadLength args

variable {format : Format}

/-- The machine an item is addressed to. -/
def Item.pid (item : Item format) : Nat := item.args.getD format.pid 0

/-! ## The client -/

/-- `BatchOpCtrlBlock`. -/
structure Ctrl where
  reqBuf : Memory
  reqBufEnd : Nat
  macSet : Finset Nat
  batchSize : Nat

/-- `sizeof(RTXRequestHeader)`. -/
def headerSize : Nat := 16

/-- `MAX_MSG_SIZE`. -/
def maxMsgSize : Nat := 4096

/-- `start_batch_rpc_op`: the buffer keeps the bytes of earlier messages. -/
def Ctrl.clear (reqBuf : Memory) : Ctrl where
  reqBuf
  reqBufEnd := headerSize
  macSet := ∅
  batchSize := 0

/-- `add_batch_entry`, and the `memcpy` of the payload behind it. -/
def Ctrl.addBatchEntry (ctrl : Ctrl) (item : Item format) : Ctrl where
  reqBuf := (format.layout.store ctrl.reqBuf ctrl.reqBufEnd item.args).write
    (ctrl.reqBufEnd + format.layout.size) item.payload
  reqBufEnd := ctrl.reqBufEnd + format.layout.size + item.payload.length
  macSet := insert item.pid ctrl.macSet
  batchSize := ctrl.batchSize + 1

/-- All items of a batch. -/
def Ctrl.addAll (ctrl : Ctrl) (items : List (Item format)) : Ctrl :=
  items.foldl Ctrl.addBatchEntry ctrl

/-- `send_batch_op`: the message all machines of `mac_set_` receive, unless it is empty. -/
def Ctrl.sendBatchOp (ctrl : Ctrl) : Option Memory :=
  if 0 < ctrl.batchSize then some (ctrl.reqBuf.write 1 [UInt8.ofNat ctrl.batchSize]) else none

/-! ## The servers -/

/-- `num` of the header, an `int8_t`, as the number of turns of a loop. -/
def numOf (msg : Memory) : Nat := if (msg 1).toNat < 128 then (msg 1).toNat else 0

/-- The same for a loop whose counter is a `uint`: a negative number is a large one there. -/
def numItems (num : UInt8) : Nat :=
  if num.toNat < 128 then num.toNat else 2 ^ 32 - 256 + num.toNat

/-- `RTX_ITER_ITEM` from `ttptr` for so many items: the fields of each item and its
payload. -/
def rtxIterItem (format : Format) (msg : Memory) : Nat → Nat → List (List Nat × List UInt8)
  | 0, _ => []
  | num + 1, ttptr =>
      let fields := format.layout.load msg ttptr
      let len := format.payloadLength fields
      (fields, msg.read (ttptr + format.layout.size) len) ::
        rtxIterItem format msg num (ttptr + len + format.layout.size)

/-- The items a handler visits. -/
def visited (format : Format) (msg : Memory) : List (List Nat × List UInt8) :=
  rtxIterItem format msg (numOf msg) headerSize

/-- The items the handler on `machine` does not skip. -/
def handled (format : Format) (msg : Memory) (machine : Nat) : List (List Nat × List UInt8) :=
  (visited format msg).filter fun item => item.1.getD format.pid 0 = machine

/-- What an item is when it arrives unharmed. -/
def Item.content (item : Item format) : List Nat × List UInt8 := (item.args, item.payload)

/-- The message for some items reaches the machines they are addressed to, and decodes to
the items. -/
structure Decodes (items : List (Item format)) (reqBuf : Memory) : Prop where
  reached : ∀ machine, machine ∈ ((Ctrl.clear reqBuf).addAll items).macSet ↔
    ∃ item ∈ items, item.pid = machine
  visited : ∀ msg, ((Ctrl.clear reqBuf).addAll items).sendBatchOp = some msg →
    visited format msg = items.map Item.content
  handled : ∀ msg, ((Ctrl.clear reqBuf).addAll items).sendBatchOp = some msg →
    ∀ machine ∈ ((Ctrl.clear reqBuf).addAll items).macSet,
      handled format msg machine = (items.filter (·.pid = machine)).map Item.content

/-! ## Filling the buffer -/

namespace Ctrl

variable (ctrl : Ctrl) (items : List (Item format))

/-- Items go behind what the buffer holds already. -/
theorem addBatchEntry_outside (item : Item format) {address : Nat}
    (before : address < ctrl.reqBufEnd) :
    (ctrl.addBatchEntry item).reqBuf address = ctrl.reqBuf address := by
  simp only [addBatchEntry]
  rw [write_outside _ (.inl (by omega)), Layout.store_outside _ _ _ _ (.inl before)]

theorem addAll_outside {address : Nat} (before : address < ctrl.reqBufEnd) :
    (ctrl.addAll items).reqBuf address = ctrl.reqBuf address := by
  induction items generalizing ctrl with
  | nil => rfl
  | cons item rest ih =>
      rw [addAll, List.foldl_cons, ← addAll, ih, addBatchEntry_outside ctrl item before]
      simp only [addBatchEntry]
      omega

theorem addAll_batchSize : (ctrl.addAll items).batchSize = ctrl.batchSize + items.length := by
  induction items generalizing ctrl with
  | nil => rfl
  | cons item rest ih =>
      rw [addAll, List.foldl_cons, ← addAll, ih, List.length_cons]
      simp only [addBatchEntry]
      omega

theorem mem_addAll_macSet (machine : Nat) :
    machine ∈ (ctrl.addAll items).macSet ↔
      machine ∈ ctrl.macSet ∨ ∃ item ∈ items, item.pid = machine := by
  induction items generalizing ctrl with
  | nil => simp [addAll]
  | cons item rest ih =>
      rw [addAll, List.foldl_cons, ← addAll, ih]
      simp only [addBatchEntry, Finset.mem_insert, List.mem_cons, exists_eq_or_imp]
      tauto

end Ctrl

/-! ## Walking the message -/

theorem length_rtxIterItem (msg : Memory) (num ttptr : Nat) :
    (rtxIterItem format msg num ttptr).length = num := by
  induction num generalizing ttptr with
  | zero => rfl
  | succ num ih => rw [rtxIterItem, List.length_cons, ih]

/-- The item at its place, in any memory that agrees with the buffer on it. -/
theorem load_addBatchEntry (ctrl : Ctrl) (item : Item format) {msg : Memory}
    (same : ∀ address, ctrl.reqBufEnd ≤ address →
      address < (ctrl.addBatchEntry item).reqBufEnd →
      msg address = (ctrl.addBatchEntry item).reqBuf address) :
    format.layout.load msg ctrl.reqBufEnd =
        format.layout.load (format.layout.store ctrl.reqBuf ctrl.reqBufEnd item.args)
          ctrl.reqBufEnd ∧
      msg.read (ctrl.reqBufEnd + format.layout.size) item.payload.length = item.payload := by
  simp only [Ctrl.addBatchEntry] at same
  constructor
  · apply Layout.load_congr
    intro address behind before
    rw [same address behind (by omega), write_outside _ (.inl before)]
  · have stored := read_write_self (format.layout.store ctrl.reqBuf ctrl.reqBufEnd item.args)
      (ctrl.reqBufEnd + format.layout.size) item.payload
    exact (read_congr fun address behind before => same address (by omega) before).trans stored

/-- Walking over the items gives them back exactly when all their arguments fit. -/
theorem rtxIterItem_addAll (ctrl : Ctrl) (items : List (Item format)) {msg : Memory}
    (same : ∀ address, ctrl.reqBufEnd ≤ address →
      msg address = (ctrl.addAll items).reqBuf address) :
    rtxIterItem format msg items.length ctrl.reqBufEnd = items.map Item.content ↔
      ∀ item ∈ items, format.layout.Fits item.args := by
  induction items generalizing ctrl with
  | nil => simp [rtxIterItem]
  | cons item rest ih =>
      have inside : ∀ address, ctrl.reqBufEnd ≤ address →
          address < (ctrl.addBatchEntry item).reqBufEnd →
          msg address = (ctrl.addBatchEntry item).reqBuf address := by
        intro address behind before
        rw [same address behind]
        exact (ctrl.addBatchEntry item).addAll_outside rest before
      obtain ⟨fields, payload⟩ := load_addBatchEntry ctrl item inside
      have fits := format.layout.load_store_eq_iff ctrl.reqBuf ctrl.reqBufEnd item.args item.arity
      rw [← fields] at fits
      have walked := ih (ctrl.addBatchEntry item) (by
        intro address behind
        apply same address
        simp only [Ctrl.addBatchEntry] at behind
        omega)
      rw [List.length_cons, rtxIterItem, List.map_cons, List.cons.injEq, List.forall_mem_cons,
        Item.content, Prod.mk.injEq, ← fits]
      constructor
      · rintro ⟨⟨args, -⟩, others⟩
        refine ⟨args, walked.mp ?_⟩
        rw [args, ← item.sized] at others
        rw [← others]
        congr 1
        simp only [Ctrl.addBatchEntry]
        omega
      · rintro ⟨args, others⟩
        rw [args, ← item.sized]
        refine ⟨⟨rfl, payload⟩, ?_⟩
        rw [← walked.mpr others]
        congr 1
        simp only [Ctrl.addBatchEntry]
        omega

/-- An item as it arrives where items have no payload: its arguments are cut down. -/
def Item.arriving (item : Item format) : List Nat :=
  List.zipWith Field.cut format.layout.fields item.args

/-- Without payloads the walk never loses its place, whatever the arguments are. -/
theorem rtxIterItem_arriving (noPayload : format.len = none) (ctrl : Ctrl)
    (items : List (Item format)) {msg : Memory} {num : Nat} (enough : num ≤ items.length)
    (same : ∀ address, ctrl.reqBufEnd ≤ address →
      msg address = (ctrl.addAll items).reqBuf address) :
    rtxIterItem format msg num ctrl.reqBufEnd =
      (items.take num).map fun item => (item.arriving, []) := by
  have empty : ∀ args, format.payloadLength args = 0 := by
    intro args
    simp [Format.payloadLength, noPayload]
  induction items generalizing ctrl num with
  | nil =>
      rw [List.length_nil, Nat.le_zero] at enough
      simp [enough, rtxIterItem]
  | cons item rest ih =>
      cases num with
      | zero => rfl
      | succ num =>
          have inside : ∀ address, ctrl.reqBufEnd ≤ address →
              address < (ctrl.addBatchEntry item).reqBufEnd →
              msg address = (ctrl.addBatchEntry item).reqBuf address := by
            intro address behind before
            rw [same address behind]
            exact (ctrl.addBatchEntry item).addAll_outside rest before
          obtain ⟨fields, -⟩ := load_addBatchEntry ctrl item inside
          rw [format.layout.load_store _ _ _ item.arity] at fields
          have next :
              (ctrl.addBatchEntry item).reqBufEnd = ctrl.reqBufEnd + format.layout.size := by
            simp only [Ctrl.addBatchEntry, item.sized, empty, Nat.add_zero]
          have walked := ih (ctrl.addBatchEntry item) (by simpa using enough) (by
            intro address behind
            exact same address (by omega))
          rw [rtxIterItem, List.take_succ_cons, List.map_cons, fields, ← walked, next]
          simp only [empty, Nat.add_zero]
          rfl

/-- The message of a batch. -/
theorem sendBatchOp_eq_some {items : List (Item format)} {reqBuf msg : Memory}
    (sent : ((Ctrl.clear reqBuf).addAll items).sendBatchOp = some msg) :
    items ≠ [] ∧ msg 1 = UInt8.ofNat items.length ∧
      ∀ address, headerSize ≤ address →
        msg address = ((Ctrl.clear reqBuf).addAll items).reqBuf address := by
  have count := (Ctrl.clear reqBuf).addAll_batchSize items
  simp only [Ctrl.clear, Nat.zero_add] at count
  unfold Ctrl.sendBatchOp at sent
  split at sent
  · rename_i nonempty
    rw [Option.some.injEq] at sent
    subst sent
    simp only [Ctrl.clear] at nonempty ⊢
    rw [count] at nonempty ⊢
    refine ⟨List.ne_nil_of_length_pos nonempty, by simp [Memory.write], ?_⟩
    intro address behind
    rw [write_outside _ (.inr _)]
    exact (show 2 ≤ headerSize by decide).trans behind
  · cases sent

/-- Nothing is sent for an empty batch only. -/
theorem eq_nil_of_sendBatchOp {items : List (Item format)} {reqBuf : Memory}
    (nothing : ((Ctrl.clear reqBuf).addAll items).sendBatchOp = none) : items = [] := by
  have count := (Ctrl.clear reqBuf).addAll_batchSize items
  simp only [Ctrl.clear, Nat.zero_add] at count
  simp only [Ctrl.sendBatchOp, Ctrl.clear, ite_eq_right_iff, reduceCtorEq, imp_false,
    count] at nothing
  exact List.length_eq_zero_iff.mp (by omega)

/-- A handler visits what was added exactly when there are at most 127 items and all
arguments fit. -/
theorem visited_eq_iff {items : List (Item format)} {reqBuf msg : Memory}
    (sent : ((Ctrl.clear reqBuf).addAll items).sendBatchOp = some msg) :
    visited format msg = items.map Item.content ↔
      items.length ≤ 127 ∧ ∀ item ∈ items, format.layout.Fits item.args := by
  obtain ⟨-, num, same⟩ := sendBatchOp_eq_some sent
  have numIs : numOf msg = if items.length % 256 < 128 then items.length % 256 else 0 := by
    rw [numOf, num, UInt8.toNat_ofNat']
  have walk := rtxIterItem_addAll (Ctrl.clear reqBuf) items same
  rw [visited]
  constructor
  · intro decoded
    have lengths := congrArg List.length decoded
    rw [length_rtxIterItem, List.length_map, numIs] at lengths
    have few : items.length ≤ 127 := by
      split at lengths <;> omega
    have all : numOf msg = items.length := by
      rw [numIs, Nat.mod_eq_of_lt (by omega), if_pos (by omega)]
    rw [all] at decoded
    exact ⟨few, walk.mp decoded⟩
  · rintro ⟨few, fits⟩
    have all : numOf msg = items.length := by
      rw [numIs, Nat.mod_eq_of_lt (by omega), if_pos (by omega)]
    rw [all]
    exact walk.mpr fits

/-- Turns of the loop of a handler over a batch of so many items. -/
def turns (length : Nat) : Nat := if length % 256 < 128 then length % 256 else 0

theorem turns_le (length : Nat) : turns length ≤ length := by
  have most : length % 256 ≤ length := Nat.mod_le _ _
  unfold turns
  split <;> omega

/-- A handler visits the items from the first on, as many as its loop has turns. -/
theorem visited_take (noPayload : format.len = none) {items : List (Item format)}
    {reqBuf msg : Memory}
    (sent : ((Ctrl.clear reqBuf).addAll items).sendBatchOp = some msg) :
    visited format msg = (items.take (turns items.length)).map fun item =>
      (item.arriving, []) := by
  obtain ⟨-, num, same⟩ := sendBatchOp_eq_some sent
  have numIs : numOf msg = turns items.length := by
    rw [numOf, num, UInt8.toNat_ofNat', turns]
  rw [visited, numIs]
  exact rtxIterItem_arriving noPayload (Ctrl.clear reqBuf) items (turns_le _) same

/-- Whatever the batch, a handler visits no more than 127 of its items, from the first on. -/
theorem visited_arriving (noPayload : format.len = none) {items : List (Item format)}
    {reqBuf msg : Memory}
    (sent : ((Ctrl.clear reqBuf).addAll items).sendBatchOp = some msg) :
    ∃ num, num ≤ 127 ∧ (items.length ≤ 127 → num = items.length) ∧
      visited format msg = (items.take num).map fun item => (item.arriving, []) := by
  refine ⟨turns items.length, ?_, ?_, visited_take noPayload sent⟩
  · unfold turns
    split <;> omega
  · intro few
    rw [turns, Nat.mod_eq_of_lt (by omega), if_pos (by omega)]

/-- Items that fit are visited as they were added. -/
theorem visited_content (noPayload : format.len = none) {items : List (Item format)}
    {reqBuf msg : Memory}
    (sent : ((Ctrl.clear reqBuf).addAll items).sendBatchOp = some msg)
    (fits : ∀ item ∈ items, format.layout.Fits item.args) :
    visited format msg = (items.take (turns items.length)).map Item.content := by
  rw [visited_take noPayload sent]
  apply List.map_congr_left
  intro item member
  have empty : item.payload = [] := by
    rw [← List.length_eq_zero_iff, item.sized, Format.payloadLength, noPayload]
  rw [Item.content, empty, Item.arriving,
    (Layout.zipWith_cut_eq_iff item.arity).mpr (fits item (List.mem_of_mem_take member))]

/-- Of the items that arrive a handler takes those of its machine. -/
theorem handled_of_visited {items : List (Item format)} {msg : Memory}
    (decoded : visited format msg = items.map Item.content) (machine : Nat) :
    handled format msg machine = (items.filter (·.pid = machine)).map Item.content := by
  rw [handled, decoded, List.filter_map]
  rfl

/-- A batch decodes to what was encoded exactly when it has at most 127 items and all
arguments fit their parameters and fields. -/
theorem decodes_iff (items : List (Item format)) (reqBuf : Memory) :
    Decodes items reqBuf ↔
      items.length ≤ 127 ∧ ∀ item ∈ items, format.layout.Fits item.args := by
  have reached : ∀ machine, machine ∈ ((Ctrl.clear reqBuf).addAll items).macSet ↔
      ∃ item ∈ items, item.pid = machine := by
    intro machine
    rw [Ctrl.mem_addAll_macSet]
    simp [Ctrl.clear]
  constructor
  · intro decodes
    cases sent : ((Ctrl.clear reqBuf).addAll items).sendBatchOp with
    | some msg => exact (visited_eq_iff sent).mp (decodes.visited msg sent)
    | none =>
        simp [eq_nil_of_sendBatchOp sent]
  · intro condition
    exact ⟨reached, fun msg sent => (visited_eq_iff sent).mpr condition,
      fun msg sent machine _ => handled_of_visited ((visited_eq_iff sent).mpr condition) machine⟩

/-! ## Deliveries -/

/-- Where a record is. -/
structure Place where
  pid : UInt8
  tableid : UInt8
  key : UInt64
  deriving DecidableEq, Repr

/-- How a batch is delivered: the buffer it is built in and the order in which the machines
take it. -/
structure Delivery (items : List (Item format)) where
  reqBuf : Memory
  order : List Nat
  nodup : order.Nodup
  covers : ∀ machine, machine ∈ order ↔ machine ∈ ((Ctrl.clear reqBuf).addAll items).macSet

namespace Delivery

variable {items : List (Item format)}

/-- The message, unless the batch is empty. -/
def message (delivery : Delivery items) : Option Memory :=
  ((Ctrl.clear delivery.reqBuf).addAll items).sendBatchOp

theorem mem_order (delivery : Delivery items) (machine : Nat) :
    machine ∈ delivery.order ↔ ∃ item ∈ items, item.pid = machine := by
  rw [delivery.covers, Ctrl.mem_addAll_macSet]
  simp [Ctrl.clear]

/-- The machines in the order in which the items stand. -/
def inOrder (items : List (Item format)) : Delivery items where
  reqBuf := fun _ => 0
  order := (items.map Item.pid).dedup
  nodup := List.nodup_dedup _
  covers := by
    intro machine
    rw [List.mem_dedup, Ctrl.mem_addAll_macSet]
    simp [Ctrl.clear]

/-- All machines together find every item the handlers visit, each once. -/
theorem perm_handled (noPayload : format.len = none) (delivery : Delivery items) {msg : Memory}
    (sent : delivery.message = some msg)
    (fits : ∀ item ∈ items, format.layout.Fits item.args) :
    (delivery.order.flatMap (Batch.handled format msg)).Perm
      ((items.take (turns items.length)).map Item.content) := by
  have seen := visited_content noPayload sent fits
  have covers : ∀ one ∈ visited format msg, one.1.getD format.pid 0 ∈ delivery.order := by
    rw [seen, List.forall_mem_map]
    intro item member
    rw [delivery.mem_order]
    exact ⟨item, List.mem_of_mem_take member, rfl⟩
  rw [← seen]
  exact perm_flatMap_filter delivery.nodup covers

/-- What a machine finds are the visited items that are its own. -/
theorem handled_eq (noPayload : format.len = none) (delivery : Delivery items) {msg : Memory}
    (sent : delivery.message = some msg)
    (fits : ∀ item ∈ items, format.layout.Fits item.args) (machine : Nat) :
    Batch.handled format msg machine =
      ((items.take (turns items.length)).filter (·.pid = machine)).map Item.content := by
  rw [Batch.handled, visited_content noPayload sent fits, List.filter_map]
  rfl

end Delivery

/-- A read of record 0 of table 0 on machine 0. -/
def firstRead : Item rtxReadItem where
  args := [0, 0, 0, 0, 8, 0]
  payload := []
  arity := rfl
  sized := List.length_nil

/-- 128 reads fit into a message, but no server visits any of them. -/
theorem not_decodes : ¬ ∀ (format : Format) (items : List (Item format)) (reqBuf : Memory),
    ((Ctrl.clear reqBuf).addAll items).reqBufEnd ≤ maxMsgSize → Decodes items reqBuf := by
  intro all
  have decodes := all rtxReadItem (List.replicate 128 firstRead) (fun _ => 0) (by decide +kernel)
  obtain ⟨msg, sent⟩ : ∃ msg, ((Ctrl.clear fun _ => 0).addAll
      (List.replicate 128 firstRead)).sendBatchOp = some msg :=
    ⟨_, if_pos (by rw [Ctrl.addAll_batchSize]; simp)⟩
  have few := ((visited_eq_iff sent).mp (decodes.visited msg sent)).1
  simp at few

end Rocc.Rtx.Batch
