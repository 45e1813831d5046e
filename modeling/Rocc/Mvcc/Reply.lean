import Mathlib.Tactic.IntervalCases
import Rocc.Base.Memory
import Rocc.Mvcc.Header

/-!
# Replies of the multi-version handlers

The bytes that `read_rpc_handler` and `lock_read_rpc_handler` send and what
`process_received_data` and `process_received_data_hybrid` make of them.  A record is the
memory at `node->value`: the header, then the versions, each as long as the request
says.  The reply buffer of a client keeps the bytes of earlier replies behind the
ones just received.

`remote_read` calls the decoder without `process_pos`, although the reply to a read
starts with the position as well; so the first eight bytes of the buffered value
are the position and the value follows behind them.
-/

namespace Rocc.Mvcc.Reply

open Rtx Memory

/-- `sizeof(MVCCHeader)`: lock, read timestamp and write timestamps. -/
def headerSize : Nat := 16 + 8 * versionNum

/-- `LOCK_SUCCESS_MAGIC`. -/
def lockSuccessMagic : UInt8 := 73

/-- `LOCK_FAIL_MAGIC`. -/
def lockFailMagic : UInt8 := 12

/-- `LOCK_UPDATE_TS_MAGIC`. -/
def lockUpdateTsMagic : UInt8 := 26

/-- The bytes of one version. -/
def slotBytes (record : Memory) (len : Nat) (pos : Slot) : List UInt8 :=
  record.read (headerSize + pos * len) len

/-- A record read as an `MVCCHeader` with versions of `len` bytes. -/
def headerOf (record : Memory) (len : Nat) : Header (List UInt8) where
  lock := record.readWord 0
  rts := record.readWord 8
  wts slot := record.readWord (16 + 8 * slot)
  data := slotBytes record len

/-! ## Servers -/

/-- The reply of `read_rpc_handler`. -/
def readReply (record : Memory) (timestamp len : Nat) : List UInt8 :=
  match (readRpcHandler (headerOf record len) timestamp).2 with
  | none => [lockFailMagic]
  | some pos => lockSuccessMagic :: (toBytes 8 pos ++ slotBytes record len pos)

/-- The reply of `lock_read_rpc_handler`.  With `whole`, in the builds that release or
commit with one-sided verbs, a success carries the record, lock word included. -/
def lockReadReply (whole : Bool) (record : Memory) (timestamp len : Nat) :
    Option (List UInt8) :=
  match lockReadRpcHandler (headerOf record len) timestamp with
  | none => none
  | some (_, .updateTs time) => some (lockUpdateTsMagic :: toBytes 8 time)
  | some (_, .fail) => some [lockFailMagic]
  | some (_, .success pos maxpos) =>
      let locked := record.writeWord 0 timestamp
      if whole then
        some (lockSuccessMagic :: locked.read 0 (headerSize + len * versionNum))
      else
        some (lockSuccessMagic :: (toBytes 8 pos ++ slotBytes locked len maxpos))

/-! ## Clients -/

/-- The fields of a `ReadSetItem` that the decoders fill. -/
structure Item where
  seq : Nat
  data : List UInt8
  deriving DecidableEq, Repr

/-- `reply_buf_` after a reply has been copied to its start. -/
def receive (stale : Memory) (reply : List UInt8) : Memory := stale.write 0 reply

/-- `process_received_data`; a position out of range fails the assertion. -/
def processReceivedData (buffer : Memory) (item : Item) (len : Nat) (processPos : Bool) :
    Option Item :=
  if processPos then
    let seq := buffer.readWord 1
    if seq < versionNum then some { seq, data := buffer.read 9 len } else none
  else
    some { item with data := buffer.read 1 len }

/-- `process_received_data_hybrid`: the reply is copied to `block`, which is then parsed
as a record. -/
def processReceivedDataHybrid (buffer block : Memory) (len : Nat) : Option Item :=
  let copied := block.write 0 (buffer.read 1 (headerSize + versionNum * len))
  let header := headerOf copied len
  match (smallest header.wts).2, (largest header.wts fun _ => true).2 with
  | some pos, some maxpos =>
      some { seq := pos + maxpos * versionNum, data := slotBytes copied len maxpos }
  | _, _ => none

/-- The read path: what `remote_read` buffers after a success is the slot chosen. -/
def ReadDecodes (record stale : Memory) (timestamp len : Nat) : Prop :=
  ∀ (item : Item) (pos : Slot), (readRpcHandler (headerOf record len) timestamp).2 = some pos →
    ∃ decoded, processReceivedData (receive stale (readReply record timestamp len)) item len
        false = some decoded ∧
      decoded.data = slotBytes record len pos

/-- The write path: `remote_write` buffers the newest version and keeps the slot to
overwrite; the hybrid decoder keeps both positions in `seq`. -/
def WriteDecodes (record stale block : Memory) (timestamp len : Nat) : Prop :=
  ∀ (item : Item) (after : Header (List UInt8)) (pos maxpos : Slot),
    lockReadRpcHandler (headerOf record len) timestamp = some (after, .success pos maxpos) →
    (∃ reply, lockReadReply false record timestamp len = some reply ∧
      ∃ decoded, processReceivedData (receive stale reply) item len true = some decoded ∧
        decoded.data = slotBytes record len maxpos ∧ decoded.seq = pos) ∧
    ∃ reply, lockReadReply true record timestamp len = some reply ∧
      ∃ decoded, processReceivedDataHybrid (receive stale reply) block len = some decoded ∧
        decoded.data = slotBytes record len maxpos ∧
        decoded.seq = pos + maxpos * versionNum

/-- A version that is the eight bytes of its own position over and over. -/
def RepeatsPos (record : Memory) (len : Nat) (pos : Slot) : Prop :=
  ∀ index < len, record (headerSize + pos * len + index) =
    if index % 8 = 0 then UInt8.ofNat pos else 0

/-! ## Decoding a read -/

/-- The bytes buffered for a read are the position and the start of the version. -/
theorem processReceivedData_readReply {record stale : Memory} {timestamp len : Nat}
    {pos : Slot} (item : Item)
    (answered : (readRpcHandler (headerOf record len) timestamp).2 = some pos) :
    processReceivedData (receive stale (readReply record timestamp len)) item len false =
      some { item with data := (toBytes 8 pos ++ slotBytes record len pos).take len } := by
  have reply : readReply record timestamp len =
      lockSuccessMagic :: (toBytes 8 pos ++ slotBytes record len pos) := by
    simp [readReply, answered]
  have inside : 1 + len ≤ (readReply record timestamp len).length := by
    simp only [reply, slotBytes, List.length_cons, List.length_append, length_toBytes, length_read]
    omega
  have block := read_write_inside stale 0 inside
  rw [Nat.zero_add] at block
  rw [processReceivedData, if_neg (by simp), receive, block, reply]
  rfl

/-- A list that starts with `front` and goes on with itself repeats `front`. -/
theorem take_append_self_iff (front data : List UInt8) (nonempty : 0 < front.length) :
    (front ++ data).take data.length = data ↔
      ∀ index < data.length, data[index]? = front[index % front.length]? := by
  constructor
  · intro same index inside
    induction index using Nat.strong_induction_on with
    | _ index ih =>
        have here : data[index]? = (front ++ data)[index]? := by
          conv_lhs => rw [← same]
          rw [List.getElem?_take, if_pos inside]
        rw [here]
        by_cases early : index < front.length
        · rw [List.getElem?_append_left early, Nat.mod_eq_of_lt early]
        · have late : front.length ≤ index := Nat.le_of_not_lt early
          rw [List.getElem?_append_right late, ih _ (by omega) (by omega),
            ← Nat.mod_eq_sub_mod late]
  · intro periodic
    apply List.ext_getElem?
    intro index
    rw [List.getElem?_take]
    split
    · rename_i inside
      by_cases early : index < front.length
      · rw [List.getElem?_append_left early, periodic index inside, Nat.mod_eq_of_lt early]
      · have late : front.length ≤ index := Nat.le_of_not_lt early
        rw [List.getElem?_append_right late, periodic index inside,
          periodic _ (by omega), ← Nat.mod_eq_sub_mod late]
    · rename_i outside
      rw [List.getElem?_eq_none (Nat.le_of_not_lt outside)]

/-- The bytes of a position. -/
theorem toBytes_slot (pos : Slot) (index : Nat) (inside : index < 8) :
    (toBytes 8 pos)[index]? = some (if index = 0 then UInt8.ofNat pos else 0) := by
  have low : (toBytes 8 pos : List UInt8) = [UInt8.ofNat pos, 0, 0, 0, 0, 0, 0, 0] := by
    revert pos
    decide
  rw [low]
  interval_cases index <;> rfl

theorem repeatsPos_iff {record : Memory} {len : Nat} {pos : Slot} :
    RepeatsPos record len pos ↔
      (toBytes 8 pos ++ slotBytes record len pos).take len = slotBytes record len pos := by
  have length : (slotBytes record len pos).length = len := length_read _ _ _
  have periodic := take_append_self_iff (toBytes 8 pos) (slotBytes record len pos)
    (by simp)
  rw [length] at periodic
  rw [periodic, RepeatsPos]
  apply forall₂_congr
  intro index inside
  have byte : (slotBytes record len pos)[index]? =
      some (record (headerSize + pos * len + index)) := by
    simp [slotBytes, Memory.read, inside]
  rw [byte, length_toBytes, toBytes_slot pos _ (Nat.mod_lt _ (by decide)), Option.some.injEq]

/-- A read is decoded correctly exactly when the version repeats its position. -/
theorem readDecodes_iff {record stale : Memory} {timestamp len : Nat} :
    ReadDecodes record stale timestamp len ↔
      ∀ pos, checkRead (headerOf record len) timestamp = some pos →
        RepeatsPos record len pos := by
  constructor
  · intro decodes pos checked
    have answered := (readRpcHandler_snd (headerOf record len) timestamp).trans checked
    obtain ⟨decoded, processed, same⟩ := decodes ⟨0, []⟩ pos answered
    rw [processReceivedData_readReply _ answered] at processed
    cases processed
    exact repeatsPos_iff.mpr same
  · intro repeats item pos answered
    have checked := (readRpcHandler_snd (headerOf record len) timestamp).symm.trans answered
    exact ⟨_, processReceivedData_readReply item answered,
      repeatsPos_iff.mp (repeats pos checked)⟩

/-! ## Decoding a lock -/

/-- Locking a record leaves its versions alone. -/
theorem slotBytes_lock (record : Memory) (word len : Nat) (pos : Slot) :
    slotBytes (record.writeWord 0 word) len pos = slotBytes record len pos := by
  apply read_writeWord_disjoint
  right
  rw [headerSize]
  omega

theorem wts_lock (record : Memory) (word len : Nat) :
    (headerOf (record.writeWord 0 word) len).wts = (headerOf record len).wts := by
  funext slot
  apply readWord_writeWord_disjoint
  right
  omega

/-- The position and the version sent are the ones decoded. -/
theorem processReceivedData_lockReadReply {record stale : Memory} {timestamp len : Nat}
    {after : Header (List UInt8)} {pos maxpos : Slot} (item : Item)
    (answered : lockReadRpcHandler (headerOf record len) timestamp =
      some (after, .success pos maxpos)) :
    ∃ reply, lockReadReply false record timestamp len = some reply ∧
      processReceivedData (receive stale reply) item len true =
        some { seq := pos, data := slotBytes record len maxpos } := by
  have reply : lockReadReply false record timestamp len =
      some (lockSuccessMagic :: (toBytes 8 pos ++ slotBytes record len maxpos)) := by
    simp [lockReadReply, answered, slotBytes_lock]
  refine ⟨_, reply, ?_⟩
  have size : (lockSuccessMagic :: (toBytes 8 pos ++ slotBytes record len maxpos)).length =
      9 + len := by
    simp only [slotBytes, List.length_cons, List.length_append, length_toBytes, length_read]
    omega
  have first := read_write_inside stale 0 (size.symm ▸ (by omega) :
    1 + 8 ≤ (lockSuccessMagic :: (toBytes 8 pos ++ slotBytes record len maxpos)).length)
  have second := read_write_inside stale 0 size.ge
  have word : (toBytes 8 pos ++ slotBytes record len maxpos).take 8 = toBytes 8 pos :=
    List.take_left' (length_toBytes 8 pos)
  have rest : (toBytes 8 pos ++ slotBytes record len maxpos).drop 8 =
      slotBytes record len maxpos :=
    List.drop_left' (length_toBytes 8 pos)
  have whole : (slotBytes record len maxpos).take len = slotBytes record len maxpos :=
    List.take_of_length_le (length_read _ _ _).le
  have small : (pos : Nat) % 256 ^ 8 = pos := Nat.mod_eq_of_lt (pos.isLt.trans (by decide))
  rw [Nat.zero_add, List.drop_succ_cons, List.drop_zero, word] at first
  rw [Nat.zero_add, List.drop_succ_cons, rest, whole] at second
  have seq : (receive stale
      (lockSuccessMagic :: (toBytes 8 pos ++ slotBytes record len maxpos))).readWord 1 = pos := by
    rw [readWord, receive, first, ofBytes_toBytes, small]
  rw [processReceivedData, if_pos rfl, seq, if_pos pos.isLt, receive, second]

/-- The bytes behind the status byte of a reply. -/
theorem receive_tail (stale : Memory) (status : UInt8) (bytes : List UInt8) :
    (receive stale (status :: bytes)).read 1 bytes.length = bytes := by
  have fits : 1 + bytes.length ≤ (status :: bytes).length := by
    rw [List.length_cons, Nat.add_comm]
  have received := read_write_inside stale 0 fits
  rw [Nat.zero_add, List.drop_succ_cons, List.drop_zero, List.take_length] at received
  exact received

/-- A block of a copy of the start of a memory. -/
theorem read_copy (memory block : Memory) {offset length size : Nat}
    (inside : offset + length ≤ size) :
    (block.write 0 (memory.read 0 size)).read offset length = memory.read offset length := by
  have fits : offset + length ≤ (memory.read 0 size).length := by
    rw [length_read]
    exact inside
  have within := read_write_inside block 0 fits
  rw [Nat.zero_add, take_drop_read memory 0 inside, Nat.zero_add] at within
  exact within

theorem wts_copy (memory block : Memory) (len : Nat) :
    (headerOf (block.write 0 (memory.read 0 (headerSize + versionNum * len))) len).wts =
      (headerOf memory len).wts := by
  funext slot
  simp only [headerOf, readWord]
  rw [read_copy]
  rw [headerSize]
  omega

theorem slotBytes_copy (memory block : Memory) (len : Nat) (pos : Slot) :
    slotBytes (block.write 0 (memory.read 0 (headerSize + versionNum * len))) len pos =
      slotBytes memory len pos := by
  apply read_copy
  have bound : (pos + 1 : Nat) * len ≤ versionNum * len := Nat.mul_le_mul_right len pos.isLt
  rw [Nat.add_mul, Nat.one_mul] at bound
  omega

/-- A copy of the whole record is parsed as the record. -/
theorem processReceivedDataHybrid_lockReadReply {record stale block : Memory}
    {timestamp len : Nat} {after : Header (List UInt8)} {pos maxpos : Slot}
    (answered : lockReadRpcHandler (headerOf record len) timestamp =
      some (after, .success pos maxpos)) :
    ∃ reply, lockReadReply true record timestamp len = some reply ∧
      processReceivedDataHybrid (receive stale reply) block len =
        some { seq := pos + maxpos * versionNum, data := slotBytes record len maxpos } := by
  obtain ⟨smallestFound, largestFound⟩ := lockReadRpcHandler_success answered
  have reply : lockReadReply true record timestamp len = some (lockSuccessMagic ::
      (record.writeWord 0 timestamp).read 0 (headerSize + versionNum * len)) := by
    simp [lockReadReply, answered, Nat.mul_comm len]
  refine ⟨_, reply, ?_⟩
  rw [← wts_lock record timestamp] at smallestFound largestFound
  rw [← slotBytes_lock record timestamp]
  have received := receive_tail stale lockSuccessMagic
    ((record.writeWord 0 timestamp).read 0 (headerSize + versionNum * len))
  rw [length_read] at received
  simp only [processReceivedDataHybrid, received, wts_copy, slotBytes_copy, smallestFound,
    largestFound]

theorem writeDecodes (record stale block : Memory) (timestamp len : Nat) :
    WriteDecodes record stale block timestamp len := by
  intro item after pos maxpos answered
  obtain ⟨reply, sent, decoded⟩ := processReceivedData_lockReadReply item answered
  obtain ⟨whole, sentWhole, decodedWhole⟩ := processReceivedDataHybrid_lockReadReply answered
  exact ⟨⟨reply, sent, _, decoded, rfl, rfl⟩, whole, sentWhole, _, decodedWhole, rfl, rfl⟩

/-! ## Agreement of handlers and decoders -/

/-- The replies decode to what was sent exactly when the version a read selects, if it
selects one, repeats the bytes of its position. -/
theorem replies_decode_iff (record stale block : Memory) (timestamp : Nat) (len : UInt16) :
    ReadDecodes record stale timestamp len.toNat ∧
        WriteDecodes record stale block timestamp len.toNat ↔
      ∀ pos, checkRead (headerOf record len.toNat) timestamp = some pos →
        RepeatsPos record len.toNat pos := by
  rw [readDecodes_iff]
  exact and_iff_left (writeDecodes record stale block timestamp len.toNat)

/-- A record whose first slot was written at timestamp 1 and holds the byte 7. -/
def sevenRecord : Memory := fun address =>
  if address = 16 then 1 else if address = headerSize then 7 else 0

/-- A read of the one byte of that record buffers its position instead. -/
theorem read_reply_misdecoded :
    (readRpcHandler (headerOf sevenRecord 1) 1105).2 = some 0 ∧
      slotBytes sevenRecord 1 0 = [7] ∧
      processReceivedData (receive sevenRecord (readReply sevenRecord 1105 1)) ⟨0, []⟩ 1 false =
        some ⟨0, [0]⟩ ∧
      ¬ ReadDecodes sevenRecord sevenRecord 1105 1 := by
  refine ⟨by decide +kernel, by decide +kernel, by decide +kernel, ?_⟩
  rw [readDecodes_iff]
  intro repeats
  have wrong := repeats 0 (by decide +kernel) 0 (by decide)
  revert wrong
  decide +kernel

end Rocc.Mvcc.Reply
