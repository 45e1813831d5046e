import Rocc.Rtx.Batch

/-!
# Commit messages of `DBFarm`

`remote_write` puts an item with the bytes of the write behind it into the commit message of a
transaction, and the handler of each server walks over the items.  The length of a write is
stored in one byte and the number of items in one signed byte, but the writer advances by the
whole length.
-/

namespace Rocc.Db.Farm.CommitMessage

open Memory Rtx Rtx.Batch

/-! ## The client -/

/-- The fields of `RemoteCommitItem`: `pid`, `off` and `payload`. -/
def remoteCommitFields : List Field := [⟨0, 1, 1⟩, ⟨8, 8, 8⟩, ⟨16, 1, 1⟩]

/-- `RemoteCommitItem`. -/
def remoteCommitItem : Format where
  layout :=
    { size := 24
      fields := remoteCommitFields
      inside := by decide
      apart := by decide
      param_le := by decide }
  pid := 0
  len := some 2

/-- `sizeof(ReqHeader)`. -/
def headerSize : Nat := 8

/-- `META_LENGTH`. -/
def metaLength : Nat := 16

/-- A call of `remote_write`: what `kvs_[r_idx]` says of the record, and the value. -/
structure RemoteWrite where
  pid : Nat
  off : Nat
  val : List UInt8
  off_lt : off < 2 ^ 64

/-- `commit_buf_`, the offset of `commit_buf_end_` in it, and `write_items_`. -/
structure CommitBuf where
  commitBuf : Memory
  commitBufEnd : Nat
  writeItems : Nat

/-- `_begin`: the buffer keeps the bytes of earlier messages. -/
def CommitBuf.begin (commitBuf : Memory) : CommitBuf := ⟨commitBuf, headerSize, 0⟩

/-- `remote_write`. -/
def CommitBuf.remoteWrite (buf : CommitBuf) (write : RemoteWrite) : CommitBuf where
  commitBuf :=
    (remoteCommitItem.layout.store buf.commitBuf buf.commitBufEnd
      [write.pid, write.off, write.val.length]).write
        (buf.commitBufEnd + remoteCommitItem.layout.size) write.val
  commitBufEnd := buf.commitBufEnd + remoteCommitItem.layout.size + write.val.length
  writeItems := buf.writeItems + 1

/-- All writes of a transaction. -/
def CommitBuf.remoteWrites (buf : CommitBuf) (writes : List RemoteWrite) : CommitBuf :=
  writes.foldl CommitBuf.remoteWrite buf

/-- `commit_remote`: the message, unless nothing was written. -/
def CommitBuf.commitRemote (buf : CommitBuf) (corId : UInt8) : Option Memory :=
  if 0 < buf.writeItems then
    some (buf.commitBuf.write 0 [UInt8.ofNat buf.writeItems, corId])
  else none

/-! ## The server -/

/-- The items of the loop: their fields and the bytes behind them. -/
def decoded (msg : Memory) : List (List Nat × List UInt8) :=
  rtxIterItem remoteCommitItem msg (numItems (msg 0)) headerSize

/-- The write to a record: the sequence number is one while the value is copied, and the lock is
released. -/
def install (memory : Memory) (off : Nat) (bytes : List UInt8) : Memory :=
  let preSeq := memory.readWord (off + 8)
  let copied := (memory.writeWord (off + 8) 1).write (off + metaLength) bytes
  (copied.writeWord (off + 8) (preSeq + 2)).writeWord off 0

/-- `commit_rpc_handler` on the memory of a server. -/
def commitRpcHandler (currentPartition : Nat) (msg memory : Memory) : Memory :=
  ((decoded msg).filter fun item => item.1.getD 0 0 = currentPartition).foldl
    (fun memory item => install memory (item.1.getD 1 0) item.2) memory

/-! ## Decoding -/

/-- The item of a write. -/
def RemoteWrite.item (write : RemoteWrite) : Item remoteCommitItem where
  args := [write.pid, write.off, write.val.length]
  payload := write.val
  arity := rfl
  sized := rfl

/-- Whatever server gets the message, it decodes to the list of the writes. -/
def Decodes (writes : List RemoteWrite) (commitBuf : Memory) (corId : UInt8) : Prop :=
  ∀ msg, ((CommitBuf.begin commitBuf).remoteWrites writes).commitRemote corId = some msg →
    decoded msg = writes.map fun write => ([write.pid, write.off, write.val.length], write.val)

variable {writes : List RemoteWrite} {commitBuf msg : Memory} {corId : UInt8}

/-- The message is filled as those of the batches. -/
theorem remoteWrites_eq (buf : CommitBuf) (writes : List RemoteWrite) (macSet : Finset Nat)
    (batchSize : Nat) :
    (buf.remoteWrites writes).writeItems = buf.writeItems + writes.length ∧
      (buf.remoteWrites writes).commitBuf =
        ((Ctrl.mk buf.commitBuf buf.commitBufEnd macSet batchSize).addAll
          (writes.map RemoteWrite.item)).reqBuf := by
  induction writes generalizing buf macSet batchSize with
  | nil => exact ⟨rfl, rfl⟩
  | cons write rest ih =>
      obtain ⟨count, filled⟩ :=
        ih (buf.remoteWrite write) (Insert.insert write.item.pid macSet) (batchSize + 1)
      refine ⟨?_, filled⟩
      rw [CommitBuf.remoteWrites, List.foldl_cons, ← CommitBuf.remoteWrites, count,
        List.length_cons, Nat.add_comm rest.length, ← Nat.add_assoc]
      rfl

/-- Each write takes an item at least. -/
theorem length_le_remoteWrites (buf : CommitBuf) (writes : List RemoteWrite) :
    buf.commitBufEnd + 24 * writes.length ≤ (buf.remoteWrites writes).commitBufEnd := by
  induction writes generalizing buf with
  | nil => exact Nat.le_refl _
  | cons write rest ih =>
      have others := ih (buf.remoteWrite write)
      have advanced : (buf.remoteWrite write).commitBufEnd =
          buf.commitBufEnd + 24 + write.val.length := rfl
      rw [List.length_cons]
      rw [advanced] at others
      exact Nat.le_trans (by omega) others

/-- The items of the message, and their number as far as it fits. -/
theorem commitRemote_eq_some
    (sent : ((CommitBuf.begin commitBuf).remoteWrites writes).commitRemote corId = some msg) :
    writes ≠ [] ∧ msg 0 = UInt8.ofNat writes.length ∧
      ∀ address, headerSize ≤ address → msg address =
        ((Ctrl.mk commitBuf headerSize ∅ 0).addAll (writes.map RemoteWrite.item)).reqBuf
          address := by
  obtain ⟨count, filled⟩ := remoteWrites_eq (CommitBuf.begin commitBuf) writes ∅ 0
  rw [CommitBuf.commitRemote] at sent
  split at sent
  · rename_i some
    obtain rfl := Option.some.inj sent
    rw [count] at some ⊢
    simp only [CommitBuf.begin, Nat.zero_add] at some filled ⊢
    refine ⟨List.ne_nil_of_length_pos some, by simp [Memory.write], ?_⟩
    intro address behind
    have two : 2 ≤ headerSize := by decide
    rw [write_outside _ (.inr (two.trans behind)), ← filled]
  · cases sent

theorem fits_item (write : RemoteWrite) :
    remoteCommitItem.layout.Fits write.item.args ↔ write.pid < 256 ∧ write.val.length < 256 := by
  have off := write.off_lt
  simp only [Layout.Fits, remoteCommitItem, remoteCommitFields, RemoteWrite.item, List.forall₂_cons,
    List.forall₂_nil_right_iff, and_true, Nat.pow_one]
  have wide : write.off < 256 ^ 8 := off
  tauto

/-- Walking over as many items as there are writes. -/
theorem walked_iff
    (sent : ((CommitBuf.begin commitBuf).remoteWrites writes).commitRemote corId = some msg) :
    rtxIterItem remoteCommitItem msg writes.length headerSize =
        writes.map (Item.content ∘ RemoteWrite.item) ↔
      ∀ write ∈ writes, write.pid < 256 ∧ write.val.length < 256 := by
  have walk := rtxIterItem_addAll (Ctrl.mk commitBuf headerSize ∅ 0)
    (writes.map RemoteWrite.item) (commitRemote_eq_some sent).2.2
  rw [List.length_map, List.map_map, List.forall_mem_map] at walk
  simpa only [fits_item] using walk

/-- The number of items arrives if it fits. -/
theorem counted_iff
    (inBuffer : ((CommitBuf.begin commitBuf).remoteWrites writes).commitBufEnd ≤ maxMsgSize)
    (sent : ((CommitBuf.begin commitBuf).remoteWrites writes).commitRemote corId = some msg) :
    numItems (msg 0) = writes.length ↔ writes.length ≤ 127 := by
  have number : (msg 0).toNat = writes.length % 256 := by
    rw [(commitRemote_eq_some sent).2.1, UInt8.toNat_ofNat']
  have room := (length_le_remoteWrites (CommitBuf.begin commitBuf) writes).trans inBuffer
  rw [maxMsgSize] at room
  rw [numItems, number]
  split <;> omega

/-- A message that decodes has no item that is cut off. -/
theorem Decodes.fits (decodes : Decodes writes commitBuf corId)
    (inBuffer : ((CommitBuf.begin commitBuf).remoteWrites writes).commitBufEnd ≤ maxMsgSize) :
    writes.length ≤ 127 ∧ ∀ write ∈ writes, write.pid < 256 ∧ write.val.length < 256 := by
  cases sent : ((CommitBuf.begin commitBuf).remoteWrites writes).commitRemote corId with
  | some msg =>
      have isList := decodes msg sent
      have few : writes.length ≤ 127 := by
        have lengths := congrArg List.length isList
        rw [decoded, length_rtxIterItem, List.length_map] at lengths
        exact (counted_iff inBuffer sent).mp lengths
      refine ⟨few, (walked_iff sent).mp ?_⟩
      rw [← (counted_iff inBuffer sent).mpr few]
      exact isList
  | none =>
      have count := (remoteWrites_eq (CommitBuf.begin commitBuf) writes ∅ 0).1
      rw [CommitBuf.commitRemote, count] at sent
      obtain rfl : writes = [] := by
        cases writes with
        | nil => rfl
        | cons write rest => simp at sent
      simp

/-- A message decodes to the writes exactly if there are at most 127 of them, none is longer than
255 bytes and the numbers of their servers fit in a byte. -/
theorem decodes_iff_fits (writes : List RemoteWrite) (commitBuf : Memory) (corId : UInt8)
    (inBuffer : ((CommitBuf.begin commitBuf).remoteWrites writes).commitBufEnd ≤ maxMsgSize) :
    Decodes writes commitBuf corId ↔
      writes.length ≤ 127 ∧ ∀ write ∈ writes, write.pid < 256 ∧ write.val.length < 256 := by
  refine ⟨fun decodes => decodes.fits inBuffer, ?_⟩
  rintro ⟨few, fits⟩ msg sent
  rw [decoded, (counted_iff inBuffer sent).mpr few]
  exact (walked_iff sent).mpr fits

theorem decodes_iff_fits_three : Decodes [⟨1, 64, [1, 2, 3], by decide⟩] (fun _ => 0) 1 :=
  (decodes_iff_fits _ _ 1 (by decide)).mpr ⟨by decide, by simp⟩

/-- A write of 256 bytes arrives without its bytes. -/
theorem not_decodes_long : ¬∀ (writes : List RemoteWrite) (commitBuf : Memory) (corId : UInt8),
    ((CommitBuf.begin commitBuf).remoteWrites writes).commitBufEnd ≤ maxMsgSize →
      Decodes writes commitBuf corId := by
  intro always
  have single : ∀ write : RemoteWrite, ((CommitBuf.begin fun _ => 0).remoteWrites
      [write]).commitBufEnd = 32 + write.val.length := fun _ => rfl
  have inBuffer : ((CommitBuf.begin fun _ => 0).remoteWrites
      [⟨1, 64, List.replicate 256 7, by decide⟩]).commitBufEnd ≤ maxMsgSize := by
    rw [single, List.length_replicate]
    decide
  have short := ((always _ _ 1 inBuffer).fits inBuffer).2 _ List.mem_cons_self
  rw [List.length_replicate] at short
  exact absurd short.2 (by decide)

/-- Then the handler of a server installs its writes in their order, and no others. -/
theorem Decodes.commitRpcHandler (decodes : Decodes writes commitBuf corId)
    (sent : ((CommitBuf.begin commitBuf).remoteWrites writes).commitRemote corId = some msg)
    (currentPartition : Nat) (memory : Memory) :
    commitRpcHandler currentPartition msg memory =
      (writes.filter fun write => write.pid = currentPartition).foldl
        (fun memory write => install memory write.off write.val) memory := by
  rw [CommitMessage.commitRpcHandler, decodes msg sent, List.filter_map, List.foldl_map]
  rfl

end Rocc.Db.Farm.CommitMessage
