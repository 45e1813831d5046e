import Rocc.Base.Memory
import Rocc.Dslr.Model
import Rocc.Rtx.Record

/-!
# The commit stages, byte by byte

A record lies in memory as its `RdmaValHeader`, the lock word and the sequence word,
followed by the value.  The client keeps the same layout in the buffer of an item,
so a one-sided commit can take sequence word and value out of the buffer as one block.
The four ways to commit an item are given as the stores and verbs they execute, in
order, on the memory of the record's machine.
-/

namespace Rocc.Occ.WriteBack

open Rtx Dslr

/-- `sizeof(RdmaValHeader)`, and `META_SIZE`, the `meta_len` of every table. -/
def headerSize : Nat := 16

/-- The record at `off`, with a value of `len` bytes. -/
def recordAt (memory : Memory) (off len : Nat) : Record (List UInt8) where
  lock := memory.readWord off
  seq := memory.readWord (off + 8)
  value := memory.read (off + headerSize) len

/-- `inplace_write_op`, store by store; no result where the assertion fails. -/
def inplaceWriteOp (memory : Memory) (off : Nat) (value : List UInt8)
    (metaLen commitId : Nat) : Option Memory :=
  if headerSize ≤ metaLen then
    let oldSeq := memory.readWord (off + 8)
    let marked := memory.writeWord (off + 8) conflictWriteFlag
    let written := marked.write (off + metaLen) value
    let sequenced := written.writeWord (off + 8) (oldSeq + 2)
    some (if commitId = noCommitId then sequenced.writeWord off 0 else sequenced)
  else
    none

/-- A lock the `DSLR` lock manager knows as held: the value the word is to be reset from,
and whether its lease has run out. -/
structure HeldLock where
  resetFrom : Nat
  expired : Bool
  deriving DecidableEq, Repr

/-- `DSLR::releaseLock` of an exclusive lock, with the reset that follows when the word
has the value expected. -/
def releaseHeld (lock : Nat) (held : HeldLock) : Nat :=
  if held.expired = false ∨ 0 < held.resetFrom then
    let released := fetchAdd .nx 1 lock
    if 0 < held.resetFrom ∧ released = held.resetFrom then 0 else released
  else
    lock

/-- `ReadSetItem` of the write set: where the record is, the sequence word observed at lock
time, and the buffer, with `data_ptr` behind its header. -/
structure CommitItem where
  off : Nat
  seq : Nat
  len : Nat
  isLocal : Bool
  buffer : Memory
  held : Option HeldLock

/-- What `data_ptr` points to. -/
def CommitItem.payload (item : CommitItem) : List UInt8 :=
  item.buffer.read headerSize item.len

/-- `commit_oneshot_handler`. -/
def commitOneshotHandler (memory : Memory) (item : CommitItem) : Option Memory :=
  inplaceWriteOp memory item.off item.payload headerSize noCommitId

/-- `commit_rpc_handler2`. -/
def commitRpcHandler2 (memory : Memory) (item : CommitItem) : Option Memory :=
  (inplaceWriteOp memory item.off item.payload headerSize noCommitId).map fun written =>
    let sequenced :=
      written.writeWord (item.off + 8) (written.readWord (item.off + 8) + 2)
    sequenced.writeWord item.off 0

/-- `write_back_w_rdma`: the sequence word goes into the buffer, the block from there on to
the record, and 0 into the lock word.  A local item is written with a `meta` of 0. -/
def writeBackWRdma (memory : Memory) (item : CommitItem) : Option Memory :=
  if item.isLocal then
    inplaceWriteOp memory item.off item.payload 0 noCommitId
  else
    let buffer := (item.buffer.writeWord 8 (item.seq + 2)).writeWord 0 0
    let written := memory.write (item.off + headerSize - 8)
      (buffer.read (headerSize - 8) (item.len + 8))
    some (written.writeWord item.off 0)

/-- `write_back_w_FA_rdma`: the sequence word goes into the buffer, the value to the record,
and the lock manager releases the lock.  A local item fails an assertion. -/
def writeBackWFaRdma (memory : Memory) (item : CommitItem) : Option Memory :=
  if item.isLocal then
    none
  else
    let buffer := item.buffer.writeWord 8 (item.seq + 2)
    let written := memory.write (item.off + headerSize) (buffer.read headerSize item.len)
    some (match item.held with
      | some held => written.writeWord item.off (releaseHeld (written.readWord item.off) held)
      | none => written)

/-- The ways to commit an item. -/
inductive CommitStage where
  | oneshot
  | rpc2
  | rdma
  | faRdma
  deriving DecidableEq, Repr

/-- The memory after an item was committed. -/
def CommitStage.commit : CommitStage → Memory → CommitItem → Option Memory
  | .oneshot => commitOneshotHandler
  | .rpc2 => commitRpcHandler2
  | .rdma => writeBackWRdma
  | .faRdma => writeBackWFaRdma

/-! ## What a commit is to leave -/

/-- The lock is free: the word is 0 or, where tickets are taken, all of them are served. -/
def CommitStage.Free : CommitStage → Nat → Prop
  | .faRdma, lock => decodeDslrLockNx lock = decodeDslrLockMaxx lock ∧
      decodeDslrLockNs lock = decodeDslrLockMaxs lock
  | _, lock => lock = 0

/-- Checks of a sequence word observed earlier: `local_validate_op` and
`validate_reads_w_rdma` want the lock word to be 0 as well, `validate_rpc_handler2` and
`validate_reads_w_FA_rdma` do not. -/
inductive Validation where
  | seqAndLock
  | seqOnly
  deriving DecidableEq, Repr

/-- The check passes. -/
def Validation.passes : Validation → Record (List UInt8) → Nat → Bool
  | .seqAndLock, record, seq => record.localValidateOp seq
  | .seqOnly, record, seq => seq == record.seq

/-- The item is committed: the record has the payload, the sequence word observed plus 2
and a free lock, nothing else has changed, and no transaction that has observed the old
sequence word passes its validation. -/
structure Committed (stage : CommitStage) (memory after : Memory) (item : CommitItem) :
    Prop where
  value : (recordAt after item.off item.len).value = item.payload
  seq : (recordAt after item.off item.len).seq = (item.seq + 2) % wordBound
  lock : stage.Free (recordAt after item.off item.len).lock
  elsewhere : ∀ address, address < item.off ∨ item.off + headerSize + item.len ≤ address →
    after address = memory address
  detected : ∀ validation : Validation,
    validation.passes (recordAt after item.off item.len) item.seq = false

/-! ## The four stages -/

/-- Stores of value, sequence word and lock word make up the record. -/
theorem recordAt_stores (memory : Memory) (off seq lock : Nat) (value : List UInt8) :
    recordAt (((memory.write (off + headerSize) value).writeWord (off + 8) seq).writeWord off
        lock) off value.length =
      { lock := lock % wordBound, seq := seq % wordBound, value } := by
  rw [recordAt, Record.mk.injEq, headerSize, wordBound]
  refine ⟨?_, ?_, ?_⟩
  · rw [Memory.readWord_writeWord]
  · rw [Memory.readWord_writeWord_disjoint _ (.inr le_rfl), Memory.readWord_writeWord]
  · rw [Memory.read_writeWord_disjoint _ (.inr (by omega)),
      Memory.read_writeWord_disjoint _ (.inr le_rfl), Memory.read_write_self]

/-- The same stores leave the rest of the memory alone. -/
theorem stores_elsewhere (memory : Memory) {off seq lock address : Nat} {value : List UInt8}
    (outside : address < off ∨ off + headerSize + value.length ≤ address) :
    ((memory.write (off + headerSize) value).writeWord (off + 8) seq).writeWord off lock
        address = memory address := by
  rw [headerSize] at outside ⊢
  rw [Memory.writeWord_outside _ (by omega), Memory.writeWord_outside _ (by omega),
    Memory.write_outside _ (by omega)]

/-- Memories after the stores of a commit. -/
theorem committed_of_stores {stage : CommitStage} {memory after : Memory} {item : CommitItem}
    (free : stage ≠ .faRdma) (sameElsewhere : ∀ address, address < item.off ∨
      item.off + headerSize + item.len ≤ address → after address = memory address) :
    Committed stage memory (((after.write (item.off + headerSize) item.payload).writeWord
      (item.off + 8) (item.seq + 2)).writeWord item.off 0) item := by
  have sized : item.payload.length = item.len := Memory.length_read _ _ _
  have stored := recordAt_stores after item.off (item.seq + 2) 0 item.payload
  rw [sized] at stored
  have changed : item.seq ≠ (item.seq + 2) % wordBound := by
    rw [wordBound]
    omega
  constructor
  · rw [stored]
  · rw [stored]
  · rw [stored]
    cases stage with
    | oneshot | rpc2 | rdma => rfl
    | faRdma => exact absurd rfl free
  · intro address outside
    rw [stores_elsewhere after (by rwa [sized])]
    exact sameElsewhere address outside
  · intro validation
    rw [stored]
    cases validation with
    | seqAndLock => simp [Validation.passes, Record.localValidateOp, changed]
    | seqOnly => simp [Validation.passes, changed]

theorem inplaceWriteOp_eq (memory : Memory) (off : Nat) (value : List UInt8) :
    inplaceWriteOp memory off value headerSize noCommitId =
      some ((((memory.writeWord (off + 8) conflictWriteFlag).write (off + headerSize)
        value).writeWord (off + 8) (memory.readWord (off + 8) + 2)).writeWord off 0) := by
  simp [inplaceWriteOp]

/-- `inplace_write_op` is the operator on records. -/
theorem recordAt_inplaceWriteOp {memory after : Memory} {off : Nat} {value : List UInt8}
    (written : inplaceWriteOp memory off value headerSize noCommitId = some after) :
    recordAt after off value.length =
      (recordAt memory off value.length).inplaceWriteOp value noCommitId := by
  rw [inplaceWriteOp_eq, Option.some.injEq] at written
  rw [← written, recordAt_stores, Record.inplaceWriteOp, if_pos rfl]
  rfl

/-- The sequence word is advanced twice. -/
theorem commitRpcHandler2_seq {memory after : Memory} {item : CommitItem}
    (committed : commitRpcHandler2 memory item = some after) :
    (recordAt after item.off item.len).seq =
      ((memory.readWord (item.off + 8) + 2) % wordBound + 2) % wordBound := by
  rw [commitRpcHandler2, inplaceWriteOp_eq, Option.map_some, Option.some.injEq] at committed
  subst committed
  change Memory.readWord _ _ = _
  rw [Memory.readWord_writeWord_disjoint _ (.inr le_rfl), Memory.readWord_writeWord,
    Memory.readWord_writeWord_disjoint _ (.inr le_rfl), Memory.readWord_writeWord, wordBound]

/-- The block out of the buffer is the new sequence word and the value. -/
theorem writeBackWRdma_eq {memory : Memory} {item : CommitItem}
    (remote : item.isLocal = false) :
    writeBackWRdma memory item =
      some (((memory.write (item.off + headerSize) item.payload).writeWord (item.off + 8)
        (item.seq + 2)).writeWord item.off 0) := by
  have seqBlock : ((item.buffer.writeWord 8 (item.seq + 2)).writeWord 0 0).read 8 8 =
      Memory.toBytes 8 (item.seq + 2) := by
    rw [Memory.read_writeWord_disjoint _ (.inr le_rfl), Memory.writeWord,
      Memory.read_write_of_length _ (Memory.length_toBytes 8 _)]
  have valueBlock : ((item.buffer.writeWord 8 (item.seq + 2)).writeWord 0 0).read (8 + 8)
      item.len = item.payload := by
    rw [Memory.read_writeWord_disjoint _ (.inr (by omega)),
      Memory.read_writeWord_disjoint _ (.inr le_rfl)]
    rfl
  have block : ((item.buffer.writeWord 8 (item.seq + 2)).writeWord 0 0).read 8 (8 + item.len) =
      Memory.toBytes 8 (item.seq + 2) ++ item.payload := by
    rw [Memory.read_add, seqBlock, valueBlock]
  have written : memory.write (item.off + 8) (Memory.toBytes 8 (item.seq + 2) ++ item.payload) =
      (memory.write (item.off + headerSize) item.payload).writeWord (item.off + 8)
        (item.seq + 2) := by
    rw [Memory.write_append, Memory.length_toBytes, Memory.write_comm _ (by simp)]
    rfl
  rw [← written, ← block, Nat.add_comm 8 item.len, writeBackWRdma, if_neg (by simp [remote])]
  rfl

/-- The sequence word is left alone. -/
theorem writeBackWFaRdma_seq {memory after : Memory} {item : CommitItem}
    (committed : writeBackWFaRdma memory item = some after) :
    (recordAt after item.off item.len).seq = memory.readWord (item.off + 8) := by
  rw [writeBackWFaRdma] at committed
  split at committed
  · cases committed
  · have untouched : ∀ bytes : List UInt8,
        (memory.write (item.off + headerSize) bytes).readWord (item.off + 8) =
          memory.readWord (item.off + 8) := by
      intro bytes
      rw [headerSize]
      exact Memory.readWord_write_disjoint _ (.inl (by omega))
    rw [Option.some.injEq] at committed
    rw [← committed, recordAt]
    cases item.held with
    | none => exact untouched _
    | some held =>
        change Memory.readWord (Memory.writeWord _ _ _) _ = _
        rw [Memory.readWord_writeWord_disjoint _ (.inr le_rfl)]
        exact untouched _

/-- For every memory, record, observed sequence word and payload: an item is committed
exactly by `commit_oneshot_handler` and, when it is remote, by `write_back_w_rdma`. -/
theorem committed_iff (stage : CommitStage) (memory : Memory) (item : CommitItem)
    (observed : memory.readWord (item.off + 8) = item.seq) :
    (∃ after, stage.commit memory item = some after ∧ Committed stage memory after item) ↔
      stage = .oneshot ∨ (stage = .rdma ∧ item.isLocal = false) := by
  constructor
  · rintro ⟨after, stepped, committed⟩
    have advanced := committed.seq
    cases stage with
    | oneshot => exact .inl rfl
    | rpc2 =>
        rw [commitRpcHandler2_seq stepped, observed, wordBound] at advanced
        omega
    | rdma =>
        right
        refine ⟨rfl, ?_⟩
        by_contra isLocal
        rw [Bool.not_eq_false] at isLocal
        simp [CommitStage.commit, writeBackWRdma, isLocal, inplaceWriteOp, headerSize] at stepped
    | faRdma =>
        rw [writeBackWFaRdma_seq stepped, observed, wordBound] at advanced
        omega
  · rintro (rfl | ⟨rfl, remote⟩)
    · refine ⟨_, inplaceWriteOp_eq memory item.off item.payload, ?_⟩
      rw [observed]
      apply committed_of_stores (by decide)
      intro address outside
      rw [headerSize] at outside
      exact Memory.writeWord_outside _ (by omega)
    · refine ⟨_, writeBackWRdma_eq remote, ?_⟩
      apply committed_of_stores (by decide)
      exact fun _ _ => rfl

/-- An item with a one-byte payload 7 for a record at 0 whose sequence word is 2. -/
def sampleItem (isLocal : Bool) : CommitItem where
  off := 0
  seq := 2
  len := 1
  isLocal
  buffer address := if address = 16 then 7 else 0
  held := some { resetFrom := 0, expired := false }

/-- The record, locked by whoever commits: the lock word is 1. -/
def sampleMemory : Memory := fun address =>
  if address = 0 then 1 else if address = 8 then 2 else if address = 16 then 5 else 0

theorem committed_iff_sample :
    sampleMemory.readWord ((sampleItem false).off + 8) = (sampleItem false).seq ∧
      ((∃ after, CommitStage.faRdma.commit sampleMemory (sampleItem false) = some after ∧
          Committed .faRdma sampleMemory after (sampleItem false)) ↔
        CommitStage.faRdma = .oneshot ∨
          (CommitStage.faRdma = .rdma ∧ (sampleItem false).isLocal = false)) :=
  ⟨by decide, committed_iff .faRdma sampleMemory (sampleItem false) (by decide)⟩

/-- `write_back_w_FA_rdma` leaves the sequence word at 2, and `commit_rpc_handler2` sets it
to 6. -/
theorem commit_stages_differ : ¬ ∀ (stage : CommitStage) (memory : Memory)
    (item : CommitItem), memory.readWord (item.off + 8) = item.seq →
      ∃ after, stage.commit memory item = some after ∧ Committed stage memory after item := by
  intro all
  obtain ⟨after, stepped, committed⟩ :=
    all .faRdma sampleMemory (sampleItem false) (by decide)
  have unchanged := writeBackWFaRdma_seq stepped
  rw [committed.seq] at unchanged
  revert unchanged
  decide

end Rocc.Occ.WriteBack
