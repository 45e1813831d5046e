import Rocc.Base.Memory

/-!
# `TempLog`

A coroutine collects the entries of a log in memory that is allocated anew, twice as large or more,
whenever the next piece does not fit.  `log_backups` rounds the size up to a multiple of eight bytes
before the tailer, and what stands in these bytes is not written.

`rmalloc` gives what each block that is allocated holds at first.  Memory behind the end of a block
may hold anything, and nothing is written there.
-/

namespace Rocc.Db.DbLogger

open Memory

/-! ## Sizes -/

/-- `THREAD_PADDING_SIZE`. -/
def threadPaddingSize : Nat := 32 * 1024

/-- `ROUND_UP_BASE`. -/
def roundUpBase : Nat := 8

/-- `LOG_HEADER_MAGIC_NUM`. -/
def logHeaderMagicNum : Nat := 73

/-- `LOG_TAILER_MAGIC_NUM`. -/
def logTailerMagicNum : Nat := 74

/-- `sizeof(TXHeader)`. -/
def txHeaderSize : Nat := 16

/-- `sizeof(TXTailer)`. -/
def txTailerSize : Nat := 16

/-- `sizeof(EntryMeta)`. -/
def entryMetaSize : Nat := 24

/-- `reserved_size_`; `DBLogger` passes the size of the headers of a message, or zero. -/
structure Config where
  reservedSize : Nat
  reservedSize_le : reservedSize ≤ 2 ^ 30

/-! ## `TempLog` -/

/-- The block of `alloced_size_` bytes from `mem_start_` on, and the offsets in it. -/
structure TempLog where
  mem : Memory
  allocedSize : Nat
  start : Nat
  current : Nat
  end_ : Nat
  allocs : Nat

namespace TempLog

/-- `open`, with `base_alloc_size_`. -/
def openLog (config : Config) (rmalloc : Nat → Memory) : TempLog where
  mem := rmalloc 0
  allocedSize := 512
  start := config.reservedSize
  current := config.reservedSize + 8
  end_ := config.reservedSize + 8
  allocs := 1

variable (rmalloc : Nat → Memory) (log : TempLog)

/-- `get_total_size`. -/
def getTotalSize : Nat := log.end_ - log.start

/-- `get_log_size`. -/
def getLogSize : Nat := log.end_ - log.start - 8

/-- The loop of `resize`: `alloced_size_` has 32 bits, and from zero on the loop does not end. -/
def doubled (size : Nat) : Nat → Nat → Option Nat
  | 0, _ => none
  | fuel + 1, allocedSize =>
      if allocedSize < size then doubled size fuel (allocedSize * 2 % 2 ^ 32) else some allocedSize

/-- `resize`. -/
def resize (size : Nat) : Option TempLog :=
  (doubled (log.end_ + size) 33 log.allocedSize).map fun allocedSize =>
    if allocedSize = log.allocedSize then log
    else
      { log with
        mem := fun address =>
          if address < log.end_ then log.mem address else rmalloc log.allocs address
        allocedSize
        current := log.end_
        allocs := log.allocs + 1 }

/-- `append_entry`; the result of the source is `current_`. -/
def appendEntry (size : Nat) : Option TempLog :=
  if log.current = log.end_ then
    (log.resize rmalloc size).map fun resized => { resized with end_ := resized.end_ + size }
  else none

/-- `close_entry`. -/
def closeEntry : TempLog := { log with current := log.end_ }

/-- `log_size_round_up`. -/
def logSizeRoundUp : Option TempLog :=
  if log.current = log.end_ then
    let logSize := log.getTotalSize
    if logSize % roundUpBase ≠ 0 then
      let delta := roundUpBase - logSize % roundUpBase
      (if log.allocedSize < logSize + delta then log.resize rmalloc delta else some log).map
        fun resized =>
          { resized with current := resized.end_ + delta, end_ := resized.end_ + delta }
    else some log
  else none

/-- Bytes are written into the block. -/
def put (offset : Nat) (bytes : List UInt8) : Option TempLog :=
  if offset + bytes.length ≤ log.allocedSize then
    some { log with mem := log.mem.write offset bytes }
  else none

/-! ## `DBLogger` -/

/-- `log_begin`. -/
def logBegin (config : Config) (rmalloc : Nat → Memory) (globalSeq : UInt64) :
    Option TempLog := do
  let log ← (openLog config rmalloc).appendEntry rmalloc txHeaderSize
  let log ← log.put log.current (toBytes 8 logHeaderMagicNum)
  let log ← log.put (log.current + 8) (toBytes 8 globalSeq.toNat)
  return log.closeEntry

/-- `get_log_entry`; `tableId` is the word of the `int`. -/
def getLogEntry (tableId : UInt32) (key : UInt64) (size : Nat) : Option TempLog := do
  let log ← log.appendEntry rmalloc (entryMetaSize + size)
  let log ← log.put log.current (toBytes 4 tableId.toNat)
  let log ← log.put (log.current + 4) (toBytes 4 size)
  log.put (log.current + 8) (toBytes 8 key.toNat)

/-- `close_entry` of an entry with its sequence number. -/
def closeLogEntry (seq : UInt64) : Option TempLog := do
  let log ← log.put (log.current + 16) (toBytes 8 seq.toNat)
  return log.closeEntry

/-- `log_backups`, with the assertion of `log_setup`. -/
def logBackups (seq : UInt64) : Option TempLog := do
  let log ← log.logSizeRoundUp rmalloc
  let log ← log.appendEntry rmalloc txTailerSize
  let log ← log.put log.current (toBytes 8 logTailerMagicNum)
  let log ← log.put (log.current + 8) (toBytes 8 seq.toNat)
  let log := log.closeEntry
  if log.getTotalSize ≤ threadPaddingSize then log.put log.start (toBytes 8 log.getLogSize)
  else none

/-- What is sent. -/
def image : List UInt8 := log.mem.read log.start log.getTotalSize

end TempLog

/-- An entry with the value that is written to it. -/
structure Entry where
  tableId : UInt32
  key : UInt64
  seq : UInt64
  value : List UInt8

/-- `get_log_entry`, the write of the value, and `close_entry`. -/
def TempLog.logEntry (rmalloc : Nat → Memory) (log : TempLog) (entry : Entry) :
    Option TempLog := do
  let log ← log.getLogEntry rmalloc entry.tableId entry.key entry.value.length
  let log ← log.put (log.current + entryMetaSize) entry.value
  log.closeLogEntry entry.seq

/-- A whole log. -/
def logged (config : Config) (rmalloc : Nat → Memory) (globalSeq : UInt64) (entries : List Entry)
    (seq : UInt64) : Option TempLog := do
  let log ← TempLog.logBegin config rmalloc globalSeq
  let log ← entries.foldlM (TempLog.logEntry rmalloc) log
  log.logBackups rmalloc seq

end Rocc.Db.DbLogger
