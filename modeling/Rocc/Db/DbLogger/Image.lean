import Mathlib.Algebra.BigOperators.Group.List.Basic
import Rocc.Db.DbLogger.TempLog

/-!
# The image of a log

However often the memory of a log moves, its image is the size, the header, the entries in their
order, less than eight bytes of padding, and the tailer.
-/

namespace Rocc.Db.DbLogger

open Memory

variable {config : Config} {log : TempLog} {body piece : List UInt8} {size : Nat}

/-! ## Pieces -/

/-- The bytes of a `TXHeader`. -/
def headerBytes (globalSeq : UInt64) : List UInt8 :=
  toBytes 8 logHeaderMagicNum ++ toBytes 8 globalSeq.toNat

/-- The bytes of a `TXTailer`. -/
def tailerBytes (seq : UInt64) : List UInt8 := toBytes 8 logTailerMagicNum ++ toBytes 8 seq.toNat

/-- The bytes of an `EntryMeta` with the value behind it. -/
def Entry.bytes (entry : Entry) : List UInt8 :=
  toBytes 4 entry.tableId.toNat ++ (toBytes 4 entry.value.length ++ (toBytes 8 entry.key.toNat ++
    (toBytes 8 entry.seq.toNat ++ entry.value)))

/-- The bytes of all entries. -/
def entriesBytes (entries : List Entry) : List UInt8 := entries.flatMap Entry.bytes

@[simp] theorem length_headerBytes (globalSeq : UInt64) :
    (headerBytes globalSeq).length = txHeaderSize := by
  simp [headerBytes, txHeaderSize]

@[simp] theorem length_tailerBytes (seq : UInt64) : (tailerBytes seq).length = txTailerSize := by
  simp [tailerBytes, txTailerSize]

@[simp] theorem Entry.length_bytes (entry : Entry) :
    entry.bytes.length = entryMetaSize + entry.value.length := by
  simp [Entry.bytes, entryMetaSize]
  omega

/-- `get_total_size` of a log with these entries. -/
def totalSize (entries : List Entry) : Nat :=
  (8 + txHeaderSize + (entriesBytes entries).length + 7) / 8 * 8 + txTailerSize

/-! ## Memory that moves -/

/-- The block has been doubled a number of times. -/
def Doubled (allocedSize : Nat) : Prop := ∃ times ≤ 22, allocedSize = 512 * 2 ^ times

/-- The loop of `resize` ends. -/
theorem doubled_eq_some {need fuel allocedSize times : Nat} (bound : need ≤ 2 ^ 31)
    (few : times ≤ 22) (enough : 22 < fuel + times) (isSize : allocedSize = 512 * 2 ^ times) :
    ∃ after, TempLog.doubled need fuel allocedSize = some after ∧ need ≤ after ∧
      Doubled after := by
  induction fuel generalizing allocedSize times with
  | zero => omega
  | succ fuel ih =>
      rw [TempLog.doubled]
      split
      · rename_i small
        have notLast : times ≠ 22 := by
          rintro rfl
          have largest : 512 * 2 ^ 22 = 2 ^ 31 := rfl
          omega
        have next : allocedSize * 2 % 2 ^ 32 = 512 * 2 ^ (times + 1) := by
          have below : 2 ^ (times + 1) ≤ 2 ^ 22 := Nat.pow_le_pow_right (by decide) (by omega)
          have largest : 512 * 2 ^ 22 < 2 ^ 32 := by decide
          rw [isSize, Nat.mul_assoc, ← Nat.pow_succ, Nat.mod_eq_of_lt]
          omega
        rw [next]
        exact ih (by omega) (by omega) rfl
      · rename_i large
        exact ⟨allocedSize, rfl, by omega, times, few, isSize⟩

/-- A log whose entries are closed, with these bytes behind the size. -/
structure Closed (config : Config) (log : TempLog) (body : List UInt8) : Prop where
  start_eq : log.start = config.reservedSize
  current_eq : log.current = log.end_
  end_eq : log.end_ = config.reservedSize + 8 + body.length
  holds : log.mem.Holds (config.reservedSize + 8) body
  doubled : Doubled log.allocedSize

/-- A log with room for a piece that is being written. -/
structure Opened (config : Config) (log : TempLog) (body : List UInt8) (size : Nat) : Prop where
  start_eq : log.start = config.reservedSize
  current_eq : log.current = config.reservedSize + 8 + body.length
  end_eq : log.end_ = config.reservedSize + 8 + body.length + size
  inside : log.end_ ≤ log.allocedSize
  holds : log.mem.Holds (config.reservedSize + 8) body
  doubled : Doubled log.allocedSize

/-- `resize` keeps what is in the log. -/
theorem Closed.resize (closed : Closed config log body) (rmalloc : Nat → Memory)
    (bound : config.reservedSize + 8 + body.length + size ≤ 2 ^ 31) :
    ∃ after, log.resize rmalloc size = some after ∧ Closed config after body ∧
      config.reservedSize + 8 + body.length + size ≤ after.allocedSize := by
  obtain ⟨times, few, isSize⟩ := closed.doubled
  rw [← closed.end_eq] at bound ⊢
  obtain ⟨allocedSize, done, fits, doubled⟩ :=
    doubled_eq_some bound few (show 22 < 33 + times by omega) isSize
  simp only [TempLog.resize, done, Option.map_some]
  refine ⟨_, rfl, ?_⟩
  split
  · rename_i same
    exact ⟨closed, same ▸ fits⟩
  · refine ⟨⟨closed.start_eq, rfl, closed.end_eq, ?_, doubled⟩, fits⟩
    refine Eq.trans (read_congr fun address _ before => if_pos ?_) closed.holds
    rw [closed.end_eq]
    exact before

/-- `append_entry` opens a piece. -/
theorem Closed.appendEntry (closed : Closed config log body) (rmalloc : Nat → Memory)
    (bound : config.reservedSize + 8 + body.length + size ≤ 2 ^ 31) :
    ∃ after, log.appendEntry rmalloc size = some after ∧ Opened config after body size := by
  obtain ⟨resized, done, same, fits⟩ := closed.resize rmalloc bound
  rw [TempLog.appendEntry, if_pos closed.current_eq, done, Option.map_some]
  refine ⟨_, rfl, same.start_eq, same.current_eq.trans same.end_eq, ?_, ?_, same.holds,
    same.doubled⟩
  · simp only [same.end_eq]
  · simp only [same.end_eq]
    exact fits

/-- A write into the piece. -/
theorem Opened.put (opened : Opened config log body size) (piece : List UInt8) {offset : Nat}
    (behind : log.current ≤ offset) (within : offset + piece.length ≤ log.end_) :
    log.put offset piece = some { log with mem := log.mem.write offset piece } ∧
      Opened config { log with mem := log.mem.write offset piece } body size := by
  refine ⟨if_pos (within.trans opened.inside), opened.start_eq, opened.current_eq, opened.end_eq,
    opened.inside, opened.holds.write (.inl ?_), opened.doubled⟩
  rw [← opened.current_eq]
  exact behind

/-- The piece is closed. -/
theorem Opened.closeEntry (opened : Opened config log body size) (sized : piece.length = size)
    (holds : log.mem.Holds log.current piece) : Closed config log.closeEntry (body ++ piece) := by
  refine ⟨opened.start_eq, rfl, ?_, ?_, opened.doubled⟩
  · rw [List.length_append, sized, ← Nat.add_assoc]
    exact opened.end_eq
  · rw [opened.current_eq] at holds
    exact holds_append.mpr ⟨opened.holds, holds⟩

/-- A header or a tailer is written. -/
theorem Opened.twoWords (opened : Opened config log body 16) (first second : Nat) :
    ∃ after : TempLog, ((log.put log.current (toBytes 8 first)).bind fun written =>
        written.put (written.current + 8) (toBytes 8 second)) = some after ∧
      Closed config after.closeEntry (body ++ (toBytes 8 first ++ toBytes 8 second)) ∧
      after.closeEntry.end_ ≤ after.closeEntry.allocedSize := by
  have room : log.end_ = log.current + 16 := by
    rw [opened.end_eq, opened.current_eq]
  have sized (number : Nat) : (toBytes 8 number).length = 8 := length_toBytes 8 number
  obtain ⟨firstDone, opened⟩ :=
    opened.put (toBytes 8 first) (Nat.le_refl log.current) (by rw [sized]; omega)
  obtain ⟨secondDone, opened⟩ :=
    opened.put (toBytes 8 second) (Nat.le_add_right log.current 8) (by rw [sized]; exact room.ge)
  rw [firstDone, Option.bind_some]
  refine ⟨_, secondDone, opened.closeEntry (by simp) (holds_append.mpr ⟨?_, ?_⟩), opened.inside⟩
  · exact (holds_write _ _ _).write (.inl (by rw [sized]))
  · rw [sized]
    exact holds_write _ _ _

/-- `log_begin` writes the header. -/
theorem logBegin_eq_some (config : Config) (rmalloc : Nat → Memory) (globalSeq : UInt64) :
    ∃ after, TempLog.logBegin config rmalloc globalSeq = some after ∧
      Closed config after (headerBytes globalSeq) := by
  have fresh : Closed config (TempLog.openLog config rmalloc) [] :=
    ⟨rfl, rfl, rfl, rfl, 0, Nat.zero_le 22, rfl⟩
  have bound : config.reservedSize + 8 + ([] : List UInt8).length + txHeaderSize ≤ 2 ^ 31 := by
    have small := config.reservedSize_le
    rw [txHeaderSize, List.length_nil]
    omega
  obtain ⟨log, begun, opened⟩ := fresh.appendEntry rmalloc bound
  obtain ⟨after, written, closed, _⟩ := opened.twoWords logHeaderMagicNum globalSeq.toNat
  refine ⟨after.closeEntry, ?_, closed⟩
  simp only [TempLog.logBegin, begun, bind, Option.bind_some, ← Option.bind_assoc, written]
  rfl

/-- The five writes of an entry, of which the sequence number is the last. -/
theorem holds_entry (memory : Memory) (offset : Nat) (entry : Entry) :
    (((((memory.write offset (toBytes 4 entry.tableId.toNat)).write (offset + 4)
      (toBytes 4 entry.value.length)).write (offset + 8) (toBytes 8 entry.key.toNat)).write
      (offset + entryMetaSize) entry.value).write (offset + 16)
      (toBytes 8 entry.seq.toNat)).Holds offset entry.bytes := by
  have metaSize : entryMetaSize = 24 := rfl
  simp only [Entry.bytes, holds_append, length_toBytes, Nat.add_assoc, Nat.reduceAdd]
  refine ⟨?_, ?_, ?_, holds_write _ _ _, ?_⟩
  · refine ((((holds_write _ _ _).write (.inl ?_)).write (.inl ?_)).write (.inl ?_)).write (.inl ?_)
    all_goals simp [metaSize]
  · refine (((holds_write _ _ _).write (.inl ?_)).write (.inl ?_)).write (.inl ?_)
    all_goals simp [metaSize]
  · refine ((holds_write _ _ _).write (.inl ?_)).write (.inl ?_)
    all_goals simp [metaSize]
  · exact (holds_write _ _ _).write (.inr (by simp [metaSize]))

/-- An entry is written. -/
theorem Closed.logEntry (closed : Closed config log body) (rmalloc : Nat → Memory) (entry : Entry)
    (bound : config.reservedSize + 8 + body.length + entry.bytes.length ≤ 2 ^ 31) :
    ∃ after, log.logEntry rmalloc entry = some after ∧
      Closed config after (body ++ entry.bytes) := by
  rw [entry.length_bytes] at bound
  obtain ⟨log, begun, opened⟩ := closed.appendEntry rmalloc bound
  have room : log.end_ = log.current + (entryMetaSize + entry.value.length) := by
    rw [opened.end_eq, opened.current_eq]
  have metaSize : entryMetaSize = 24 := rfl
  have sized (length number : Nat) : (toBytes length number).length = length :=
    length_toBytes length number
  obtain ⟨tableDone, opened⟩ := opened.put (toBytes 4 entry.tableId.toNat)
    (Nat.le_refl log.current) (by rw [sized]; omega)
  obtain ⟨sizeDone, opened⟩ := opened.put (toBytes 4 entry.value.length)
    (Nat.le_add_right log.current 4) (by rw [sized]; simp only; omega)
  obtain ⟨keyDone, opened⟩ := opened.put (toBytes 8 entry.key.toNat)
    (Nat.le_add_right log.current 8) (by rw [sized]; simp only; omega)
  obtain ⟨valueDone, opened⟩ := opened.put entry.value
    (Nat.le_add_right log.current entryMetaSize) (by simp only; omega)
  obtain ⟨seqDone, opened⟩ := opened.put (toBytes 8 entry.seq.toNat)
    (Nat.le_add_right log.current 16) (by rw [sized]; simp only; omega)
  refine ⟨_, ?_, opened.closeEntry entry.length_bytes (holds_entry log.mem log.current entry)⟩
  simp only [TempLog.logEntry, TempLog.getLogEntry, TempLog.closeLogEntry, begun, tableDone,
    sizeDone, keyDone, valueDone, seqDone, bind, Option.bind_some]
  rfl

/-- The entries are written one behind the other. -/
theorem Closed.logEntries (closed : Closed config log body) (rmalloc : Nat → Memory)
    (entries : List Entry)
    (bound : config.reservedSize + 8 + body.length + (entriesBytes entries).length ≤ 2 ^ 31) :
    ∃ after, entries.foldlM (TempLog.logEntry rmalloc) log = some after ∧
      Closed config after (body ++ entriesBytes entries) := by
  induction entries generalizing log body with
  | nil => exact ⟨log, rfl, by simpa [entriesBytes] using closed⟩
  | cons entry entries ih =>
      have cut : entriesBytes (entry :: entries) = entry.bytes ++ entriesBytes entries := rfl
      rw [cut, List.length_append] at bound
      obtain ⟨next, done, isNext⟩ := closed.logEntry rmalloc entry (by omega)
      obtain ⟨after, all, isAfter⟩ := ih isNext (by rw [List.length_append]; omega)
      refine ⟨after, ?_, ?_⟩
      · rw [List.foldlM_cons, done]
        exact all
      · rw [cut, ← List.append_assoc]
        exact isAfter

theorem Closed.getTotalSize (closed : Closed config log body) :
    log.getTotalSize = 8 + body.length := by
  rw [TempLog.getTotalSize, closed.end_eq, closed.start_eq]
  omega

/-- Bytes that nobody wrote are added. -/
theorem Closed.pad (closed : Closed config log body) (delta : Nat) :
    ∃ padding : List UInt8, padding.length = delta ∧
      Closed config { log with current := log.end_ + delta, end_ := log.end_ + delta }
        (body ++ padding) := by
  refine ⟨log.mem.read (config.reservedSize + 8 + body.length) delta, length_read _ _ _,
    closed.start_eq, rfl, ?_, holds_append.mpr ⟨closed.holds, ?_⟩, closed.doubled⟩
  · rw [List.length_append, length_read, ← Nat.add_assoc, ← closed.end_eq]
  · rw [Holds, length_read]

/-- `log_size_round_up` adds less than eight bytes. -/
theorem Closed.logSizeRoundUp (closed : Closed config log body) (rmalloc : Nat → Memory)
    (bound : config.reservedSize + 8 + body.length + 8 ≤ 2 ^ 31) :
    ∃ after, ∃ padding : List UInt8, log.logSizeRoundUp rmalloc = some after ∧
      8 + body.length + padding.length = (8 + body.length + 7) / 8 * 8 ∧
      Closed config after (body ++ padding) := by
  have left : (8 + body.length) % 8 < 8 := Nat.mod_lt _ (by decide)
  rw [TempLog.logSizeRoundUp, if_pos closed.current_eq, closed.getTotalSize, roundUpBase]
  dsimp only
  split
  · rename_i uneven
    have kept (resized : TempLog) (same : Closed config resized body) :
        ∃ after, ∃ padding : List UInt8, (some resized).map (fun resized =>
            { resized with
              current := resized.end_ + (8 - (8 + body.length) % 8)
              end_ := resized.end_ + (8 - (8 + body.length) % 8) }) = some after ∧
          8 + body.length + padding.length = (8 + body.length + 7) / 8 * 8 ∧
          Closed config after (body ++ padding) := by
      obtain ⟨padding, sized, padded⟩ := same.pad (8 - (8 + body.length) % 8)
      exact ⟨_, padding, rfl, by omega, padded⟩
    split
    · obtain ⟨resized, done, same, _⟩ :=
        closed.resize rmalloc (show _ + (8 - (8 + body.length) % 8) ≤ 2 ^ 31 by omega)
      rw [done]
      exact kept resized same
    · exact kept log closed
  · rename_i even
    exact ⟨log, [], rfl, by simp only [List.length_nil]; omega, by simpa using closed⟩

/-- The size is written last, before everything else. -/
theorem Closed.image_put (closed : Closed config log body) (size : Nat) :
    { log with mem := log.mem.write log.start (toBytes 8 size) : TempLog }.image =
      toBytes 8 size ++ body := by
  have both : (log.mem.write log.start (toBytes 8 size)).Holds log.start
      (toBytes 8 size ++ body) := by
    refine holds_append.mpr ⟨holds_write _ _ _, ?_⟩
    rw [length_toBytes, closed.start_eq]
    exact closed.holds.write (.inr (by rw [length_toBytes]))
  rw [Holds, List.length_append, length_toBytes] at both
  rw [TempLog.image]
  simpa [← closed.getTotalSize, TempLog.getTotalSize] using both

/-- `log_backups` finishes the image. -/
theorem Closed.logBackups (closed : Closed config log body) (rmalloc : Nat → Memory)
    (seq : UInt64) {total : Nat} (isTotal : total = (8 + body.length + 7) / 8 * 8 + txTailerSize)
    (small : total ≤ threadPaddingSize) :
    ∃ after, ∃ padding : List UInt8, log.logBackups rmalloc seq = some after ∧
      padding.length < 8 ∧ after.getTotalSize = total ∧
      after.image = toBytes 8 (total - 8) ++ (body ++ padding ++ tailerBytes seq) := by
  have reserved := config.reservedSize_le
  have tailerSize : txTailerSize = 16 := rfl
  have paddingSize : threadPaddingSize = 32 * 1024 := rfl
  obtain ⟨rounded, padding, done, sized, isRounded⟩ := closed.logSizeRoundUp rmalloc (by omega)
  have bound : config.reservedSize + 8 + (body ++ padding).length + txTailerSize ≤ 2 ^ 31 := by
    rw [List.length_append]
    omega
  obtain ⟨opened, begun, isOpened⟩ := isRounded.appendEntry rmalloc bound
  obtain ⟨tailed, written, isTailed, inside⟩ := isOpened.twoWords logTailerMagicNum seq.toNat
  have totalEq : tailed.closeEntry.getTotalSize = total := by
    rw [isTailed.getTotalSize, isTotal]
    simp only [List.length_append, length_toBytes]
    omega
  have logSizeEq : tailed.closeEntry.getLogSize = total - 8 := by
    rw [← totalEq]
    rfl
  have room : tailed.closeEntry.start + (toBytes 8 (total - 8)).length ≤
      tailed.closeEntry.allocedSize := by
    refine le_trans ?_ inside
    rw [length_toBytes, isTailed.start_eq, isTailed.end_eq]
    exact Nat.le_add_right _ _
  let last : TempLog :=
    { tailed.closeEntry with
      mem := tailed.closeEntry.mem.write tailed.closeEntry.start (toBytes 8 (total - 8)) }
  refine ⟨last, padding, ?_, by omega, totalEq, ?_⟩
  · simp only [TempLog.logBackups, done, begun, bind, Option.bind_some, ← Option.bind_assoc,
      written, totalEq, small, if_true, logSizeEq]
    exact if_pos room
  · exact isTailed.image_put (total - 8)

/-- A log of at most `THREAD_PADDING_SIZE` bytes is finished, and this is what is sent. -/
theorem logged_eq_some (config : Config) (rmalloc : Nat → Memory) (globalSeq : UInt64)
    (entries : List Entry) (seq : UInt64) (small : totalSize entries ≤ threadPaddingSize) :
    ∃ after, ∃ padding : List UInt8, logged config rmalloc globalSeq entries seq = some after ∧
      padding.length < 8 ∧ after.getTotalSize = totalSize entries ∧
      after.image = toBytes 8 (totalSize entries - 8) ++
        (headerBytes globalSeq ++ entriesBytes entries ++ padding ++ tailerBytes seq) := by
  have reserved := config.reservedSize_le
  have headerSize : txHeaderSize = 16 := rfl
  have tailerSize : txTailerSize = 16 := rfl
  have paddingSize : threadPaddingSize = 32 * 1024 := rfl
  have isTotal : totalSize entries =
      (8 + (headerBytes globalSeq ++ entriesBytes entries).length + 7) / 8 * 8 + txTailerSize := by
    rw [totalSize, List.length_append, length_headerBytes, Nat.add_assoc 8]
  obtain ⟨log, begun, closed⟩ := logBegin_eq_some config rmalloc globalSeq
  have bound : config.reservedSize + 8 + (headerBytes globalSeq).length +
      (entriesBytes entries).length ≤ 2 ^ 31 := by
    rw [length_headerBytes]
    rw [totalSize] at small
    omega
  obtain ⟨full, done, isFull⟩ := closed.logEntries rmalloc entries bound
  obtain ⟨after, padding, finished, result⟩ := isFull.logBackups rmalloc seq isTotal small
  refine ⟨after, padding, ?_, result⟩
  simp only [logged, begun, done, finished, bind, Option.bind_some]

end Rocc.Db.DbLogger
