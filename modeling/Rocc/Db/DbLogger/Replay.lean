import Rocc.Db.DbLogger.Image

/-!
# The log at the backup

The backup finds a log by its size, which stands before it and, once the log is acknowledged, behind
it.  The entries have no count: the cleaner goes on while eight bytes are left before the tailer.
-/

namespace Rocc.Db.DbLogger

open Memory

/-- `check_log_completion`: where the tailer of a complete log is, and its size. -/
def checkLogCompletion (buffer : Memory) (ptr : Nat) : Option (Nat × Nat) :=
  let headerLogSize := buffer.readWord ptr
  if threadPaddingSize ≤ headerLogSize then none
  else if headerLogSize ≠ buffer.readWord (ptr + headerLogSize + 8) then none
  else
    let tailer := ptr + 8 + headerLogSize - txTailerSize
    if buffer.readWord (ptr + 8) ≠ logHeaderMagicNum ∨
        buffer.readWord tailer ≠ logTailerMagicNum then none
    else some (tailer, headerLogSize)

/-- What the cleaner gets for the `EntryMeta` at `ptr`. -/
def entryAt (buffer : Memory) (globalSeq : Option UInt64) (ptr size : Nat) : Entry where
  tableId := UInt32.ofNat (ofBytes (buffer.read ptr 4))
  key := UInt64.ofNat (buffer.readWord (ptr + 8))
  seq := globalSeq.getD (UInt64.ofNat (buffer.readWord (ptr + 16)))
  value := buffer.read (ptr + entryMetaSize) size

/-- The loop of `clean_log`. -/
def cleanEntries (buffer : Memory) (globalSeq : Option UInt64) (tailerPtr ptr : Nat) :
    List Entry :=
  if ptr + roundUpBase ≤ tailerPtr then
    let size := ofBytes (buffer.read (ptr + 4) 4)
    entryAt buffer globalSeq ptr size ::
      cleanEntries buffer globalSeq tailerPtr (ptr + entryMetaSize + size)
  else []
termination_by tailerPtr - ptr
decreasing_by
  rw [roundUpBase] at *
  rw [entryMetaSize]
  omega

/-- `clean_log`. -/
def cleanLog (buffer : Memory) (logPtr tailerPtr : Nat) : List Entry :=
  let globalSeq := UInt64.ofNat (buffer.readWord (tailerPtr + 8))
  cleanEntries buffer (if buffer.readWord (logPtr + 8 + 8) = 0 then none else some globalSeq)
    tailerPtr (logPtr + 8 + txHeaderSize)

/-- An entry with the sequence number it is cleaned with. -/
def Entry.cleaned (globalSeq : Option UInt64) (entry : Entry) : Entry :=
  { entry with seq := globalSeq.getD entry.seq }

variable {buffer : Memory} {globalSeq : Option UInt64} {entry : Entry} {ptr : Nat}

/-! ## Entries -/

/-- The size of an entry is read back. -/
theorem size_of_holds (holds : buffer.Holds ptr entry.bytes)
    (short : entry.value.length < 2 ^ 32) :
    ofBytes (buffer.read (ptr + 4) 4) = entry.value.length := by
  simp only [Entry.bytes, holds_append, length_toBytes] at holds
  rw [holds.2.1.ofBytes]
  exact Nat.mod_eq_of_lt short

/-- An entry is read back. -/
theorem entryAt_of_holds (holds : buffer.Holds ptr entry.bytes) :
    entryAt buffer globalSeq ptr entry.value.length = entry.cleaned globalSeq := by
  simp only [Entry.bytes, holds_append, length_toBytes] at holds
  obtain ⟨table, _, key, seq, value⟩ := holds
  have tableEq : ofBytes (buffer.read ptr 4) = entry.tableId.toNat :=
    table.ofBytes.trans (Nat.mod_eq_of_lt entry.tableId.toNat_lt)
  have keyEq : buffer.readWord (ptr + 8) = entry.key.toNat :=
    key.ofBytes.trans (Nat.mod_eq_of_lt entry.key.toNat_lt)
  have seqEq : buffer.readWord (ptr + 16) = entry.seq.toNat :=
    seq.ofBytes.trans (Nat.mod_eq_of_lt entry.seq.toNat_lt)
  have valueEq : buffer.read (ptr + entryMetaSize) entry.value.length = entry.value := value
  rw [entryAt, tableEq, keyEq, seqEq, valueEq, UInt32.ofNat_toNat, UInt64.ofNat_toNat,
    UInt64.ofNat_toNat]
  rfl

/-- The loop finds the entries, and ends behind the last one. -/
theorem cleanEntries_of_holds {entries : List Entry} {tailerPtr : Nat}
    (holds : buffer.Holds ptr (entriesBytes entries))
    (short : (entriesBytes entries).length < 2 ^ 32)
    (before : ptr + (entriesBytes entries).length ≤ tailerPtr)
    (near : tailerPtr < ptr + (entriesBytes entries).length + 8) :
    cleanEntries buffer globalSeq tailerPtr ptr = entries.map (Entry.cleaned globalSeq) := by
  have base : roundUpBase = 8 := rfl
  have metaSize : entryMetaSize = 24 := rfl
  induction entries generalizing ptr with
  | nil =>
      have none : (entriesBytes []).length = 0 := rfl
      rw [cleanEntries, if_neg (by omega)]
      rfl
  | cons entry entries ih =>
      have cut : entriesBytes (entry :: entries) = entry.bytes ++ entriesBytes entries := rfl
      rw [cut, List.length_append, entry.length_bytes] at short before near
      rw [cut, holds_append, entry.length_bytes] at holds
      have size := size_of_holds holds.1 (by omega)
      rw [← Nat.add_assoc] at holds
      have rest := ih holds.2 (by omega) (by omega) (by omega)
      rw [cleanEntries, if_pos (by omega), size]
      dsimp only
      rw [entryAt_of_holds holds.1, rest, List.map_cons]

/-! ## The whole log -/

/-- Where the pieces of an image are. -/
structure Placed (buffer : Memory) (place total : Nat) (globalSeq : UInt64) (entries : List Entry)
    (seq : UInt64) : Prop where
  size : buffer.readWord place = total - 8
  headerMagic : buffer.readWord (place + 8) = logHeaderMagicNum
  headerSeq : buffer.readWord (place + 8 + 8) = globalSeq.toNat
  body : buffer.Holds (place + 8 + txHeaderSize) (entriesBytes entries)
  tailerMagic : buffer.readWord (place + total - txTailerSize) = logTailerMagicNum
  tailerSeq : buffer.readWord (place + total - txTailerSize + 8) = seq.toNat
  before : 8 + txHeaderSize + (entriesBytes entries).length + txTailerSize ≤ total
  near : total < 8 + txHeaderSize + (entriesBytes entries).length + txTailerSize + 8

theorem placed_of_holds {place total : Nat} {globalSeq seq : UInt64} {entries : List Entry}
    {padding : List UInt8} (small : total ≤ threadPaddingSize) (few : padding.length < 8)
    (holds : buffer.Holds place (toBytes 8 (total - 8) ++
      (headerBytes globalSeq ++ entriesBytes entries ++ padding ++ tailerBytes seq)))
    (sized : (toBytes 8 (total - 8) ++ (headerBytes globalSeq ++ entriesBytes entries ++ padding ++
      tailerBytes seq)).length = total) :
    Placed buffer place total globalSeq entries seq := by
  have headerSize : txHeaderSize = 16 := rfl
  have tailerSize : txTailerSize = 16 := rfl
  have paddingSize : threadPaddingSize = 32 * 1024 := rfl
  simp only [List.length_append, length_toBytes, length_headerBytes, length_tailerBytes] at sized
  simp only [holds_append, List.length_append, length_toBytes, length_headerBytes] at holds
  obtain ⟨size, ⟨⟨header, body⟩, _⟩, tailer⟩ := holds
  have atTailer : place + 8 + (txHeaderSize + (entriesBytes entries).length + padding.length) =
      place + total - txTailerSize := by
    omega
  rw [atTailer, tailerBytes, holds_append, length_toBytes] at tailer
  rw [headerBytes, holds_append, length_toBytes] at header
  have word {number : Nat} {offset : Nat} (below : number < 2 ^ 64)
      (stored : buffer.Holds offset (toBytes 8 number)) : buffer.readWord offset = number :=
    stored.ofBytes.trans (Nat.mod_eq_of_lt below)
  exact
    { size := word (by omega) size
      headerMagic := word (by decide) header.1
      headerSeq := word globalSeq.toNat_lt header.2
      body
      tailerMagic := word (by decide) tailer.1
      tailerSeq := word seq.toNat_lt tailer.2
      before := by omega
      near := by omega }

/-- A log that fits is finished, and wherever its image is its pieces are found. -/
theorem placed_of_logged (config : Config) (rmalloc : Nat → Memory) (globalSeq : UInt64)
    (entries : List Entry) (seq : UInt64) (small : totalSize entries ≤ threadPaddingSize) :
    ∃ log, logged config rmalloc globalSeq entries seq = some log ∧
      log.getTotalSize = totalSize entries ∧
      ∀ (buffer : Memory) (place : Nat), buffer.Holds place log.image →
        Placed buffer place (totalSize entries) globalSeq entries seq := by
  obtain ⟨log, padding, done, few, isTotal, isImage⟩ :=
    logged_eq_some config rmalloc globalSeq entries seq small
  have sized : log.image.length = totalSize entries := by
    rw [TempLog.image, length_read, isTotal]
  refine ⟨log, done, isTotal, fun buffer place holds => ?_⟩
  rw [isImage] at holds sized
  exact placed_of_holds small few holds sized

/-- The backup finds a log with its size behind it. -/
theorem Placed.found {place total : Nat} {globalSeq seq : UInt64} {entries : List Entry}
    (placed : Placed buffer place total globalSeq entries seq) (small : total ≤ threadPaddingSize)
    (acknowledged : buffer.readWord (place + total) = total - 8) :
    checkLogCompletion buffer place = some (place + total - txTailerSize, total - 8) := by
  have before := placed.before
  have paddingSize : threadPaddingSize = 32 * 1024 := rfl
  have behind : place + (total - 8) + 8 = place + total := by omega
  have atTailer : place + 8 + (total - 8) - txTailerSize = place + total - txTailerSize := by omega
  rw [checkLogCompletion, placed.size]
  dsimp only
  rw [behind, acknowledged, if_neg (by omega), if_neg (not_not.mpr rfl), atTailer,
    placed.headerMagic, placed.tailerMagic]
  rfl

/-- The cleaner gets what was logged. -/
theorem Placed.cleaned {place total : Nat} {globalSeq seq : UInt64} {entries : List Entry}
    (placed : Placed buffer place total globalSeq entries seq)
    (small : total ≤ threadPaddingSize) :
    cleanLog buffer place (place + total - txTailerSize) =
      entries.map (Entry.cleaned (if globalSeq = 0 then none else some seq)) := by
  have before := placed.before
  have near := placed.near
  have headerSize : txHeaderSize = 16 := rfl
  have tailerSize : txTailerSize = 16 := rfl
  have paddingSize : threadPaddingSize = 32 * 1024 := rfl
  have seqs : (if globalSeq.toNat = 0 then none else some (UInt64.ofNat seq.toNat)) =
      if globalSeq = 0 then none else some seq := by
    rw [UInt64.ofNat_toNat]
    exact if_congr (@UInt64.toNat_inj globalSeq 0) rfl rfl
  rw [cleanLog, placed.headerSeq, placed.tailerSeq, seqs]
  exact cleanEntries_of_holds placed.body (by omega) (by omega) (by omega)

/-- Every log that fits is finished, wherever its memory moves; with its size behind it the backup
finds it, and the cleaner gets what was logged. -/
theorem logs_replay (config : Config) (rmalloc : Nat → Memory) (globalSeq : UInt64)
    (entries : List Entry) (seq : UInt64) (small : totalSize entries ≤ threadPaddingSize) :
    ∃ log, logged config rmalloc globalSeq entries seq = some log ∧
      log.getTotalSize = totalSize entries ∧
      ∀ (buffer : Memory) (place : Nat), buffer.Holds place log.image →
        buffer.readWord (place + log.getTotalSize) = log.getLogSize →
        checkLogCompletion buffer place =
            some (place + log.getTotalSize - txTailerSize, log.getLogSize) ∧
          cleanLog buffer place (place + log.getTotalSize - txTailerSize) =
            entries.map (Entry.cleaned (if globalSeq = 0 then none else some seq)) := by
  obtain ⟨log, done, isTotal, place⟩ := placed_of_logged config rmalloc globalSeq entries seq small
  refine ⟨log, done, isTotal, ?_⟩
  intro buffer offset holds acknowledged
  have placed := place buffer offset holds
  have logSize : log.getLogSize = totalSize entries - 8 := by
    rw [← isTotal]
    rfl
  rw [logSize, isTotal] at acknowledged ⊢
  exact ⟨placed.found small acknowledged, placed.cleaned small⟩

/-- A log with an empty entry and one of three bytes. -/
theorem logs_replay_two : ∃ log, logged ⟨0, Nat.zero_le _⟩ (fun _ _ => 0) 0
      [⟨1, 2, 3, []⟩, ⟨4, 5, 6, [7, 8, 9]⟩] 10 = some log ∧
    log.getTotalSize = totalSize [⟨1, 2, 3, []⟩, ⟨4, 5, 6, [7, 8, 9]⟩] ∧
    ∀ (buffer : Memory) (place : Nat), buffer.Holds place log.image →
      buffer.readWord (place + log.getTotalSize) = log.getLogSize →
      checkLogCompletion buffer place =
          some (place + log.getTotalSize - txTailerSize, log.getLogSize) ∧
        cleanLog buffer place (place + log.getTotalSize - txTailerSize) =
          [⟨1, 2, 3, []⟩, ⟨4, 5, 6, [7, 8, 9]⟩].map
            (Entry.cleaned (if (0 : UInt64) = 0 then none else some 10)) :=
  logs_replay _ _ 0 _ 10 (by decide)

end Rocc.Db.DbLogger
