import Rocc.Mvcc.Header

/-!
# One-sided writes of a multi-version record

A writer copies the whole record into a buffer of its own, and the pointer it hands
to the application lies inside that copy: it is the slot of the newest version.  At
commit the write timestamp and the new value go into the slot to overwrite, and the
version array of the copy is written back as a whole.  Whatever the application has
stored through the pointer goes back with it, into the slot of the newest version
as well.
-/

namespace Rocc.Mvcc

open Rtx

universe u v

variable {Key : Type u} {Value : Type v}

/-! ## Verbs on a record -/

/-- The compare-and-swap of the lock word. -/
def Header.casLock (header : Header Value) (timestamp : Nat) : Header Value :=
  if header.lock = 0 then { header with lock := timestamp } else header

/-- The write behind the lock and the read timestamp: the version array. -/
def Header.writeVersions (header buffer : Header Value) : Header Value :=
  { header with wts := buffer.wts, data := buffer.data }

/-- The write of 0 into the lock word. -/
def Header.unlock (header : Header Value) : Header Value :=
  { header with lock := 0 }

namespace OneSided

/-! ## Items of the write set -/

/-- `ReadSetItem` of the write set with `local_buf`; `seq` packs two slots. -/
structure WriteItem (Key : Type u) (Value : Type v) where
  key : Key
  seq : Nat
  buffer : Header Value

/-- A slot out of `seq`. -/
def slotOf (number : Nat) : Slot :=
  ⟨number % versionNum, Nat.mod_lt _ (by decide)⟩

/-- The slot to overwrite. -/
def WriteItem.pos (item : WriteItem Key Value) : Slot :=
  slotOf item.seq

/-- The slot `data_ptr` points to. -/
def WriteItem.maxpos (item : WriteItem Key Value) : Slot :=
  slotOf (item.seq / versionNum)

/-- What `load_write` points to. -/
def WriteItem.data (item : WriteItem Key Value) : Value :=
  item.buffer.data item.maxpos

/-- The application changes the contents behind the pointer. -/
def WriteItem.modify (item : WriteItem Key Value) (edit : Value → Value) :
    WriteItem Key Value :=
  { item with buffer := { item.buffer with
      data := Function.update item.buffer.data item.maxpos (edit item.data) } }

/-! ## `try_lock_read_rdma` and `try_update_rdma` -/

/-- The check of the header before the compare-and-swap; the result of `check_write` is
kept in an `int`. -/
def RefusedByHeader (header : Header Value) (timestamp : Nat) : Prop :=
  checkWrite header timestamp % 2 ^ 32 ≠ 0

instance (header : Header Value) (timestamp : Nat) :
    Decidable (RefusedByHeader header timestamp) :=
  inferInstanceAs (Decidable (_ ≠ _))

/-- The buffer after the batch: the swap returns the old lock word, the read fetches what
is behind it. -/
def fillBuffer (old : Nat) (header : Header Value) : Header Value :=
  { header with lock := old }

/-- Return values of `try_lock_read_rdma`: -1, -2 with the record locked, and 0. -/
inductive LockResult (Key : Type u) (Value : Type v) where
  | fail
  | failLocked
  | success (item : WriteItem Key Value)

/-- The checks on the buffer after the batch; no result where an assertion fails. -/
def checkBuffer (key : Key) (buffer : Header Value) (timestamp : Nat) :
    Option (LockResult Key Value) :=
  if timestamp < buffer.lock then
    some .fail
  else if buffer.lock ≠ 0 then
    some .fail
  else if timestamp < buffer.rts then
    some .failLocked
  else
    let newest := largest buffer.wts fun _ => true
    if timestamp < newest.1 then
      some .failLocked
    else
      match (smallest buffer.wts).2, newest.2 with
      | some pos, some maxpos =>
          some (.success { key, seq := pos.val + maxpos.val * versionNum, buffer })
      | _, _ => none

/-- The buffer as `try_update_rdma` writes it back. -/
def WriteItem.prepare (item : WriteItem Key Value) (timestamp : Nat) :
    Option (Header Value) :=
  if item.seq < versionNum * versionNum then
    some { item.buffer with
      wts := Function.update item.buffer.wts item.pos timestamp
      data := Function.update item.buffer.data item.pos item.data }
  else
    none

/-- `try_update_rdma` for one record: the version array, then the lock word. -/
def tryUpdateRdma (record : Header Value) (item : WriteItem Key Value) (timestamp : Nat) :
    Option (Header Value) :=
  (item.prepare timestamp).map fun buffer => (record.writeVersions buffer).unlock

/-! ## What they do -/

theorem slotOf_pack (pos maxpos : Slot) :
    slotOf (pos.val + maxpos.val * versionNum) = pos ∧
      slotOf ((pos.val + maxpos.val * versionNum) / versionNum) = maxpos := by
  have low : pos.val < 4 := pos.isLt
  have high : maxpos.val < 4 := maxpos.isLt
  constructor
  · apply Fin.ext
    change (pos.val + maxpos.val * 4) % 4 = pos.val
    omega
  · apply Fin.ext
    change (pos.val + maxpos.val * 4) / 4 % 4 = maxpos.val
    omega

/-- A successful lock has found the lock free and every timestamp at most its own; the
buffer of its item is what it has read. -/
theorem checkBuffer_success {key : Key} {buffer : Header Value} {timestamp : Nat}
    {item : WriteItem Key Value}
    (checked : checkBuffer key buffer timestamp = some (.success item)) :
    buffer.lock = 0 ∧ item.key = key ∧ item.buffer = buffer ∧
      item.seq < versionNum * versionNum ∧ buffer.rts ≤ timestamp ∧
      (∀ slot, buffer.wts slot ≤ timestamp) ∧
      (smallest buffer.wts).2 = some item.pos ∧
      (largest buffer.wts fun _ => true).2 = some item.maxpos := by
  simp only [checkBuffer] at checked
  split at checked
  · cases checked
  · split at checked
    · cases checked
    · rename_i free
      split at checked
      · cases checked
      · rename_i unread
        split at checked
        · cases checked
        · rename_i older
          split at checked
          · rename_i pos maxpos smallestFound largestFound
            cases checked
            obtain ⟨unpackPos, unpackMaxpos⟩ := slotOf_pack pos maxpos
            have bounded := (largest_spec buffer.wts fun _ => true).2
            refine ⟨not_not.mp free, rfl, rfl, ?_, not_lt.mp unread, ?_, ?_, ?_⟩
            · have low : pos.val < 4 := pos.isLt
              have high : maxpos.val < 4 := maxpos.isLt
              change pos.val + maxpos.val * 4 < 4 * 4
              omega
            · intro slot
              exact (bounded slot rfl).trans (not_lt.mp older)
            · rw [smallestFound]
              exact congrArg some unpackPos.symm
            · rw [largestFound]
              exact congrArg some unpackMaxpos.symm
          · cases checked

/-- A refusal after the batch that keeps the record locked has found the lock free. -/
theorem checkBuffer_failLocked {key : Key} {buffer : Header Value} {timestamp : Nat}
    (checked : checkBuffer key buffer timestamp = some .failLocked) : buffer.lock = 0 := by
  simp only [checkBuffer] at checked
  split at checked
  · cases checked
  · split at checked
    · cases checked
    · rename_i free
      exact not_not.mp free

/-- A refusal without the lock has found it taken. -/
theorem checkBuffer_fail {key : Key} {buffer : Header Value} {timestamp : Nat}
    (checked : checkBuffer key buffer timestamp = some .fail) : buffer.lock ≠ 0 := by
  intro free
  simp only [checkBuffer, free, Nat.not_lt_zero, if_false, ne_eq, not_true] at checked
  split at checked
  · cases checked
  · split at checked
    · cases checked
    · split at checked <;> cases checked

/-- Stores through the pointer reach the slot of the base version and nothing else. -/
theorem foldl_modify (item : WriteItem Key Value) (edits : List (Value → Value)) :
    edits.foldl WriteItem.modify item = { item with buffer := { item.buffer with
      data := Function.update item.buffer.data item.maxpos
        (edits.foldl (fun value edit => edit value) item.data) } } := by
  induction edits generalizing item with
  | nil => simp [WriteItem.data]
  | cons edit rest ih =>
      rw [List.foldl_cons, List.foldl_cons, ih]
      simp [WriteItem.modify, WriteItem.data, WriteItem.maxpos]

/-- The two loops stop at the same slot exactly when all write timestamps are equal. -/
theorem smallest_eq_largest_iff {wts : Slot → Nat} {pos maxpos : Slot}
    (smallestFound : (smallest wts).2 = some pos)
    (largestFound : (largest wts fun _ => true).2 = some maxpos) :
    pos = maxpos ↔ ∀ slot other, wts slot = wts other := by
  obtain ⟨found, bounded⟩ := largest_spec wts fun _ => true
  simp only [Found, largestFound, forall_const] at found bounded
  have least := smallest_spec smallestFound
  constructor
  · intro same
    subst same
    have constant : ∀ slot, wts slot = wts pos := by
      intro slot
      have below := bounded slot
      have above := least slot
      omega
    intro slot other
    rw [constant slot, constant other]
  · intro constant
    -- Both loops keep the first slot they take, and with equal timestamps this is slot 0.
    have slots : ∀ slot, wts slot = wts 0 := fun slot => constant slot 0
    have range : List.finRange versionNum = [0, 1, 2, 3] := by decide
    have positive : 0 < wts 0 := by
      rw [← slots maxpos]
      omega
    have newest : maxpos = 0 := by
      simp only [largest, range, scanMax, slots, Bool.true_and, positive, decide_true,
        if_true, lt_irrefl, decide_false, Bool.false_eq_true, if_false,
        Option.some.injEq] at largestFound
      exact largestFound.symm
    have oldest : pos = 0 := by
      simp only [smallest, range, scanMin, slots] at smallestFound
      by_cases small : wts 0 < wordBound - 1
      · simp only [small, if_true, lt_irrefl, if_false, Option.some.injEq] at smallestFound
        exact smallestFound.symm
      · simp [small] at smallestFound
    rw [oldest, newest]

/-- The copy written back differs from what the handler would leave in the slot of the base
version only. -/
theorem update_update_eq_iff (data : Slot → Value) (pos maxpos : Slot) (value : Value) :
    Function.update (Function.update data maxpos value) pos value =
        Function.update data pos value ↔
      value = data maxpos ∨ pos = maxpos := by
  constructor
  · intro same
    by_cases equal : pos = maxpos
    · exact .inr equal
    · left
      have atBase := congrFun same maxpos
      rwa [Function.update_of_ne (Ne.symm equal), Function.update_self,
        Function.update_of_ne (Ne.symm equal)] at atBase
  · rintro (unchanged | rfl)
    · rw [unchanged, Function.update_eq_self]
    · rw [Function.update_idem]

/-- For every record locked at `timestamp`, with the item its lock call returned, and every
sequence of changes through the pointer: the one-sided commit leaves the record as the
handler does exactly when the changes leave the value as it was or all versions have the
same write timestamp.  Readers may have raised `rts` since the buffer was filled. -/
theorem tryUpdateRdma_eq_updateRpcHandler_iff (key : Key) (record : Header Value)
    (timestamp rts : Nat) (owned : record.lock = timestamp) (item : WriteItem Key Value)
    (locked : checkBuffer key (fillBuffer 0 { record with rts }) timestamp =
      some (.success item)) (edits : List (Value → Value)) :
    tryUpdateRdma record (edits.foldl WriteItem.modify item) timestamp =
        updateRpcHandler record timestamp item.pos
          (edits.foldl (fun value edit => edit value) (record.data item.maxpos)) ↔
      edits.foldl (fun value edit => edit value) (record.data item.maxpos) =
          record.data item.maxpos ∨
        ∀ slot other, record.wts slot = record.wts other := by
  obtain ⟨-, -, filled, packed, -, -, smallestFound, largestFound⟩ :=
    checkBuffer_success locked
  have base : item.data = record.data item.maxpos := by
    rw [WriteItem.data, filled]
    rfl
  have samePos : item.pos = item.maxpos ↔ ∀ slot other, record.wts slot = record.wts other :=
    smallest_eq_largest_iff smallestFound largestFound
  rw [← samePos, ← update_update_eq_iff, foldl_modify, base, updateRpcHandler, if_pos owned]
  simp only [tryUpdateRdma, WriteItem.prepare, WriteItem.data, WriteItem.pos,
    WriteItem.maxpos, packed, filled, fillBuffer, Header.writeVersions, Header.unlock,
    if_true, Option.map_some, Option.some.injEq, Header.mk.injEq, Function.update_self,
    true_and]

/-- A record with one version, in slot 0, locked at 1025. -/
def lockedRecord : Header Nat where
  lock := 1025
  rts := 0
  wts slot := if slot = 0 then 1 else 0
  data _ := 5

/-- The item of the transaction that holds it: slot 1 is free, slot 0 is the base. -/
def lockedItem : WriteItem Unit Nat where
  key := ()
  seq := 1
  buffer := fillBuffer 0 lockedRecord

theorem tryUpdateRdma_eq_updateRpcHandler_iff_locked :
    lockedRecord.lock = 1025 ∧
      checkBuffer () (fillBuffer 0 lockedRecord) 1025 = some (.success lockedItem) ∧
      (tryUpdateRdma lockedRecord ([(· + 2)].foldl WriteItem.modify lockedItem) 1025 =
          updateRpcHandler lockedRecord 1025 lockedItem.pos
            ([(· + 2)].foldl (fun value edit => edit value)
              (lockedRecord.data lockedItem.maxpos)) ↔
        [(· + 2)].foldl (fun value edit => edit value)
              (lockedRecord.data lockedItem.maxpos) =
            lockedRecord.data lockedItem.maxpos ∨
          ∀ slot other, lockedRecord.wts slot = lockedRecord.wts other) :=
  ⟨rfl, rfl, tryUpdateRdma_eq_updateRpcHandler_iff () lockedRecord 1025 0 rfl lockedItem rfl
    [(· + 2)]⟩

/-- Storing 7 through the pointer also replaces the 5 of the version with timestamp 1. -/
theorem tryUpdateRdma_overwrites_base : ¬ ∀ (record : Header Nat) (timestamp rts : Nat)
    (item : WriteItem Unit Nat) (edits : List (Nat → Nat)), record.lock = timestamp →
      checkBuffer () (fillBuffer 0 { record with rts }) timestamp = some (.success item) →
      tryUpdateRdma record (edits.foldl WriteItem.modify item) timestamp =
        updateRpcHandler record timestamp item.pos
          (edits.foldl (fun value edit => edit value) (record.data item.maxpos)) := by
  intro all
  have same := all lockedRecord 1025 0 lockedItem [fun _ => 7] rfl rfl
  have atBase := congrArg (Option.map fun header => header.data 0) same
  revert atBase
  decide

end OneSided

end Rocc.Mvcc
