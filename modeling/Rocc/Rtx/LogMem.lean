import Mathlib.Data.UInt
import Mathlib.Logic.Function.Basic
import Rocc.Base.Grid

/-!
# Memory of the logs

`LogMemManager` divides the log area of a machine among the threads of all machines.  The
writing thread keeps for every receiver a counter of the bytes it has logged there,
the reading thread keeps one for every sender; the place of an entry in its
segment is the counter modulo the size of the ring.  An entry that starts in the
ring may end behind it: a segment is longer than its ring by the size of the largest entry.

Offsets and counters are 64-bit words that wrap around; the sizes are `int`s.
-/

namespace Rocc.Rtx.LogMem

/-- `RTX_LOG_ENTRY_SIZE`. -/
def logEntrySize : Nat := 2048

/-- `LogMemManager`, with the sizes its constructor has computed. -/
structure LogMemManager where
  macNum : Nat
  threadNum : Nat
  threadBufSize : Nat
  /-- `local_buffer_`, an address. -/
  localBuffer : Nat
  totalMacLogSize : Nat
  remoteTailers : Nat → UInt64
  localHeaders : Nat → UInt64
  baseOffset : UInt64
  threadBufSize_ge : logEntrySize + logEntrySize ≤ threadBufSize
  totalMacLogSize_eq : totalMacLogSize = threadNum * threadBufSize

/-- The constructor: its assertion, then the sizes.  It does not use `entry_size`. -/
def LogMemManager.new (localP ms ts size : Nat) (baseOff : UInt64) : Option LogMemManager :=
  if large : logEntrySize ≤ size then
    if size + logEntrySize < intLimit ∧ ts * (size + logEntrySize) < intLimit then
      some
        { macNum := ms
          threadNum := ts
          threadBufSize := size + logEntrySize
          localBuffer := localP
          totalMacLogSize := ts * (size + logEntrySize)
          remoteTailers := fun _ => 0
          localHeaders := fun _ => 0
          baseOffset := baseOff
          threadBufSize_ge := Nat.add_le_add_right large _
          totalMacLogSize_eq := rfl }
    else none
  else none

namespace LogMemManager

/-- `total_log_size`. -/
def totalLogSize (manager : LogMemManager) : Option Nat :=
  toInt (manager.totalMacLogSize * manager.macNum)

/-- `thread_buf_size_ - log_entry_size_`, what the counters are taken modulo. -/
def ringSize (manager : LogMemManager) : Nat := manager.threadBufSize - logEntrySize

/-- `from_tid * thread_buf_size_ + from_mac * total_mac_log_size_`. -/
def segmentOf (manager : LogMemManager) (fromMac fromTid : Nat) : Option Nat := do
  let thread ← toInt (fromTid * manager.threadBufSize)
  let mac ← toInt (fromMac * manager.totalMacLogSize)
  toInt (thread + mac)

/-- The offset of the entry that starts at a counter. -/
def offsetAt (manager : LogMemManager) (segment : Nat) (tailer : UInt64) : UInt64 :=
  UInt64.ofNat segment + tailer % UInt64.ofNat manager.ringSize + manager.baseOffset

/-- `get_remote_log_offset`. -/
def getRemoteLogOffset (manager : LogMemManager) (fromMac fromTid toMid logSize : Nat) :
    Option (UInt64 × LogMemManager) :=
  if toMid < manager.macNum then do
    let segment ← manager.segmentOf fromMac fromTid
    return (manager.offsetAt segment (manager.remoteTailers toMid),
      { manager with
        remoteTailers := Function.update manager.remoteTailers toMid
          (manager.remoteTailers toMid + UInt64.ofNat logSize) })
  else none

/-- `get_previous_remote_offset`, with its assertion. -/
def getPreviousRemoteOffset (manager : LogMemManager) (fromMac fromTid toMid logSize : Nat) :
    Option UInt64 :=
  if toMid < manager.macNum then
    if UInt64.ofNat logSize ≤ manager.remoteTailers toMid then do
      let segment ← manager.segmentOf fromMac fromTid
      return manager.offsetAt segment (manager.remoteTailers toMid - UInt64.ofNat logSize)
    else none
  else none

/-- `get_local_log_ptr`. -/
def getLocalLogPtr (manager : LogMemManager) (fromMac fromTid : Nat) : Option Nat := do
  let mac ← toInt (fromMac * manager.totalMacLogSize)
  let thread ← toInt (fromTid * manager.threadBufSize)
  return manager.localBuffer + mac + thread

/-- `get_next_log`. -/
def getNextLog (manager : LogMemManager) (fromMac fromTid size : Nat) :
    Option (Nat × LogMemManager) :=
  if fromMac < manager.macNum then do
    let localLogPtr ← manager.getLocalLogPtr fromMac fromTid
    return (localLogPtr +
        (manager.localHeaders fromMac % UInt64.ofNat manager.ringSize).toNat,
      { manager with
        localHeaders := Function.update manager.localHeaders fromMac
          (manager.localHeaders fromMac + UInt64.ofNat size) })
  else none

end LogMemManager

/-! ## Sequences of calls -/

/-- The machine at the other end and the size of the entry. -/
structure Call where
  peer : Nat
  size : Nat
  deriving DecidableEq, Repr

/-- What is returned to a thread that makes these calls one after the other. -/
def callAll {Result : Type} (one : LogMemManager → Call → Option (Result × LogMemManager)) :
    LogMemManager → List Call → Option (List (Call × Result) × LogMemManager)
  | manager, [] => some ([], manager)
  | manager, call :: calls => do
      let (result, next) ← one manager call
      let (results, last) ← callAll one next calls
      return ((call, result) :: results, last)

/-- The calls of `get_remote_log_offset` by the thread `tid` of the machine `mac`. -/
def writeLogs (mac tid : Nat) : LogMemManager → List Call →
    Option (List (Call × UInt64) × LogMemManager) :=
  callAll fun manager call => manager.getRemoteLogOffset mac tid call.peer call.size

/-- The calls of `get_next_log` by a thread `tid`. -/
def readLogs (tid : Nat) : LogMemManager → List Call →
    Option (List (Call × Nat) × LogMemManager) :=
  callAll fun manager call => manager.getNextLog call.peer tid call.size

/-- The sizes of the calls for one machine. -/
def sizesFor (peer : Nat) (calls : List Call) : List Nat :=
  (calls.filter fun call => call.peer == peer).map Call.size

/-- What the calls for one machine have returned, each with its size. -/
def resultsFor {Result : Type} (peer : Nat) (results : List (Call × Result)) :
    List (Nat × Result) :=
  (results.filter fun result => result.1.peer == peer).map fun result =>
    (result.1.size, result.2)

/-- The counters at which entries of these sizes start, each with the size. -/
def starts (counter : UInt64) : List Nat → List (Nat × UInt64)
  | [] => []
  | size :: sizes => (size, counter) :: starts (counter + UInt64.ofNat size) sizes

@[simp] theorem map_fst_starts (counter : UInt64) (sizes : List Nat) :
    (starts counter sizes).map Prod.fst = sizes := by
  induction sizes generalizing counter with
  | nil => rfl
  | cons size sizes hypothesis => simp [starts, hypothesis]

/-- The last entry starts where the entries before it have left the counter. -/
theorem starts_concat (counter : UInt64) (sizes : List Nat) (size : Nat) :
    starts counter (sizes ++ [size]) =
      starts counter sizes ++ [(size, counter + UInt64.ofNat sizes.sum)] := by
  induction sizes generalizing counter with
  | nil => simp [starts]
  | cons first sizes hypothesis =>
      simp only [List.cons_append, starts, hypothesis, List.sum_cons, UInt64.ofNat_add]
      rw [UInt64.add_assoc]

theorem sizesFor_cons (peer : Nat) (call : Call) (calls : List Call) :
    sizesFor peer (call :: calls) =
      if call.peer = peer then call.size :: sizesFor peer calls else sizesFor peer calls := by
  by_cases same : call.peer = peer <;> simp [sizesFor, same]

theorem resultsFor_cons {Result : Type} (peer : Nat) (call : Call) (result : Result)
    (results : List (Call × Result)) :
    resultsFor peer ((call, result) :: results) =
      if call.peer = peer then (call.size, result) :: resultsFor peer results
      else resultsFor peer results := by
  by_cases same : call.peer = peer <;> simp [resultsFor, same]

theorem size_le {peer limit size : Nat} {calls : List Call} {allowed : Call → Prop}
    (met : ∀ call ∈ calls, allowed call ∧ call.size ≤ limit) (member : size ∈ sizesFor peer calls) :
    size ≤ limit := by
  obtain ⟨call, found, rfl⟩ := List.mem_map.mp member
  exact (met call (List.mem_of_mem_filter found)).2

/-- A call that reads one counter, returns the place of the entry and moves the counter on:
a sequence of such calls returns to every machine the places of its own entries. -/
theorem callAll_spec {Result : Type}
    {one : LogMemManager → Call → Option (Result × LogMemManager)}
    (inv : LogMemManager → Prop) (counter : LogMemManager → Nat → UInt64)
    (place : Nat → UInt64 → Result) {calls : List Call} {allowed : Call → Prop}
    (step : ∀ manager call, inv manager → allowed call → ∃ next,
      one manager call = some (place call.peer (counter manager call.peer), next) ∧ inv next ∧
        counter next = Function.update (counter manager) call.peer
          (counter manager call.peer + UInt64.ofNat call.size))
    (met : ∀ call ∈ calls, allowed call) {manager : LogMemManager} (holds : inv manager) :
    ∃ results last, callAll one manager calls = some (results, last) ∧ inv last ∧
      ∀ peer,
        resultsFor peer results = (starts (counter manager peer) (sizesFor peer calls)).map
          (fun start => (start.1, place peer start.2)) ∧
        counter last peer =
          counter manager peer + UInt64.ofNat (sizesFor peer calls).sum := by
  induction calls generalizing manager with
  | nil => exact ⟨[], manager, rfl, holds, fun peer => by simp [resultsFor, sizesFor, starts]⟩
  | cons call calls hypothesis =>
      obtain ⟨next, returned, kept, moved⟩ := step manager call holds (met call (by simp))
      obtain ⟨results, last, run, held, each⟩ :=
        hypothesis (fun other member => met other (by simp [member])) kept
      refine ⟨(call, place call.peer (counter manager call.peer)) :: results, last, ?_, held, ?_⟩
      · simp [callAll, returned, run]
      · intro peer
        obtain ⟨found, ends⟩ := each peer
        rw [resultsFor_cons, sizesFor_cons, found, ends, moved]
        by_cases same : call.peer = peer
        · subst same
          simp [starts, UInt64.ofNat_add, UInt64.add_assoc]
        · rw [Function.update_of_ne (Ne.symm same), if_neg same, if_neg same]
          exact ⟨rfl, rfl⟩

/-! ## Segments -/

namespace LogMemManager

/-- Two managers built with the same parameters, whatever they have counted since. -/
structure Alike (manager other : LogMemManager) : Prop where
  macNum : manager.macNum = other.macNum
  threadNum : manager.threadNum = other.threadNum
  threadBufSize : manager.threadBufSize = other.threadBufSize
  localBuffer : manager.localBuffer = other.localBuffer
  baseOffset : manager.baseOffset = other.baseOffset

/-- The first byte of the segment of a thread, from the base. -/
def segment (manager : LogMemManager) (mac tid : Nat) : Nat :=
  block manager.threadNum manager.threadBufSize mac tid

/-- No product of the sizes overflows. -/
def Fits (manager : LogMemManager) : Prop :=
  manager.macNum * (manager.threadNum * manager.threadBufSize) < intLimit

theorem totalLogSize_eq_some {manager : LogMemManager} {total : Nat} :
    manager.totalLogSize = some total ↔ manager.Fits ∧
      total = manager.macNum * (manager.threadNum * manager.threadBufSize) := by
  rw [totalLogSize, manager.totalMacLogSize_eq, Nat.mul_comm, toInt_eq_some,
    eq_comm (a := total)]
  rfl

theorem Alike.fits {manager other : LogMemManager} (alike : manager.Alike other)
    (fits : other.Fits) : manager.Fits := by
  unfold Fits
  rw [alike.macNum, alike.threadNum, alike.threadBufSize]
  exact fits

theorem Alike.segment {manager other : LogMemManager} (alike : manager.Alike other)
    (mac tid : Nat) : manager.segment mac tid = other.segment mac tid := by
  unfold LogMemManager.segment
  rw [alike.threadNum, alike.threadBufSize]

theorem Alike.ringSize {manager other : LogMemManager} (alike : manager.Alike other) :
    manager.ringSize = other.ringSize := by
  unfold LogMemManager.ringSize
  rw [alike.threadBufSize]

theorem Alike.segmentOf {manager other : LogMemManager} (alike : manager.Alike other)
    (mac tid : Nat) : manager.segmentOf mac tid = other.segmentOf mac tid := by
  unfold LogMemManager.segmentOf
  rw [manager.totalMacLogSize_eq, other.totalMacLogSize_eq, alike.threadNum,
    alike.threadBufSize]

theorem Alike.offsetAt {manager other : LogMemManager} (alike : manager.Alike other)
    (segment : Nat) (tailer : UInt64) :
    manager.offsetAt segment tailer = other.offsetAt segment tailer := by
  unfold LogMemManager.offsetAt
  rw [alike.ringSize, alike.baseOffset]

section

variable {manager : LogMemManager} {mac tid : Nat}

/-- A segment lies in the log area. -/
theorem segment_le (machine : mac < manager.macNum) (thread : tid < manager.threadNum) :
    manager.segment mac tid + manager.threadBufSize ≤
      manager.macNum * (manager.threadNum * manager.threadBufSize) :=
  block_le_region machine thread

theorem segmentOf_eq (machine : mac < manager.macNum) (thread : tid < manager.threadNum)
    (fits : manager.Fits) : manager.segmentOf mac tid = some (manager.segment mac tid) := by
  have inside := segment_le machine thread
  unfold Fits at fits
  unfold segment block at *
  unfold segmentOf
  rw [manager.totalMacLogSize_eq, toInt_of_lt (by omega)]
  simp only [Option.bind_eq_bind, Option.bind_some]
  rw [toInt_of_lt (by omega)]
  simp only [Option.bind_some]
  rw [toInt_of_lt (by omega), Nat.add_comm]

theorem segmentOf_lt {segment : Nat} (found : manager.segmentOf mac tid = some segment) :
    segment < intLimit := by
  unfold segmentOf at found
  simp only [Option.bind_eq_bind, Option.bind_eq_some_iff] at found
  obtain ⟨_, _, _, _, found⟩ := found
  obtain ⟨small, rfl⟩ := toInt_eq_some.mp found
  exact small

theorem getLocalLogPtr_eq (machine : mac < manager.macNum) (thread : tid < manager.threadNum)
    (fits : manager.Fits) :
    manager.getLocalLogPtr mac tid = some (manager.localBuffer + manager.segment mac tid) := by
  have inside := segment_le machine thread
  unfold Fits at fits
  unfold segment block at *
  unfold getLocalLogPtr
  rw [manager.totalMacLogSize_eq, toInt_of_lt (by omega)]
  simp only [Option.bind_eq_bind, Option.bind_some]
  rw [toInt_of_lt (by omega)]
  simp [Nat.add_assoc]

theorem segment_lt (machine : mac < manager.macNum) (thread : tid < manager.threadNum)
    (fits : manager.Fits) : manager.segment mac tid + manager.threadBufSize < 2 ^ 31 :=
  (segment_le machine thread).trans_lt fits

/-- A ring and the largest entry behind it fill a segment. -/
theorem ringSize_add : manager.ringSize + logEntrySize = manager.threadBufSize := by
  have large := manager.threadBufSize_ge
  unfold ringSize
  omega

theorem ringSize_pos : 0 < manager.ringSize := by
  have large := manager.threadBufSize_ge
  unfold ringSize logEntrySize at *
  omega

/-- The place of a counter in the ring. -/
theorem toNat_mod_ringSize (small : manager.threadBufSize < 2 ^ 31) (tailer : UInt64) :
    (tailer % UInt64.ofNat manager.ringSize).toNat = tailer.toNat % manager.ringSize := by
  have ring := @ringSize_add manager
  rw [UInt64.toNat_mod, UInt64.toNat_ofNat',
    Nat.mod_eq_of_lt (a := manager.ringSize) (by omega)]

/-- What one call of the writing thread returns. -/
theorem getRemoteLogOffset_eq {toMid logSize : Nat} (receiver : toMid < manager.macNum)
    (machine : mac < manager.macNum) (thread : tid < manager.threadNum) (fits : manager.Fits) :
    manager.getRemoteLogOffset mac tid toMid logSize =
      some (manager.offsetAt (manager.segment mac tid) (manager.remoteTailers toMid),
        { manager with
          remoteTailers := Function.update manager.remoteTailers toMid
            (manager.remoteTailers toMid + UInt64.ofNat logSize) }) := by
  rw [getRemoteLogOffset, if_pos receiver, segmentOf_eq machine thread fits]
  rfl

/-- A call of the writing thread that returns. -/
theorem getRemoteLogOffset_eq_some {toMid logSize : Nat} {off : UInt64} {next : LogMemManager}
    (returned : manager.getRemoteLogOffset mac tid toMid logSize = some (off, next)) :
    ∃ segment, manager.segmentOf mac tid = some segment ∧
      off = manager.offsetAt segment (manager.remoteTailers toMid) ∧
      next = { manager with
        remoteTailers := Function.update manager.remoteTailers toMid
          (manager.remoteTailers toMid + UInt64.ofNat logSize) } := by
  unfold getRemoteLogOffset at returned
  split at returned
  · obtain ⟨segment, found, same⟩ := Option.bind_eq_some_iff.mp returned
    simp only [Option.pure_def, Option.some.injEq, Prod.mk.injEq] at same
    exact ⟨segment, found, same.1.symm, same.2.symm⟩
  · cases returned

/-- What one call of the reading thread returns. -/
theorem getNextLog_eq {size : Nat} (machine : mac < manager.macNum)
    (thread : tid < manager.threadNum) (fits : manager.Fits) :
    manager.getNextLog mac tid size =
      some (manager.localBuffer + manager.segment mac tid +
          (manager.localHeaders mac % UInt64.ofNat manager.ringSize).toNat,
        { manager with
          localHeaders := Function.update manager.localHeaders mac
            (manager.localHeaders mac + UInt64.ofNat size) }) := by
  rw [getNextLog, if_pos machine, getLocalLogPtr_eq machine thread fits]
  rfl

/-- The offset of the entry that the counter has just passed; the assertion holds unless
the counter has wrapped around with this entry. -/
theorem getPreviousRemoteOffset_eq {toMid logSize : Nat} (receiver : toMid < manager.macNum)
    (machine : mac < manager.macNum) (thread : tid < manager.threadNum) (fits : manager.Fits)
    {start : UInt64} (passed : manager.remoteTailers toMid = start + UInt64.ofNat logSize)
    (small : logSize < 2 ^ 64) :
    manager.getPreviousRemoteOffset mac tid toMid logSize =
      if start.toNat + logSize < 2 ^ 64 then
        some (manager.offsetAt (manager.segment mac tid) start)
      else none := by
  have size : (UInt64.ofNat logSize).toNat = logSize := by
    rw [UInt64.toNat_ofNat', Nat.mod_eq_of_lt small]
  have wrapped : UInt64.ofNat logSize ≤ start + UInt64.ofNat logSize ↔
      start.toNat + logSize < 2 ^ 64 := by
    have bound := start.toNat_lt
    rw [UInt64.le_iff_toNat_le, UInt64.toNat_add, size]
    omega
  rw [getPreviousRemoteOffset, if_pos receiver, passed, segmentOf_eq machine thread fits,
    UInt64.add_sub_cancel]
  simp only [wrapped]
  rfl

/-- The offset of an entry, from the base. -/
theorem toNat_offsetAt_sub (machine : mac < manager.macNum) (thread : tid < manager.threadNum)
    (fits : manager.Fits) (tailer : UInt64) :
    (manager.offsetAt (manager.segment mac tid) tailer - manager.baseOffset).toNat =
      manager.segment mac tid + tailer.toNat % manager.ringSize := by
  have small := segment_lt machine thread fits
  have ring := @ringSize_add manager
  have place := Nat.mod_lt tailer.toNat (@ringSize_pos manager)
  unfold offsetAt
  rw [UInt64.add_sub_cancel, UInt64.toNat_add, toNat_mod_ringSize (by omega),
    UInt64.toNat_ofNat', Nat.mod_eq_of_lt (a := manager.segment mac tid) (by omega)]
  exact Nat.mod_eq_of_lt (by omega)

end

end LogMemManager

open LogMemManager

/-! ## The two sides -/

section

variable {manager : LogMemManager} {mac tid : Nat}

/-- What the writing thread gets and what it has counted. -/
theorem writeLogs_spec (machine : mac < manager.macNum) (thread : tid < manager.threadNum)
    (fits : manager.Fits) {calls : List Call}
    (met : ∀ call ∈ calls, call.peer < manager.macNum) :
    ∃ results last, writeLogs mac tid manager calls = some (results, last) ∧
      last.Alike manager ∧ ∀ peer,
        resultsFor peer results =
          (starts (manager.remoteTailers peer) (sizesFor peer calls)).map
            (fun start => (start.1, manager.offsetAt (manager.segment mac tid) start.2)) ∧
        last.remoteTailers peer =
          manager.remoteTailers peer + UInt64.ofNat (sizesFor peer calls).sum := by
  refine callAll_spec (fun other => other.Alike manager) remoteTailers
    (fun _ tailer => manager.offsetAt (manager.segment mac tid) tailer) ?_ met
    ⟨rfl, rfl, rfl, rfl, rfl⟩
  intro other call alike inside
  have returned : other.getRemoteLogOffset mac tid call.peer call.size = _ :=
    getRemoteLogOffset_eq (alike.macNum ▸ inside) (alike.macNum ▸ machine)
      (alike.threadNum ▸ thread) (alike.fits fits)
  rw [alike.segment, alike.offsetAt] at returned
  exact ⟨_, returned, ⟨alike.macNum, alike.threadNum, alike.threadBufSize, alike.localBuffer,
    alike.baseOffset⟩, rfl⟩

/-- What the reading thread gets and what it has counted. -/
theorem readLogs_spec (thread : tid < manager.threadNum) (fits : manager.Fits)
    {calls : List Call} (met : ∀ call ∈ calls, call.peer < manager.macNum) :
    ∃ results last, readLogs tid manager calls = some (results, last) ∧
      last.Alike manager ∧ ∀ peer,
        resultsFor peer results =
          (starts (manager.localHeaders peer) (sizesFor peer calls)).map
            (fun start => (start.1, manager.localBuffer + manager.segment peer tid +
              (start.2 % UInt64.ofNat manager.ringSize).toNat)) ∧
        last.localHeaders peer =
          manager.localHeaders peer + UInt64.ofNat (sizesFor peer calls).sum := by
  refine callAll_spec (fun other => other.Alike manager) localHeaders
    (fun peer header => manager.localBuffer + manager.segment peer tid +
      (header % UInt64.ofNat manager.ringSize).toNat) ?_ met ⟨rfl, rfl, rfl, rfl, rfl⟩
  intro other call alike inside
  have returned : other.getNextLog call.peer tid call.size = _ :=
    getNextLog_eq (alike.macNum ▸ inside) (alike.threadNum ▸ thread) (alike.fits fits)
  rw [alike.segment, alike.ringSize, alike.localBuffer] at returned
  exact ⟨_, returned, ⟨alike.macNum, alike.threadNum, alike.threadBufSize, rfl,
    alike.baseOffset⟩, rfl⟩

/-- The last entry for a machine and the offset that `get_previous_remote_offset` finds. -/
theorem previous_spec (machine : mac < manager.macNum) (thread : tid < manager.threadNum)
    (fits : manager.Fits) {calls : List Call}
    (met : ∀ call ∈ calls, call.peer < manager.macNum) {peer : Nat}
    (receiver : peer < manager.macNum) (fresh : manager.remoteTailers peer = 0)
    {sizes : List Nat} {size : Nat} (small : size < 2 ^ 64)
    (logged : sizesFor peer calls = sizes ++ [size])
    {results : List (Call × UInt64)} {last : LogMemManager}
    (run : writeLogs mac tid manager calls = some (results, last)) :
    ∃ offset, (resultsFor peer results).getLast? = some (size, offset) ∧
      last.getPreviousRemoteOffset mac tid peer size =
        if sizes.sum % 2 ^ 64 + size < 2 ^ 64 then some offset else none := by
  obtain ⟨results', last', run', alike, each⟩ := writeLogs_spec machine thread fits met
  obtain ⟨rfl, rfl⟩ : results' = results ∧ last' = last := by
    rw [run, Option.some.injEq, Prod.mk.injEq] at run'
    exact ⟨run'.1.symm, run'.2.symm⟩
  obtain ⟨found, ends⟩ := each peer
  rw [logged, fresh, starts_concat, UInt64.zero_add] at found
  rw [logged, fresh, List.sum_append, List.sum_singleton, UInt64.ofNat_add,
    UInt64.zero_add] at ends
  refine ⟨manager.offsetAt (manager.segment mac tid) (UInt64.ofNat sizes.sum), ?_, ?_⟩
  · rw [found]
    simp
  · rw [getPreviousRemoteOffset_eq (alike.macNum ▸ receiver) (alike.macNum ▸ machine)
      (alike.threadNum ▸ thread) (alike.fits fits) ends small, alike.segment, alike.offsetAt,
      UInt64.toNat_ofNat']

end

/-- The constructor checks that a segment fits into an `int`. -/
theorem threadBufSize_lt {localP ms ts size : Nat} {baseOff : UInt64}
    {manager : LogMemManager}
    (built : LogMemManager.new localP ms ts size baseOff = some manager) :
    manager.threadBufSize < intLimit := by
  unfold LogMemManager.new at built
  split at built
  · split at built
    · rename_i small
      simp only [Option.some.injEq] at built
      subst built
      exact small.1
    · cases built
  · cases built

/-- Managers as the constructor leaves them. -/
theorem new_eq_some {localP ms ts size : Nat} {baseOff : UInt64} {manager : LogMemManager}
    (built : LogMemManager.new localP ms ts size baseOff = some manager) :
    manager.macNum = ms ∧ manager.threadNum = ts ∧ manager.ringSize = size ∧
      manager.localBuffer = localP ∧ manager.baseOffset = baseOff ∧
      (∀ peer, manager.remoteTailers peer = 0) ∧ ∀ peer, manager.localHeaders peer = 0 := by
  unfold LogMemManager.new at built
  split at built
  · split at built
    · simp only [Option.some.injEq] at built
      subst built
      simp [ringSize]
    · cases built
  · cases built

/-- Both sides walk the same places: what a thread gets for its entries on `target` is, from the
base, where the thread there reads the entries of this sender; every entry lies in the
segment of the sender, segments of different threads are disjoint and lie in the log area,
and `get_previous_remote_offset` finds the last entry unless the counter of the
receiver has wrapped around with it. -/
theorem logs_in_step {localP localP' ms ts size total : Nat} {baseOff : UInt64}
    {sender receiver : LogMemManager}
    (built : LogMemManager.new localP ms ts size baseOff = some sender)
    (built' : LogMemManager.new localP' ms ts size baseOff = some receiver)
    (fits : sender.totalLogSize = some total) {mac tid target : Nat} (machine : mac < ms)
    (thread : tid < ts) (peer : target < ms) {writes reads : List Call}
    (written : ∀ call ∈ writes, call.peer < ms ∧ call.size ≤ logEntrySize)
    (read : ∀ call ∈ reads, call.peer < ms)
    (same : sizesFor target writes = sizesFor mac reads) :
    ∃ (offsets : List (Call × UInt64)) (places : List (Call × Nat)) (sender' receiver' :
        LogMemManager),
      writeLogs mac tid sender writes = some (offsets, sender') ∧
      readLogs tid receiver reads = some (places, receiver') ∧
      ((resultsFor target offsets).map fun entry => (entry.1, (entry.2 - baseOff).toNat)) =
        ((resultsFor mac places).map fun entry => (entry.1, entry.2 - localP')) ∧
      (∀ entry ∈ resultsFor target offsets,
        sender.segment mac tid ≤ (entry.2 - baseOff).toNat ∧
          (entry.2 - baseOff).toNat + entry.1 ≤
            sender.segment mac tid + sender.threadBufSize) ∧
      sender.segment mac tid + sender.threadBufSize ≤ total ∧
      (∀ other another, another < ts → (mac, tid) ≠ (other, another) →
        sender.segment mac tid + sender.threadBufSize ≤ sender.segment other another ∨
          sender.segment other another + sender.threadBufSize ≤ sender.segment mac tid) ∧
      ∀ sizes last, sizesFor target writes = sizes ++ [last] →
        ∃ offset, (resultsFor target offsets).getLast? = some (last, offset) ∧
          sender'.getPreviousRemoteOffset mac tid target last =
            if sizes.sum % 2 ^ 64 + last < 2 ^ 64 then some offset else none := by
  obtain ⟨macs, threads, ring, _, base, tailers, _⟩ := new_eq_some built
  obtain ⟨macs', threads', ring', buffer, _, _, headers⟩ := new_eq_some built'
  subst macs threads base
  obtain ⟨small, rfl⟩ := totalLogSize_eq_some.mp fits
  have size : receiver.threadBufSize = sender.threadBufSize := by
    rw [← ringSize_add, ← ringSize_add, ring, ring']
  have small' : receiver.Fits := by
    unfold Fits
    rw [macs', threads', size]
    exact small
  have segments : receiver.segment mac tid = sender.segment mac tid := by
    unfold LogMemManager.segment
    rw [threads', size]
  obtain ⟨offsets, sender', run, _, each⟩ :=
    writeLogs_spec machine thread small fun call member => (written call member).1
  obtain ⟨places, receiver', run', _, each'⟩ :=
    readLogs_spec (threads' ▸ thread) small' fun call member => macs' ▸ read call member
  have found := (each target).1
  have found' := (each' mac).1
  rw [tailers] at found
  rw [headers, ← same, buffer, segments, ring', ← ring] at found'
  refine ⟨offsets, places, sender', receiver', run, run', ?_, ?_, ?_, ?_, ?_⟩
  · rw [found, found', List.map_map, List.map_map]
    apply List.map_congr_left
    intro start _
    simp only [Function.comp_apply]
    rw [toNat_offsetAt_sub machine thread small,
      toNat_mod_ringSize ((Nat.le_add_left _ _).trans_lt (segment_lt machine thread small)),
      Nat.add_assoc, Nat.add_sub_cancel_left]
  · intro entry member
    rw [found, List.mem_map] at member
    obtain ⟨start, member, rfl⟩ := member
    have size : start.1 ≤ logEntrySize := by
      have logged : start.1 ∈ sizesFor target writes := by
        rw [← map_fst_starts 0 (sizesFor target writes)]
        exact List.mem_map_of_mem member
      exact size_le written logged
    have place := Nat.mod_lt start.2.toNat (@ringSize_pos sender)
    have ends := @ringSize_add sender
    simp only [toNat_offsetAt_sub machine thread small]
    omega
  · exact segment_le machine thread
  · intro other another inside different
    exact block_disjoint thread inside different
  · intro sizes last logged
    have size : last ≤ logEntrySize := size_le written (by rw [logged]; simp)
    have bound : logEntrySize < 2 ^ 64 := by decide
    exact previous_spec machine thread small (fun call member => (written call member).1) peer
      (tailers target) (size.trans_lt bound) logged run

/-- Two machines and three entries for the second one, of which the last but one ends with
the ring. -/
theorem logs_in_step_pair :
    ∃ sender receiver sender' receiver' : LogMemManager,
      ∃ (offsets : List (Call × UInt64)) (places : List (Call × Nat)),
      LogMemManager.new 0 2 1 4096 64 = some sender ∧
      LogMemManager.new 512 2 1 4096 64 = some receiver ∧
      writeLogs 0 0 sender [⟨1, 2048⟩, ⟨0, 100⟩, ⟨1, 2048⟩, ⟨1, 64⟩] =
        some (offsets, sender') ∧
      readLogs 0 receiver [⟨0, 2048⟩, ⟨0, 2048⟩, ⟨1, 10⟩, ⟨0, 64⟩] =
        some (places, receiver') ∧
      ((resultsFor 1 offsets).map fun entry => (entry.1, (entry.2 - 64).toNat)) =
        ((resultsFor 0 places).map fun entry => (entry.1, entry.2 - 512)) := by
  obtain ⟨offsets, places, sender', receiver', written, read, same, _⟩ :=
    @logs_in_step 0 512 2 1 4096 12288 64 _ _ rfl rfl rfl 0 0 1 (by decide) (by decide)
      (by decide) [⟨1, 2048⟩, ⟨0, 100⟩, ⟨1, 2048⟩, ⟨1, 64⟩]
      [⟨0, 2048⟩, ⟨0, 2048⟩, ⟨1, 10⟩, ⟨0, 64⟩] (by decide) (by decide) (by decide)
  exact ⟨_, _, sender', receiver', offsets, places, rfl, rfl, written, read, same⟩

theorem sizesFor_replicate (peer size count : Nat) :
    sizesFor peer (List.replicate count ⟨peer, size⟩) = List.replicate count size := by
  simp [sizesFor]

/-- After as many of the largest entries as fill a counter, `get_previous_remote_offset`
fails instead of finding the last one. -/
theorem previous_lost :
    ∃ sender sender' : LogMemManager, ∃ (total : Nat) (offsets : List (Call × UInt64))
        (offset : UInt64),
      LogMemManager.new 0 1 1 logEntrySize 0 = some sender ∧
      sender.totalLogSize = some total ∧
      writeLogs 0 0 sender (List.replicate (2 ^ 53) ⟨0, logEntrySize⟩) =
        some (offsets, sender') ∧
      (resultsFor 0 offsets).getLast? = some (logEntrySize, offset) ∧
      sender'.getPreviousRemoteOffset 0 0 0 logEntrySize ≠ some offset := by
  obtain ⟨count, full⟩ : ∃ count, 2 ^ 53 = count + 1 := ⟨2 ^ 53 - 1, by norm_num⟩
  rw [full]
  obtain ⟨sender, built⟩ : ∃ sender, LogMemManager.new 0 1 1 logEntrySize 0 = some sender :=
    ⟨_, rfl⟩
  obtain ⟨macs, threads, ring, _, _, tailers, _⟩ := new_eq_some built
  have ends := @ringSize_add sender
  have small : sender.Fits := by
    unfold Fits
    rw [macs, threads, ← ends, ring]
    decide
  have machine : 0 < sender.macNum := by omega
  have thread : 0 < sender.threadNum := by omega
  have met : ∀ call ∈ List.replicate (count + 1) (Call.mk 0 logEntrySize),
      call.peer < sender.macNum := by
    intro call member
    rw [List.eq_of_mem_replicate member]
    exact machine
  obtain ⟨offsets, sender', run, _⟩ := writeLogs_spec machine thread small met
  have logged : sizesFor 0 (List.replicate (count + 1) ⟨0, logEntrySize⟩) =
      List.replicate count logEntrySize ++ [logEntrySize] := by
    rw [sizesFor_replicate, List.replicate_succ']
  obtain ⟨offset, last, previous⟩ :=
    previous_spec machine thread small met machine (tailers 0) (by decide) logged run
  refine ⟨sender, sender', _, offsets, offset, built, totalLogSize_eq_some.mpr ⟨small, rfl⟩,
    run, last, ?_⟩
  have wrapped : ¬ count * logEntrySize % 2 ^ 64 + logEntrySize < 2 ^ 64 := by
    unfold logEntrySize
    omega
  rw [previous, List.sum_replicate_nat, if_neg wrapped]
  simp

end Rocc.Rtx.LogMem
