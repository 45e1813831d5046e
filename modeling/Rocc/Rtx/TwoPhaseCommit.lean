import Rocc.Base.Grid

/-!
# Mailboxes of two-phase commit

`TwoPhaseCommitMemManager` gives every coroutine of every thread of every machine one
byte.  The coordinator writes its prepare message and its decision to this byte of a
participant's memory with one-sided writes; the participant finds the byte with
`get_local_ptr` of its own manager, built over the memory the writes are addressed from.

The coroutines count from one.  The summand `base_offset_` of `get_remote_offset` stands
behind a semicolon and is not part of what is returned.
-/

namespace Rocc.Rtx.TwoPhaseCommit

/-- `sizeof(uint8_t)`. -/
def cellSize : Nat := 1

/-- `TwoPhaseCommitMemManager`, with the sizes its constructor has computed. -/
structure TwoPhaseCommitMemManager where
  macNum : Nat
  threadNum : Nat
  coroutineNum : Nat
  /-- `local_buffer_`, an address. -/
  localBuffer : Nat
  threadBufSize : Nat
  macBufSize : Nat
  baseOffset : Nat
  threadBufSize_eq : threadBufSize = coroutineNum * cellSize
  macBufSize_eq : macBufSize = threadNum * threadBufSize

/-- The constructor; the sizes are `int`s. -/
def TwoPhaseCommitMemManager.new (localP ms ts cs baseOff : Nat) :
    Option TwoPhaseCommitMemManager :=
  if cs * cellSize < intLimit then
    if ts * (cs * cellSize) < intLimit then
      some
        { macNum := ms
          threadNum := ts
          coroutineNum := cs
          localBuffer := localP
          threadBufSize := cs * cellSize
          macBufSize := ts * (cs * cellSize)
          baseOffset := baseOff
          threadBufSize_eq := rfl
          macBufSize_eq := rfl }
    else none
  else none

namespace TwoPhaseCommitMemManager

/-- `total_size`. -/
def totalSize (manager : TwoPhaseCommitMemManager) : Option Nat :=
  toInt (manager.macBufSize * manager.macNum)

/-- `get_remote_offset`: the first two summands are an `int`, the base is not added. -/
def getRemoteOffset (manager : TwoPhaseCommitMemManager) (fromMac fromTid fromCid : Nat) :
    Option Nat := do
  let mac ← toInt (fromMac * manager.macBufSize)
  let tid ← toInt (fromTid * manager.threadBufSize)
  let start ← toInt (mac + tid)
  return start + fromCid * cellSize

/-- `get_local_ptr`. -/
def getLocalPtr (manager : TwoPhaseCommitMemManager) (fromMac fromTid fromCid : Nat) :
    Option Nat :=
  (manager.getRemoteOffset fromMac fromTid fromCid).map (manager.localBuffer + ·)

/-- A machine, a thread and a coroutine as the workers use them. -/
def Sender (manager : TwoPhaseCommitMemManager) (fromMac fromTid fromCid : Nat) : Prop :=
  fromMac < manager.macNum ∧ fromTid < manager.threadNum ∧
    1 ≤ fromCid ∧ fromCid ≤ manager.coroutineNum

section

variable {manager : TwoPhaseCommitMemManager} {mac tid cid : Nat}

theorem macBufSize_eq_mul :
    manager.macBufSize = manager.threadNum * manager.coroutineNum := by
  rw [manager.macBufSize_eq, manager.threadBufSize_eq, cellSize, Nat.mul_one]

/-- The blocks of the threads lie inside the region. -/
theorem block_le (sender : manager.Sender mac tid cid) :
    block manager.threadNum manager.coroutineNum mac tid + manager.coroutineNum ≤
      manager.macNum * (manager.threadNum * manager.coroutineNum) :=
  block_le_region sender.1 sender.2.1

/-- What `get_remote_offset` returns to a sender: its place in the grid of threads, counted
from one, and nothing of the base. -/
theorem getRemoteOffset_eq (sender : manager.Sender mac tid cid)
    (fits : manager.macNum * (manager.threadNum * manager.coroutineNum) < intLimit) :
    manager.getRemoteOffset mac tid cid =
      some (block manager.threadNum manager.coroutineNum mac tid + cid) := by
  have inside := block_le sender
  unfold block at inside
  unfold getRemoteOffset block
  rw [macBufSize_eq_mul, manager.threadBufSize_eq, cellSize, Nat.mul_one, Nat.mul_one,
    toInt_of_lt (by omega)]
  simp only [Option.pure_def, Option.bind_eq_bind, Option.bind_some]
  rw [toInt_of_lt (by omega)]
  simp only [Option.bind_some]
  rw [toInt_of_lt (by omega)]
  rfl

/-- The size of the region. -/
theorem totalSize_eq_some {total : Nat} :
    manager.totalSize = some total ↔
      manager.macNum * (manager.threadNum * manager.coroutineNum) < intLimit ∧
        total = manager.macNum * (manager.threadNum * manager.coroutineNum) := by
  rw [totalSize, macBufSize_eq_mul, Nat.mul_comm, toInt_eq_some, eq_comm (a := total)]

/-- The first and the last sender, where there are any. -/
theorem firstSender
    (some : manager.macNum * (manager.threadNum * manager.coroutineNum) ≠ 0) :
    manager.Sender 0 0 1 := by
  simp only [ne_eq, Nat.mul_eq_zero, not_or] at some
  exact ⟨Nat.pos_of_ne_zero some.1, Nat.pos_of_ne_zero some.2.1, le_rfl,
    Nat.pos_of_ne_zero some.2.2⟩

theorem lastSender
    (some : manager.macNum * (manager.threadNum * manager.coroutineNum) ≠ 0) :
    manager.Sender (manager.macNum - 1) (manager.threadNum - 1) manager.coroutineNum := by
  simp only [ne_eq, Nat.mul_eq_zero, not_or] at some
  exact ⟨by omega, by omega, Nat.pos_of_ne_zero some.2.2, le_rfl⟩

/-- The cell of the last sender is as far from the start as the region is long. -/
theorem lastCell
    (some : manager.macNum * (manager.threadNum * manager.coroutineNum) ≠ 0) :
    block manager.threadNum manager.coroutineNum (manager.macNum - 1) (manager.threadNum - 1) +
        manager.coroutineNum =
      manager.macNum * (manager.threadNum * manager.coroutineNum) := by
  simp only [ne_eq, Nat.mul_eq_zero, not_or] at some
  rw [block_last _ _ _ _ (by omega), Nat.sub_add_cancel (by omega)]

/-- Different senders have different cells. -/
theorem cell_ne {other another more : Nat} (sender : manager.Sender mac tid cid)
    (second : manager.Sender other another more)
    (different : (mac, tid, cid) ≠ (other, another, more)) :
    block manager.threadNum manager.coroutineNum mac tid + cid ≠
      block manager.threadNum manager.coroutineNum other another + more := by
  obtain ⟨_, thread, first, last⟩ := sender
  obtain ⟨_, thread', first', last'⟩ := second
  by_cases same : (mac, tid) = (other, another)
  · obtain ⟨rfl, rfl⟩ := Prod.mk.injEq .. ▸ same
    intro equal
    exact different (by rw [Nat.add_left_cancel equal])
  · have apart :
        block manager.threadNum manager.coroutineNum mac tid + manager.coroutineNum ≤
            block manager.threadNum manager.coroutineNum other another ∨
          block manager.threadNum manager.coroutineNum other another + manager.coroutineNum ≤
            block manager.threadNum manager.coroutineNum mac tid :=
      block_disjoint thread thread' same
    omega

end

end TwoPhaseCommitMemManager

open TwoPhaseCommitMemManager

/-! ## The mailboxes of a cluster -/

/-- The mailboxes for a cluster of `ms` machines with `ts` threads of `cs` coroutines:
the managers of the coordinator and of the participant exist, and every sender has a
cell of its own in the region, which the participant finds where the write lands. -/
def SeparateMailboxes (ms ts cs baseOff own registered : Nat) : Prop :=
  ∃ coordinator participant : TwoPhaseCommitMemManager, ∃ total : Nat,
    TwoPhaseCommitMemManager.new own ms ts cs baseOff = some coordinator ∧
    TwoPhaseCommitMemManager.new registered ms ts cs baseOff = some participant ∧
    coordinator.totalSize = some total ∧
    ∀ mac tid cid : Nat, coordinator.Sender mac tid cid →
      ∃ offset, coordinator.getRemoteOffset mac tid cid = some offset ∧
        baseOff ≤ offset ∧ offset < baseOff + total ∧
        participant.getLocalPtr mac tid cid = some (registered + offset) ∧
        ∀ other another more : Nat, coordinator.Sender other another more →
          (mac, tid, cid) ≠ (other, another, more) →
          coordinator.getRemoteOffset other another more ≠ some offset

/-- When the constructor has a meaning. -/
theorem new_eq_some {localP ms ts cs baseOff : Nat} {manager : TwoPhaseCommitMemManager} :
    TwoPhaseCommitMemManager.new localP ms ts cs baseOff = some manager ↔
      cs < intLimit ∧ ts * cs < intLimit ∧ manager.macNum = ms ∧ manager.threadNum = ts ∧
        manager.coroutineNum = cs ∧ manager.localBuffer = localP ∧
        manager.baseOffset = baseOff := by
  unfold TwoPhaseCommitMemManager.new
  simp only [cellSize, Nat.mul_one]
  constructor
  · intro built
    split at built
    · split at built
      · simp only [Option.some.injEq] at built
        subst built
        simp_all
      · cases built
    · cases built
  · rintro ⟨coroutines, threads, rfl, rfl, rfl, rfl, rfl⟩
    rw [if_pos coroutines, if_pos threads]
    obtain ⟨_, _, _, _, _, _, _, rfl, rfl⟩ := manager
    simp [cellSize]

theorem exists_new (localP baseOff : Nat) {ms ts cs : Nat} (coroutines : cs < intLimit)
    (threads : ts * cs < intLimit) :
    ∃ manager, TwoPhaseCommitMemManager.new localP ms ts cs baseOff = some manager := by
  unfold TwoPhaseCommitMemManager.new
  simp only [cellSize, Nat.mul_one]
  rw [if_pos coroutines, if_pos threads]
  exact ⟨_, rfl⟩

/-- What there is when the mailboxes are as they should be. -/
theorem SeparateMailboxes.sized {ms ts cs baseOff own registered : Nat}
    (separate : SeparateMailboxes ms ts cs baseOff own registered) :
    cs < intLimit ∧ ts * cs < intLimit ∧ ms * (ts * cs) < intLimit ∧
      (ms * (ts * cs) = 0 ∨ baseOff = 1) := by
  obtain ⟨coordinator, participant, total, built, _, sized, cells⟩ := separate
  obtain ⟨coroutines, threads, rfl, rfl, rfl, _, rfl⟩ := new_eq_some.mp built
  obtain ⟨fits, rfl⟩ := totalSize_eq_some.mp sized
  refine ⟨coroutines, threads, fits, ?_⟩
  by_cases none : coordinator.macNum * (coordinator.threadNum * coordinator.coroutineNum) = 0
  · exact .inl none
  · right
    -- The first and the last cell leave no other base.
    have first : coordinator.Sender 0 0 1 := firstSender none
    have last := lastSender none
    obtain ⟨offset, found, low, _⟩ := cells _ _ _ first
    obtain ⟨offset', found', _, high, _⟩ := cells _ _ _ last
    rw [getRemoteOffset_eq first fits, Option.some.injEq] at found
    rw [getRemoteOffset_eq last fits, Option.some.injEq, lastCell none] at found'
    have start : block coordinator.threadNum coordinator.coroutineNum 0 0 = 0 := by
      simp [block]
    omega

/-- The mailboxes are as they should be exactly when the sizes fit and either there are
no senders or the region starts at address one. -/
theorem separateMailboxes_iff (ms ts cs baseOff own registered : Nat) :
    SeparateMailboxes ms ts cs baseOff own registered ↔
      cs < intLimit ∧ ts * cs < intLimit ∧ ms * (ts * cs) < intLimit ∧
        (ms * (ts * cs) = 0 ∨ baseOff = 1) := by
  refine ⟨SeparateMailboxes.sized, ?_⟩
  rintro ⟨coroutines, threads, fits, base⟩
  obtain ⟨coordinator, built⟩ := exists_new own baseOff coroutines threads
  obtain ⟨participant, built'⟩ := exists_new registered baseOff coroutines threads
  refine ⟨coordinator, participant, ms * (ts * cs), built, built', ?_, ?_⟩
  · obtain ⟨_, _, rfl, rfl, rfl, _⟩ := new_eq_some.mp built
    exact totalSize_eq_some.mpr ⟨fits, rfl⟩
  obtain ⟨_, _, rfl, rfl, rfl, _, _⟩ := new_eq_some.mp built
  obtain ⟨_, _, machines, threads', coroutines', rfl, _⟩ := new_eq_some.mp built'
  intro mac tid cid sender
  have met : participant.Sender mac tid cid := by
    unfold Sender
    rw [machines, threads', coroutines']
    exact sender
  have found := getRemoteOffset_eq sender fits
  have found' := getRemoteOffset_eq met (by rw [machines, threads', coroutines']; exact fits)
  rw [threads', coroutines'] at found'
  have inside := block_le sender
  have positive := sender.2.2.1
  have last := sender.2.2.2
  have region : baseOff = 1 := by
    rcases base with empty | one
    · omega
    · exact one
  refine ⟨_, found, by omega, by omega, ?_, ?_⟩
  · rw [getLocalPtr, found', Option.map_some]
  · intro other another more second different equal
    rw [getRemoteOffset_eq second fits, Option.some.injEq] at equal
    exact cell_ne sender second different equal.symm

/-- Two machines with one thread of one coroutine each, and the region behind the first
4096 bytes: the cells are at the offsets 1 and 2. -/
theorem not_separateMailboxes : ¬ SeparateMailboxes 2 1 1 4096 0 0 :=
  fun separate => absurd separate.sized (by decide)

end Rocc.Rtx.TwoPhaseCommit
