import Rocc.Locking.Invariant
import Rocc.Rtx.StartTime

/-!
# Lock words and ages

`WAITDIE` lets the older of two transactions wait and compares lock words to find out which
one that is: in `lock_rpc_handler` when a request arrives, in `check_to_notify` while it
waits.  A lock word is the start time shifted by nine more bits, so of a start time only the
low 55 bits reach it, and of the microsecond clock in a start time only the low 45.
-/

namespace Rocc.Locking

open Rtx Rtx.StartTime

/-- Number of start times that `R_LEASE` tells apart. -/
def leaseWindow : Nat := 2 ^ 55

/-- `R_LEASE` keeps the low bits of a start time. -/
theorem rLease_eq (time : Nat) : rLease time = time % leaseWindow * 2 ^ 9 := by
  simp only [rLease, wordBound, leaseWindow]
  omega

/-- The lock words of two transactions say which of the two is older, and so do the tests of
the server on them. -/
structure AgeOrder (older younger : Nat) : Prop where
  positive : 0 < LockType.read.word older
  ownWords : LockType.read.word older < LockType.write.word older
  ordered : LockType.write.word older < LockType.read.word younger
  olderWaits : ∀ (record : Record Bytes) (held type : LockType) (len : Nat),
    record.lock = held.word younger →
      Waitdie.lockRpcHandler record type older len = (record, none) ∧
      checkToNotifyItem record type older = (record, none)
  youngerDies : ∀ (record : Record Bytes) (held type : LockType) (len : Nat),
    record.lock = held.word older →
      Waitdie.lockRpcHandler record type younger len = (record, some [lockFailMagic]) ∧
      checkToNotifyItem record type younger = (record, some [lockFailMagic])

/-- The words of both kinds of lock lie close together. -/
theorem LockType.word_bounds (type : LockType) (time : Nat) :
    rLease time ≤ type.word time ∧ type.word time ≤ rLease time + 1 := by
  cases type <;> simp [LockType.word]

/-- The tests follow from the order of the words. -/
theorem AgeOrder.of_words {older younger : Nat} (positive : 0 < rLease older)
    (ordered : rLease older + 1 < rLease younger) : AgeOrder older younger where
  positive := positive
  ownWords := Nat.lt_succ_self _
  ordered := ordered
  olderWaits := by
    intro record held type len locked
    obtain ⟨above, -⟩ := held.word_bounds younger
    obtain ⟨-, below⟩ := type.word_bounds older
    have taken : record.lock ≠ 0 := by omega
    constructor
    · have waits : rLease older < record.lock := by omega
      simp [Waitdie.lockRpcHandler, lockRpcHandler, taken, waits]
    · have waits : type.word older < record.lock := by omega
      simp [checkToNotifyItem, taken, waits]
  youngerDies := by
    intro record held type len locked
    obtain ⟨heldAbove, heldBelow⟩ := held.word_bounds older
    obtain ⟨above, -⟩ := type.word_bounds younger
    have taken : record.lock ≠ 0 := by omega
    constructor
    · have dies : ¬ rLease younger < record.lock := by omega
      simp [Waitdie.lockRpcHandler, lockRpcHandler, taken, dies]
    · have dies : ¬ type.word younger < record.lock := by omega
      simp [checkToNotifyItem, taken, dies]

/-- Lock words order two start times exactly when the bits they keep do. -/
theorem ageOrder_iff_low {older younger : Nat} :
    AgeOrder older younger ↔
      0 < older % leaseWindow ∧ older % leaseWindow < younger % leaseWindow := by
  constructor
  · intro ages
    have positive := ages.positive
    have ordered := ages.ordered
    simp only [LockType.word, rLease_eq] at positive ordered
    omega
  · rintro ⟨positive, ordered⟩
    apply AgeOrder.of_words
    · rw [rLease_eq]
      omega
    · rw [rLease_eq, rLease_eq]
      omega

/-! ## Start times of `WAITDIE::begin` -/

variable {cluster : Cluster}

/-- The constants of `WAITDIE::begin`. -/
def Waitdie.encoding : Encoding := StartTime.Protocol.waitdie.encoding

/-- `WAITDIE::begin`. -/
def Waitdie.begin (identity : Identity cluster) (clock : Nat) : Nat :=
  Waitdie.encoding.begin identity clock

/-- Clock reading and identity of a start time, as far as a lock word keeps them. -/
def keptTime (identity : Identity cluster) (clock : Nat) : Nat :=
  (clock * 2 ^ 10 + Waitdie.encoding.part identity) % leaseWindow

theorem begin_mod_leaseWindow (identity : Identity cluster) (clock : Nat) :
    Waitdie.begin identity clock % leaseWindow = keptTime identity clock := by
  have divides : leaseWindow ∣ wordBound := Nat.pow_dvd_pow 2 (by omega)
  rw [Waitdie.begin, Encoding.begin, Nat.mod_mod_of_dvd _ divides, keptTime]
  rfl

/-- Of two start times the lock words keep the order exactly when the clock readings and the
identities keep it modulo the window of a lock word. -/
theorem waitdie_ages_iff (older younger : Identity cluster) (clock otherClock : Nat) :
    AgeOrder (Waitdie.begin older clock) (Waitdie.begin younger otherClock) ↔
      0 < keptTime older clock ∧ keptTime older clock < keptTime younger otherClock := by
  rw [ageOrder_iff_low, begin_mod_leaseWindow, begin_mod_leaseWindow]

/-- That is so as long as the clock does not cross a multiple of 2^45 microseconds. -/
theorem ageOrder_of_sameWindow (fits : Waitdie.encoding.Covers cluster)
    (older younger : Identity cluster) {clock otherClock : Nat}
    (sameWindow : clock / 2 ^ 45 = otherClock / 2 ^ 45) (bounded : otherClock < 2 ^ 54)
    (before : Waitdie.begin older clock < Waitdie.begin younger otherClock) :
    AgeOrder (Waitdie.begin older clock) (Waitdie.begin younger otherClock) := by
  have olderFits := (Waitdie.encoding.part_le_last older).trans_lt fits.last
  have youngerFits := (Waitdie.encoding.part_le_last younger).trans_lt fits.last
  have positive : 0 < Waitdie.encoding.part older := Nat.succ_pos _
  rw [ageOrder_iff_low, begin_mod_leaseWindow, begin_mod_leaseWindow]
  simp only [Waitdie.begin, Encoding.begin, keptTime, Waitdie.encoding,
    StartTime.Protocol.encoding, wordBound, leaseWindow] at *
  omega

/-- Two nodes with one worker and one coroutine each. -/
def twoNodes : Cluster where
  nodes := 2
  workers := 1
  coroutines := 1
  nodes_pos := Nat.two_pos
  workers_pos := Nat.one_pos
  coroutines_pos := Nat.one_pos

/-- The only transaction coroutine of the first node. -/
def twoNodes.first : Identity twoNodes := ⟨0, 0, 1, Nat.two_pos, Nat.one_pos,
  Nat.one_pos, Nat.le_refl 1⟩

/-- The last microsecond of a window and the first of the next: the older transaction has the
larger lock word. -/
theorem not_waitdie_ages : ¬ ∀ (cluster : Cluster) (older younger : Identity cluster)
    (clock otherClock : Nat),
    Waitdie.begin older clock < Waitdie.begin younger otherClock →
      AgeOrder (Waitdie.begin older clock) (Waitdie.begin younger otherClock) := by
  intro ages
  have reversed := (ages twoNodes twoNodes.first twoNodes.first (50 * 2 ^ 45 - 1) (50 * 2 ^ 45)
    (by decide)).ordered
  exact absurd reversed (by decide)

end Rocc.Locking
