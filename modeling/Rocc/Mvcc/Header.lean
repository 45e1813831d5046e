import Mathlib.Data.List.FinRange
import Rocc.Base.Run
import Rocc.Base.Window
import Rocc.Rtx.Record

/-!
# Multi-version records and their handlers

An `MVCCHeader` has a lock word, a read timestamp and a write timestamp for each
of its slots; the versions lie behind it.  The handlers below are the per-item
bodies of the `MVCC` RPC handlers, each with the lemma that says everything it
can do.  A handler that would fail an assertion has no result.
-/

namespace Rocc.Mvcc

open Rtx

universe u

/-- `MVCC_VERSION_NUM`. -/
abbrev versionNum : Nat := 4

/-- A position in the version array. -/
abbrev Slot := Fin versionNum

/-- `MVCCHeader` and the versions behind it. -/
structure Header (Value : Type u) where
  lock : Nat
  rts : Nat
  wts : Slot → Nat
  data : Slot → Value

variable {Value : Type u}

/-! ## Loops over the version array -/

/-- The loop that looks for the largest eligible write timestamp: the best one so
far with its position. -/
def scanMax (wts : Slot → Nat) (eligible : Nat → Bool) :
    List Slot → Nat × Option Slot → Nat × Option Slot
  | [], best => best
  | slot :: rest, best =>
      scanMax wts eligible rest
        (if eligible (wts slot) && decide (best.1 < wts slot) then (wts slot, some slot)
          else best)

/-- The loop that looks for the smallest write timestamp. -/
def scanMin (wts : Slot → Nat) : List Slot → Nat × Option Slot → Nat × Option Slot
  | [], best => best
  | slot :: rest, best =>
      scanMin wts rest (if wts slot < best.1 then (wts slot, some slot) else best)

/-- Position and value of the largest eligible write timestamp. -/
def largest (wts : Slot → Nat) (eligible : Nat → Bool) : Nat × Option Slot :=
  scanMax wts eligible (List.finRange versionNum) (0, none)

/-- Position and value of the smallest write timestamp. -/
def smallest (wts : Slot → Nat) : Nat × Option Slot :=
  scanMin wts (List.finRange versionNum) (wordBound - 1, none)

theorem scanMax_le (wts : Slot → Nat) (eligible : Nat → Bool) (slots : List Slot)
    (best : Nat × Option Slot) :
    best.1 ≤ (scanMax wts eligible slots best).1 ∧
      ∀ slot ∈ slots, eligible (wts slot) = true →
        wts slot ≤ (scanMax wts eligible slots best).1 := by
  induction slots generalizing best with
  | nil => simp [scanMax]
  | cons slot rest ih =>
      simp only [scanMax, List.mem_cons, forall_eq_or_imp]
      have later := ih (if eligible (wts slot) && decide (best.1 < wts slot) then
        (wts slot, some slot) else best)
      split at later
      · rename_i better
        simp only [Bool.and_eq_true, decide_eq_true_eq] at better
        simp only [better, decide_true, Bool.and_self, if_true]
        exact ⟨by omega, fun _ => later.1, later.2⟩
      · rename_i worse
        simp only [Bool.and_eq_true, decide_eq_true_eq, not_and, not_lt] at worse
        refine ⟨?_, ?_, ?_⟩
        all_goals
          rw [if_neg (by simpa using worse)]
        · exact later.1
        · exact fun isEligible => (worse isEligible).trans later.1
        · exact later.2

/-- A position found by the loop carries the timestamp found. -/
def Found (wts : Slot → Nat) (eligible : Nat → Bool) (best : Nat × Option Slot) : Prop :=
  match best.2 with
  | none => best.1 = 0
  | some slot => wts slot = best.1 ∧ eligible best.1 = true ∧ 0 < best.1

theorem scanMax_found (wts : Slot → Nat) (eligible : Nat → Bool) (slots : List Slot)
    (best : Nat × Option Slot) (found : Found wts eligible best) :
    Found wts eligible (scanMax wts eligible slots best) := by
  induction slots generalizing best with
  | nil => exact found
  | cons slot rest ih =>
      apply ih
      split
      · rename_i better
        simp only [Bool.and_eq_true, decide_eq_true_eq] at better
        exact ⟨rfl, better.1, by omega⟩
      · exact found

/-- The loop finds a largest eligible timestamp if there is one. -/
theorem largest_spec (wts : Slot → Nat) (eligible : Nat → Bool) :
    Found wts eligible (largest wts eligible) ∧
      ∀ slot, eligible (wts slot) = true → wts slot ≤ (largest wts eligible).1 :=
  ⟨scanMax_found wts eligible _ _ rfl, fun slot isEligible =>
    (scanMax_le wts eligible _ _).2 slot (List.mem_finRange slot) isEligible⟩

theorem scanMin_le (wts : Slot → Nat) (slots : List Slot) (best : Nat × Option Slot) :
    (scanMin wts slots best).1 ≤ best.1 ∧
      ∀ slot ∈ slots, (scanMin wts slots best).1 ≤ wts slot := by
  induction slots generalizing best with
  | nil => simp [scanMin]
  | cons slot rest ih =>
      simp only [scanMin, List.mem_cons, forall_eq_or_imp]
      have later := ih (if wts slot < best.1 then (wts slot, some slot) else best)
      split at later
      · rename_i better
        rw [if_pos better]
        exact ⟨later.1.trans better.le, later.1, later.2⟩
      · rename_i worse
        rw [if_neg worse]
        exact ⟨later.1, later.1.trans (not_lt.mp worse), later.2⟩

theorem scanMin_found (wts : Slot → Nat) (slots : List Slot) (best : Nat × Option Slot)
    (found : ∀ slot, best.2 = some slot → wts slot = best.1) :
    ∀ slot, (scanMin wts slots best).2 = some slot →
      wts slot = (scanMin wts slots best).1 := by
  induction slots generalizing best with
  | nil => exact found
  | cons slot rest ih =>
      apply ih
      split
      · rintro other ⟨⟩
        rfl
      · exact found

/-- A position the loop finds has a smallest timestamp. -/
theorem smallest_spec {wts : Slot → Nat} {pos : Slot}
    (found : (smallest wts).2 = some pos) : ∀ slot, wts pos ≤ wts slot := by
  intro slot
  have same := scanMin_found wts (List.finRange versionNum) (wordBound - 1, none)
    (by simp) pos found
  rw [same]
  exact (scanMin_le wts _ _).2 slot (List.mem_finRange slot)

/-! ## Checks -/

/-- `check_read`: the position of the largest write timestamp below `timestamp`, unless
an earlier writer holds the lock. -/
def checkRead (header : Header Value) (timestamp : Nat) : Option Slot :=
  if header.lock ≠ 0 ∧ header.lock < timestamp then
    none
  else
    (largest header.wts fun wts => decide (wts < timestamp)).2

/-- The loop of `check_write` over the write timestamps. -/
def checkWriteLoop (wts : Slot → Nat) (timestamp : Nat) : List Slot → Nat → Nat
  | [], maxret => maxret
  | slot :: rest, maxret =>
      checkWriteLoop wts timestamp rest
        (if timestamp < wts slot ∧ maxret < wts slot then wts slot else maxret)

/-- `check_write`: the largest read or write timestamp above `timestamp`, or 0. -/
def checkWrite (header : Header Value) (timestamp : Nat) : Nat :=
  checkWriteLoop header.wts timestamp (List.finRange versionNum)
    (if timestamp < header.rts then header.rts else 0)

theorem checkWriteLoop_eq_zero {wts : Slot → Nat} {timestamp : Nat} {slots : List Slot}
    {maxret : Nat} (passed : checkWriteLoop wts timestamp slots maxret = 0) :
    maxret = 0 ∧ ∀ slot ∈ slots, wts slot ≤ timestamp := by
  induction slots generalizing maxret with
  | nil => exact ⟨passed, by simp⟩
  | cons slot rest ih =>
      obtain ⟨zero, later⟩ := ih passed
      rw [List.forall_mem_cons]
      split at zero <;> exact ⟨by omega, by omega, later⟩

/-- A check that passes bounds both kinds of timestamps. -/
theorem checkWrite_eq_zero {header : Header Value} {timestamp : Nat}
    (passed : checkWrite header timestamp = 0) :
    header.rts ≤ timestamp ∧ ∀ slot, header.wts slot ≤ timestamp := by
  obtain ⟨zero, bounded⟩ := checkWriteLoop_eq_zero passed
  refine ⟨?_, fun slot => bounded slot (List.mem_finRange slot)⟩
  split at zero <;> omega

theorem checkWriteLoop_eq_self {wts : Slot → Nat} {timestamp : Nat} {slots : List Slot}
    {maxret : Nat} (bounded : ∀ slot ∈ slots, wts slot ≤ timestamp) :
    checkWriteLoop wts timestamp slots maxret = maxret := by
  induction slots with
  | nil => rfl
  | cons slot rest ih =>
      obtain ⟨first, later⟩ := List.forall_mem_cons.mp bounded
      rw [checkWriteLoop, if_neg (by omega)]
      exact ih later

/-- The check passes exactly when no timestamp of the record is above its own. -/
theorem checkWrite_eq_zero_iff {header : Header Value} {timestamp : Nat} :
    checkWrite header timestamp = 0 ↔
      header.rts ≤ timestamp ∧ ∀ slot, header.wts slot ≤ timestamp := by
  constructor
  · exact checkWrite_eq_zero
  · rintro ⟨readBound, writeBound⟩
    rw [checkWrite, checkWriteLoop_eq_self fun slot _ => writeBound slot,
      if_neg (not_lt.mpr readBound)]

/-- A read that passes has the largest timestamp below its own. -/
theorem checkRead_eq_some {header : Header Value} {timestamp : Nat} {pos : Slot}
    (passed : checkRead header timestamp = some pos) :
    (header.lock = 0 ∨ timestamp ≤ header.lock) ∧ header.wts pos ≠ 0 ∧
      header.wts pos < timestamp ∧
      ∀ slot, header.wts slot < timestamp → header.wts slot ≤ header.wts pos := by
  simp only [checkRead] at passed
  split at passed
  · cases passed
  · rename_i unlocked
    obtain ⟨found, bounded⟩ := largest_spec header.wts fun wts => decide (wts < timestamp)
    simp only [Found, passed, decide_eq_true_eq] at found bounded
    refine ⟨by omega, by omega, by omega, ?_⟩
    intro slot below
    rw [found.1]
    exact bounded slot below

/-! ## Handlers -/

/-- `read_rpc_handler`: the position chosen, with the version there. -/
def readRpcHandler (header : Header Value) (timestamp : Nat) :
    Header Value × Option Slot :=
  match checkRead header timestamp with
  | none => (header, none)
  | some pos =>
      let marked :=
        { header with rts := if header.rts < timestamp then timestamp else header.rts }
      match checkRead marked timestamp with
      | none => (marked, none)
      | some newPos =>
          if newPos ≠ pos ∨ marked.wts newPos ≠ header.wts pos then
            (marked, none)
          else
            (marked, some pos)

/-- Answers of `lock_read_rpc_handler`. -/
inductive LockReply where
  | updateTs (time : Nat)
  | fail
  | success (pos maxpos : Slot)
  deriving DecidableEq, Repr

/-- `lock_read_rpc_handler`: the slot to overwrite and the slot of the base value. -/
def lockReadRpcHandler (header : Header Value) (timestamp : Nat) :
    Option (Header Value × LockReply) :=
  let ret := checkWrite header timestamp
  if ret ≠ 0 then
    some (header, .updateTs (ret / 2 ^ 10))
  else if timestamp < header.lock then
    some (header, .updateTs (header.lock / 2 ^ 10))
  else if header.lock ≠ 0 then
    some (header, .fail)
  else
    let locked := { header with lock := timestamp }
    if timestamp < locked.rts then
      some ({ locked with lock := 0 }, .updateTs (locked.rts / 2 ^ 10))
    else
      let newest := largest locked.wts fun _ => true
      if timestamp < newest.1 then
        some ({ locked with lock := 0 }, .updateTs (newest.1 / 2 ^ 10))
      else
        match (smallest locked.wts).2, newest.2 with
        | some pos, some maxpos => some (locked, .success pos maxpos)
        | _, _ => none

/-- `update_rpc_handler`. -/
def updateRpcHandler (header : Header Value) (timestamp : Nat) (pos : Slot)
    (value : Value) : Option (Header Value) :=
  if header.lock = timestamp then
    some { header with
      lock := 0
      wts := Function.update header.wts pos timestamp
      data := Function.update header.data pos value }
  else
    none

/-- `release_rpc_handler`. -/
def releaseRpcHandler (header : Header Value) (timestamp : Nat) :
    Option (Header Value) :=
  if header.lock = timestamp then some { header with lock := 0 } else none

/-- A read either fails and changes nothing, or succeeds and raises the read
timestamp: the second check sees what the first one saw. -/
theorem readRpcHandler_cases (header : Header Value) (timestamp : Nat) :
    readRpcHandler header timestamp = (header, none) ∨
      ∃ pos, checkRead header timestamp = some pos ∧
        readRpcHandler header timestamp =
          ({ header with rts := max header.rts timestamp }, some pos) := by
  cases first : checkRead header timestamp with
  | none =>
      left
      simp [readRpcHandler, first]
  | some pos =>
      right
      have raised : (if header.rts < timestamp then timestamp else header.rts) =
          max header.rts timestamp := by
        split <;> omega
      have second : checkRead { header with rts := max header.rts timestamp } timestamp =
          some pos := first
      refine ⟨pos, rfl, ?_⟩
      simp [readRpcHandler, first, raised, second]

/-- The second check of a read finds what the first one found. -/
theorem readRpcHandler_snd (header : Header Value) (timestamp : Nat) :
    (readRpcHandler header timestamp).2 = checkRead header timestamp := by
  cases first : checkRead header timestamp with
  | none => simp [readRpcHandler, first]
  | some pos =>
      have second : checkRead { header with
          rts := if header.rts < timestamp then timestamp else header.rts } timestamp =
            some pos := first
      simp [readRpcHandler, first, second]

/-- A lock request fails and changes nothing, or takes the free lock of a record all
of whose timestamps are at most its own. -/
theorem lockReadRpcHandler_cases {header after : Header Value} {timestamp : Nat}
    {reply : LockReply}
    (answered : lockReadRpcHandler header timestamp = some (after, reply)) :
    (after = header ∧ ∀ pos maxpos, reply ≠ .success pos maxpos) ∨
      ∃ pos maxpos, reply = .success pos maxpos ∧ header.lock = 0 ∧
        after = { header with lock := timestamp } ∧ header.rts ≤ timestamp ∧
        (∀ slot, header.wts slot ≤ timestamp) ∧
        (∀ slot, header.wts pos ≤ header.wts slot) ∧ header.wts maxpos ≠ 0 ∧
        ∀ slot, header.wts slot ≤ header.wts maxpos := by
  simp only [lockReadRpcHandler] at answered
  split at answered
  · cases answered
    exact .inl ⟨rfl, by simp⟩
  · rename_i passed
    obtain ⟨readBound, writeBound⟩ := checkWrite_eq_zero (not_not.mp passed)
    split at answered
    · cases answered
      exact .inl ⟨rfl, by simp⟩
    · split at answered
      · cases answered
        exact .inl ⟨rfl, by simp⟩
      · rename_i free
        have unlocked : header.lock = 0 := not_not.mp free
        have restored : ({ header with lock := 0 } : Header Value) = header := by
          rw [← unlocked]
        split at answered
        · cases answered
          exact .inl ⟨restored, by simp⟩
        · split at answered
          · cases answered
            exact .inl ⟨restored, by simp⟩
          · split at answered
            · rename_i pos maxpos smallestFound largestFound
              cases answered
              obtain ⟨found, bounded⟩ := largest_spec header.wts fun _ => true
              simp only [Found, largestFound, forall_const] at found bounded
              refine .inr ⟨pos, maxpos, rfl, unlocked, rfl, readBound, writeBound,
                smallest_spec smallestFound, by omega, ?_⟩
              intro slot
              rw [found.1]
              exact bounded slot
            · cases answered

/-- A granted request names the slots that the loops over the write timestamps find. -/
theorem lockReadRpcHandler_success {header after : Header Value} {timestamp : Nat}
    {pos maxpos : Slot}
    (answered : lockReadRpcHandler header timestamp = some (after, .success pos maxpos)) :
    (smallest header.wts).2 = some pos ∧
      (largest header.wts fun _ => true).2 = some maxpos := by
  simp only [lockReadRpcHandler] at answered
  repeat' split at answered
  all_goals cases answered
  exact ⟨‹_›, ‹_›⟩

theorem updateRpcHandler_eq_some {header after : Header Value} {timestamp : Nat}
    {pos : Slot} {value : Value}
    (updated : updateRpcHandler header timestamp pos value = some after) :
    header.lock = timestamp ∧ after = { header with
      lock := 0
      wts := Function.update header.wts pos timestamp
      data := Function.update header.data pos value } := by
  simp only [updateRpcHandler] at updated
  split at updated
  · rename_i owned
    exact ⟨owned, (Option.some.inj updated).symm⟩
  · cases updated

theorem releaseRpcHandler_eq_some {header after : Header Value} {timestamp : Nat}
    (released : releaseRpcHandler header timestamp = some after) :
    header.lock = timestamp ∧ after = { header with lock := 0 } := by
  simp only [releaseRpcHandler] at released
  split at released
  · rename_i owned
    exact ⟨owned, (Option.some.inj released).symm⟩
  · cases released

end Rocc.Mvcc
