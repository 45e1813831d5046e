import Rocc.Base.Memory
import Rocc.Base.Run
import Rocc.Mvcc.OneSided.Commit

/-!
# Timestamp catch-up

A coroutine takes the timestamp of each transaction from its counter `cnt_timer`.  A
lock attempt that meets a larger timestamp in the header moves the counter up to that
timestamp, so that the next transaction starts above it.  The headers an attempt meets are
arbitrary: other coroutines write them.  A failed attempt ends the transaction.

`try_lock_read_rdma` keeps the result of `check_write` in an `int`, so a timestamp of
more than 31 bits is cut and may become negative before it is shifted into the counter.
-/

namespace Rocc.Mvcc.CatchUp

open Rtx OneSided

universe u

/-- `response_node_`, `worker_id_` and `cor_id_` of a coroutine. -/
structure Config where
  responseNode : Nat
  worker : Nat
  cor : Nat

/-- What a start time adds to the shifted counter. -/
def Config.offset (config : Config) : Nat :=
  config.responseNode * 80 + config.worker * 10 + config.cor + 1

/-- `cnt_timer` and `txn_start_time`, with the histories: all start times, the timestamp the
last failed attempt reported, and every such timestamp with the start time that followed
it.  `running` is set from `begin` to a failed attempt. -/
structure State where
  cntTimer : Nat
  txnStartTime : Nat
  running : Bool
  starts : List Nat
  reported : Option Nat
  followed : List (Nat × Nat)
  deriving DecidableEq, Repr

def State.initial : State where
  cntTimer := 0
  txnStartTime := 0
  running := false
  starts := []
  reported := none
  followed := []

/-- Steps of a coroutine; an attempt comes with the headers it meets. -/
inductive Action (Value : Type u) where
  | begin
  | lockRpc (remote : Bool) (header : Header Value)
  | lockRdma (first second : Header Value)

variable {Value : Type u}

/-! ## Attempts -/

/-- The timestamp that the checks behind `check_write` report: on the lock word, and with
the lock taken on the read and write timestamps. -/
def lockReport (header : Header Value) (timestamp : Nat) : Option Nat :=
  if timestamp < header.lock then
    some header.lock
  else if header.lock ≠ 0 then
    none
  else if timestamp < header.rts then
    some header.rts
  else
    let newest := largest header.wts fun _ => true
    if timestamp < newest.1 then some newest.1 else none

/-- The timestamp a request to the server reports. -/
def rpcReport (header : Header Value) (timestamp : Nat) : Option Nat :=
  if checkWrite header timestamp ≠ 0 then
    some (checkWrite header timestamp)
  else
    lockReport header timestamp

/-- An unsigned word stored in an `int`. -/
def toInt (word : Nat) : Int :=
  if word % 2 ^ 32 < 2 ^ 31 then (word % 2 ^ 32 : Nat) else (word % 2 ^ 32 : Nat) - 2 ^ 32

/-- `cnt_timer = ret >> 10` for an `int`. -/
def shiftInt (ret : Int) : Nat :=
  (ret / 2 ^ 10 % 2 ^ 64).toNat

/-- `begin`. -/
def begin (config : Config) (state : State) : State :=
  let cntTimer := (state.cntTimer + 1) % wordBound
  let start := (cntTimer * 2 ^ 10 + config.offset) % wordBound
  { cntTimer
    txnStartTime := start
    running := true
    starts := state.starts ++ [start]
    reported := none
    followed := state.followed ++ (state.reported.map (·, start)).toList }

/-- The attempt has failed and moved the counter. -/
def State.report (state : State) (cntTimer : Nat) (time : Nat) : State :=
  { state with cntTimer, running := false, reported := some time }

/-- `try_lock_read_rpc`.  For a remote record the shifted timestamp comes as the bytes of a
reply, for a local one the same checks set the counter. -/
def lockRpc (state : State) (remote : Bool) (header : Header Value) : Option State :=
  match lockReadRpcHandler header state.txnStartTime with
  | none => none
  | some (_, .success _ _) => some state
  | some (_, .fail) => some { state with running := false }
  | some (_, .updateTs time) =>
      (rpcReport header state.txnStartTime).map
        (state.report (if remote then Memory.ofBytes (Memory.toBytes 8 time) else time))

/-- `try_lock_read_rdma`: the header read first, then the one the compare-and-swap and the
read behind it return. -/
def lockRdma (state : State) (first second : Header Value) : State :=
  if RefusedByHeader first state.txnStartTime then
    let ret := checkWrite first state.txnStartTime
    state.report (shiftInt (toInt ret)) ret
  else
    match lockReport second state.txnStartTime with
    | some time => state.report (time / 2 ^ 10) time
    | none => { state with running := second.lock = 0 }

/-- The step function of a coroutine. -/
def step (config : Config) (state : State) : Action Value → Option State
  | .begin => some (begin config state)
  | .lockRpc remote header => if state.running then lockRpc state remote header else none
  | .lockRdma first second => if state.running then some (lockRdma state first second) else none

/-! ## Conditions -/

/-- Lock word and timestamps are 64-bit words. -/
structure Words (header : Header Value) : Prop where
  lock : header.lock < wordBound
  rts : header.rts < wordBound
  wts : ∀ slot, header.wts slot < wordBound

instance (header : Header Value) : Decidable (Words header) :=
  decidable_of_iff (header.lock < wordBound ∧ header.rts < wordBound ∧
      ∀ slot, header.wts slot < wordBound)
    ⟨fun ⟨lock, rts, wts⟩ => ⟨lock, rts, wts⟩, fun words => ⟨words.lock, words.rts, words.wts⟩⟩

/-- Headers hold 64-bit words, no start time overflows, and where `check_write` refuses a
one-sided attempt its result is below 2^31. -/
def Narrow (config : Config) (state : State) : Action Value → Prop
  | .begin => (state.cntTimer + 1) * 2 ^ 10 + config.offset < wordBound
  | .lockRpc _ header => Words header
  | .lockRdma first second => Words first ∧ Words second ∧
      (RefusedByHeader first state.txnStartTime → checkWrite first state.txnStartTime < 2 ^ 31)

instance (config : Config) (state : State) (action : Action Value) :
    Decidable (Narrow config state action) :=
  match action with
  | .begin => inferInstanceAs (Decidable (_ < _))
  | .lockRpc _ header => inferInstanceAs (Decidable (Words header))
  | .lockRdma first second => inferInstanceAs (Decidable (Words first ∧ Words second ∧
      (RefusedByHeader first state.txnStartTime →
        checkWrite first state.txnStartTime < 2 ^ 31)))

/-! ## Reports -/

theorem checkWriteLoop_mem (wts : Slot → Nat) (timestamp : Nat) (slots : List Slot)
    (maxret : Nat) :
    checkWriteLoop wts timestamp slots maxret = maxret ∨
      ∃ slot, checkWriteLoop wts timestamp slots maxret = wts slot ∧ timestamp < wts slot := by
  induction slots generalizing maxret with
  | nil => exact .inl rfl
  | cons slot rest ih =>
      rw [checkWriteLoop]
      split
      · rename_i larger
        rcases ih (wts slot) with same | found
        · exact .inr ⟨slot, same, larger.1⟩
        · exact .inr found
      · exact ih maxret

/-- `check_write` reports one of the words of the header, above the timestamp checked. -/
theorem checkWrite_spec {header : Header Value} {timestamp : Nat} (words : Words header)
    (refused : checkWrite header timestamp ≠ 0) :
    timestamp < checkWrite header timestamp ∧ checkWrite header timestamp < wordBound := by
  unfold checkWrite at refused ⊢
  rcases checkWriteLoop_mem header.wts timestamp (List.finRange versionNum)
    (if timestamp < header.rts then header.rts else 0) with same | ⟨slot, same, above⟩
  · rw [same] at refused ⊢
    split at refused
    · rename_i above
      rw [if_pos above]
      exact ⟨above, words.rts⟩
    · exact absurd rfl refused
  · rw [same]
    exact ⟨above, words.wts slot⟩

theorem largest_lt {wts : Slot → Nat} (words : ∀ slot, wts slot < wordBound) :
    (largest wts fun _ => true).1 < wordBound := by
  obtain ⟨found, _⟩ := largest_spec wts fun _ => true
  unfold Found at found
  split at found
  · rw [found]
    decide
  · rename_i slot _
    rw [← found.1]
    exact words slot

theorem lockReport_spec {header : Header Value} {timestamp time : Nat} (words : Words header)
    (reported : lockReport header timestamp = some time) :
    timestamp < time ∧ time < wordBound := by
  simp only [lockReport] at reported
  split at reported
  · cases reported
    exact ⟨‹_›, words.lock⟩
  · split at reported
    · cases reported
    · split at reported
      · cases reported
        exact ⟨‹_›, words.rts⟩
      · split at reported
        · cases reported
          exact ⟨‹_›, largest_lt words.wts⟩
        · cases reported

theorem rpcReport_spec {header : Header Value} {timestamp time : Nat} (words : Words header)
    (reported : rpcReport header timestamp = some time) :
    timestamp < time ∧ time < wordBound := by
  unfold rpcReport at reported
  split at reported
  · rename_i refused
    cases reported
    exact checkWrite_spec words refused
  · exact lockReport_spec words reported

/-- The handler sends the shifted report. -/
theorem lockReadRpcHandler_updateTs {header after : Header Value} {timestamp sent : Nat}
    (answered : lockReadRpcHandler header timestamp = some (after, .updateTs sent)) :
    ∃ time, rpcReport header timestamp = some time ∧ sent = time / 2 ^ 10 := by
  simp only [lockReadRpcHandler] at answered
  simp only [rpcReport, lockReport]
  split at answered
  · rename_i refused
    cases answered
    exact ⟨_, if_pos refused, rfl⟩
  · rename_i passed
    rw [if_neg passed]
    split at answered
    · rename_i later
      cases answered
      exact ⟨_, if_pos later, rfl⟩
    · rename_i earlier
      rw [if_neg earlier]
      split at answered
      · cases answered
      · rename_i free
        rw [if_neg free]
        split at answered
        · rename_i late
          cases answered
          exact ⟨_, if_pos late, rfl⟩
        · rename_i onTime
          rw [if_neg onTime]
          split at answered
          · rename_i late
            cases answered
            exact ⟨_, if_pos late, rfl⟩
          · split at answered <;> cases answered

/-- Below 2^31 an `int` keeps the value. -/
theorem shiftInt_toInt {word : Nat} (narrow : word < 2 ^ 31) :
    shiftInt (toInt word) = word / 2 ^ 10 := by
  have low : word % 2 ^ 32 = word := Nat.mod_eq_of_lt (by omega)
  have small : (word : Int) / 2 ^ 10 % 2 ^ 64 = (word / 2 ^ 10 : Nat) := by omega
  rw [toInt, low, if_pos narrow, shiftInt, small, Int.toNat_natCast]

/-! ## The invariant -/

/-- The next start time lies above every earlier one and above what was reported. -/
structure Inv (config : Config) (state : State) : Prop where
  growing : state.starts.Pairwise (· < ·)
  below : ∀ start ∈ state.starts, start < (state.cntTimer + 1) * 2 ^ 10 + config.offset
  followed : ∀ pair ∈ state.followed, pair.1 < pair.2
  reported : ∀ time, state.reported = some time →
    time < (state.cntTimer + 1) * 2 ^ 10 + config.offset
  current : state.running = true →
    state.txnStartTime = state.cntTimer * 2 ^ 10 + config.offset ∧ state.reported = none

variable {config : Config}

theorem Inv.initial : Inv config State.initial where
  growing := .nil
  below := by simp [State.initial]
  followed := by simp [State.initial]
  reported := by simp [State.initial]
  current := by simp [State.initial]

/-- A transaction starts above everything the invariant speaks of. -/
theorem Inv.begin {state : State} (inv : Inv config state)
    (fits : (state.cntTimer + 1) * 2 ^ 10 + config.offset < wordBound) :
    Inv config (begin config state) := by
  have small : state.cntTimer + 1 < wordBound := by
    unfold wordBound at fits ⊢
    omega
  have counter : (state.cntTimer + 1) % wordBound = state.cntTimer + 1 := Nat.mod_eq_of_lt small
  have start : ((state.cntTimer + 1) * 2 ^ 10 + config.offset) % wordBound =
      (state.cntTimer + 1) * 2 ^ 10 + config.offset := Nat.mod_eq_of_lt fits
  simp only [CatchUp.begin, counter, start]
  constructor
  case growing =>
      rw [List.pairwise_append]
      refine ⟨inv.growing, by simp, ?_⟩
      intro earlier member later last
      rw [List.mem_singleton.mp last]
      exact inv.below earlier member
  case below =>
      intro earlier member
      dsimp only
      rcases List.mem_append.mp member with member | member
      · exact (inv.below earlier member).trans_le (by gcongr; omega)
      · rw [List.mem_singleton.mp member]
        omega
  case followed =>
      intro pair member
      rcases List.mem_append.mp member with member | member
      · exact inv.followed pair member
      · simp only [Option.mem_toList, Option.map_eq_some_iff] at member
        obtain ⟨time, reported, rfl⟩ := member
        exact inv.reported time reported
  case reported =>
      intro time reported
      cases reported
  case current =>
      intro _
      exact ⟨rfl, rfl⟩

/-- A report above the current start time moves the counter up. -/
theorem Inv.report {state : State} (inv : Inv config state) (running : state.running = true)
    {time : Nat} (above : state.txnStartTime < time) :
    Inv config (state.report (time / 2 ^ 10) time) := by
  obtain ⟨start, _⟩ := inv.current running
  have grown : state.cntTimer ≤ time / 2 ^ 10 := by omega
  constructor
  case growing => exact inv.growing
  case below =>
      intro earlier member
      refine (inv.below earlier member).trans_le ?_
      dsimp only [State.report]
      gcongr
  case followed => exact inv.followed
  case reported =>
      rintro _ ⟨⟩
      dsimp only [State.report]
      omega
  case current =>
      intro stopped
      cases stopped

/-- The end of a transaction changes nothing. -/
theorem Inv.stop {state : State} (inv : Inv config state) (running : Bool)
    (kept : running = true → state.running = true) :
    Inv config { state with running } :=
  ⟨inv.growing, inv.below, inv.followed, inv.reported, fun still => inv.current (kept still)⟩

theorem Inv.lockRpc {state after : State} {remote : Bool} {header : Header Value}
    (inv : Inv config state) (running : state.running = true) (words : Words header)
    (stepped : lockRpc state remote header = some after) : Inv config after := by
  unfold CatchUp.lockRpc at stepped
  split at stepped
  · cases stepped
  · cases stepped
    exact inv
  · cases stepped
    exact inv.stop false (by simp)
  · rename_i sent answered
    obtain ⟨time, reported, rfl⟩ := lockReadRpcHandler_updateTs answered
    obtain ⟨above, bounded⟩ := rpcReport_spec words reported
    -- The eight bytes of the reply hold the shifted timestamp.
    have decoded : (if remote = true then Memory.ofBytes (Memory.toBytes 8 (time / 2 ^ 10))
        else time / 2 ^ 10) = time / 2 ^ 10 := by
      split
      · rw [Memory.ofBytes_toBytes]
        apply Nat.mod_eq_of_lt
        unfold wordBound at bounded
        omega
      · rfl
    rw [reported, decoded, Option.map_some, Option.some.injEq] at stepped
    rw [← stepped]
    exact inv.report running above

theorem Inv.lockRdma {state : State} {first second : Header Value} (inv : Inv config state)
    (running : state.running = true) (wordsFirst : Words first) (wordsSecond : Words second)
    (narrow : RefusedByHeader first state.txnStartTime →
      checkWrite first state.txnStartTime < 2 ^ 31) :
    Inv config (lockRdma state first second) := by
  unfold CatchUp.lockRdma
  split
  · rename_i refused
    have nonzero : checkWrite first state.txnStartTime ≠ 0 := by
      intro zero
      rw [RefusedByHeader, zero] at refused
      exact refused rfl
    simp only [shiftInt_toInt (narrow refused)]
    exact inv.report running (checkWrite_spec wordsFirst nonzero).1
  · split
    · rename_i time reported
      exact inv.report running (lockReport_spec wordsSecond reported).1
    · exact inv.stop _ fun _ => running

/-- One step keeps the invariant. -/
theorem Inv.step {state after : State} {action : Action Value} (inv : Inv config state)
    (narrow : Narrow config state action) (stepped : step config state action = some after) :
    Inv config after := by
  cases action with
  | begin =>
      cases stepped
      exact inv.begin narrow
  | lockRpc remote header =>
      simp only [CatchUp.step] at stepped
      split at stepped
      · exact inv.lockRpc ‹_› narrow stepped
      · cases stepped
  | lockRdma first second =>
      simp only [CatchUp.step] at stepped
      split at stepped
      · cases stepped
        exact inv.lockRdma ‹_› narrow.1 narrow.2.1 narrow.2.2
      · cases stepped

/-- Start times grow, and each is above the timestamp that the attempt before it reported. -/
theorem start_times_catch_up {state : State}
    (reach : Reach (CatchUp.step config : State → Action Value → Option State)
      (Narrow config) State.initial state) :
    state.starts.Pairwise (· < ·) ∧ ∀ pair ∈ state.followed, pair.1 < pair.2 := by
  have inv := reach.invariant (Inv config) Inv.initial fun _ _ _ inv narrow stepped =>
    inv.step narrow stepped
  exact ⟨inv.growing, inv.followed⟩

/-- A header with the given words. -/
def header (lock rts wts : Nat) : Header Unit where
  lock
  rts
  wts slot := if slot = 0 then wts else 0
  data _ := ()

/-- Three failed attempts, each followed by a start time above what it reported. -/
theorem start_times_catch_up_three :
    ∃ state : State,
      Reach (CatchUp.step ⟨1, 0, 0⟩ : State → Action Unit → Option State)
        (Narrow ⟨1, 0, 0⟩) State.initial state ∧
      (state.starts = [1105, 5201, 3000401, 2147483729] ∧
        state.followed = [(4100, 5201), (3000000, 3000401), (2147483000, 2147483729)]) ∧
      state.starts.Pairwise (· < ·) := by
  have run : ∃ state : State,
      Reach (CatchUp.step ⟨1, 0, 0⟩ : State → Action Unit → Option State)
        (Narrow ⟨1, 0, 0⟩) State.initial state ∧
      (state.starts = [1105, 5201, 3000401, 2147483729] ∧
        state.followed = [(4100, 5201), (3000000, 3000401), (2147483000, 2147483729)]) :=
    Reach.exists_of_exec [.begin, .lockRpc true (header 4100 1 1), .begin,
      .lockRpc false (header 0 7 3000000), .begin,
      .lockRdma (header 0 2147483000 5) (header 0 0 0), .begin] (by decide +kernel)
  obtain ⟨state, reach, shape⟩ := run
  exact ⟨state, reach, shape, (start_times_catch_up reach).1⟩

/-- A read timestamp of 33 bits moves the counter back: the next transaction starts with the
same timestamp again, far below the one reported. -/
theorem start_time_falls_behind :
    ∃ state : State,
      Reachable (CatchUp.step ⟨1, 0, 0⟩ : State → Action Unit → Option State)
        State.initial state ∧
      state.starts = [1105, 1105] ∧ state.followed = [(2 ^ 32 + 5, 1105)] ∧
      ¬ (state.starts.Pairwise (· < ·) ∧ ∀ pair ∈ state.followed, pair.1 < pair.2) := by
  have run : ∃ state : State,
      Reachable (CatchUp.step ⟨1, 0, 0⟩ : State → Action Unit → Option State)
        State.initial state ∧
      (state.starts = [1105, 1105] ∧ state.followed = [(2 ^ 32 + 5, 1105)]) :=
    Reach.exists_of_exec [.begin, .lockRdma (header 0 (2 ^ 32 + 5) 1) (header 0 0 1), .begin]
      (by decide +kernel)
  obtain ⟨state, reach, starts, followed⟩ := run
  refine ⟨state, reach, starts, followed, ?_⟩
  rw [starts, followed]
  decide

end Rocc.Mvcc.CatchUp
