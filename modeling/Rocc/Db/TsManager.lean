import Mathlib.Order.Bounds.Basic
import Rocc.Base.Run
import Rocc.Rtx.Record

/-!
# The timestamp manager

The master hands out commit timestamps from `local_ts` and is told of every commit that is
complete.  `ts_buffer[0]` is meant to be the watermark that snapshots are taken at: it
starts below the first timestamp handed out and should follow the completed commits.
Reports wait in a priority queue, whose top is the largest one.

The handler compares the top of the queue with the timestamp below the watermark
instead of the one above it.  No such timestamp is ever issued, so the watermark
stays where it was.
-/

namespace Rocc.Db.TsManager

open Rtx

/-- `local_ts` as the constructor sets it. -/
def firstTs : Nat := 3

/-- `local_ts`, `ts_buffer[0]` and `pending_ts_`, with the history of the reports. -/
structure State where
  localTs : Nat
  tsBuffer : Nat
  pendingTs : List Nat
  reported : List Nat
  deriving DecidableEq, Repr

/-- The constructor with `init_ts_meta`. -/
def State.initial : State where
  localTs := firstTs
  tsBuffer := 2
  pendingTs := []
  reported := []

/-- Requests to the master. -/
inductive Action where
  | acquire
  | update (counter : Nat)
  deriving DecidableEq, Repr

/-- The loop of `ts_update_handler` over the priority queue; no result where it reads the
top of an empty queue.  Every round takes one element out. -/
def drainLoop : Nat → List Nat → Nat → Option (List Nat × Nat)
  | 0, _, _ => none
  | fuel + 1, pendingTs, tsBuffer =>
      match pendingTs.max? with
      | none => none
      | some top =>
          if top = (tsBuffer + wordBound - 1) % wordBound then
            drainLoop fuel (pendingTs.erase top) ((tsBuffer + 1) % wordBound)
          else
            some (pendingTs, tsBuffer)

/-- What `ts_update_handler` leaves in the queue and in the buffer. -/
def tsUpdateHandler (state : State) (counter : Nat) : Option (List Nat × Nat) :=
  drainLoop (state.pendingTs.length + 2) (counter :: state.pendingTs) state.tsBuffer

/-- A timestamp that `get_commit_ts` has handed out. -/
def State.Issued (state : State) (counter : Nat) : Prop :=
  firstTs ≤ counter ∧ counter < state.localTs

instance (state : State) (counter : Nat) : Decidable (state.Issued counter) :=
  inferInstanceAs (Decidable (_ ∧ _))

/-- `get_commit_ts`, on the first pass of the counter through the 64-bit words. -/
def getCommitTs (state : State) : Option State :=
  if state.localTs + 1 < wordBound then
    some { state with localTs := state.localTs + 1 }
  else
    none

/-- Every issued timestamp is reported once. -/
def tsUpdate (state : State) (counter : Nat) : Option State :=
  if state.Issued counter ∧ counter ∉ state.reported then
    (tsUpdateHandler state counter).map fun (pendingTs, tsBuffer) =>
      { state with pendingTs, tsBuffer, reported := counter :: state.reported }
  else
    none

/-- The step function of the manager. -/
def step (state : State) : Action → Option State
  | .acquire => getCommitTs state
  | .update counter => tsUpdate state counter

/-- The buffer is the largest timestamp handed out, or the one before the first, such that
all timestamps up to it are reported. -/
def State.Exact (state : State) : Prop :=
  IsGreatest {time | time < state.localTs ∧
    ∀ counter, state.Issued counter → counter ≤ time → counter ∈ state.reported} state.tsBuffer

/-! ## What the handler does -/

/-- The invariant of the manager. -/
structure Inv (state : State) : Prop where
  tsBuffer : state.tsBuffer = 2
  localTs : firstTs ≤ state.localTs
  pendingTs : ∀ counter ∈ state.pendingTs, firstTs ≤ counter
  reported : ∀ counter ∈ state.reported, state.Issued counter

theorem Inv.initial : Inv State.initial where
  tsBuffer := rfl
  localTs := le_rfl
  pendingTs := by simp [State.initial]
  reported := by simp [State.initial]

/-- The handler looks at the top of its queue once and takes nothing out. -/
theorem Inv.tsUpdateHandler {state : State} (inv : Inv state) {counter : Nat}
    (issued : state.Issued counter) :
    tsUpdateHandler state counter = some (counter :: state.pendingTs, 2) := by
  have bounded : ∀ other ∈ counter :: state.pendingTs, firstTs ≤ other :=
    List.forall_mem_cons.mpr ⟨issued.1, inv.pendingTs⟩
  cases largest : (counter :: state.pendingTs).max? with
  | none => simp at largest
  | some top =>
      have early : firstTs ≤ top := bounded top (List.max?_mem largest)
      have different : top ≠ (2 + wordBound - 1) % wordBound := by
        change top ≠ 1
        unfold firstTs at early
        omega
      rw [TsManager.tsUpdateHandler, drainLoop, largest, inv.tsBuffer]
      exact if_neg different

/-- One step keeps the invariant. -/
theorem Inv.step {state after : State} {action : Action} (inv : Inv state)
    (stepped : step state action = some after) : Inv after := by
  cases action with
  | acquire =>
      simp only [TsManager.step, getCommitTs] at stepped
      split at stepped
      · cases stepped
        refine ⟨inv.tsBuffer, inv.localTs.trans (Nat.le_succ _), inv.pendingTs, ?_⟩
        intro counter member
        exact ⟨(inv.reported counter member).1, Nat.lt_succ_of_lt (inv.reported counter member).2⟩
      · cases stepped
  | update counter =>
      simp only [TsManager.step, tsUpdate] at stepped
      split at stepped
      · rename_i legal
        rw [inv.tsUpdateHandler legal.1] at stepped
        cases stepped
        exact ⟨rfl, inv.localTs, List.forall_mem_cons.mpr ⟨legal.1.1, inv.pendingTs⟩,
          List.forall_mem_cons.mpr ⟨legal.1, inv.reported⟩⟩
      · cases stepped

theorem Inv.reach {state : State} (reach : Reachable TsManager.step State.initial state) :
    Inv state :=
  reach.invariant Inv Inv.initial fun _ _ _ inv _ stepped => inv.step stepped

/-- A watermark that never moves is exact until the first timestamp is reported. -/
theorem Inv.exact_iff {state : State} (inv : Inv state) :
    state.Exact ↔ firstTs ∉ state.reported := by
  have start : state.tsBuffer < firstTs := by
    rw [inv.tsBuffer]
    decide
  constructor
  · intro exact first
    have issued := inv.reported firstTs first
    -- The first timestamp itself would be a larger watermark.
    have larger : firstTs ≤ state.tsBuffer := by
      apply exact.2
      refine ⟨issued.2, ?_⟩
      intro counter handedOut bounded
      rwa [le_antisymm bounded handedOut.1]
    omega
  · intro unreported
    refine ⟨⟨start.trans_le inv.localTs, ?_⟩, ?_⟩
    · intro counter issued bounded
      have first := issued.1
      omega
    · rintro time ⟨below, complete⟩
      by_contra above
      have reaches : firstTs ≤ time := by
        rw [inv.tsBuffer, not_le] at above
        exact above
      exact unreported (complete firstTs ⟨le_rfl, reaches.trans_lt below⟩ reaches)

/-! ## The watermark -/

/-- In every run the watermark is exact as long as the first timestamp is not reported, and
never afterwards; a report always finds its queue filled. -/
theorem watermark_exact_iff {state : State}
    (reach : Reachable TsManager.step State.initial state) :
    (state.Exact ↔ firstTs ∉ state.reported) ∧
      ∀ counter, state.Issued counter → tsUpdateHandler state counter ≠ none := by
  have inv := Inv.reach reach
  refine ⟨inv.exact_iff, ?_⟩
  intro counter issued
  rw [inv.tsUpdateHandler issued]
  simp

/-- Two timestamps handed out and the second one reported. -/
theorem watermark_exact_iff_second :
    ∃ state : State, Reachable TsManager.step State.initial state ∧
      (state.localTs = 5 ∧ state.reported = [4] ∧ state.tsBuffer = 2) ∧ state.Exact := by
  have run : ∃ state : State, Reachable TsManager.step State.initial state ∧
      (state.localTs = 5 ∧ state.reported = [4] ∧ state.tsBuffer = 2) :=
    Reach.exists_of_exec [.acquire, .acquire, .update 4] (by decide +kernel)
  obtain ⟨state, reach, shape⟩ := run
  refine ⟨state, reach, shape, (watermark_exact_iff reach).1.mpr ?_⟩
  rw [shape.2.1]
  decide

/-- The one timestamp handed out is reported and the watermark stays below it. -/
theorem watermark_stalls :
    ∃ state : State, Reachable TsManager.step State.initial state ∧
      (state.localTs = 4 ∧ state.reported = [3] ∧ state.tsBuffer = 2) ∧ ¬ state.Exact := by
  have run : ∃ state : State, Reachable TsManager.step State.initial state ∧
      (state.localTs = 4 ∧ state.reported = [3] ∧ state.tsBuffer = 2) :=
    Reach.exists_of_exec [.acquire, .update 3] (by decide +kernel)
  obtain ⟨state, reach, shape⟩ := run
  refine ⟨state, reach, shape, fun exact => ?_⟩
  have unreported := (Inv.reach reach).exact_iff.mp exact
  rw [shape.2.1] at unreported
  exact unreported (by decide)

end Rocc.Db.TsManager
