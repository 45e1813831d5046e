import Rocc.Base.Run
import Rocc.Mvcc.Model

/-!
# Eviction of versions

One record under its RPC handlers.  A lock request that succeeds names the slot with
the smallest write timestamp, and the update that follows overwrites it.  `installed`
keeps every version the record ever had; no step reads it.
-/

namespace Rocc.Mvcc.Eviction

open Rtx

universe u

/-- The record, the item of the transaction that holds its lock (its timestamp and
`seq`), and all versions installed so far, the oldest first. -/
structure State (Value : Type u) where
  header : Header Value
  pending : Option (Nat × Slot)
  installed : List (Nat × Value)

variable {Value : Type u}

/-- The record as it is loaded. -/
def State.initial (value : Value) : State Value where
  header := .initial value
  pending := none
  installed := [(1, value)]

/-- Requests to the record. -/
inductive Action (Value : Type u) where
  | read (timestamp : Nat)
  | lockRead (timestamp : Nat)
  | update (value : Value)
  | release

/-- `lock_read_rpc_handler`; the client keeps the slot of a successful answer. -/
def lockRead (state : State Value) (timestamp : Nat) : Option (State Value) :=
  match lockReadRpcHandler state.header timestamp with
  | none => none
  | some (after, .success pos _) =>
      some { state with header := after, pending := some (timestamp, pos) }
  | some (after, _) => some { state with header := after }

/-- `update_rpc_handler` with the item of the lock holder. -/
def update (state : State Value) (value : Value) : Option (State Value) :=
  match state.pending with
  | none => none
  | some (timestamp, pos) =>
      (updateRpcHandler state.header timestamp pos value).map fun after =>
        { header := after
          pending := none
          installed := state.installed ++ [(timestamp, value)] }

/-- `release_rpc_handler` with the item of the lock holder. -/
def release (state : State Value) : Option (State Value) :=
  match state.pending with
  | none => none
  | some (timestamp, _) =>
      (releaseRpcHandler state.header timestamp).map fun after =>
        { state with header := after, pending := none }

/-- The step function of the record. -/
def step (state : State Value) : Action Value → Option (State Value)
  | .read timestamp => some { state with header := (readRpcHandler state.header timestamp).1 }
  | .lockRead timestamp => lockRead state timestamp
  | .update value => update state value
  | .release => release state

/-- A lock request carries a timestamp no installed version has. -/
def Distinct (state : State Value) : Action Value → Prop
  | .lockRead timestamp => ∀ version ∈ state.installed, version.1 ≠ timestamp
  | _ => True

instance (state : State Value) (action : Action Value) : Decidable (Distinct state action) :=
  match action with
  | .read _ => inferInstanceAs (Decidable True)
  | .lockRead timestamp =>
      inferInstanceAs (Decidable (∀ version ∈ state.installed, version.1 ≠ timestamp))
  | .update _ => inferInstanceAs (Decidable True)
  | .release => inferInstanceAs (Decidable True)

/-- The item kept by the lock holder fits the record. -/
structure Holds (state : State Value) (timestamp : Nat) (pos : Slot) : Prop where
  locked : state.header.lock = timestamp
  smallest : ∀ slot, state.header.wts pos ≤ state.header.wts slot
  above : ∀ version ∈ state.installed, version.1 < timestamp
  positive : 0 < timestamp

/-- The invariant of a record. -/
structure Inv (state : State Value) : Prop where
  window : Window state.header.wts state.header.data state.installed
  holds : ∀ timestamp pos, state.pending = some (timestamp, pos) → Holds state timestamp pos

theorem Inv.initial (value : Value) : Inv (State.initial value) where
  window := by
    refine ⟨by simp [State.initial], by simp [State.initial], ?_, ?_, ?_⟩
    · intro slot nonzero
      simp only [State.initial, Header.initial] at nonzero ⊢
      split at nonzero
      · rename_i first
        simp [first]
      · exact absurd rfl nonzero
    · intro left right same nonzero
      simp only [State.initial, Header.initial] at same nonzero
      split at nonzero
      · rename_i first
        rw [if_pos first] at same
        split at same
        · rename_i second
          rw [first, second]
        · cases same
      · exact absurd rfl nonzero
    · intro version member
      left
      rw [List.mem_singleton.mp member]
      exact ⟨0, rfl⟩
  holds := by
    intro timestamp pos pending
    cases pending

/-- Reads move the read timestamp only. -/
theorem Inv.read {state : State Value} (inv : Inv state) (timestamp : Nat) :
    Inv { state with header := (readRpcHandler state.header timestamp).1 } := by
  rcases readRpcHandler_cases state.header timestamp with failed | ⟨pos, _, passed⟩
  · rw [failed]
    exact inv
  · rw [passed]
    refine ⟨inv.window, ?_⟩
    intro holder slot pending
    obtain ⟨locked, smallest, above, positive⟩ := inv.holds holder slot pending
    exact ⟨locked, smallest, above, positive⟩

/-- A lock is granted above every version the record ever had. -/
theorem Inv.lockRead {state after : State Value} {timestamp : Nat} (inv : Inv state)
    (distinct : ∀ version ∈ state.installed, version.1 ≠ timestamp)
    (stepped : lockRead state timestamp = some after) : Inv after := by
  unfold Eviction.lockRead at stepped
  split at stepped
  · cases stepped
  · rename_i header pos maxpos answered
    cases stepped
    rcases lockReadRpcHandler_cases answered with ⟨_, refused⟩ |
      ⟨_, _, reply, _, rfl, _, bounded, smallest, occupied, newest⟩
    · exact absurd rfl (refused pos maxpos)
    · cases reply
      refine ⟨inv.window, ?_⟩
      rintro _ _ ⟨⟩
      have above : ∀ version ∈ state.installed, version.1 < timestamp := by
        intro version member
        have old := inv.window.le_of_slots_le newest version member
        exact lt_of_le_of_ne (old.trans (bounded maxpos)) (distinct version member)
      have positive : 0 < timestamp :=
        Nat.zero_lt_of_lt (above _ (inv.window.stored maxpos occupied))
      exact ⟨rfl, smallest, above, positive⟩
  · rename_i header reply failed answered
    cases stepped
    rcases lockReadRpcHandler_cases answered with ⟨rfl, _⟩ | ⟨pos, maxpos, rfl, _⟩
    · exact inv
    · exact absurd rfl (failed pos maxpos)

/-- The update overwrites the oldest version kept. -/
theorem Inv.update {state after : State Value} {value : Value} (inv : Inv state)
    (stepped : update state value = some after) : Inv after := by
  unfold Eviction.update at stepped
  split at stepped
  · cases stepped
  · rename_i timestamp pos pending
    obtain ⟨header, updated, rfl⟩ := Option.map_eq_some_iff.mp stepped
    obtain ⟨_, rfl⟩ := updateRpcHandler_eq_some updated
    obtain ⟨_, smallest, above, positive⟩ := inv.holds timestamp pos pending
    refine ⟨inv.window.install smallest above positive, ?_⟩
    rintro _ _ ⟨⟩

theorem Inv.release {state after : State Value} (inv : Inv state)
    (stepped : release state = some after) : Inv after := by
  unfold Eviction.release at stepped
  split at stepped
  · cases stepped
  · obtain ⟨header, released, rfl⟩ := Option.map_eq_some_iff.mp stepped
    obtain ⟨_, rfl⟩ := releaseRpcHandler_eq_some released
    refine ⟨inv.window, ?_⟩
    rintro _ _ ⟨⟩

/-- One step keeps the invariant. -/
theorem Inv.step {state after : State Value} {action : Action Value} (inv : Inv state)
    (distinct : Distinct state action) (stepped : step state action = some after) :
    Inv after := by
  cases action with
  | read timestamp =>
      cases stepped
      exact inv.read timestamp
  | lockRead timestamp => exact inv.lockRead distinct stepped
  | update value => exact inv.update stepped
  | release => exact inv.release stepped

/-- The invariant holds along every run. -/
theorem Inv.reach {value : Value} {state : State Value}
    (reach : Reach Eviction.step Distinct (State.initial value) state) : Inv state :=
  reach.invariant Inv (Inv.initial value) fun _ _ _ inv distinct stepped =>
    inv.step distinct stepped

/-- `check_read` fails or selects the newest version below its timestamp. -/
theorem Inv.checkRead {state : State Value} (inv : Inv state) (timestamp : Nat) :
    checkRead state.header timestamp = none ∨
      ∃ pos, checkRead state.header timestamp = some pos ∧
        Selected state.installed timestamp (state.header.wts pos) (state.header.data pos) := by
  cases checked : Mvcc.checkRead state.header timestamp with
  | none => exact .inl rfl
  | some pos =>
      obtain ⟨_, nonzero, below, newest⟩ := checkRead_eq_some checked
      exact .inr ⟨pos, rfl, inv.window.selected nonzero below newest⟩

/-- The header keeps the newest versions in distinct slots, as many as it has slots, and a
read never gets an older version than it must. -/
theorem eviction_never_exposes_stale {value : Value} {state : State Value}
    (reach : Reach Eviction.step Distinct (State.initial value) state) :
    (∀ left right, state.header.wts left = state.header.wts right →
      state.header.wts left ≠ 0 → left = right) ∧
    Largest (kept state.header.wts) (timestamps state.installed)
      (min versionNum state.installed.length) ∧
    ∀ timestamp, Mvcc.checkRead state.header timestamp = none ∨
      ∃ pos, Mvcc.checkRead state.header timestamp = some pos ∧
        Selected state.installed timestamp (state.header.wts pos)
          (state.header.data pos) := by
  have inv := Inv.reach reach
  refine ⟨inv.window.injective, ?_, inv.checkRead⟩
  simpa using inv.window.largest

/-- Five versions installed, one after a failed request and a read: the first one is
evicted and the others are kept. -/
theorem eviction_never_exposes_stale_five :
    ∃ state : State Nat, Reach Eviction.step Distinct (State.initial 0) state ∧
      (state.installed = [(1, 0), (10, 5), (20, 6), (30, 7), (40, 8)] ∧
        Mvcc.checkRead state.header 35 = some 3 ∧ Mvcc.checkRead state.header 5 = none) ∧
      ∀ left right, state.header.wts left = state.header.wts right →
        state.header.wts left ≠ 0 → left = right := by
  have run : ∃ state : State Nat, Reach Eviction.step Distinct (State.initial 0) state ∧
      (state.installed = [(1, 0), (10, 5), (20, 6), (30, 7), (40, 8)] ∧
        Mvcc.checkRead state.header 35 = some 3 ∧ Mvcc.checkRead state.header 5 = none) :=
    Reach.exists_of_exec [.lockRead 10, .update 5, .lockRead 20, .lockRead 25, .update 6,
      .read 28, .lockRead 27, .lockRead 30, .update 7, .lockRead 35, .release, .lockRead 40,
      .update 8] (by decide +kernel)
  obtain ⟨state, reach, shape⟩ := run
  exact ⟨state, reach, shape, (eviction_never_exposes_stale reach).1⟩

end Rocc.Mvcc.Eviction
