import Rocc.Occ.Hybrid.Steps

/-!
# Aborts of a hybrid commit

A `commit` that returns false leaves no trace in the records, as long as no compare-and-swap
is in flight when a local lock fails and a one-sided release trusts no lock word of 0 that
was in a buffer before.  Locking by RPC notes only the locks that were granted, so with a
one-sided release the buffers of the others decide whether somebody else is unlocked.
-/

set_option linter.unusedSectionVars false

namespace Rocc.Occ.Hybrid

open Rtx

universe u v w

variable {Key : Type u} {Value : Type v} {Tid : Type w}
variable [DecidableEq Key] [DecidableEq Tid]
variable {config : Config Key Tid} {state before after : State Key Value Tid} {tid : Tid}

/-- The lock words of a transaction. -/
def Config.Belongs (config : Config Key Tid) (tid : Tid) (word : Nat) : Prop :=
  word = config.lockContent tid

/-- The transaction has overwritten nothing and no record carries its lock word. -/
def Traceless (config : Config Key Tid) (state : State Key Value Tid) (tid : Tid) : Prop :=
  ∀ key, (state.records key).lock ≠ config.lockContent tid ∧ (tid, key) ∉ state.stored

/-- A step leaves the locks of the others alone, and whoever overwrites a record is
noted. -/
structure Decent (config : Config Key Tid) (tid : Tid) (before after : State Key Value Tid) :
    Prop where
  locks : LockStep config.Belongs tid (fun key => (before.records key).lock)
    fun key => (after.records key).lock
  noted : ∀ key, ((after.records key).seq = (before.records key).seq ∧
    (after.records key).value = (before.records key).value) ∨ (tid, key) ∈ after.stored
  kept : ∀ entry ∈ before.stored, entry ∈ after.stored

theorem Move.decent (moved : Move config tid before after) : Decent config tid before after where
  locks key := by
    rcases moved.guarantee key with same | ⟨free | mine, -⟩
    · exact .inl same
    · exact .inr (.inl free)
    · exact .inr (.inr mine)
  noted := moved.noted
  kept := moved.kept

theorem Inv.traceless (inv : Inv config state)
    (aborted : (state.txns tid).stage = .finished false) : Traceless config state tid := by
  intro key
  constructor
  · intro locked
    have covered := (inv.own tid).covers key locked
    simp [Txn.Covers, Txn.Owns, aborted] at covered
  · intro member
    have decided := inv.stored (tid, key) member
    simp [Txn.Decided, aborted] at decided

/-- In every run whose commits meet the condition, a transaction whose `commit` has
returned false has overwritten nothing and holds no lock, and no step of anybody changes a
lock word of somebody else. -/
theorem abort_atomic (config : Config Key Tid) (seq : Key → Nat) (value : Key → Value)
    (state : State Key Value Tid)
    (reach : Reach (step config) (Guarded config) (State.initial seq value) state) :
    (∀ tid, (state.txns tid).stage = .finished false → Traceless config state tid) ∧
      ∀ action after, Guarded config state action → step config state action = some after →
        Decent config action.tid state after := by
  have inv := inv_of_reach reach
  exact ⟨fun tid aborted => inv.traceless aborted,
    fun action after guarded stepped => (move_step inv guarded stepped).decent⟩

/-- Two transactions that lock by RPC and release one-sided. -/
def rpcLockConfig : Config Nat Bool where
  pid _ := 0
  tableid _ := 0
  nodeId _ := none
  lockContent tid := tid.toNat + 1
  lockContent_ne_zero := pairWord_ne_zero
  lockContent_injective := pairWord_injective
  oneSidedRead := false
  oneSidedLock := false
  oneSidedValidate := false
  oneSidedCommit := false
  oneSidedRelease := true
  twoPhaseCommit := false

/-- One transaction has locked record 0 when the other one asks for it, is refused, and
comes to release it.  Its buffer has had `marker` where the lock word belongs. -/
def refusedRun (marker : Nat) : List (Action Nat Nat Bool) :=
  [.begin false, .write false 0 5, .commit false, .walk false, .walk false, .call false 0,
    .begin true, .write true 0 marker, .commit true, .walk true, .walk true, .call true 0,
    .resume true true, .walk true, .walk true]

theorem abort_atomic_refused :
    ∃ state : State Nat Nat Bool,
      (state.txns true).stage = .finished false ∧
        (state.records 0).lock = rpcLockConfig.lockContent false ∧
        Traceless rpcLockConfig state true := by
  have reached : ∃ state : State Nat Nat Bool,
      Reach (step rpcLockConfig) (Guarded rpcLockConfig)
          (State.initial (fun _ => 0) (fun _ => 10)) state ∧
        (state.txns true).stage = .finished false ∧
        (state.records 0).lock = rpcLockConfig.lockContent false :=
    Reach.exists_of_exec (refusedRun 7 ++ [.resume true true]) (by decide +kernel)
  obtain ⟨state, reach, aborted, locked⟩ := reached
  exact ⟨state, aborted, locked,
    (abort_atomic rpcLockConfig (fun _ => 0) (fun _ => 10) state reach).1 true aborted⟩

/-- With a buffer that happens to hold a lock word of 0 the release unlocks the record for
the other transaction, and `commit` returns false. -/
theorem abort_clears_foreign_lock :
    ∃ state : State Nat Nat Bool,
      Reachable (step rpcLockConfig) (State.initial (fun _ => 0) (fun _ => 10)) state ∧
        (state.records 0).lock = rpcLockConfig.lockContent false ∧
        (step rpcLockConfig state (.verb true 0)).any (fun after =>
          (after.records 0).lock = 0 ∧
            (step rpcLockConfig after (.resume true true)).any fun returned =>
              (returned.txns true).stage = .finished false) = true :=
  Reach.exists_of_exec (refusedRun 0) (by decide +kernel)

end Rocc.Occ.Hybrid
