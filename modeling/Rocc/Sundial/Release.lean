import Rocc.Sundial.OneSided.Release
import Rocc.Sundial.Rpc.Release

/-!
# Every lock is released once

The same promise for both ways of running SUNDIAL.  `release_rpc_handler` and the
one-sided unlock write clear a lock word without looking at it, so the promise
rests on the transactions: it holds as long as `prepare` and `commit` have nothing
to release twice.
-/

namespace Rocc.Sundial

universe u v w

variable {Key : Type u} {Value : Type v} {Tid : Type w}
variable [DecidableEq Key] [DecidableEq Tid]

/-- Both ways of running transactions release every lock once in the runs in which no
renewal fails for a transaction that holds locks. -/
theorem locks_released_once (config : Config Key Tid) (value : Key → Value) :
    Rpc.ReleasesOnce config (Rpc.RenewalsSucceed config) value ∧
      OneSided.ReleasesOnce config OneSided.RenewalsSucceed value :=
  ⟨Rpc.releasesOnce config value, OneSided.releasesOnce config value⟩

/-- Transaction 0 locks record 0; transaction 1 locks record 1, is refused record 0 and
releases what it has. -/
def Rpc.refusedRun : List (Rpc.Action Nat Nat (Fin 2)) :=
  [.begin 0 0, .begin 1 0, .read 0 2, .write 0 0, .write 1 1, .write 1 0, .prepare 0,
    .renewItem 0 2, .releaseItem 1 1, .resume 0, .vote 0 true]

/-- The same with one-sided verbs. -/
def OneSided.refusedRun : List (OneSided.Action Nat Nat (Fin 2)) :=
  [.begin 0 0, .begin 1 0, .read 0 2, .readAgain 0, .write 0 0, .lockCas 0, .lockRead 0,
    .write 1 1, .lockCas 1, .lockRead 1, .write 1 0, .lockCas 1, .prepare 0,
    .renewRead 0 2, .resume 0, .renewWrite 0, .releaseVerb 1 1, .resume 0, .vote 0 true]

theorem locks_released_once_refused :
    (∃ state : Rpc.State Nat Nat (Fin 2),
      (state.events = [.acquired 0 0 1, .acquired 1 1 2, .released 1 1 2] ∧
        (state.txns 0).unlocks = [0]) ∧
      SafeRelease pairConfig.Belongs (state.books pairConfig)
        fun tid => (state.txns tid).unlocks) ∧
    ∃ state : OneSided.State Nat Nat (Fin 2),
      (state.events = [.acquired 0 0 1, .acquired 1 1 2, .released 1 1 2] ∧
        (state.txns 0).unlocks = [0]) ∧
      SafeRelease pairConfig.Belongs (state.books pairConfig)
        fun tid => (state.txns tid).unlocks := by
  have overRpc : ∃ state : Rpc.State Nat Nat (Fin 2),
      Reach (Rpc.step pairConfig) (Rpc.RenewalsSucceed pairConfig)
        (Rpc.State.initial fun _ => 5) state ∧
      state.events = [.acquired 0 0 1, .acquired 1 1 2, .released 1 1 2] ∧
        (state.txns 0).unlocks = [0] :=
    Reach.exists_of_exec Rpc.refusedRun (by decide +kernel)
  have oneSided : ∃ state : OneSided.State Nat Nat (Fin 2),
      Reach (OneSided.step pairConfig) OneSided.RenewalsSucceed
        (OneSided.State.initial fun _ => 5) state ∧
      state.events = [.acquired 0 0 1, .acquired 1 1 2, .released 1 1 2] ∧
        (state.txns 0).unlocks = [0] :=
    Reach.exists_of_exec OneSided.refusedRun (by decide +kernel)
  obtain ⟨rpcState, rpcReach, rpcObserved⟩ := overRpc
  obtain ⟨state, reach, observed⟩ := oneSided
  have once := locks_released_once pairConfig fun _ => 5
  exact ⟨⟨rpcState, rpcObserved, (once.1 rpcState rpcReach).1⟩,
    ⟨state, observed, (once.2 state reach).1⟩⟩

/-- Transaction 0 cannot renew its lease on record 1, which transaction 1 has locked, and
releases record 0; transaction 1 locks record 0 before it is released again. -/
def Rpc.secondReleaseRun : List (Rpc.Action Nat Nat (Fin 2)) :=
  [.begin 0 0, .begin 1 0, .read 0 1, .write 0 0, .write 1 1, .prepare 0, .renewItem 0 1,
    .resume 0, .releaseItem 0 0, .resume 0, .write 1 0]

/-- The same with one-sided verbs. -/
def OneSided.secondReleaseRun : List (OneSided.Action Nat Nat (Fin 2)) :=
  [.begin 0 0, .begin 1 0, .read 0 1, .readAgain 0, .write 0 0, .lockCas 0, .lockRead 0,
    .write 1 1, .lockCas 1, .lockRead 1, .prepare 0, .renewRead 0 1, .resume 0,
    .renewWrite 0, .releaseVerb 0 0, .resume 0, .write 1 0, .lockCas 1]

/-- The second release of transaction 0 clears the lock of transaction 1. -/
theorem second_release_clears_foreign_lock :
    ¬ Rpc.ReleasesOnce pairConfig anyAction (fun _ => 5) ∧
      ¬ OneSided.ReleasesOnce pairConfig anyAction (fun _ => 5) := by
  have overRpc : ∃ state : Rpc.State Nat Nat (Fin 2),
      Reachable (Rpc.step pairConfig) (Rpc.State.initial fun _ => 5) state ∧
      (state.records 0).lock = 2 ∧ (Rpc.step pairConfig state (.releaseItem 0 0)).any
        (fun after => (after.records 0).lock = 0) = true :=
    Reach.exists_of_exec Rpc.secondReleaseRun (by decide +kernel)
  have oneSided : ∃ state : OneSided.State Nat Nat (Fin 2),
      Reachable (OneSided.step pairConfig) (OneSided.State.initial fun _ => 5) state ∧
      (state.records 0).lock = 2 ∧ (OneSided.step pairConfig state (.releaseVerb 0 0)).any
        (fun after => (after.records 0).lock = 0) = true :=
    Reach.exists_of_exec OneSided.secondReleaseRun (by decide +kernel)
  have foreign : ¬ pairConfig.Belongs 0 2 := by
    intro mine
    have same : 2 = pairConfig.startTime 0 := mine
    exact absurd same (by decide)
  obtain ⟨rpcState, rpcReach, rpcLocked, rpcCleared⟩ := overRpc
  obtain ⟨state, reach, locked, cleared⟩ := oneSided
  constructor
  · exact ReleasesOnce.not_of_step (.releaseItem 0 0) rpcReach trivial rpcLocked (by decide)
      foreign rpcCleared
  · exact ReleasesOnce.not_of_step (.releaseVerb 0 0) reach trivial locked (by decide)
      foreign cleared

end Rocc.Sundial
