import Rocc.Sundial.OneSided.Steps

/-!
# Record timestamps never go backwards

In the runs without stale writes the timestamps of a record behave as clients
expect them to.  Nothing in the verbs makes a run avoid stale writes: a renewal
writes back the header it read, whatever has become of the record since.
-/

set_option linter.unusedSectionVars false

namespace Rocc.Sundial.OneSided

open Rtx

universe u v w

variable {Key : Type u} {Value : Type v} {Tid : Type w}
variable [DecidableEq Key] [DecidableEq Tid]
variable {config : Config Key Tid} {value : Key → Value} {state : State Key Value Tid}

/-- The timestamps of all records are sound: version and value are those of the last
write-back, the leases of committed readers of the current version are covered, and from
here on no write timestamp decreases. -/
structure Sound (config : Config Key Tid)
    (allowed : State Key Value Tid → Action Key Value Tid → Prop)
    (state : State Key Value Tid) : Prop where
  lastWriteBack : ∀ key, (state.history key).getLast? =
    some (wts (state.records key).seq, (state.records key).value)
  covered : ∀ tid, (state.txns tid).Decided → ∀ item ∈ (state.txns tid).readSet,
    item.wts = wts (state.records item.key).seq →
      item.rts ≤ rts (state.records item.key).seq ∧
        (state.txns tid).commitId ≤ rts (state.records item.key).seq
  forward : ∀ later, Reach (step config) allowed state later →
    ∀ key, wts (state.records key).seq ≤ wts (later.records key).seq

theorem Txn.Decided.renewed {txn : Txn Key Value} (decided : txn.Decided)
    (item : ReadSetItem Key Value) : txn.Renewed item := by
  cases at_stage : txn.stage with
  | update pending => simp [Txn.Renewed, at_stage]
  | finished committed =>
      cases committed with
      | true => simp [Txn.Renewed, at_stage]
      | false => simp [Txn.Decided, at_stage] at decided
  | _ => simp [Txn.Decided, at_stage] at decided

theorem inv_of_reach (reach : Reach (step config) (WritesCurrent config) (State.initial value)
    state) : Inv config state :=
  reach.invariant (Inv config) (inv_initial config value) fun _ _ _ inv current stepped =>
    (progress_step inv current stepped).inv

/-- Header words grow along every run. -/
theorem Inv.lease_le (inv : Inv config state) {later : State Key Value Tid}
    (run : Reach (step config) (WritesCurrent config) state later) (key : Key) :
    lease (state.records key).seq ≤ lease (later.records key).seq := by
  have grown := run.invariant
    (fun later => Inv config later ∧
      lease (state.records key).seq ≤ lease (later.records key).seq)
    ⟨inv, le_rfl⟩ fun before action after ⟨inv, grows⟩ current stepped =>
      have progress := progress_step inv current stepped
      ⟨progress.inv, grows.trans (progress.grows key)⟩
  exact grown.2

/-- Timestamps are sound in every run without stale writes. -/
theorem timestamps_sound (config : Config Key Tid) (value : Key → Value)
    (state : State Key Value Tid)
    (reach : Reach (step config) (WritesCurrent config) (State.initial value) state) :
    Sound config (WritesCurrent config) state := by
  have inv := inv_of_reach reach
  constructor
  case lastWriteBack => exact inv.last
  case covered =>
    intro tid decided item member current
    have ok := inv.txnOk tid
    have granted := ok.renewed item member (decided.renewed item)
    exact ⟨le_rts_of_le_lease (ok.readSet item member).observed current,
      le_rts_of_le_lease granted current⟩
  case forward => exact fun later run key => wts_le_of_lease_le (inv.lease_le run key)

/-- Transaction 0 reads record 0, locks record 1 and renews its lease; transaction 1
overwrites record 0 afterwards. -/
def renewRun : List (Action Nat Nat (Fin 2)) :=
  [.begin 0 0, .begin 1 0, .read 0 0, .readAgain 0, .write 0 1, .lockCas 0, .lockRead 0,
    .modify 0 1 8, .prepare 0, .renewRead 0 0, .resume 0, .renewWrite 0, .write 1 0,
    .lockCas 1, .lockRead 1, .modify 1 0 7, .resume 0, .vote 0 true, .updateVerb 0 1,
    .updateVerb 0 1, .prepare 1, .resume 1, .resume 1, .vote 1 true, .resume 0]

theorem timestamps_sound_renewed :
    ∃ state : State Nat Nat (Fin 2),
      ((state.txns 0).stage = .finished true ∧ rts (state.records 0).seq = 1 ∧
        (state.records 1).value = 8) ∧
      Sound pairConfig (WritesCurrent pairConfig) state := by
  have reached : ∃ state : State Nat Nat (Fin 2),
      Reach (step pairConfig) (WritesCurrent pairConfig) (State.initial fun _ => 5) state ∧
        (state.txns 0).stage = .finished true ∧ rts (state.records 0).seq = 1 ∧
        (state.records 1).value = 8 :=
    Reach.exists_of_exec renewRun (by decide +kernel)
  obtain ⟨state, reach, observed⟩ := reached
  exact ⟨state, observed, timestamps_sound pairConfig (fun _ => 5) state reach⟩

/-- Transaction 0 has read the header of record 0 and is about to renew its lease when
transaction 1 overwrites the record. -/
def staleRun : List (Action Nat Nat (Fin 2)) :=
  [.begin 0 0, .begin 1 0, .read 0 0, .readAgain 0, .write 0 1, .lockCas 0, .lockRead 0,
    .prepare 0, .renewRead 0 0, .resume 0, .write 1 0, .lockCas 1, .lockRead 1,
    .modify 1 0 7, .prepare 1, .resume 1, .resume 1, .vote 1 true, .updateVerb 1 0,
    .updateVerb 1 0, .resume 1]

/-- The renewal puts the write timestamp 0 back in front of the new value. -/
theorem stale_renewal_moves_back :
    ∃ state : State Nat Nat (Fin 2),
      Reachable (step pairConfig) (State.initial fun _ => 5) state ∧
      ((state.txns 1).stage = .finished true ∧ (state.records 0).value = 7 ∧
        wts (state.records 0).seq = 1) ∧
      ¬ Sound pairConfig anyAction state := by
  have reached : ∃ state : State Nat Nat (Fin 2),
      Reachable (step pairConfig) (State.initial fun _ => 5) state ∧
        ((state.txns 1).stage = .finished true ∧ (state.records 0).value = 7 ∧
          wts (state.records 0).seq = 1) ∧
        (step pairConfig state (.renewWrite 0)).any
          (fun after => decide (wts (after.records 0).seq = 0)) = true :=
    Reach.exists_of_exec staleRun (by decide +kernel)
  obtain ⟨state, reach, observed, stale⟩ := reached
  refine ⟨state, reach, observed, ?_⟩
  intro sound
  obtain ⟨after, stepped, back⟩ := (Option.any_eq_true _ _).mp stale
  have forward := sound.forward after (Reach.refl.tail trivial stepped) 0
  rw [observed.2.2, of_decide_eq_true back] at forward
  exact absurd forward (by decide)

end Rocc.Sundial.OneSided
