import Rocc.Occ.Hybrid.Flight

/-!
# Every step of a hybrid commit keeps the locks in order
-/

set_option linter.unusedSectionVars false

namespace Rocc.Occ.Hybrid

open Rtx

universe u v w

variable {Key : Type u} {Value : Type v} {Tid : Type w}
variable [DecidableEq Key] [DecidableEq Tid]
variable {config : Config Key Tid} {state before after : State Key Value Tid} {tid : Tid}
variable {records : Key → Record Value} {txn next : Txn Key Value}

/-! ## Between the phases -/

section Mark

variable {granted : List Key}

theorem keysOf_mark (config : Config Key Tid) (granted : List Key)
    (items : List (Item Key Value)) : keysOf (config.mark granted items) = keysOf items := by
  unfold Config.mark
  split
  · simp only [keysOf, List.map_map]
    apply List.map_congr_left
    intro item _
    simp only [Function.comp_apply]
    split <;> rfl
  · rfl

theorem mark_of_oneSided (oneSided : config.oneSidedLock = true) (items : List (Item Key Value)) :
    config.mark granted items = items := by
  simp [Config.mark, oneSided]

/-- The replies leave a lock word of 0 exactly where a lock was granted. -/
theorem marks_mark (rpc : config.oneSidedLock = false) (oneSided : config.oneSidedRelease = true)
    (inside : ∀ key ∈ granted, key ∈ keysOf txn.writeSet) (unmarked : ∀ key, ¬ txn.Marks key)
    (key : Key) :
    Txn.Marks { txn with writeSet := config.mark granted txn.writeSet } key ↔ key ∈ granted := by
  simp only [Txn.Marks, Config.mark, rpc, oneSided, and_self, if_true]
  constructor
  · rintro ⟨_, member, rfl, free⟩
    obtain ⟨item, itemMember, rfl⟩ := List.mem_map.mp member
    by_cases isGranted : item.key ∈ granted
    · rwa [if_pos isGranted]
    · rw [if_neg isGranted] at free
      exact absurd ⟨item, itemMember, rfl, free⟩ (unmarked item.key)
  · intro isGranted
    obtain ⟨item, member, rfl⟩ := List.mem_map.mp (inside key isGranted)
    refine ⟨{ item with lock := 0 }, List.mem_map.mpr ⟨item, member, if_pos isGranted⟩, rfl, rfl⟩

end Mark

section Resume

variable {granted : List Key} {failed : Bool}

/-- What a transaction holds when the last reply to its lock requests is in. -/
theorem Own.locked_cases (own : Own config tid records txn)
    (stage : txn.stage = .lockWait granted failed) (noVerbs : txn.verbs = []) :
    (∀ key, txn.Covers config tid key → txn.Owns config tid key ∧ key ∈ keysOf txn.writeSet) ∧
      (config.oneSidedRelease = true → ∀ key,
        Txn.Marks { txn with writeSet := config.mark granted txn.writeSet } key ↔
          txn.Owns config tid key) := by
  have shape := own.shape
  simp only [Txn.Shape, stage] at shape
  cases flag : config.oneSidedLock with
  | true =>
      have owns : ∀ key, txn.Owns config tid key ↔ txn.Marks key := by
        intro key
        simp [Txn.Owns, stage, flag, noVerbs, casKeys]
      refine ⟨?_, ?_⟩
      · intro key covered
        simp only [Txn.Covers, stage] at covered
        exact ⟨covered, ((owns key).mp covered).mem⟩
      · intro _ key
        rw [mark_of_oneSided flag, owns]
  | false =>
      obtain ⟨-, inside, -, unmarked⟩ := shape.rpc flag
      have owns : ∀ key, txn.Owns config tid key ↔ key ∈ granted := by
        intro key
        simp [Txn.Owns, stage, flag]
      refine ⟨?_, ?_⟩
      · intro key covered
        simp only [Txn.Covers, stage] at covered
        exact ⟨covered, inside key ((owns key).mp covered)⟩
      · intro oneSided key
        rw [marks_mark flag oneSided inside (unmarked oneSided), owns]

/-- When the lock phase has succeeded every record of the write set is locked. -/
theorem Own.owns_of_locked (own : Own config tid records txn)
    (stage : txn.stage = .lockWait granted failed) (noVerbs : txn.verbs = [])
    (noCalls : txn.calls = []) (locked : config.Locked tid txn failed) {key : Key}
    (inSet : key ∈ keysOf txn.writeSet) : txn.Owns config tid key := by
  have shape := own.shape
  simp only [Txn.Shape, stage] at shape
  cases flag : config.oneSidedLock with
  | true =>
      simp only [Config.Locked, flag, if_true] at locked
      obtain ⟨item, member, rfl⟩ := List.mem_map.mp inSet
      simp only [Txn.Owns, stage, flag, if_true, noVerbs]
      refine ⟨List.not_mem_nil, item, member, rfl, ?_⟩
      exact (locked item member (shape.remote _ inSet)).1
  | false =>
      simp only [Config.Locked, flag, Bool.false_eq_true, if_false] at locked
      obtain ⟨-, -, all, -⟩ := shape.rpc flag
      simp only [Txn.Owns, stage, flag, Bool.false_eq_true, if_false]
      simpa [noCalls, lockKeys] using all locked key inSet

theorem move_lockDone (inv : Inv config state)
    (stage : (state.txns tid).stage = .lockWait granted failed)
    (noVerbs : (state.txns tid).verbs = []) (noCalls : (state.txns tid).calls = [])
    (locked : config.Locked tid (state.txns tid) failed) :
    Move config tid state (state.setTxn tid { state.txns tid with
      stage := .validate (keysOf (state.txns tid).readSet),
      writeSet := config.mark granted (state.txns tid).writeSet }) := by
  have own := inv.own tid
  have keys := keysOf_mark config granted (state.txns tid).writeSet
  obtain ⟨covered, marks⟩ := own.locked_cases stage noVerbs
  have shape := own.shape
  simp only [Txn.Shape, stage] at shape
  apply Move.quiet
  · apply own.restage
    · rw [keysOf_append]
      simp only [keys]
      rw [← keysOf_append]
      exact own.nodup
    · refine ⟨⟨?_, ?_, by simp [noVerbs], by simp [shape.batch], by simp [noCalls]⟩, noCalls⟩
      · simpa only [Txn.Remote, keys] using shape.remote
      · intro oneSided key member
        simp only [keys] at member
        exact (marks oneSided key).mpr (own.owns_of_locked stage noVerbs noCalls locked member)
    · intro key owned
      simp only [Txn.Owns, keys] at owned
      exact own.owns_of_locked stage noVerbs noCalls locked owned
    · intro key isCovered
      simp only [Txn.Covers, Txn.Owns, keys]
      exact (covered key isCovered).2
  · simp [Txn.Decided, stage]

theorem move_lockGivenUp (inv : Inv config state)
    (stage : (state.txns tid).stage = .lockWait granted failed)
    (noVerbs : (state.txns tid).verbs = []) (noCalls : (state.txns tid).calls = []) :
    Move config tid state (state.setTxn tid (Txn.abort { state.txns tid with
      writeSet := config.mark granted (state.txns tid).writeSet })) := by
  have own := inv.own tid
  obtain ⟨covered, marks⟩ := own.locked_cases stage noVerbs
  have shape := own.shape
  simp only [Txn.Shape, stage] at shape
  apply Move.quiet
  · exact own.abort_remote (keysOf_mark _ _ _) shape.remote (by simp [noVerbs]) noCalls marks
      covered
  · simp [Txn.Decided, stage]

theorem move_validated (inv : Inv config state)
    (stage : (state.txns tid).stage = .validateWait failed)
    (noVerbs : (state.txns tid).verbs = []) (noCalls : (state.txns tid).calls = []) :
    Move config tid state (state.setTxn tid { state.txns tid with
      stage := .writeBack (keysOf (state.txns tid).writeSet) }) := by
  have own := inv.own tid
  have shape := own.shape
  simp only [Txn.Shape, stage] at shape
  obtain ⟨validating, noBatch⟩ := shape
  apply Move.quiet
  · apply own.restage
    · exact own.nodup
    · refine ⟨⟨validating.remote, fun _ member => member, by simp [noVerbs], by simp [noBatch],
        by simp [noCalls], ?_⟩, noCalls⟩
      simpa [noVerbs, noBatch, noCalls, unlockKeys, commitKeys] using own.writeSet_nodup
    · intro key owned
      simpa [Txn.Owns, stage, noVerbs, noBatch, unlockKeys, commitKeys] using owned
    · intro key covered
      simpa [Txn.Covers, Txn.Owns, stage, noVerbs, noBatch, unlockKeys, commitKeys] using covered
  · simp [Txn.Decided]

theorem move_finish (inv : Inv config state) {committed : Bool}
    (stage : (committed = true ∧ (state.txns tid).stage = .writeBackWait) ∨
      (committed = false ∧ (state.txns tid).stage = .releaseWait))
    (noVerbs : (state.txns tid).verbs = []) (noCalls : (state.txns tid).calls = []) :
    Move config tid state
      (state.setTxn tid { state.txns tid with stage := .finished committed }) := by
  have own := inv.own tid
  have shape := own.shape
  have noBatch : (state.txns tid).batch = [] := by
    rcases stage with ⟨-, stage⟩ | ⟨-, stage⟩ <;> simp only [Txn.Shape, stage] at shape <;>
      exact shape.2
  apply Move.quiet
  · apply own.restage
    · exact own.nodup
    · exact ⟨noVerbs, noBatch, noCalls⟩
    · exact fun _ owned => absurd owned id
    · intro key covered
      rcases stage with ⟨-, stage⟩ | ⟨-, stage⟩
      · simp [Txn.Covers, Txn.Owns, stage, noVerbs, noCalls, unlockKeys, commitKeys] at covered
      · simp [Txn.Covers, Txn.Owns, stage, noVerbs, noCalls, unlockKeys, releaseKeys] at covered
  · rcases stage with ⟨rfl, stage⟩ | ⟨rfl, stage⟩ <;> simp [Txn.Decided, stage]

theorem move_resume (inv : Inv config state) {vote : Bool}
    (stepped : resume config state tid vote = some after) : Move config tid state after := by
  simp only [resume] at stepped
  split at stepped
  · rename_i drained
    simp only [List.isEmpty_iff] at drained
    obtain ⟨noVerbs, noCalls⟩ := drained
    split at stepped
    case h_1 granted failed stage =>
      split at stepped
      · rename_i locked
        cases stepped
        exact move_lockDone inv stage noVerbs noCalls locked
      · cases stepped
        exact move_lockGivenUp inv stage noVerbs noCalls
    case h_2 failed stage =>
      split at stepped
      · cases stepped
        exact move_validated inv stage noVerbs noCalls
      · cases stepped
        have own := inv.own tid
        have shape := own.shape
        simp only [Txn.Shape, stage] at shape
        apply Move.quiet
        · exact own.abort_validate (.inr ⟨failed, stage⟩) shape.1 noCalls
        · simp [Txn.Decided, stage]
    case h_3 stage =>
      cases stepped
      exact move_finish inv (.inl ⟨rfl, stage⟩) noVerbs noCalls
    case h_4 stage =>
      cases stepped
      exact move_finish inv (.inr ⟨rfl, stage⟩) noVerbs noCalls
    case h_5 => cases stepped
  · cases stepped

end Resume

/-! ## Runs -/

/-- One step of the system. -/
theorem move_step (inv : Inv config state) {action : Action Key Value Tid}
    (guarded : Guarded config state action) (stepped : step config state action = some after) :
    Move config action.tid state after := by
  cases action with
  | begin tid => exact move_begin inv stepped
  | read tid key garbage => exact move_read inv stepped
  | write tid key garbage => exact move_write inv stepped
  | modify tid key data => exact move_modify inv stepped
  | commit tid => exact move_commit inv guarded stepped
  | walk tid => exact move_walk inv stepped
  | verb tid machine => exact move_verb inv stepped
  | call tid machine => exact move_call inv stepped
  | resume tid vote => exact move_resume inv stepped

/-- The invariant holds in every state of a run. -/
theorem inv_of_reach {seq : Key → Nat} {value : Key → Value}
    (reach : Reach (step config) (Guarded config) (State.initial seq value) state) :
    Inv config state := by
  apply reach.invariant (Inv config) (inv_initial seq value)
  intro before action after inv guarded stepped
  exact inv.move (move_step inv guarded stepped)

end Rocc.Occ.Hybrid
