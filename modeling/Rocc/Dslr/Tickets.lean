import Rocc.Dslr.Exclusion

/-!
# Ticket accounting

The counters of the lock word should account for the clients that hold the lock or wait
for it.  `handleConflict` returns false when it sees a later ticket served, and its caller
does not take the ticket back.  A shared request is overtaken in this way by a shared
request behind it that polls first.  The ticket is then lost for good: no reset of the word
succeeds, since the tickets served never reach the tickets taken.
-/

set_option linter.unusedSectionVars false

namespace Rocc.Dslr

universe u

variable {Client : Type u} [Fintype Client] [DecidableEq Client]
variable {counts : TicketCounts} {state : State Client}

/-- The counters account for the clients that hold the lock or wait for it. -/
structure Accounted (state : State Client) : Prop where
  exclusive : decodeDslrLockMaxx state.lock =
    decodeDslrLockNx state.lock + tally (Phase.HoldsOrWaits .exclusive) state.phases
  shared : decodeDslrLockMaxs state.lock =
    decodeDslrLockNs state.lock + tally (Phase.HoldsOrWaits .shared) state.phases
  free : (∀ client mode, ¬ (state.phases client).HoldsOrWaits mode) →
    decodeDslrLockNx state.lock = decodeDslrLockMaxx state.lock ∧
      decodeDslrLockNs state.lock = decodeDslrLockMaxs state.lock

/-- No increment of a rejected request is still to be taken back. -/
def Settled (state : State Client) : Prop :=
  ∀ client mode, ¬ (state.phases client).Reverting mode

/-- A round of `handleConflict` does not find a later ticket served. -/
def NotOvertaken (state : State Client) : Action Client → Prop
  | .handleConflict client =>
      match state.phases client with
      | .polling _ prev _ => ¬ Overtaken prev state.lock
      | _ => True
  | _ => True

/-! ## Lost tickets -/

/-- A step loses a ticket exactly when a request is overtaken. -/
theorem lost_of_step {after : State Client} {action : Action Client}
    (stepped : step state action = some after) :
    (NotOvertaken state action ∧ after.lost = state.lost) ∨
      (¬ NotOvertaken state action ∧ ∃ mode, after.lost mode ≠ 0) := by
  cases action with
  | acquireLock client mode =>
      simp only [step, acquireLock] at stepped
      split at stepped <;> cases stepped
      exact .inl ⟨trivial, rfl⟩
  | revert client =>
      simp only [step, revert] at stepped
      split at stepped <;> cases stepped
      exact .inl ⟨trivial, rfl⟩
  | reread client =>
      simp only [step, reread] at stepped
      split at stepped <;> cases stepped
      exact .inl ⟨trivial, rfl⟩
  | handleConflict client =>
      simp only [step, handleConflict] at stepped
      split at stepped
      · rename_i mode prev reset polling
        split at stepped
        · rename_i overtaken
          cases stepped
          refine .inr ⟨?_, mode, by simp⟩
          simp only [NotOvertaken, polling, not_not]
          exact overtaken
        · rename_i inTurn
          have kept : NotOvertaken state (.handleConflict client) := by
            simp only [NotOvertaken, polling]
            exact inTurn
          split at stepped <;> cases stepped
          · exact .inl ⟨kept, rfl⟩
          · exact .inl ⟨kept, rfl⟩
      · cases stepped
  | releaseLock client =>
      simp only [step, releaseLock] at stepped
      split at stepped <;> cases stepped
      exact .inl ⟨trivial, rfl⟩
  | reset client =>
      simp only [step, reset] at stepped
      split at stepped
      · split at stepped <;> cases stepped
        · exact .inl ⟨trivial, rfl⟩
        · exact .inl ⟨trivial, rfl⟩
      · cases stepped

/-- A run loses no ticket exactly when no request of it is overtaken. -/
theorem reach_notOvertaken_iff (reach : Reachable step State.initial state) :
    Reach step NotOvertaken State.initial state ↔ ∀ mode, state.lost mode = 0 := by
  constructor
  · intro inTurn
    refine inTurn.invariant (fun state => ∀ mode, state.lost mode = 0) (fun _ => rfl) ?_
    intro before action after none permitted stepped
    rcases lost_of_step stepped with ⟨-, same⟩ | ⟨overtaken, -⟩
    · rw [same]
      exact none
    · exact absurd permitted overtaken
  · induction reach with
    | refl => exact fun _ => .refl
    | tail before _ stepped ih =>
        intro none
        rcases lost_of_step stepped with ⟨inTurn, same⟩ | ⟨-, mode, lost⟩
        · rw [same] at none
          exact .tail (ih none) inTurn stepped
        · exact absurd (none mode) lost

/-- The tickets that are out are those of the clients that hold or wait. -/
theorem tally_outstanding (phases : Client → Phase) (mode : LockMode) :
    tally (Outstanding mode) (fun client => (phases client).ticket) =
      tally (Phase.HoldsOrWaits mode) phases := by
  unfold tally
  congr 1
  apply Finset.filter_congr
  intro client _
  change Outstanding mode (phases client).ticket ↔ (phases client).HoldsOrWaits mode
  cases phases client with
  | polling | holding => exact .rfl
  | idle | reverting | rereading | resetting => exact .rfl

/-- Once every rejected request has been taken back, the counters are off by the tickets
lost. -/
theorem Inv.accounted_iff (few : Fintype.card Client < 2 ^ 15) (inv : Inv counts state)
    (settled : Settled state) : Accounted state ↔ ∀ mode, state.lost mode = 0 := by
  obtain ⟨nx, ns, maxx, maxs⟩ := inv.decode few
  have issued : taken counts state.phases = counts.issued := by
    funext mode
    have none : tally (Phase.Reverting mode) state.phases = 0 :=
      tally_eq_zero.mpr fun client => settled client mode
    simp [taken, none]
  rw [issued] at maxx maxs
  have account : ∀ mode, counts.served mode + tally (Phase.HoldsOrWaits mode) state.phases +
      state.lost mode = counts.issued mode := by
    intro mode
    rw [← tally_outstanding, ← inv.lost]
    exact inv.served.account mode
  have exclusives := account .exclusive
  have shareds := account .shared
  constructor
  · intro accounted mode
    have exclusive := accounted.exclusive
    have shared := accounted.shared
    rw [nx, maxx] at exclusive
    rw [ns, maxs] at shared
    cases mode with
    | shared => omega
    | exclusive => omega
  · intro none
    rw [none .exclusive] at exclusives
    rw [none .shared] at shareds
    have exclusive : decodeDslrLockMaxx state.lock = decodeDslrLockNx state.lock +
        tally (Phase.HoldsOrWaits .exclusive) state.phases := by
      rw [nx, maxx]
      omega
    have shared : decodeDslrLockMaxs state.lock = decodeDslrLockNs state.lock +
        tally (Phase.HoldsOrWaits .shared) state.phases := by
      rw [ns, maxs]
      omega
    refine ⟨exclusive, shared, fun nobody => ?_⟩
    rw [exclusive, shared, tally_eq_zero.mpr fun client => nobody client .exclusive,
      tally_eq_zero.mpr fun client => nobody client .shared]
    exact ⟨rfl, rfl⟩

/-- In every reachable state in which every rejected request has been taken back, the
counters account for the clients that hold or wait exactly when the run that led there has
overtaken no request. -/
theorem accounted_iff_not_overtaken (few : Fintype.card Client < 2 ^ 15)
    (state : State Client) (reach : Reachable step State.initial state)
    (settled : Settled state) :
    Accounted state ↔ Reach step NotOvertaken State.initial state := by
  obtain ⟨counts, inv⟩ := inv_of_reach few reach
  rw [inv.accounted_iff few settled, reach_notOvertaken_iff reach]

instance (state : State Client) : Decidable (Settled state) :=
  decidable_of_iff (∀ client, ¬ (state.phases client).Reverting .shared ∧
      ¬ (state.phases client).Reverting .exclusive) <| by
    constructor
    · intro none client mode
      cases mode with
      | shared => exact (none client).1
      | exclusive => exact (none client).2
    · exact fun settled client => ⟨settled client .shared, settled client .exclusive⟩

theorem accounted_iff_not_overtaken_queue : ∃ state : State (Fin 4),
    Settled state ∧ Reachable step State.initial state ∧
      (Accounted state ↔ Reach step NotOvertaken State.initial state) := by
  have reached : ∃ state : State (Fin 4), Reachable step State.initial state ∧ Settled state :=
    Reach.exists_of_exec queueRun (by decide +kernel)
  obtain ⟨state, reach, settled⟩ := reached
  exact ⟨state, settled, reach, accounted_iff_not_overtaken (by decide) state reach settled⟩

/-- Two shared requests wait for an exclusive holder; the second one polls first and is
done before the first one looks again. -/
def overtakingRun : List (Action (Fin 3)) :=
  [.acquireLock 0 .exclusive, .acquireLock 1 .shared, .acquireLock 2 .shared,
    .releaseLock 0, .handleConflict 2, .releaseLock 2, .handleConflict 1]

theorem overtaken_ticket_leaks : ¬ ∀ state : State (Fin 3),
    Reachable step State.initial state → Settled state → Accounted state := by
  intro all
  have reached : ∃ state : State (Fin 3), Reachable step State.initial state ∧
      Settled state ∧ state.lost .shared = 1 :=
    Reach.exists_of_exec overtakingRun (by decide +kernel)
  obtain ⟨state, reach, settled, lost⟩ := reached
  obtain ⟨counts, inv⟩ := inv_of_reach (by decide) reach
  have none := (inv.accounted_iff (by decide) settled).mp (all state reach settled) .shared
  rw [lost] at none
  cases none

end Rocc.Dslr
