import Rocc.Db.Backup.Runs

/-!
# Draining a ring

The network and the worker of a ring can always go on until all that its thread has logged is
cleaned, whatever the other rings do.
-/

namespace Rocc.Db.Backup

open DbLogger Memory

universe u v

variable {Thread : Type u} {Store : Type v} [DecidableEq Thread]
variable {cleanLog : Store → Entry → Option Store} {start : Store}
variable {state : State Thread Store} {thread : Thread}

/-- The steps of the network and the worker of one ring. -/
def Drains (thread : Thread) (_state : State Thread Store) : Action Thread → Prop
  | .log _ _ => False
  | .land other _ | .ack other _ => other = thread
  | .feedback other | .find other | .clean other | .clear other => other = thread

/-- How much of a log has not arrived. -/
def missing (sent : Ring.Sent) : Nat :=
  (if sent.landed then 0 else 1) + if sent.acked then 0 else 1

/-- How many steps of the network and the worker a ring needs at most. -/
def State.toDo (state : State Thread Store) (thread : Thread) : Nat :=
  ((state.rings thread).logs.map missing).sum + 2 * (state.rings thread).logs.length +
    (if (state.cleaning thread).isSome then 0 else 1) +
    (((state.calls thread).flatMap toClean).length - (state.cleanedOf thread).length)

/-- While the first log has not arrived, the network has a step. -/
theorem exists_arrive {sent : Ring.Sent} {logs : List Ring.Sent}
    (listed : (state.rings thread).logs = sent :: logs) (few : ¬ (sent.landed ∧ sent.acked)) :
    ∃ action after, Drains thread state action ∧ step cleanLog state action = some after ∧
      after.calls = state.calls ∧ after.toDo thread < state.toDo thread := by
  have goes (action : Ring.Action) (ring : Ring.State) (new : Ring.Sent)
      (moved : Ring.step (state.rings thread) action = some ring) (next : ring.logs = new :: logs)
      (less : missing new < missing sent) :
      ∃ after, send state thread action = some after ∧ after.calls = state.calls ∧
        after.toDo thread < state.toDo thread := by
    refine ⟨{ state with rings := Function.update state.rings thread ring }, ?_, rfl, ?_⟩
    · rw [send, moved]
      rfl
    · simp only [State.toDo, State.cleanedOf, Function.update_self, next, listed, List.map_cons,
        List.sum_cons, List.length_cons]
      omega
  cases landed : sent.landed with
  | false =>
      obtain ⟨after, stepped, rest⟩ := goes (.land 0) _ { sent with landed := true }
        (by simp only [Ring.step, Ring.State.land, listed, List.getElem?_cons_zero, landed]; rfl)
        (by simp only [List.set_cons_zero]) (by simp [missing, landed])
      exact ⟨.land thread 0, after, rfl, stepped, rest⟩
  | true =>
      have acked : sent.acked = false := by simpa [landed] using few
      obtain ⟨after, stepped, rest⟩ := goes (.ack 0) _ { sent with acked := true }
        (by simp only [Ring.step, Ring.State.ack, listed, List.getElem?_cons_zero, acked]; rfl)
        (by simp only [List.set_cons_zero]) (by simp [missing, acked])
      exact ⟨.ack thread 0, after, rfl, stepped, rest⟩

/-- Once the first log has arrived, the worker has a step. -/
theorem Inv.exists_find (inv : Inv cleanLog start state) {sent : Ring.Sent}
    {logs : List Ring.Sent} (listed : (state.rings thread).logs = sent :: logs)
    (arrived : sent.landed ∧ sent.acked) (idle : state.cleaning thread = none) :
    ∃ after, step cleanLog state (.find thread) = some after ∧ after.calls = state.calls ∧
      after.toDo thread < state.toDo thread := by
  obtain ⟨done, pending, ⟨counters, sound⟩, _⟩ := inv.threads thread
  have found := sound.check
  rw [listed] at found
  dsimp only at found
  rw [if_pos arrived] at found
  have stepped : ∃ cursor, Backup.find state thread =
      some { state with cleaning := Function.update state.cleaning thread (some cursor) } := by
    rw [Backup.find]
    simp only [idle, found]
    exact ⟨_, rfl⟩
  obtain ⟨cursor, stepped⟩ := stepped
  refine ⟨_, stepped, rfl, ?_⟩
  simp only [State.toDo, State.cleanedOf, Function.update_self, idle, Option.isSome_some,
    Option.isSome_none, if_true]
  simp

/-- The worker goes on with the log that it has found. -/
theorem Inv.exists_clean (inv : Inv cleanLog start state)
    (taken : ∀ entry ∈ (state.calls thread).flatMap toClean, ∀ store,
      (cleanLog store entry).isSome) {cursor : Cursor}
    (walking : state.cleaning thread = some cursor) :
    ∃ action after, Drains thread state action ∧ step cleanLog state action = some after ∧
      after.calls = state.calls ∧ after.toDo thread < state.toDo thread := by
  obtain ⟨done, pending, one⟩ := inv.threads thread
  rw [walking] at one
  by_cases ends : cursor.AtEnd
  · obtain ⟨call, rest, first, last, rfl, cleaning, _⟩ := one.cleaned
    obtain ⟨counters, sound⟩ := one.sound
    obtain ⟨sent, logs, listed, landed, acked⟩ := cleaning.found
    have drained : (state.rings thread).poll.logs = logs := by
      rw [sound.poll_eq listed landed acked]
      dsimp only
      split <;> rfl
    have stepped : Backup.clear state thread = some { state with
        rings := Function.update state.rings thread (state.rings thread).poll
        cleaning := Function.update state.cleaning thread none } := by
      simp only [Backup.clear, walking, if_pos ends]
    refine ⟨.clear thread, _, rfl, stepped, rfl, ?_⟩
    · simp only [State.toDo, State.cleanedOf, Function.update_self, walking, drained, listed,
        List.map_cons, List.sum_cons, List.length_cons, Option.isSome_some, Option.isSome_none]
      simp
      omega
  · obtain ⟨store, cleaned⟩ := Option.isSome_iff_exists.mp
      (taken _ (one.mem_calls ends) state.store)
    have stepped : ∃ cursor store entry, Backup.clean cleanLog state thread = some { state with
        cleaning := Function.update state.cleaning thread (some cursor)
        store
        cleaned := state.cleaned ++ [(thread, entry)] } := by
      simp only [Backup.clean, walking, if_neg ends, cleaned]
      exact ⟨_, _, _, rfl⟩
    obtain ⟨next, store, entry, stepped⟩ := stepped
    obtain ⟨rest, all, _⟩ := (inv.clean stepped).split thread
    have length := congrArg List.length all
    dsimp only at length
    rw [cleanedOf_concat, if_pos rfl, List.length_append, List.length_append,
      List.length_singleton] at length
    refine ⟨.clean thread, _, rfl, stepped, rfl, ?_⟩
    simp only [State.toDo, cleanedOf_concat, Function.update_self, walking, Option.isSome_some,
      List.length_append, if_true, List.length_singleton]
    omega

/-- The network and the worker can clean all that a thread has logged. -/
theorem Inv.exists_drained (inv : Inv cleanLog start state) (thread : Thread)
    (taken : ∀ entry ∈ (state.calls thread).flatMap toClean, ∀ store,
      (cleanLog store entry).isSome) :
    ∃ after, Reach (step cleanLog) (Drains thread) state after ∧ Inv cleanLog start after ∧
      after.calls = state.calls ∧ (after.rings thread).logs = [] := by
  have progress (one : State Thread Store)
      (holds : Inv cleanLog start one ∧ one.calls = state.calls)
      (waiting : ¬ (one.rings thread).logs = []) :
      ∃ action after, Drains thread one action ∧ step cleanLog one action = some after ∧
        after.calls = one.calls ∧ after.toDo thread < one.toDo thread := by
    cases walking : one.cleaning thread with
    | some cursor => exact holds.1.exists_clean (holds.2 ▸ taken) walking
    | none =>
        obtain ⟨sent, logs, listed⟩ := List.exists_cons_of_ne_nil waiting
        by_cases arrived : sent.landed ∧ sent.acked
        · obtain ⟨after, stepped, rest⟩ := holds.1.exists_find listed arrived walking
          exact ⟨.find thread, after, rfl, stepped, rest⟩
        · exact exists_arrive listed arrived
  have runs : ∃ after, Reach (step cleanLog) (Drains thread) state after ∧
      ((Inv cleanLog start after ∧ after.calls = state.calls) ∧
        (after.rings thread).logs = []) := by
    refine Reach.exists_of_rank (fun one => Inv cleanLog start one ∧ one.calls = state.calls) _
      (fun one => one.toDo thread) ?_ ⟨inv, rfl⟩
    intro one holds waiting
    obtain ⟨action, after, quiet, stepped, same, less⟩ :=
      progress one holds fun drained => waiting ⟨holds, drained⟩
    exact ⟨action, after, quiet, stepped, ⟨inv_step holds.1 stepped, same.trans holds.2⟩,
      .inr less⟩
  obtain ⟨after, run, ⟨holds, calls⟩, drained⟩ := runs
  exact ⟨after, run, holds, calls, drained⟩

/-- From every state of every run the network and the worker of a ring alone can clean all that its
thread has logged, if the assertions of the cleaner hold for it. -/
theorem logs_drain (cleanLog : Store → Entry → Option Store) (start : Store)
    (state : State Thread Store)
    (reach : Reachable (step cleanLog) (State.initial start) state) (thread : Thread)
    (taken : ∀ entry ∈ (state.calls thread).flatMap toClean, ∀ store,
      (cleanLog store entry).isSome) :
    ∃ after, Reach (step cleanLog) (Drains thread) state after ∧ (after.rings thread).logs = [] ∧
      after.cleanedOf thread = (state.calls thread).flatMap toClean := by
  obtain ⟨after, run, inv, calls, drained⟩ := (inv_of_reachable reach).exists_drained thread taken
  refine ⟨after, run, drained, ?_⟩
  obtain ⟨rest, all, nothing⟩ := inv.split thread
  rw [calls, nothing drained, List.append_nil] at all
  exact all.symm

theorem logs_drain_one : ∃ state after : State Unit (List Entry),
    state.calls () = [oneEntry] ∧
      Reach (step fun store entry => some (store ++ [entry])) (Drains ()) state after ∧
      (after.rings ()).logs = [] ∧ after.cleanedOf () = (state.calls ()).flatMap toClean := by
  obtain ⟨state, reach, logged⟩ :=
    exists_logged (fun store entry => some (store ++ [entry])) [] () oneEntry
  obtain ⟨after, drained⟩ := logs_drain _ [] state reach () fun _ _ _ => rfl
  exact ⟨state, after, logged, drained⟩

/-- Two rings are apart. -/
structure Frame (thread : Thread) (before after : State Thread Store) : Prop where
  rings : ∀ other, other ≠ thread → after.rings other = before.rings other
  calls : after.calls = before.calls
  cleaned : ∃ more, after.cleaned = before.cleaned ++ more ∧ ∀ pair ∈ more, pair.1 = thread

omit [DecidableEq Thread] in
theorem Frame.refl (state : State Thread Store) : Frame thread state state :=
  ⟨fun _ _ => rfl, rfl, [], (List.append_nil _).symm, by simp⟩

omit [DecidableEq Thread] in
theorem Frame.trans {before middle after : State Thread Store}
    (first : Frame thread before middle) (second : Frame thread middle after) :
    Frame thread before after := by
  obtain ⟨more, cleaned, mine⟩ := first.cleaned
  obtain ⟨others, cleanedAfter, othersMine⟩ := second.cleaned
  refine ⟨fun other different => (second.rings other different).trans (first.rings other different),
    second.calls.trans first.calls, more ++ others, ?_, List.forall_mem_append.mpr
      ⟨mine, othersMine⟩⟩
  rw [cleanedAfter, cleaned, List.append_assoc]

theorem frame_update (state : State Thread Store) (ring : Ring.State)
    (cleaning : Thread → Option Cursor) :
    Frame thread state
      { state with rings := Function.update state.rings thread ring, cleaning } :=
  ⟨fun _ different => Function.update_of_ne different _ _, rfl, [], (List.append_nil _).symm,
    by simp⟩

theorem frame_send {action : Ring.Action} {after : State Thread Store}
    (stepped : send state thread action = some after) : Frame thread state after := by
  obtain ⟨ring, _, rfl⟩ := Option.map_eq_some_iff.mp stepped
  exact frame_update state ring _

/-- What is done for one ring leaves the others alone. -/
theorem frame_step {action : Action Thread} {after : State Thread Store}
    (drains : Drains thread state action) (stepped : step cleanLog state action = some after) :
    Frame thread state after := by
  cases action with
  | log other call => exact drains.elim
  | land other index =>
      obtain rfl := drains
      exact frame_send stepped
  | ack other index =>
      obtain rfl := drains
      exact frame_send stepped
  | feedback other =>
      obtain rfl := drains
      exact frame_send stepped
  | find other =>
      rw [step, Backup.find] at stepped
      dsimp only at stepped
      split at stepped
      · cases stepped
        exact ⟨fun _ _ => rfl, rfl, [], (List.append_nil _).symm, by simp⟩
      · cases stepped
  | clean other =>
      obtain rfl := drains
      rw [step, Backup.clean] at stepped
      split at stepped
      · split at stepped
        · cases stepped
        · obtain ⟨store, _, rfl⟩ := Option.map_eq_some_iff.mp stepped
          exact ⟨fun _ _ => rfl, rfl, _, rfl, by simp⟩
      · cases stepped
  | clear other =>
      obtain rfl := drains
      rw [step, Backup.clear] at stepped
      split at stepped
      · split at stepped
        · cases stepped
          exact frame_update state _ _
        · cases stepped
      · cases stepped

theorem frame_of_drains {after : State Thread Store}
    (run : Reach (step cleanLog) (Drains thread) state after) : Frame thread state after :=
  run.invariant _ (.refl state) fun _ _ _ frame drains stepped =>
    frame.trans (frame_step drains stepped)

/-- A log in one ring can be cleaned. -/
theorem exists_cleaned (cleanLog : Store → Entry → Option Store) (start : Store)
    (call : Ring.Call)
    (taken : ∀ entry ∈ toClean call, ∀ store, (cleanLog store entry).isSome) :
    ∃ state : State Unit Store, Reachable (step cleanLog) (State.initial start) state ∧
      state.calls () = [call] ∧ (state.rings ()).logs = [] := by
  obtain ⟨state, reach, isLogged⟩ := exists_logged cleanLog start () call
  obtain ⟨after, run, _, calls, drained⟩ :=
    (inv_of_reachable reach).exists_drained () (by simpa [isLogged] using taken)
  exact ⟨after, reach.trans (run.mono fun _ _ _ => trivial), by rw [calls, isLogged], drained⟩

/-- What is cleaned when a ring is drained. -/
theorem Inv.exists_frame (inv : Inv cleanLog start state) (thread : Thread)
    (taken : ∀ entry ∈ (state.calls thread).flatMap toClean, ∀ store,
      (cleanLog store entry).isSome)
    (fresh : state.cleanedOf thread = []) :
    ∃ after, Reach (step cleanLog) (Drains thread) state after ∧ Frame thread state after ∧
      (after.rings thread).logs = [] ∧ after.cleaned.map Prod.snd =
        state.cleaned.map Prod.snd ++ (state.calls thread).flatMap toClean := by
  obtain ⟨after, run, holds, _, drained⟩ := inv.exists_drained thread taken
  have frame := frame_of_drains run
  refine ⟨after, run, frame, drained, ?_⟩
  obtain ⟨more, cleaned, mine⟩ := frame.cleaned
  obtain ⟨rest, all, nothing⟩ := holds.split thread
  rw [frame.calls, nothing drained, List.append_nil, State.cleanedOf, cleaned, List.filter_append,
    List.map_append, ← State.cleanedOf, fresh, List.nil_append] at all
  have same : more.filter (fun pair => pair.1 = thread) = more :=
    List.filter_eq_self.mpr fun pair member => by simpa using mine pair member
  rw [cleaned, List.map_append, all, same]

/-- The logs of two threads can be cleaned one after the other. -/
theorem exists_both (cleanLog : Store → Entry → Option Store) (start : Store)
    {first second : Thread} (different : first ≠ second) (call other : Ring.Call)
    (taken : ∀ entry ∈ toClean call ++ toClean other, ∀ store, (cleanLog store entry).isSome) :
    ∃ state, Reachable (step cleanLog) (State.initial start) state ∧
      (∀ thread, (state.rings thread).logs = []) ∧
      state.calls = Function.update (Function.update (fun _ => []) first [call]) second [other] ∧
      state.cleaned.map Prod.snd = toClean call ++ toClean other := by
  obtain ⟨one, logged, ringsOne, callsOne, cleanedOne⟩ :=
    exists_log cleanLog (State.initial start) first call rfl
  obtain ⟨two, logged', ringsTwo, callsTwo, cleanedTwo⟩ :=
    exists_log cleanLog one second other (ringsOne second different.symm)
  have reach : Reachable (step cleanLog) (State.initial start) two :=
    .tail (.tail .refl trivial logged) trivial logged'
  have clean : two.cleaned = [] := cleanedTwo.trans cleanedOne
  have calls : two.calls =
      Function.update (Function.update (fun _ => []) first [call]) second [other] := by
    rw [callsTwo, callsOne, Function.update_of_ne different.symm]
    rfl
  have callsFirst : (two.calls first).flatMap toClean = toClean call := by
    rw [calls, Function.update_of_ne different, Function.update_self, List.flatMap_singleton]
  have callsSecond : (two.calls second).flatMap toClean = toClean other := by
    rw [calls, Function.update_self, List.flatMap_singleton]
  have takenBoth := List.forall_mem_append.mp taken
  obtain ⟨three, run, frame, drained, cleaned⟩ := (inv_of_reachable reach).exists_frame first
    (callsFirst ▸ takenBoth.1) (by rw [State.cleanedOf, clean]; rfl)
  have reachThree := reach.trans (run.mono fun _ _ _ => trivial)
  have cleanedSecond : three.cleanedOf second = [] := by
    obtain ⟨more, isCleaned, mine⟩ := frame.cleaned
    rw [State.cleanedOf, isCleaned, clean, List.nil_append, List.map_eq_nil_iff,
      List.filter_eq_nil_iff]
    intro pair member same
    exact different ((mine pair member).symm.trans (by simpa using same))
  obtain ⟨four, run', frame', drained', cleaned'⟩ :=
    (inv_of_reachable reachThree).exists_frame second
      (frame.calls ▸ callsSecond ▸ takenBoth.2) cleanedSecond
  refine ⟨four, reachThree.trans (run'.mono fun _ _ _ => trivial), fun thread => ?_,
    (frame'.calls.trans frame.calls).trans calls, ?_⟩
  · by_cases isSecond : thread = second
    · rw [isSecond, drained']
    · rw [frame'.rings thread isSecond]
      by_cases isFirst : thread = first
      · rw [isFirst, drained]
      · rw [frame.rings thread isFirst, ringsTwo thread isSecond, ringsOne thread isFirst]
        rfl
  · rw [cleaned', cleaned, clean, frame.calls, callsFirst, callsSecond]
    rfl

end Rocc.Db.Backup
