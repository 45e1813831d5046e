import Rocc.Core.Routine

/-!
# Every wake-up comes once

The invariant of a worker, with the routine that runs as a parameter: between two
routines nobody runs, and then exactly the routines that nothing is under way for are in
the ring.  Leaving the ring, polling and going on are steps between such states.
-/

namespace Rocc.Core

variable {config : Config} {running : Nat} {state : State} {ring : List Nat}

/-- Nothing is under way for a routine. -/
def State.Quiet (state : State) (id : Nat) : Prop :=
  state.completions id = 0 ∧ state.replies id = 0

/-- The invariant while `running` runs; 0 stands for the scheduler and for nobody. -/
structure Inv (config : Config) (running : Nat) (state : State) (ring : List Nat) : Prop where
  isRing : IsRing state.next state.prev 0 state.tailer ring
  routines : ∀ id ∈ ring, config.Routine id
  ready : ∀ id, config.Routine id → (id ∈ ring ↔ id = running ∨ state.Quiet id)
  balanced : ∀ id, config.Routine id →
    state.blocks id = state.wakeups id + if id ∈ ring then 0 else 1
  inactive : ∀ id, config.Routine id → id ∉ ring → state.active id = false
  pendingCounts : ∀ id, state.pendingCounts id = state.completions id
  replyCounts : ∀ id, state.replyCounts id = state.replies id
  outside : ∀ id, ¬ config.Routine id → state.Quiet id
  stored : ∀ id, config.Routine id → Stored state id

/-- The current routine is the scheduler or an active routine of the ring. -/
def Current (state : State) (ring : List Nat) : Prop :=
  state.current = 0 ∨ (state.current ∈ ring ∧ state.active state.current = true)

/-- The invariant of a worker. -/
def WellScheduled (config : Config) (state : State) : Prop :=
  ∃ ring, Inv config state.current state ring ∧ Current state ring

/-! ## The start -/

theorem initial_isRing (config : Config) :
    IsRing (State.initial config).next (State.initial config).prev 0
      (State.initial config).tailer (List.range' 1 config.coroutines) := by
  have whole : 0 :: List.range' 1 config.coroutines = List.range (config.coroutines + 1) := by
    rw [List.range_eq_range', List.range'_succ]
  refine ⟨?_, ?_, ?_, ?_⟩
  · rw [whole]
    exact List.nodup_range
  · rw [whole]
    rintro left right ⟨front, back, split⟩
    -- Neighbours in the list of numbers are consecutive numbers.
    have leftIs := congrArg (·[front.length]?) split
    have rightIs := congrArg (·[front.length + 1]?) split
    have bound : front.length + 1 < config.coroutines + 1 := by
      have sized := congrArg List.length split
      simp only [List.length_append, List.length_cons, List.length_nil, List.length_range] at sized
      omega
    simp only [List.append_assoc, List.cons_append, List.nil_append,
      List.getElem?_append_right le_rfl, Nat.sub_self, List.getElem?_cons_zero] at leftIs
    rw [List.getElem?_range (by omega), Option.some.injEq] at leftIs
    rw [List.append_assoc, List.getElem?_append_right (Nat.le_add_right _ 1),
      Nat.add_sub_cancel_left,
      List.getElem?_range bound] at rightIs
    simp only [List.cons_append, List.getElem?_cons_succ, List.getElem?_cons_zero,
      Option.some.injEq] at rightIs
    subst leftIs rightIs
    simp only [State.initial]
    exact ⟨if_neg (by omega), rfl⟩
  · rw [whole, List.range_succ, List.getLast?_concat]
    rfl
  · simp [State.initial]

theorem WellScheduled.initial (config : Config) : WellScheduled config (State.initial config) := by
  have members : ∀ id, config.Routine id → id ∈ List.range' 1 config.coroutines := by
    intro id routine
    rw [List.mem_range'_1]
    exact ⟨routine.1, by have := routine.2; omega⟩
  refine ⟨List.range' 1 config.coroutines, ?_, .inl rfl⟩
  constructor
  case isRing => exact initial_isRing config
  case routines =>
      intro id member
      rw [List.mem_range'_1] at member
      exact ⟨member.1, by omega⟩
  case ready =>
      intro id routine
      exact ⟨fun _ => .inr ⟨rfl, rfl⟩, fun _ => members id routine⟩
  case balanced =>
      intro id routine
      rw [if_pos (members id routine)]
      rfl
  case inactive =>
      intro id routine out
      exact absurd (members id routine) out
  case pendingCounts => exact fun _ => rfl
  case replyCounts => exact fun _ => rfl
  case outside => exact fun _ _ => ⟨rfl, rfl⟩
  case stored =>
      intro id _
      exact ⟨rfl, fun waiting => absurd rfl waiting⟩

/-! ## Going on -/

/-- Any routine of the ring, or the scheduler, can go on. -/
theorem Inv.yieldTo (inv : Inv config 0 state ring) {id : Nat} (member : id ∈ 0 :: ring) :
    WellScheduled config (yieldTo state id) := by
  have notZero : ∀ other, config.Routine other → other ≠ 0 := fun other routine =>
    Nat.pos_iff_ne_zero.mp routine.1
  refine ⟨ring, ⟨inv.isRing, inv.routines, ?_, inv.balanced, ?_, inv.pendingCounts,
    inv.replyCounts, inv.outside, fun other routine => ?_⟩, ?_⟩
  · intro other routine
    have before := inv.ready other routine
    constructor
    · intro inside
      rcases before.mp inside with zero | quiet
      · exact absurd zero (notZero other routine)
      · exact .inr quiet
    · rintro (rfl | quiet)
      · rcases List.mem_cons.mp member with zero | inside
        · exact absurd zero (notZero _ routine)
        · exact inside
      · exact before.mpr (.inr quiet)
  · intro other routine out
    have different : other ≠ id := by
      rintro rfl
      rcases List.mem_cons.mp member with zero | inside
      · exact notZero _ routine zero
      · exact out inside
    change Function.update state.active id true other = false
    rw [Function.update_of_ne different]
    exact inv.inactive other routine out
  · exact ⟨(inv.stored other routine).contiguous, (inv.stored other routine).cursor⟩
  · rcases List.mem_cons.mp member with zero | inside
    · exact .inl zero
    · exact .inr ⟨inside, Function.update_self _ _ _⟩

theorem WellScheduled.schedule {after : State} (inv : WellScheduled config state)
    (stepped : schedule state = some after) : WellScheduled config after := by
  obtain ⟨ring, inv, _⟩ := inv
  unfold Core.schedule at stepped
  split at stepped
  · rename_i idle
    cases stepped
    rw [idle.1] at inv
    exact inv.yieldTo inv.isRing.next_header_mem
  · cases stepped

/-! ## Leaving -/

/-- A routine that something is under way for leaves the ring. -/
theorem Inv.leave (inv : Inv config running state ring) (member : running ∈ ring)
    (waits : ¬ state.Quiet running) :
    ∃ rest, state.next running ∈ 0 :: rest ∧ Inv config 0 { state with
      next := Function.update state.next (state.prev running) (state.next running)
      prev := Function.update state.prev (state.next running) (state.prev running)
      tailer := if state.tailer = running then state.prev running else state.tailer
      active := Function.update state.active running false
      blocks := Function.update state.blocks running (state.blocks running + 1) } rest := by
  obtain ⟨front, back, rfl⟩ := List.append_of_mem member
  have distinct : running ∉ front ++ back := by
    have nodup := (List.nodup_cons.mp inv.isRing.nodup).2
    rw [List.nodup_middle, List.nodup_cons] at nodup
    exact nodup.1
  have kept : ∀ id, id ≠ running → (id ∈ front ++ back ↔ id ∈ front ++ running :: back) := by
    intro id different
    simp [different]
  refine ⟨front ++ back, inv.isRing.next_mem_rest, ?_⟩
  constructor
  case isRing => exact inv.isRing.unlink
  case routines =>
      intro id inside
      have different : id ≠ running := fun same => distinct (same ▸ inside)
      exact inv.routines id ((kept id different).mp inside)
  case ready =>
      intro id routine
      by_cases same : id = running
      · subst same
        constructor
        · exact fun inside => absurd inside distinct
        · rintro (zero | quiet)
          · exact absurd zero (Nat.pos_iff_ne_zero.mp routine.1)
          · exact absurd quiet waits
      · rw [kept id same, inv.ready id routine]
        constructor
        · rintro (runs | quiet)
          · exact absurd runs same
          · exact .inr quiet
        · rintro (zero | quiet)
          · exact absurd zero (Nat.pos_iff_ne_zero.mp routine.1)
          · exact .inr quiet
  case balanced =>
      intro id routine
      by_cases same : id = running
      · subst same
        have before := inv.balanced id routine
        rw [if_pos member] at before
        change Function.update state.blocks id (state.blocks id + 1) id = state.wakeups id + _
        rw [Function.update_self, if_neg distinct, before]
      · have before := inv.balanced id routine
        change Function.update state.blocks running (state.blocks running + 1) id = _
        rw [Function.update_of_ne same, before]
        simp [same]
  case inactive =>
      intro id routine out
      change Function.update state.active running false id = false
      by_cases same : id = running
      · rw [same, Function.update_self]
      · rw [Function.update_of_ne same]
        exact inv.inactive id routine fun inside => out ((kept id same).mpr inside)
  case pendingCounts => exact inv.pendingCounts
  case replyCounts => exact inv.replyCounts
  case outside => exact inv.outside
  case stored =>
      intro id routine
      exact ⟨(inv.stored id routine).contiguous, (inv.stored id routine).cursor⟩

theorem WellScheduled.indirectYield {after : State} (inv : WellScheduled config state)
    (stepped : indirectYield state = some after) : WellScheduled config after := by
  obtain ⟨ring, inv, current⟩ := inv
  unfold Core.indirectYield at stepped
  split at stepped
  · cases stepped
  · rename_i routine
    obtain ⟨member, active⟩ := current.resolve_left routine
    split at stepped
    · cases stepped
      exact ⟨ring, inv, current⟩
    · rename_i pending
      have waits : ¬ state.Quiet state.current := by
        rw [inv.pendingCounts, inv.replyCounts] at pending
        exact pending
      simp only [yieldFromRoutineList] at stepped
      rw [if_pos active, Option.some.injEq] at stepped
      obtain ⟨rest, next, left⟩ := inv.leave member waits
      rw [← stepped]
      exact left.yieldTo next

/-- A routine of the ring that waits for nothing can be left where it is. -/
theorem Inv.pause (inv : Inv config running state ring) (quiet : state.Quiet running) :
    Inv config 0 { state with active := Function.update state.active running false } ring where
  isRing := inv.isRing
  routines := inv.routines
  ready := by
    intro id routine
    rw [inv.ready id routine]
    constructor
    · rintro (rfl | others)
      · exact .inr quiet
      · exact .inr others
    · rintro (zero | others)
      · exact absurd zero (Nat.pos_iff_ne_zero.mp routine.1)
      · exact .inr others
  balanced := inv.balanced
  inactive := by
    intro id routine out
    change Function.update state.active running false id = false
    by_cases same : id = running
    · rw [same, Function.update_self]
    · rw [Function.update_of_ne same]
      exact inv.inactive id routine out
  pendingCounts := inv.pendingCounts
  replyCounts := inv.replyCounts
  outside := inv.outside
  stored id routine := ⟨(inv.stored id routine).contiguous, (inv.stored id routine).cursor⟩

theorem WellScheduled.yieldNext {after : State} (inv : WellScheduled config state)
    (stepped : yieldNext state = some after) : WellScheduled config after := by
  obtain ⟨ring, inv, current⟩ := inv
  simp only [Core.yieldNext] at stepped
  split at stepped
  · rename_i idle
    obtain ⟨routine, noPending, noReplies⟩ := idle
    cases stepped
    obtain ⟨member, _⟩ := current.resolve_left routine
    rw [inv.pendingCounts] at noPending
    rw [inv.replyCounts] at noReplies
    have paused := inv.pause ⟨noPending, noReplies⟩
    refine paused.yieldTo ?_
    obtain ⟨front, back, rfl⟩ := List.append_of_mem member
    have next := inv.isRing.next_mem_rest
    rw [List.mem_cons, List.mem_append] at next ⊢
    rw [List.mem_cons]
    exact next.imp_right fun inside => inside.imp_right .inr
  · cases stepped

/-! ## Requests -/

/-- A change of what is under way for one routine. -/
structure Change (config : Config) (state after : State) (id : Nat) : Prop where
  next : after.next = state.next
  prev : after.prev = state.prev
  tailer : after.tailer = state.tailer
  active : after.active = state.active
  blocks : after.blocks = state.blocks
  wakeups : after.wakeups = state.wakeups
  others : ∀ other, other ≠ id → (after.Quiet other ↔ state.Quiet other)
  pendingCounts : ∀ other, after.pendingCounts other = after.completions other
  replyCounts : ∀ other, after.replyCounts other = after.replies other
  stored : ∀ other, config.Routine other → Stored after other

theorem Change.outside {after : State} {id : Nat} (change : Change config state after id)
    (inv : Inv config running state ring) (routine : config.Routine id) :
    ∀ other, ¬ config.Routine other → after.Quiet other := by
  intro other stranger
  have different : other ≠ id := fun same => stranger (same ▸ routine)
  exact (change.others other different).mpr (inv.outside other stranger)

/-- The invariant survives a change that leaves the ring right. -/
theorem Inv.change {after : State} {id : Nat} (inv : Inv config running state ring)
    (routine : config.Routine id) (change : Change config state after id)
    (ready : id ∈ ring ↔ id = running ∨ after.Quiet id) : Inv config running after ring where
  isRing := by
    rw [change.next, change.prev, change.tailer]
    exact inv.isRing
  routines := inv.routines
  ready := by
    intro other known
    by_cases same : other = id
    · rw [same]
      exact ready
    · rw [change.others other same]
      exact inv.ready other known
  balanced := by
    rw [change.blocks, change.wakeups]
    exact inv.balanced
  inactive := by
    rw [change.active]
    exact inv.inactive
  pendingCounts := change.pendingCounts
  replyCounts := change.replyCounts
  outside := change.outside inv routine
  stored := change.stored

theorem WellScheduled.addPending {after : State} (inv : WellScheduled config state)
    (stepped : addPending state = some after) : WellScheduled config after := by
  obtain ⟨ring, inv, current⟩ := inv
  simp only [Core.addPending] at stepped
  split at stepped
  · cases stepped
  · rename_i routine
    cases stepped
    obtain ⟨member, _⟩ := current.resolve_left routine
    have ready : ∀ quiet, state.current ∈ ring ↔ state.current = state.current ∨ quiet :=
      fun _ => ⟨fun _ => .inl rfl, fun _ => member⟩
    refine ⟨ring, inv.change (inv.routines _ member)
      ⟨rfl, rfl, rfl, rfl, rfl, rfl, ?_, ?_, inv.replyCounts, ?_⟩ (ready _), current⟩
    · intro id different
      simp [State.Quiet, different]
    · intro id
      by_cases same : id = state.current
      · subst same
        simp [inv.pendingCounts]
      · simp [same, inv.pendingCounts]
    · intro id known
      exact ⟨(inv.stored id known).contiguous, (inv.stored id known).cursor⟩

theorem WellScheduled.prepareMultiReq {after : State} {replyBuf numOfReplies : Nat}
    (inv : WellScheduled config state)
    (stepped : prepareMultiReq state replyBuf numOfReplies = some after) :
    WellScheduled config after := by
  obtain ⟨ring, inv, current⟩ := inv
  simp only [Core.prepareMultiReq] at stepped
  split at stepped
  · cases stepped
  · rename_i legal
    cases stepped
    obtain ⟨member, _⟩ := current.resolve_left fun zero => legal (.inl zero)
    have ready : ∀ quiet, state.current ∈ ring ↔ state.current = state.current ∨ quiet :=
      fun _ => ⟨fun _ => .inl rfl, fun _ => member⟩
    refine ⟨ring, inv.change (inv.routines _ member)
      ⟨rfl, rfl, rfl, rfl, rfl, rfl, ?_, inv.pendingCounts, ?_, ?_⟩ (ready _), current⟩
    · intro id different
      simp [State.Quiet, different]
    · intro id
      by_cases same : id = state.current
      · subst same
        simp [inv.replyCounts]
      · simp [same, inv.replyCounts]
    · intro id known
      by_cases same : id = state.current
      · subst same
        constructor
        · simp [Memory.read]
        · simp
      · have before := inv.stored id known
        constructor
        · simpa [same] using before.contiguous
        · simpa [same] using before.cursor

/-! ## Polling -/

/-- A waiting routine is put back when nothing is under way for it any more. -/
theorem Inv.wake {after : State} {id : Nat} (inv : Inv config 0 state ring)
    (routine : config.Routine id) (out : id ∉ ring) (change : Change config state after id)
    (quiet : after.Quiet id) : Inv config 0 (addToRoutineList after id) (ring ++ [id]) := by
  have asleep : after.active id = false := by
    rw [change.active]
    exact inv.inactive id routine out
  have new : id ∉ 0 :: ring := by
    rw [List.mem_cons]
    exact not_or.mpr ⟨Nat.pos_iff_ne_zero.mp routine.1, out⟩
  have member : ∀ other, other ≠ id → (other ∈ ring ++ [id] ↔ other ∈ ring) := by
    intro other different
    simp [different]
  have inside : id ∈ ring ++ [id] := by simp
  rw [addToRoutineList, if_neg (by simp [asleep])]
  constructor
  case isRing =>
      rw [change.next, change.prev, change.tailer]
      exact inv.isRing.append new
  case routines =>
      intro other known
      rcases List.mem_append.mp known with known | known
      · exact inv.routines other known
      · rw [List.mem_singleton.mp known]
        exact routine
  case ready =>
      intro other known
      by_cases same : other = id
      · subst same
        exact ⟨fun _ => .inr quiet, fun _ => inside⟩
      · rw [member other same, inv.ready other known]
        exact or_congr_right (change.others other same).symm
  case balanced =>
      intro other known
      have before := inv.balanced other known
      rw [← change.blocks, ← change.wakeups] at before
      dsimp only
      by_cases same : other = id
      · subst same
        rw [if_neg out] at before
        rw [if_pos inside, Function.update_self]
        exact before
      · rw [Function.update_of_ne same, before]
        simp [same]
  case inactive =>
      intro other known notMember
      have different : other ≠ id := fun same => notMember (same ▸ inside)
      rw [change.active]
      exact inv.inactive other known fun old => notMember ((member other different).mpr old)
  case pendingCounts => exact change.pendingCounts
  case replyCounts => exact change.replyCounts
  case outside => exact change.outside inv routine
  case stored =>
      intro other known
      exact ⟨(change.stored other known).contiguous, (change.stored other known).cursor⟩

/-- A routine that something arrives for is a routine outside the ring. -/
theorem Inv.waiting (inv : Inv config 0 state ring) {id : Nat} (waits : ¬ state.Quiet id) :
    config.Routine id ∧ id ∉ ring := by
  have routine : config.Routine id := by
    by_contra stranger
    exact waits (inv.outside id stranger)
  refine ⟨routine, fun inside => ?_⟩
  rcases (inv.ready id routine).mp inside with zero | quiet
  · exact absurd zero (Nat.pos_iff_ne_zero.mp routine.1)
  · exact waits quiet

theorem addToRoutineList_current (state : State) (id : Nat) :
    (addToRoutineList state id).current = state.current := by
  unfold addToRoutineList
  split <;> rfl

/-- Arrival for a waiting routine: the scheduler goes on, with the routine back in the ring
if this was the last thing it waited for. -/
theorem Inv.arrive {after : State} {id : Nat} (inv : Inv config 0 state ring)
    (waits : ¬ state.Quiet id) (change : Change config state after id)
    (scheduler : after.current = 0) :
    (after.Quiet id → WellScheduled config (addToRoutineList after id)) ∧
      (¬ after.Quiet id → WellScheduled config after) := by
  obtain ⟨routine, out⟩ := inv.waiting waits
  constructor
  · intro quiet
    have current := (addToRoutineList_current after id).trans scheduler
    refine ⟨ring ++ [id], ?_, .inl current⟩
    rw [current]
    exact inv.wake routine out change quiet
  · intro still
    refine ⟨ring, ?_, .inl scheduler⟩
    rw [scheduler]
    refine inv.change routine change ⟨fun inside => absurd inside out, ?_⟩
    rintro (zero | quiet)
    · exact absurd zero (Nat.pos_iff_ne_zero.mp routine.1)
    · exact absurd quiet still

theorem WellScheduled.completion {after : State} {id : Nat} (few : config.coroutines < 128)
    (inv : WellScheduled config state) (stepped : completion state id = some after) :
    WellScheduled config after := by
  obtain ⟨ring, inv, _⟩ := inv
  unfold Core.completion at stepped
  split at stepped
  · rename_i legal
    obtain ⟨scheduler, under⟩ := legal
    rw [scheduler] at inv
    have waits : ¬ state.Quiet id := fun quiet => under quiet.1
    have positive := (inv.waiting waits).1.1
    have bound := (inv.waiting waits).1.2
    have number : id % 256 = id := by omega
    have change : Change config state { state with
        completions := Function.update state.completions id (state.completions id - 1)
        pendingCounts := Function.update state.pendingCounts id (state.pendingCounts id - 1) }
        id := by
      refine ⟨rfl, rfl, rfl, rfl, rfl, rfl, ?_, ?_, inv.replyCounts, ?_⟩
      · intro other different
        simp [State.Quiet, different]
      · intro other
        by_cases same : other = id
        · subst same
          simp [inv.pendingCounts]
        · simp [same, inv.pendingCounts]
      · intro other known
        exact ⟨(inv.stored other known).contiguous, (inv.stored other known).cursor⟩
    obtain ⟨woken, waiting⟩ := inv.arrive waits change scheduler
    have counted : state.pendingCounts id ≠ 0 := by
      rw [inv.pendingCounts]
      exact under
    simp only [pollComps, number] at stepped
    rw [if_neg (by omega), if_neg counted] at stepped
    have same : (Function.update state.pendingCounts id (state.pendingCounts id - 1) id = 0 ∧
        state.replyCounts id = 0) ↔ State.Quiet { state with
          completions := Function.update state.completions id (state.completions id - 1)
          pendingCounts := Function.update state.pendingCounts id (state.pendingCounts id - 1) }
          id := by
      simp [State.Quiet, inv.pendingCounts, inv.replyCounts]
    split at stepped
    · rename_i last
      cases stepped
      exact woken (same.mp last)
    · rename_i more
      cases stepped
      exact waiting fun quiet => more (same.mpr quiet)
  · cases stepped

/-- A reply is copied behind the ones before it. -/
theorem Stored.write {id : Nat} (before : Stored state id) (payload : List UInt8) :
    ((state.memory id).write (state.replyBase id + (state.received id).flatten.length)
      payload).read (state.replyBase id) (state.received id ++ [payload]).flatten.length =
      (state.received id ++ [payload]).flatten := by
  rw [List.flatten_concat, List.length_append, Memory.read_add, Memory.read_write_self,
    Memory.read_write_disjoint _ (.inl le_rfl), before.contiguous]

/-- What a reply changes, wherever the next one is to go. -/
theorem Inv.replyChange (inv : Inv config 0 state ring) {id : Nat} (waits : state.replies id ≠ 0)
    (payload : List UInt8) (cursor : Option Nat)
    (behind : state.replies id - 1 ≠ 0 → cursor =
      some (state.replyBase id + (state.received id ++ [payload]).flatten.length)) :
    Change config state { state with
      replies := Function.update state.replies id (state.replies id - 1)
      received := Function.update state.received id (state.received id ++ [payload])
      memory := Function.update state.memory id ((state.memory id).write
        (state.replyBase id + (state.received id).flatten.length) payload)
      replyBufs := Function.update state.replyBufs id cursor
      replyCounts := Function.update state.replyCounts id (state.replyCounts id - 1) } id := by
  refine ⟨rfl, rfl, rfl, rfl, rfl, rfl, ?_, inv.pendingCounts, ?_, ?_⟩
  · intro other different
    simp [State.Quiet, different]
  · intro other
    by_cases same : other = id
    · subst same
      simp [inv.replyCounts]
    · simp [same, inv.replyCounts]
  · intro other known
    have before := inv.stored other known
    by_cases same : other = id
    · subst same
      constructor
      · simpa using before.write payload
      · simpa using behind
    · constructor
      · simpa [same] using before.contiguous
      · simpa [same] using before.cursor

theorem WellScheduled.reply {after : State} {id : Nat} {payload : List UInt8}
    (few : config.coroutines < 128) (inv : WellScheduled config state)
    (stepped : reply state id payload = some after) : WellScheduled config after := by
  obtain ⟨ring, inv, _⟩ := inv
  unfold Core.reply at stepped
  split at stepped
  · rename_i legal
    obtain ⟨scheduler, under⟩ := legal
    rw [scheduler] at inv
    have waits : ¬ state.Quiet id := fun quiet => under quiet.2
    obtain ⟨routine, _⟩ := inv.waiting waits
    have positive := routine.1
    have bound := routine.2
    have number : id % 128 = id := by omega
    have counted : state.replyCounts id ≠ 0 := by
      rw [inv.replyCounts]
      exact under
    simp only [pollCompCallback, number] at stepped
    rw [if_neg (by omega), if_neg counted, (inv.stored id routine).cursor under,
      Option.map_some, Option.some.injEq] at stepped
    have behind : state.replyBase id + (state.received id).flatten.length + payload.length =
        state.replyBase id + (state.received id ++ [payload]).flatten.length := by
      rw [List.flatten_concat, List.length_append, Nat.add_assoc]
    rw [behind] at stepped
    split at stepped
    · rename_i last
      simp only [Function.update_self] at last
      -- The buffer pointer is cleared when nothing is under way any more.
      have change := inv.replyChange under payload none (by
        rw [inv.replyCounts] at last
        exact fun more => absurd last.1 more)
      rw [Function.update_idem] at stepped
      rw [← stepped]
      refine (inv.arrive waits change scheduler).1 ?_
      simpa [State.Quiet, inv.pendingCounts, inv.replyCounts, and_comm] using last
    · rename_i more
      simp only [Function.update_self] at more
      have change := inv.replyChange under payload
        (some (state.replyBase id + (state.received id ++ [payload]).flatten.length))
        fun _ => rfl
      rw [← stepped]
      refine (inv.arrive waits change scheduler).2 fun quiet => more ?_
      simpa [State.Quiet, inv.pendingCounts, inv.replyCounts, and_comm] using quiet
  · cases stepped

/-! ## Runs -/

/-- One step keeps the invariant. -/
theorem WellScheduled.step {after : State} {action : Action} (few : config.coroutines < 128)
    (inv : WellScheduled config state) (stepped : step state action = some after) :
    WellScheduled config after := by
  cases action with
  | schedule => exact inv.schedule stepped
  | addPending => exact inv.addPending stepped
  | prepareMultiReq replyBuf numOfReplies => exact inv.prepareMultiReq stepped
  | indirectYield => exact inv.indirectYield stepped
  | yieldNext => exact inv.yieldNext stepped
  | completion id => exact inv.completion few stepped
  | reply id payload => exact inv.reply few stepped

theorem WellScheduled.reach (few : config.coroutines < 128)
    (reach : Reachable Core.step (State.initial config) state) : WellScheduled config state :=
  reach.invariant (WellScheduled config) (.initial config)
    fun _ _ _ inv _ stepped => inv.step few stepped

theorem WellScheduled.live (few : config.coroutines < 128) (inv : WellScheduled config state) :
    Live state := by
  obtain ⟨ring, inv, current⟩ := inv
  have waiting : ∀ id, state.current = 0 → ¬ state.Quiet id → config.Routine id := by
    intro id scheduler waits
    rw [scheduler] at inv
    exact (inv.waiting waits).1
  constructor
  case completion =>
      intro id scheduler under
      obtain ⟨positive, bound⟩ := waiting id scheduler fun quiet => under quiet.1
      have number : id % 256 = id := by omega
      have counted : state.pendingCounts id ≠ 0 := by
        rw [inv.pendingCounts]
        exact under
      simp only [Core.step, Core.completion, pollComps, number]
      rw [if_pos ⟨scheduler, under⟩, if_neg (by omega), if_neg counted]
      split <;> rfl
  case reply =>
      intro id payload scheduler under
      have routine := waiting id scheduler fun quiet => under quiet.2
      have positive := routine.1
      have bound := routine.2
      have number : id % 128 = id := by omega
      have counted : state.replyCounts id ≠ 0 := by
        rw [inv.replyCounts]
        exact under
      simp only [Core.step, Core.reply, pollCompCallback, number]
      rw [if_pos ⟨scheduler, under⟩, if_neg (by omega), if_neg counted,
        (inv.stored id routine).cursor under]
      rfl
  case indirectYield =>
      intro routine
      obtain ⟨_, active⟩ := current.resolve_left routine
      simp only [Core.step, Core.indirectYield, yieldFromRoutineList]
      rw [if_neg routine, if_pos active]
      split <;> rfl

end Rocc.Core
