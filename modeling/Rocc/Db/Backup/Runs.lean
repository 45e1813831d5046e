import Rocc.Db.Backup.Model

/-!
# Every log is cleaned once

What a thread has logged splits into logs that are cleaned and logs that are in the ring, and of
the first of those the worker may have cleaned some entries.
-/

namespace Rocc.Db.Backup

open DbLogger Memory

universe u v

/-! ## The first log of a ring -/

section Ring

variable {ring after : Ring.State} {counters : Ring.Counters} {sent : Ring.Sent}
variable {logs : List Ring.Sent} {call : Ring.Call}

/-- The log in the ring is what the call made. -/
def IsSent (call : Ring.Call) (sent : Ring.Sent) : Prop :=
  ∃ log, logged call.config call.rmalloc call.globalSeq call.entries call.seq = some log ∧
    sent.image = log.image

/-- The bytes of the first log are at the place that the backup polls. -/
theorem holds_first (inv : Ring.Inv ring counters) (listed : ring.logs = sent :: logs) :
    ring.memory.Holds ring.tailOffset sent.block := by
  have fits := inv.fits
  have room : span ([] ++ sent.block :: logs.map Ring.Sent.block) ≤ Ring.threadBufSize := by
    rw [← Ring.span_blocks inv.images, listed] at fits
    exact Nat.le_of_add_right_le fits
  have first := @lay_holds Ring.threadBufSize counters.cleaned [] _ _ room
  rw [span_nil, Nat.add_zero, List.nil_append] at first
  rw [inv.memory, inv.tailOffset, listed]
  exact first

/-- The pieces of the first log when its write has arrived. -/
theorem placed_first (inv : Ring.Inv ring counters) (listed : ring.logs = sent :: logs)
    (landed : sent.landed) (isSent : IsSent call sent) :
    sent.image.length = totalSize call.entries ∧
      Placed ring.memory ring.tailOffset (totalSize call.entries) call.globalSeq call.entries
        call.seq := by
  obtain ⟨log, made, image⟩ := isSent
  obtain ⟨_, same, isTotal, placed⟩ := placed_of_logged call.config call.rmalloc call.globalSeq
    call.entries call.seq call.small
  obtain rfl := Option.some.inj (made.symm.trans same)
  have holds := holds_first inv listed
  rw [Ring.Sent.block, if_pos landed, holds_append, image] at holds
  refine ⟨?_, placed _ _ holds.1⟩
  rw [image, TempLog.image, length_read, isTotal]

/-- A log stays in the ring, and what has arrived stays there. -/
structure Keeps (old new : Ring.Sent) : Prop where
  image : new.image = old.image
  landed : old.landed → new.landed
  acked : old.acked → new.acked

theorem Keeps.refl (sent : Ring.Sent) : Keeps sent sent := ⟨rfl, id, id⟩

theorem keeps_set {logs : List Ring.Sent} {index : Nat} {old new : Ring.Sent}
    (listed : logs[index]? = some old) (keeps : Keeps old new) :
    List.Forall₂ Keeps logs (logs.set index new) := by
  induction logs generalizing index with
  | nil => simp at listed
  | cons first rest ih =>
      cases index with
      | zero =>
          cases listed
          exact .cons keeps (List.forall₂_same.mpr fun sent _ => .refl sent)
      | succ index => exact .cons (.refl first) (ih listed)

/-- What the thread and the network do to the logs. -/
structure Kept (ring after : Ring.State) : Prop where
  tailOffset : after.tailOffset = ring.tailOffset
  logs : List.Forall₂ Keeps ring.logs after.logs

theorem kept_of_land {index : Nat} (landed : Ring.step ring (.land index) = some after) :
    Kept ring after := by
  rw [Ring.step, Ring.State.land] at landed
  split at landed
  · rename_i sent listed
    split at landed
    · cases landed
    · cases landed
      exact ⟨rfl, keeps_set listed ⟨rfl, fun _ => rfl, id⟩⟩
  · cases landed

theorem kept_of_ack {index : Nat} (acked : Ring.step ring (.ack index) = some after) :
    Kept ring after := by
  rw [Ring.step, Ring.State.ack] at acked
  split at acked
  · rename_i sent listed
    split at acked
    · cases acked
    · cases acked
      exact ⟨rfl, keeps_set listed ⟨rfl, id, fun _ => rfl⟩⟩
  · cases acked

theorem kept_of_feedback (stepped : Ring.step ring .feedback = some after) : Kept ring after := by
  rw [Ring.step] at stepped
  split at stepped
  · cases stepped
  · cases stepped
    exact ⟨rfl, List.forall₂_same.mpr fun sent _ => .refl sent⟩

/-- A call adds its log. -/
theorem logs_of_log (stepped : Ring.step ring (.log call) = some after) :
    after.tailOffset = ring.tailOffset ∧
      ∃ sent, IsSent call sent ∧ after.logs = ring.logs ++ [sent] := by
  obtain ⟨log, made, setup⟩ := Option.bind_eq_some_iff.mp stepped
  obtain ⟨⟨offset, next⟩, done, rfl⟩ := Option.map_eq_some_iff.mp setup
  obtain ⟨remain, _, rfl, rfl⟩ := Ring.logSetup_eq_some done
  exact ⟨rfl, _, ⟨log, made, rfl⟩, rfl⟩

end Ring

/-! ## The worker -/

section Worker

variable {ring after : Ring.State} {cursor : Cursor} {call : Ring.Call} {first last : List Entry}

/-- The worker has cleaned `first` of the first log and not `last`. -/
structure Cleaning (ring : Ring.State) (cursor : Cursor) (call : Ring.Call)
    (first last : List Entry) : Prop where
  found : ∃ sent logs, ring.logs = sent :: logs ∧ sent.landed ∧ sent.acked
  entries : call.entries = first ++ last
  tailerPtr : cursor.tailerPtr + txTailerSize = ring.tailOffset + totalSize call.entries
  globalSeq : cursor.globalSeq = if call.globalSeq = 0 then none else some call.seq
  ptr : cursor.ptr = ring.tailOffset + 8 + txHeaderSize + (entriesBytes first).length

theorem entriesBytes_append (first last : List Entry) :
    entriesBytes (first ++ last) = entriesBytes first ++ entriesBytes last :=
  List.flatMap_append

theorem Cleaning.kept (cleaning : Cleaning ring cursor call first last)
    (tailOffset : after.tailOffset = ring.tailOffset) {new : List Ring.Sent}
    (logs : ∃ old, List.Forall₂ Keeps ring.logs old ∧ after.logs = old ++ new) :
    Cleaning after cursor call first last := by
  obtain ⟨sent, rest, listed, landed, acked⟩ := cleaning.found
  obtain ⟨old, kept, isAfter⟩ := logs
  rw [listed] at kept
  obtain ⟨next, others, keeps, -, rfl⟩ := List.forall₂_cons_left_iff.mp kept
  exact
    { cleaning with
      found := ⟨next, others ++ new, isAfter, keeps.landed landed, keeps.acked acked⟩
      tailerPtr := tailOffset ▸ cleaning.tailerPtr
      ptr := tailOffset ▸ cleaning.ptr }

/-- The loop of `clean_log` ends behind the last entry. -/
theorem Cleaning.atEnd_iff (cleaning : Cleaning ring cursor call first last)
    (placed : Placed ring.memory ring.tailOffset (totalSize call.entries) call.globalSeq
      call.entries call.seq) : cursor.AtEnd ↔ last = [] := by
  have before := placed.before
  have near := placed.near
  have tailerPtr := cleaning.tailerPtr
  rw [cleaning.entries, entriesBytes_append, List.length_append] at before near
  rw [cleaning.entries] at tailerPtr
  rw [Cursor.AtEnd, cleaning.ptr, roundUpBase]
  cases last with
  | nil =>
      rw [List.append_nil] at before near tailerPtr
      have none : (entriesBytes []).length = 0 := rfl
      simp only [iff_true]
      omega
  | cons entry rest =>
      have size : (entriesBytes (entry :: rest)).length =
          entryMetaSize + entry.value.length + (entriesBytes rest).length := by
        rw [← entry.length_bytes, ← List.length_append]
        rfl
      rw [entryMetaSize] at size
      simp only [reduceCtorEq, iff_false]
      omega

/-- The loop gets the next entry. -/
theorem Cleaning.next {entry : Entry} {rest : List Entry}
    (cleaning : Cleaning ring cursor call first (entry :: rest))
    (placed : Placed ring.memory ring.tailOffset (totalSize call.entries) call.globalSeq
      call.entries call.seq) :
    ofBytes (ring.memory.read (cursor.ptr + 4) 4) = entry.value.length ∧
      entryAt ring.memory cursor.globalSeq cursor.ptr entry.value.length =
        entry.cleaned cursor.globalSeq := by
  have body := placed.body
  have cut : entriesBytes (entry :: rest) = entry.bytes ++ entriesBytes rest := rfl
  rw [cleaning.entries, entriesBytes_append, holds_append, ← cleaning.ptr, cut,
    holds_append] at body
  have small := call.small
  have before := placed.before
  have padding : threadPaddingSize = 32 * 1024 := rfl
  rw [cleaning.entries, entriesBytes_append, cut, List.length_append, List.length_append,
    entry.length_bytes] at before
  rw [cleaning.entries] at small
  exact ⟨size_of_holds body.2.1 (by omega), entryAt_of_holds body.2.1⟩

/-- One entry further. -/
theorem Cleaning.step {entry : Entry} {rest : List Entry}
    (cleaning : Cleaning ring cursor call first (entry :: rest)) :
    Cleaning ring { cursor with ptr := cursor.ptr + entryMetaSize + entry.value.length } call
      (first ++ [entry]) rest where
  found := cleaning.found
  entries := by rw [cleaning.entries, List.append_assoc, List.singleton_append]
  tailerPtr := cleaning.tailerPtr
  globalSeq := cleaning.globalSeq
  ptr := by
    have last : entriesBytes [entry] = entry.bytes := List.append_nil _
    rw [entriesBytes_append, List.length_append, last, entry.length_bytes]
    simp only [cleaning.ptr]
    omega

end Worker

/-! ## The invariant -/

/-- The logs in `pending` are in the ring, and those in `done` are cleaned. -/
structure ThreadInv (ring : Ring.State) (cleaning : Option Cursor) (calls : List Ring.Call)
    (cleaned : List Entry) (done pending : List Ring.Call) : Prop where
  sound : ∃ counters, Ring.Inv ring counters
  calls : calls = done ++ pending
  logs : List.Forall₂ IsSent pending ring.logs
  cleaned : match cleaning with
    | none => cleaned = done.flatMap toClean
    | some cursor => ∃ call rest first last, pending = call :: rest ∧
        Cleaning ring cursor call first last ∧
        cleaned = done.flatMap toClean ++ first.map (Entry.cleaned cursor.globalSeq)

namespace ThreadInv

variable {ring after : Ring.State} {cleaning : Option Cursor} {calls : List Ring.Call}
variable {cleaned : List Entry} {done pending : List Ring.Call}

theorem isSent_of_keeps {old new : List Ring.Sent} (isSent : List.Forall₂ IsSent pending old)
    (keeps : List.Forall₂ Keeps old new) : List.Forall₂ IsSent pending new := by
  induction isSent generalizing new with
  | nil =>
      rw [List.forall₂_nil_left_iff.mp keeps]
      exact .nil
  | cons first _ ih =>
      obtain ⟨sent, others, kept, rest, rfl⟩ := List.forall₂_cons_left_iff.mp keeps
      obtain ⟨log, made, image⟩ := first
      exact .cons ⟨log, made, kept.image.trans image⟩ (ih rest)

/-- The thread and the network leave alone what is cleaned. -/
theorem grow (inv : ThreadInv ring cleaning calls cleaned done pending)
    (sound : ∃ counters, Ring.Inv after counters) (tailOffset : after.tailOffset = ring.tailOffset)
    {old new : List Ring.Sent} {more : List Ring.Call} (kept : List.Forall₂ Keeps ring.logs old)
    (logs : after.logs = old ++ new) (isSent : List.Forall₂ IsSent more new) :
    ThreadInv after cleaning (calls ++ more) cleaned done (pending ++ more) where
  sound := sound
  calls := by rw [inv.calls, List.append_assoc]
  logs := by
    rw [logs]
    exact List.rel_append (isSent_of_keeps inv.logs kept) isSent
  cleaned := by
    have cleaned := inv.cleaned
    cases cleaning with
    | none => exact cleaned
    | some cursor =>
        obtain ⟨call, rest, first, last, rfl, walking, isCleaned⟩ := cleaned
        exact ⟨call, rest ++ more, first, last, rfl, walking.kept tailOffset ⟨old, kept, logs⟩,
          isCleaned⟩

/-- A step of the network. -/
theorem kept (inv : ThreadInv ring cleaning calls cleaned done pending)
    (sound : ∃ counters, Ring.Inv after counters) (kept : Kept ring after) :
    ThreadInv after cleaning calls cleaned done pending := by
  have same := inv.grow sound kept.tailOffset kept.logs (List.append_nil _).symm .nil
  rwa [List.append_nil, List.append_nil] at same

/-- The thread logs. -/
theorem log (inv : ThreadInv ring cleaning calls cleaned done pending) {call : Ring.Call}
    (stepped : Ring.step ring (.log call) = some after) :
    ThreadInv after cleaning (calls ++ [call]) cleaned done (pending ++ [call]) := by
  obtain ⟨tailOffset, sent, isSent, logs⟩ := logs_of_log stepped
  have same : List.Forall₂ Keeps ring.logs ring.logs :=
    List.forall₂_same.mpr fun sent _ => .refl sent
  exact inv.grow (Ring.inv_step inv.sound stepped) tailOffset same logs (.cons isSent .nil)

/-- The log that the worker finds is the first one that is not cleaned. -/
theorem exists_first (inv : ThreadInv ring cleaning calls cleaned done pending) {sent : Ring.Sent}
    {logs : List Ring.Sent} (listed : ring.logs = sent :: logs) :
    ∃ call rest, pending = call :: rest ∧ IsSent call sent ∧ List.Forall₂ IsSent rest logs := by
  have isSent := inv.logs
  rw [listed] at isSent
  obtain ⟨call, rest, first, others, rfl⟩ := List.forall₂_cons_right_iff.mp isSent
  exact ⟨call, rest, rfl, first, others⟩

/-- The worker finds a log. -/
theorem find (inv : ThreadInv ring none calls cleaned done pending) {tailerPtr size : Nat}
    (found : checkLogCompletion ring.memory ring.tailOffset = some (tailerPtr, size)) :
    ThreadInv ring
      (some
        { tailerPtr
          globalSeq :=
            if ring.memory.readWord (ring.tailOffset + 8 + 8) = 0 then none
            else some (UInt64.ofNat (ring.memory.readWord (tailerPtr + 8)))
          ptr := ring.tailOffset + 8 + txHeaderSize }) calls cleaned done pending := by
  obtain ⟨counters, sound⟩ := inv.sound
  have check := sound.check
  rw [found] at check
  cases listed : ring.logs with
  | nil =>
      rw [listed] at check
      cases check
  | cons sent logs =>
      rw [listed] at check
      dsimp only at check
      split at check
      · rename_i arrived
        obtain ⟨call, rest, rfl, isSent, _⟩ := inv.exists_first listed
        obtain ⟨sized, placed⟩ := placed_first sound listed arrived.1 isSent
        have before := placed.before
        have tailer := congrArg Prod.fst (Option.some.inj check)
        simp only at tailer
        rw [sized] at tailer
        refine ⟨inv.sound, inv.calls, inv.logs, call, rest, [], call.entries, rfl, ?_, ?_⟩
        · refine ⟨⟨sent, logs, listed, arrived⟩, rfl, ?_, ?_, rfl⟩
          · simp only [tailer]
            omega
          · simp only [tailer, placed.headerSeq, placed.tailerSeq, UInt64.ofNat_toNat]
            exact if_congr (@UInt64.toNat_inj call.globalSeq 0) rfl rfl
        · rw [List.map_nil, List.append_nil]
          exact inv.cleaned
      · cases check

/-- The pieces of the log that the worker is at. -/
theorem placed {call : Ring.Call} {rest : List Ring.Call} {cursor : Cursor}
    {first last : List Entry}
    (inv : ThreadInv ring (some cursor) calls cleaned done (call :: rest))
    (walking : Cleaning ring cursor call first last) :
    Placed ring.memory ring.tailOffset (totalSize call.entries) call.globalSeq call.entries
      call.seq := by
  obtain ⟨counters, sound⟩ := inv.sound
  obtain ⟨sent, logs, listed, landed, _⟩ := walking.found
  obtain ⟨_, _, same, isSent, _⟩ := inv.exists_first listed
  cases same
  exact (placed_first sound listed landed isSent).2

/-- An entry is cleaned. -/
theorem clean {cursor : Cursor} (inv : ThreadInv ring (some cursor) calls cleaned done pending)
    (goes : ¬ cursor.AtEnd) :
    let size := ofBytes (ring.memory.read (cursor.ptr + 4) 4)
    ThreadInv ring (some { cursor with ptr := cursor.ptr + entryMetaSize + size }) calls
      (cleaned ++ [entryAt ring.memory cursor.globalSeq cursor.ptr size]) done pending := by
  obtain ⟨call, rest, first, last, rfl, walking, isCleaned⟩ := inv.cleaned
  have placed := inv.placed walking
  cases last with
  | nil => exact absurd ((walking.atEnd_iff placed).mpr rfl) goes
  | cons entry others =>
      obtain ⟨size, read⟩ := walking.next placed
      dsimp only
      rw [size, read]
      refine ⟨inv.sound, inv.calls, inv.logs, call, rest, first ++ [entry], others, rfl,
        walking.step, ?_⟩
      rw [isCleaned, List.map_append, List.append_assoc]
      rfl

/-- The entry that the loop gets was logged. -/
theorem mem_calls {cursor : Cursor}
    (inv : ThreadInv ring (some cursor) calls cleaned done pending) (goes : ¬ cursor.AtEnd) :
    entryAt ring.memory cursor.globalSeq cursor.ptr
      (ofBytes (ring.memory.read (cursor.ptr + 4) 4)) ∈ calls.flatMap toClean := by
  obtain ⟨call, rest, first, last, rfl, walking, _⟩ := inv.cleaned
  have placed := inv.placed walking
  cases last with
  | nil => exact absurd ((walking.atEnd_iff placed).mpr rfl) goes
  | cons entry others =>
      obtain ⟨size, read⟩ := walking.next placed
      rw [size, read, walking.globalSeq, inv.calls]
      refine List.mem_flatMap.mpr ⟨call, by simp, List.mem_map_of_mem ?_⟩
      rw [walking.entries]
      simp

/-- The log is cleared. -/
theorem clear {cursor : Cursor} (inv : ThreadInv ring (some cursor) calls cleaned done pending)
    (ends : cursor.AtEnd) :
    ∃ call rest, pending = call :: rest ∧
      ThreadInv ring.poll none calls cleaned (done ++ [call]) rest := by
  obtain ⟨call, rest, first, last, rfl, walking, isCleaned⟩ := inv.cleaned
  have placed := inv.placed walking
  obtain rfl := (walking.atEnd_iff placed).mp ends
  obtain ⟨counters, sound⟩ := inv.sound
  obtain ⟨sent, logs, listed, landed, acked⟩ := walking.found
  obtain ⟨_, _, same, _, others⟩ := inv.exists_first listed
  cases same
  refine ⟨call, rest, rfl, sound.poll, ?_, ?_, ?_⟩
  · rw [inv.calls, List.append_assoc]
    rfl
  · rw [sound.poll_eq listed landed acked]
    dsimp only
    split <;> exact others
  · have all := walking.entries
    rw [List.append_nil] at all
    simp only [List.flatMap_append, List.flatMap_singleton, isCleaned, toClean, all,
      walking.globalSeq]

end ThreadInv

/-! ## The system -/

section System

variable {Thread : Type u} {Store : Type v} [DecidableEq Thread]
variable {cleanLog : Store → Entry → Option Store} {start : Store}
variable {state before after : State Thread Store}

/-- The store is what the cleaner made of the entries, and each ring is in order. -/
structure Inv (cleanLog : Store → Entry → Option Store) (start : Store)
    (state : State Thread Store) : Prop where
  store : (state.cleaned.map Prod.snd).foldlM cleanLog start = some state.store
  threads : ∀ thread, ∃ done pending, ThreadInv (state.rings thread) (state.cleaning thread)
    (state.calls thread) (state.cleanedOf thread) done pending

theorem inv_initial : Inv cleanLog start (State.initial start : State Thread Store) where
  store := rfl
  threads _ := ⟨[], [], ⟨_, Ring.inv_initial⟩, rfl, .nil, rfl⟩

/-- A step of one thread, its network or its worker leaves the other threads alone. -/
theorem Inv.update (inv : Inv cleanLog start before) (thread : Thread) {ring : Ring.State}
    {cleaning : Option Cursor} {calls : List Ring.Call}
    (rings : after.rings = Function.update before.rings thread ring)
    (cleanings : after.cleaning = Function.update before.cleaning thread cleaning)
    (called : after.calls = Function.update before.calls thread calls)
    (store : (after.cleaned.map Prod.snd).foldlM cleanLog start = some after.store)
    (others : ∀ other, other ≠ thread → after.cleanedOf other = before.cleanedOf other)
    (next : ∃ done pending, ThreadInv ring cleaning calls (after.cleanedOf thread) done pending) :
    Inv cleanLog start after where
  store := store
  threads other := by
    rw [rings, cleanings, called]
    by_cases same : other = thread
    · subst same
      simpa using next
    · rw [others other same]
      simpa [same] using inv.threads other

/-- A step of the network. -/
theorem Inv.send (inv : Inv cleanLog start before) {thread : Thread} {action : Ring.Action}
    (network : ∀ ring, Ring.step (before.rings thread) action = some ring →
      Kept (before.rings thread) ring)
    (stepped : send before thread action = some after) : Inv cleanLog start after := by
  obtain ⟨ring, moved, rfl⟩ := Option.map_eq_some_iff.mp stepped
  obtain ⟨done, pending, one⟩ := inv.threads thread
  refine inv.update thread rfl (Function.update_eq_self ..).symm (Function.update_eq_self ..).symm
    inv.store (fun _ _ => rfl) ⟨done, pending, ?_⟩
  exact one.kept (Ring.inv_step one.sound moved) (network ring moved)

/-- A thread logs. -/
theorem Inv.log (inv : Inv cleanLog start before) {thread : Thread} {call : Ring.Call}
    (stepped : log before thread call = some after) : Inv cleanLog start after := by
  obtain ⟨_, sent, rfl⟩ := Option.map_eq_some_iff.mp stepped
  obtain ⟨ring, moved, rfl⟩ := Option.map_eq_some_iff.mp sent
  obtain ⟨done, pending, one⟩ := inv.threads thread
  exact inv.update thread rfl (Function.update_eq_self ..).symm rfl inv.store (fun _ _ => rfl)
    ⟨done, pending ++ [call], one.log moved⟩

/-- A worker finds a log. -/
theorem Inv.find (inv : Inv cleanLog start before) {thread : Thread}
    (stepped : find before thread = some after) : Inv cleanLog start after := by
  rw [Backup.find] at stepped
  dsimp only at stepped
  split at stepped
  · rename_i idle found
    obtain ⟨done, pending, one⟩ := inv.threads thread
    rw [idle] at one
    cases stepped
    exact inv.update thread (Function.update_eq_self ..).symm rfl (Function.update_eq_self ..).symm
      inv.store (fun _ _ => rfl) ⟨done, pending, one.find found⟩
  · cases stepped

/-- An entry is added to those of its thread. -/
theorem cleanedOf_concat (state : State Thread Store) (cleaning : Thread → Option Cursor)
    (store : Store) (thread other : Thread) (entry : Entry) :
    State.cleanedOf { state with
      cleaning, store, cleaned := state.cleaned ++ [(thread, entry)] } other =
        state.cleanedOf other ++ if thread = other then [entry] else [] := by
  rw [State.cleanedOf, State.cleanedOf, List.filter_append, List.map_append]
  by_cases same : thread = other <;> simp [same]

/-- A worker cleans an entry. -/
theorem Inv.clean (inv : Inv cleanLog start before) {thread : Thread}
    (stepped : clean cleanLog before thread = some after) : Inv cleanLog start after := by
  rw [Backup.clean] at stepped
  split at stepped
  · rename_i cursor walking
    split at stepped
    · cases stepped
    · rename_i goes
      obtain ⟨store, cleaned, rfl⟩ := Option.map_eq_some_iff.mp stepped
      obtain ⟨done, pending, one⟩ := inv.threads thread
      rw [walking] at one
      refine inv.update thread (Function.update_eq_self ..).symm rfl
        (Function.update_eq_self ..).symm ?_ ?_ ⟨done, pending, ?_⟩
      · simp only [List.map_append, List.map_singleton, List.foldlM_append, inv.store]
        simpa using cleaned
      · intro other different
        rw [cleanedOf_concat, if_neg different.symm, List.append_nil]
      · rw [cleanedOf_concat, if_pos rfl]
        exact one.clean goes
  · cases stepped

/-- A worker clears a log. -/
theorem Inv.clear (inv : Inv cleanLog start before) {thread : Thread}
    (stepped : clear before thread = some after) : Inv cleanLog start after := by
  rw [Backup.clear] at stepped
  split at stepped
  · rename_i cursor walking
    split at stepped
    · rename_i ends
      obtain ⟨done, pending, one⟩ := inv.threads thread
      rw [walking] at one
      obtain ⟨call, rest, _, next⟩ := one.clear ends
      cases stepped
      exact inv.update thread rfl rfl (Function.update_eq_self ..).symm inv.store (fun _ _ => rfl)
        ⟨done ++ [call], rest, next⟩
    · cases stepped
  · cases stepped

/-- Every step keeps the invariant. -/
theorem inv_step {action : Action Thread} (inv : Inv cleanLog start before)
    (stepped : step cleanLog before action = some after) : Inv cleanLog start after := by
  cases action with
  | log thread call => exact inv.log stepped
  | land thread index => exact inv.send (fun _ moved => kept_of_land moved) stepped
  | ack thread index => exact inv.send (fun _ moved => kept_of_ack moved) stepped
  | feedback thread => exact inv.send (fun _ moved => kept_of_feedback moved) stepped
  | find thread => exact inv.find stepped
  | clean thread => exact inv.clean stepped
  | clear thread => exact inv.clear stepped

theorem inv_of_reachable (reach : Reachable (step cleanLog) (State.initial start) state) :
    Inv cleanLog start state :=
  reach.invariant _ inv_initial fun _ _ _ inv _ stepped => inv_step inv stepped

/-- A thread can log into its empty ring. -/
theorem exists_log (cleanLog : Store → Entry → Option Store) (state : State Thread Store)
    (thread : Thread) (call : Ring.Call) (empty : state.rings thread = Ring.initial) :
    ∃ after, step cleanLog state (.log thread call) = some after ∧
      (∀ other, other ≠ thread → after.rings other = state.rings other) ∧
      after.calls = Function.update state.calls thread (state.calls thread ++ [call]) ∧
      after.cleaned = state.cleaned := by
  obtain ⟨written, made, isTotal, _⟩ := placed_of_logged call.config call.rmalloc call.globalSeq
    call.entries call.seq call.small
  obtain ⟨⟨offset, next⟩, setup⟩ := Option.isSome_iff_exists.mp
    (Ring.inv_initial.ends rfl rfl (le_of_eq_of_le isTotal call.small))
  have moved : ∃ ring, Ring.step Ring.initial (.log call) = some ring := by
    simp only [Ring.step, Ring.State.logBackups, made, Option.bind_some, setup, Option.map_some]
    exact ⟨_, rfl⟩
  obtain ⟨ring, moved⟩ := moved
  have stepped : step cleanLog state (.log thread call) = some
      { state with
        rings := Function.update state.rings thread ring
        calls := Function.update state.calls thread (state.calls thread ++ [call]) } := by
    simp only [step, Backup.log, send, empty, moved, Option.map_some]
  exact ⟨_, stepped, fun _ different => Function.update_of_ne different _ _, rfl, rfl⟩

/-- A thread logs first. -/
theorem exists_logged (cleanLog : Store → Entry → Option Store) (start : Store) (thread : Thread)
    (call : Ring.Call) : ∃ state, Reachable (step cleanLog) (State.initial start) state ∧
      state.calls thread = [call] := by
  obtain ⟨after, stepped, _, calls, _⟩ := exists_log cleanLog (State.initial start) thread call rfl
  refine ⟨after, .tail .refl trivial stepped, ?_⟩
  rw [calls, Function.update_self]
  rfl

/-- Of a ring that is not drained some logs are to be cleaned. -/
theorem Inv.split (inv : Inv cleanLog start state) (thread : Thread) :
    ∃ rest, (state.calls thread).flatMap toClean = state.cleanedOf thread ++ rest ∧
      ((state.rings thread).logs = [] → rest = []) := by
  obtain ⟨done, pending, one⟩ := inv.threads thread
  have cleaned := one.cleaned
  rw [one.calls, List.flatMap_append]
  cases walking : state.cleaning thread with
  | none =>
      rw [walking] at cleaned
      rw [cleaned]
      refine ⟨_, rfl, fun drained => ?_⟩
      have logs := one.logs
      rw [drained, List.forall₂_nil_right_iff] at logs
      rw [logs]
      rfl
  | some cursor =>
      rw [walking] at cleaned
      obtain ⟨call, rest, first, last, rfl, cleaning, isCleaned⟩ := cleaned
      have entries : toClean call = first.map (Entry.cleaned cursor.globalSeq) ++
          last.map (Entry.cleaned cursor.globalSeq) := by
        rw [toClean, cleaning.entries, cleaning.globalSeq, List.map_append]
      refine ⟨last.map (Entry.cleaned cursor.globalSeq) ++ rest.flatMap toClean, ?_, ?_⟩
      · rw [isCleaned, List.flatMap_cons, entries]
        simp only [List.append_assoc]
      · intro drained
        obtain ⟨sent, logs, listed, _⟩ := cleaning.found
        rw [drained] at listed
        cases listed

/-- A log with one entry. -/
def oneEntry : Ring.Call where
  config := ⟨0, Nat.zero_le _⟩
  rmalloc := fun _ _ => 0
  globalSeq := 0
  entries := [⟨1, 2, 3, [4]⟩]
  seq := 0
  small := by decide

end System

end Rocc.Db.Backup
