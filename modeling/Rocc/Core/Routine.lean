import Rocc.Base.Memory
import Rocc.Base.Ring
import Rocc.Base.Run

/-!
# Coroutines of a worker

The routines of a worker thread that can run are linked in a ring behind the scheduler
routine, which has number 0 and polls the network.  A routine that waits for completions
of one-sided requests or for replies leaves the ring; the scheduler puts it back
when the last of them has arrived.

A message carries the number of its routine in 7 bits and a one-sided request in 8,
so what arrives is attributed to the number modulo 128 or 256.

`completions` and `replies` count what is still under way for a routine; `received` keeps the
replies to its last request with `replyBase`, the buffer it gave; `blocks` and `wakeups`
count how often it left the ring and was put back.  No step of the worker reads them:
they say only what can arrive.
-/

set_option linter.unusedSectionVars false

namespace Rocc.Core

/-- Number of worker coroutines. -/
structure Config where
  coroutines : Nat

/-- `next_routine_array`, `routine_tailer` and the routine that runs, the pending counts of
`RScheduler` and `RRpc` with the reply buffers, and the histories.  A reply buffer is an
offset in the memory of its routine. -/
structure State where
  next : Nat → Nat
  prev : Nat → Nat
  active : Nat → Bool
  tailer : Nat
  current : Nat
  pendingCounts : Nat → Nat
  replyCounts : Nat → Nat
  replyBufs : Nat → Option Nat
  memory : Nat → Memory
  completions : Nat → Nat
  replies : Nat → Nat
  replyBase : Nat → Nat
  received : Nat → List (List UInt8)
  blocks : Nat → Nat
  wakeups : Nat → Nat

/-- `thread_local_init`: all routines in the ring, the scheduler running. -/
def State.initial (config : Config) : State where
  next id := if id = config.coroutines then 0 else id + 1
  prev id := id - 1
  active _ := false
  tailer := config.coroutines
  current := 0
  pendingCounts _ := 0
  replyCounts _ := 0
  replyBufs _ := none
  memory _ _ := 0
  completions _ := 0
  replies _ := 0
  replyBase _ := 0
  received _ := []
  blocks _ := 0
  wakeups _ := 0

/-! ## `RoutineMeta` -/

/-- `yield_to`. -/
def yieldTo (state : State) (id : Nat) : State :=
  { state with current := id, active := Function.update state.active id true }

/-- `add_to_routine_list`. -/
def addToRoutineList (state : State) (id : Nat) : State :=
  if state.active id then
    state
  else
    { state with
      next := Function.update (Function.update state.next state.tailer id) id 0
      prev := Function.update state.prev id state.tailer
      tailer := id
      wakeups := Function.update state.wakeups id (state.wakeups id + 1) }

/-- `yield_from_routine_list`; a routine that is not active fails the assertion. -/
def yieldFromRoutineList (state : State) : Option State :=
  let id := state.current
  if state.active id then
    let next := state.next id
    some (yieldTo { state with
      next := Function.update state.next (state.prev id) next
      prev := Function.update state.prev next (state.prev id)
      tailer := if state.tailer = id then state.prev id else state.tailer
      active := Function.update state.active id false
      blocks := Function.update state.blocks id (state.blocks id + 1) } next)
  else
    none

/-! ## `RWorker` -/

/-- One round of `new_master_routine` behind the polling: the routine behind the header
runs. -/
def schedule (state : State) : Option State :=
  if state.current = 0 ∧ state.next 0 ≠ 0 then some (yieldTo state (state.next 0)) else none

/-- `indirect_yield` with `indirect_must_yield`. -/
def indirectYield (state : State) : Option State :=
  if state.current = 0 then
    none
  else if state.pendingCounts state.current = 0 ∧ state.replyCounts state.current = 0 then
    some state
  else
    yieldFromRoutineList state

/-- `yield_next`, called with nothing pending only. -/
def yieldNext (state : State) : Option State :=
  let id := state.current
  if id ≠ 0 ∧ state.pendingCounts id = 0 ∧ state.replyCounts id = 0 then
    some (yieldTo { state with active := Function.update state.active id false }
      (state.next id))
  else
    none

/-! ## Requests -/

/-- `add_pending`: the running routine posts a signalled request. -/
def addPending (state : State) : Option State :=
  let id := state.current
  if id = 0 then
    none
  else
    some { state with
      pendingCounts := Function.update state.pendingCounts id (state.pendingCounts id + 1)
      completions := Function.update state.completions id (state.completions id + 1) }

/-- `prepare_multi_req` with the requests it prepares; each server answers once. -/
def prepareMultiReq (state : State) (replyBuf numOfReplies : Nat) : Option State :=
  let id := state.current
  if id = 0 ∨ numOfReplies = 0 then
    none
  else
    some { state with
      replyBufs := Function.update state.replyBufs id (some replyBuf)
      replyCounts := Function.update state.replyCounts id (state.replyCounts id + numOfReplies)
      replies := Function.update state.replies id (state.replies id + numOfReplies)
      replyBase := Function.update state.replyBase id replyBuf
      received := Function.update state.received id [] }

/-! ## Polling -/

/-- `poll_comps` of `RScheduler` for one completion, `corId` being what `decode_corid` finds. -/
def pollComps (state : State) (corId : Nat) : Option State :=
  if corId = 0 then
    some state
  else if state.pendingCounts corId = 0 then
    none
  else
    let polled := { state with
      pendingCounts := Function.update state.pendingCounts corId (state.pendingCounts corId - 1) }
    if polled.pendingCounts corId = 0 ∧ polled.replyCounts corId = 0 then
      some (addToRoutineList polled corId)
    else
      some polled

/-- `poll_comp_callback` of `RRpc` for one reply, `cid` being the number in its header.  A
reply nobody waits for is dropped; a null buffer cannot be copied to. -/
def pollCompCallback (state : State) (cid : Nat) (payload : List UInt8) : Option State :=
  if cid = 0 then
    none
  else if state.replyCounts cid = 0 then
    some state
  else
    (state.replyBufs cid).map fun buf =>
      let stored := { state with
        memory := Function.update state.memory cid ((state.memory cid).write buf payload)
        replyBufs := Function.update state.replyBufs cid (some (buf + payload.length))
        replyCounts := Function.update state.replyCounts cid (state.replyCounts cid - 1) }
      if stored.replyCounts cid = 0 ∧ stored.pendingCounts cid = 0 then
        addToRoutineList { stored with
          replyBufs := Function.update stored.replyBufs cid none } cid
      else
        stored

/-- A completion of routine `id` arrives while the scheduler polls. -/
def completion (state : State) (id : Nat) : Option State :=
  if state.current = 0 ∧ state.completions id ≠ 0 then
    pollComps { state with
      completions := Function.update state.completions id (state.completions id - 1) } (id % 256)
  else
    none

/-- A reply to routine `id` arrives while the scheduler polls. -/
def reply (state : State) (id : Nat) (payload : List UInt8) : Option State :=
  if state.current = 0 ∧ state.replies id ≠ 0 then
    pollCompCallback { state with
      replies := Function.update state.replies id (state.replies id - 1)
      received := Function.update state.received id (state.received id ++ [payload]) }
      (id % 128) payload
  else
    none

/-- Steps of a worker. -/
inductive Action where
  | schedule
  | addPending
  | prepareMultiReq (replyBuf numOfReplies : Nat)
  | indirectYield
  | yieldNext
  | completion (id : Nat)
  | reply (id : Nat) (payload : List UInt8)
  deriving DecidableEq, Repr

/-- The step function of a worker. -/
def step (state : State) : Action → Option State
  | .schedule => schedule state
  | .addPending => addPending state
  | .prepareMultiReq replyBuf numOfReplies => prepareMultiReq state replyBuf numOfReplies
  | .indirectYield => indirectYield state
  | .yieldNext => yieldNext state
  | .completion id => completion state id
  | .reply id payload => reply state id payload

/-! ## What scheduling promises -/

/-- The routine with number `id` is one of the coroutines. -/
def Config.Routine (config : Config) (id : Nat) : Prop := 0 < id ∧ id ≤ config.coroutines

/-- The ring is well formed and holds the routines that can run: the current one and those
that nothing is under way for.  Every routine that left it was put back once, unless it
still waits. -/
structure Scheduled (config : Config) (state : State) (ring : List Nat) : Prop where
  isRing : IsRing state.next state.prev 0 state.tailer ring
  routines : ∀ id ∈ ring, config.Routine id
  ready : ∀ id, config.Routine id → (id ∈ ring ↔
    id = state.current ∨ (state.completions id = 0 ∧ state.replies id = 0))
  balanced : ∀ id, config.Routine id →
    state.blocks id = state.wakeups id + if id ∈ ring then 0 else 1

/-- The replies to the last request lie in its buffer one behind the other, and the next one
goes behind them. -/
structure Stored (state : State) (id : Nat) : Prop where
  contiguous : (state.memory id).read (state.replyBase id) (state.received id).flatten.length =
    (state.received id).flatten
  cursor : state.replies id ≠ 0 →
    state.replyBufs id = some (state.replyBase id + (state.received id).flatten.length)

/-- Everything that can arrive is taken up and a routine can always yield: no assertion on
the way fails and no null buffer is written. -/
structure Live (state : State) : Prop where
  completion : ∀ id, state.current = 0 → state.completions id ≠ 0 →
    (step state (.completion id)).isSome
  reply : ∀ id payload, state.current = 0 → state.replies id ≠ 0 →
    (step state (.reply id payload)).isSome
  indirectYield : state.current ≠ 0 → (step state .indirectYield).isSome

end Rocc.Core
