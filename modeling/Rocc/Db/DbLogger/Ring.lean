import Rocc.Base.ByteRing
import Rocc.Base.Run
import Rocc.Db.DbLogger.Replay

/-!
# The ring of a thread at a backup

`log_setup` takes the place of a log from `remote_offsets_` and the room from `remain_sizes_`.
Where the room is short it waits for the offset that the backup feeds back, and computes the room
from it.  The backup polls the place of the next log, clears a log that is complete, and feeds its
own offset back after an eighth of the ring.

The model has one thread and one of its backups.  What is posted arrives at any later time, the
offsets in their order.
-/

namespace Rocc.Db.DbLogger.Ring

open Memory

/-- `THREAD_AREA_SIZE`. -/
def threadAreaSize : Nat := 16 * 1024 * 1024

/-- `THREAD_META_SIZE`, with `MAX_SERVERS`. -/
def threadMetaSize : Nat := 8 * 32

/-- `THREAD_BUF_SIZE`. -/
def threadBufSize : Nat := threadAreaSize - threadMetaSize - threadPaddingSize

/-- `LOG_HOLE`. -/
def logHole : Nat := 1024

/-- `LOG_THRSHOLD`. -/
def logThrshold : Nat := threadBufSize / 8

/-- What a coroutine logs, within the assertion of `log_setup`. -/
structure Call where
  config : Config
  rmalloc : Nat → Memory
  globalSeq : UInt64
  entries : List Entry
  seq : UInt64
  small : totalSize entries ≤ threadPaddingSize

/-- A log that has its place and is not cleaned. -/
structure Sent where
  offset : Nat
  image : List UInt8
  landed : Bool
  acked : Bool

/-- The side of the thread, what has been posted, and the side of the backup.  Addresses count from
the place that `log_setup` and the backup call zero. -/
structure State where
  remainSize : Nat
  remoteOffset : Nat
  header : Nat
  feedbacks : List Nat
  logs : List Sent
  memory : Memory
  tailOffset : Nat
  headOffset : Nat

/-- The constructors, and memory that is zero. -/
def initial : State where
  remainSize := threadBufSize
  remoteOffset := 0
  header := 0
  feedbacks := []
  logs := []
  memory := fun _ => 0
  tailOffset := 0
  headOffset := 0

/-- `remain_log_size`. -/
def freeSize (remoteOffset remoteHeader : Nat) : Nat :=
  if remoteHeader < remoteOffset then threadBufSize - remoteOffset + remoteHeader
  else remoteHeader - remoteOffset

namespace State

variable (state : State)

/-- The room that `log_setup` finds; none where its loop goes on, or where the assertion in it
fails. -/
def room (whole : Nat) : Option Nat :=
  if state.remainSize < whole + logHole then
    if state.header < threadBufSize then
      let free := freeSize state.remoteOffset state.header
      if free < whole + logHole then none else some free
    else none
  else some state.remainSize

/-- `log_setup`, with the assertion of `translate_offset`: the place of the log. -/
def logSetup (total : Nat) : Option (Nat × State) :=
  let whole := total + 8
  (state.room whole).bind fun remain =>
    if state.remoteOffset + total < threadBufSize + threadPaddingSize then
      some
        (state.remoteOffset,
          { state with
            remainSize := remain - whole
            remoteOffset := (state.remoteOffset + whole) % threadBufSize })
    else none

/-- `log_backups`. -/
def logBackups (call : Call) : Option State :=
  (logged call.config call.rmalloc call.globalSeq call.entries call.seq).bind fun log =>
    (state.logSetup log.getTotalSize).map fun (offset, after) =>
      { after with
        logs := after.logs ++ [{ offset, image := log.image, landed := false, acked := false }] }

/-- The write of a log arrives. -/
def land (index : Nat) : Option State :=
  match state.logs[index]? with
  | some sent =>
      if sent.landed then none
      else
        some
          { state with
            memory := state.memory.write sent.offset sent.image
            logs := state.logs.set index { sent with landed := true } }
  | none => none

/-- The acknowledgement arrives: the size of the log, behind it. -/
def ack (index : Nat) : Option State :=
  match state.logs[index]? with
  | some sent =>
      if sent.acked then none
      else
        some
          { state with
            memory := state.memory.write (sent.offset + sent.image.length) (sent.image.take 8)
            logs := state.logs.set index { sent with acked := true } }
  | none => none

/-- The backup looks at the ring. -/
def poll : State :=
  match checkLogCompletion state.memory state.tailOffset with
  | none => state
  | some (_, msgSize) =>
      let tailOffset := (state.tailOffset + msgSize + 8 + 8) % threadBufSize
      let cleared :=
        { state with
          memory := state.memory.write state.tailOffset (List.replicate (msgSize + 8 + 8) 0)
          logs := state.logs.tail
          tailOffset }
      let processedLogSize :=
        if state.headOffset ≤ tailOffset then tailOffset - state.headOffset
        else threadBufSize - state.headOffset + tailOffset
      if logThrshold ≤ processedLogSize then
        { cleared with
          headOffset := tailOffset
          feedbacks := state.feedbacks ++ [tailOffset] }
      else cleared

end State

inductive Action where
  /-- A coroutine logs, and `log_setup` returns. -/
  | log (call : Call)
  /-- The write of a log arrives. -/
  | land (index : Nat)
  /-- The acknowledgement of a log arrives. -/
  | ack (index : Nat)
  /-- The backup looks at the ring. -/
  | poll
  /-- An offset that was fed back arrives. -/
  | feedback

/-- The steps of the thread, of the network and of the backup. -/
def step (state : State) : Action → Option State
  | .log call => state.logBackups call
  | .land index => state.land index
  | .ack index => state.ack index
  | .poll => some state.poll
  | .feedback =>
      match state.feedbacks with
      | [] => none
      | header :: feedbacks => some { state with header, feedbacks }

/-- What the ring should do. -/
structure Sound (state : State) : Prop where
  /-- A new log covers no byte of a log that is not cleaned. -/
  apart : ∀ total offset after, state.logSetup total = some (offset, after) →
    ∀ sent ∈ state.logs, RangeApart offset (total + 8) sent.offset (sent.image.length + 8)
  /-- The backup polls the place of the next log. -/
  polls : some state.tailOffset = (state.logs.map Sent.offset ++ [state.remoteOffset]).head?
  /-- It finds the log when all of it has arrived, with its size. -/
  found : ∀ size, (∃ tailer, checkLogCompletion state.memory state.tailOffset =
      some (tailer, size)) ↔
    ∃ sent, state.logs.head? = some sent ∧ sent.landed ∧ sent.acked ∧
      sent.image.length = size + 8
  /-- When all logs are cleaned and all offsets have arrived, `log_setup` returns. -/
  ends : state.logs = [] → state.feedbacks = [] → ∀ total ≤ threadPaddingSize,
    (state.logSetup total).isSome

end Rocc.Db.DbLogger.Ring
