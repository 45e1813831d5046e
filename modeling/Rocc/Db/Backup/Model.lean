import Rocc.Db.DbLogger.RingRuns

/-!
# Cleaning the logs at a backup

Every thread of every node has a ring at the backup.  A worker of the backup polls the rings that
are its own; a complete log it hands to the cleaner entry by entry, and then it clears the log.  The
workers run beside each other, and beside the threads and the network.

`LogCleaner` decides what an entry does to the store.
-/

namespace Rocc.Db.Backup

open DbLogger

universe u v

/-- The local variables of `clean_log`. -/
structure Cursor where
  tailerPtr : Nat
  globalSeq : Option UInt64
  ptr : Nat

/-- Whether `clean_log` is at the end of the log that the worker has found. -/
def Cursor.AtEnd (cursor : Cursor) : Prop := cursor.tailerPtr < cursor.ptr + roundUpBase

instance (cursor : Cursor) : Decidable cursor.AtEnd := inferInstanceAs (Decidable (_ < _))

/-- The rings, what the worker of each is doing, and the store.  No step reads `calls`, what each
thread has logged, and `cleaned`, the entries that were cleaned. -/
structure State (Thread : Type u) (Store : Type v) where
  rings : Thread → Ring.State
  cleaning : Thread → Option Cursor
  store : Store
  calls : Thread → List Ring.Call
  cleaned : List (Thread × Entry)

variable {Thread : Type u} {Store : Type v}

/-- Empty rings. -/
def State.initial (store : Store) : State Thread Store where
  rings _ := Ring.initial
  cleaning _ := none
  store := store
  calls _ := []
  cleaned := []

/-- The entries of one thread that were cleaned. -/
def State.cleanedOf [DecidableEq Thread] (state : State Thread Store) (thread : Thread) :
    List Entry :=
  (state.cleaned.filter fun pair => pair.1 = thread).map Prod.snd

/-- The entries of a log as the cleaner is to get them. -/
def toClean (call : Ring.Call) : List Entry :=
  call.entries.map (Entry.cleaned (if call.globalSeq = 0 then none else some call.seq))

section Steps

variable [DecidableEq Thread] (cleanLog : Store → Entry → Option Store)
variable (state : State Thread Store) (thread : Thread)

/-- The thread, or the network between it and the backup, makes a step. -/
def send (action : Ring.Action) : Option (State Thread Store) :=
  (Ring.step (state.rings thread) action).map fun ring =>
    { state with rings := Function.update state.rings thread ring }

/-- A coroutine of the thread logs. -/
def log (call : Ring.Call) : Option (State Thread Store) :=
  (send state thread (.log call)).map fun after =>
    { after with calls := Function.update state.calls thread (state.calls thread ++ [call]) }

/-- The worker polls the ring and finds a log. -/
def find : Option (State Thread Store) :=
  let ring := state.rings thread
  match state.cleaning thread, checkLogCompletion ring.memory ring.tailOffset with
  | none, some (tailerPtr, _) =>
      let globalSeq := UInt64.ofNat (ring.memory.readWord (tailerPtr + 8))
      let header := ring.memory.readWord (ring.tailOffset + 8 + 8)
      some { state with
        cleaning := Function.update state.cleaning thread
          (some
            { tailerPtr
              globalSeq := if header = 0 then none else some globalSeq
              ptr := ring.tailOffset + 8 + txHeaderSize }) }
  | _, _ => none

/-- One round of the loop of `clean_log`. -/
def clean : Option (State Thread Store) :=
  match state.cleaning thread with
  | some cursor =>
      if cursor.AtEnd then none
      else
        let memory := (state.rings thread).memory
        let size := Memory.ofBytes (memory.read (cursor.ptr + 4) 4)
        let entry := entryAt memory cursor.globalSeq cursor.ptr size
        (cleanLog state.store entry).map fun store =>
          { state with
            cleaning := Function.update state.cleaning thread
              (some { cursor with ptr := cursor.ptr + entryMetaSize + size })
            store
            cleaned := state.cleaned ++ [(thread, entry)] }
  | none => none

/-- The worker clears the log and goes on to the next ring. -/
def clear : Option (State Thread Store) :=
  match state.cleaning thread with
  | some cursor =>
      if cursor.AtEnd then
        some { state with
          rings := Function.update state.rings thread (state.rings thread).poll
          cleaning := Function.update state.cleaning thread none }
      else none
  | none => none

/-- One atomic step of the threads, the network and the workers. -/
inductive Action (Thread : Type u) where
  | log (thread : Thread) (call : Ring.Call)
  /-- The write of a log arrives. -/
  | land (thread : Thread) (index : Nat)
  /-- The acknowledgement of a log arrives. -/
  | ack (thread : Thread) (index : Nat)
  /-- An offset that was fed back arrives. -/
  | feedback (thread : Thread)
  | find (thread : Thread)
  | clean (thread : Thread)
  | clear (thread : Thread)

/-- The step function of the system. -/
def step : Action Thread → Option (State Thread Store)
  | .log thread call => log state thread call
  | .land thread index => send state thread (.land index)
  | .ack thread index => send state thread (.ack index)
  | .feedback thread => send state thread .feedback
  | .find thread => find state thread
  | .clean thread => clean cleanLog state thread
  | .clear thread => clear state thread

end Steps

end Rocc.Db.Backup
