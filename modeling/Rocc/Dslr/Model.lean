import Rocc.Base.TicketLock
import Rocc.Rtx.Record

/-!
# The decentralized shared lock

The model of `DSLR` on one 64-bit lock word.  The word packs four 16-bit counters: the
next exclusive and shared ticket to be served and the numbers of exclusive and shared
tickets taken.  `acquireLock` takes a ticket with a fetch-and-add and reads off the old
word whether it is its turn; otherwise it polls the word in `handleConflict`.  A request
that finds a counter at `COUNT_MAX` takes its increment back, and the request that takes
the last ticket resets the word to 0 after its release.

Every fetch-and-add, compare-and-swap and read is one step.  Releases happen within the
lease and the reset after `2 * LEASE_TIME` is not taken.
-/

set_option linter.unusedSectionVars false

namespace Rocc.Dslr

open Rtx

universe u

/-! ## The lock word -/

/-- `COUNT_MAX`. -/
def countMax : Nat := 32768

/-- `Segment`: the counters of the lock word. -/
inductive Segment where
  | nx
  | ns
  | maxx
  | maxs
  deriving DecidableEq, Repr

/-- Position of a counter in the word. -/
def Segment.shift : Segment → Nat
  | .nx => 48
  | .ns => 32
  | .maxx => 16
  | .maxs => 0

/-- `ENCODE_DSLR_LOCK_CONTENT`. -/
def encodeDslrLockContent (nx ns maxx maxs : Nat) : Nat :=
  (nx <<< 48) % wordBound ||| (ns <<< 32) % wordBound ||| (maxx <<< 16) % wordBound ||| maxs

/-- `DECODE_DSLR_LOCK_NX`. -/
def decodeDslrLockNx (lock : Nat) : Nat := lock >>> 48

/-- `DECODE_DSLR_LOCK_NS`. -/
def decodeDslrLockNs (lock : Nat) : Nat := (lock >>> 32) &&& 0xffff

/-- `DECODE_DSLR_LOCK_MAXX`. -/
def decodeDslrLockMaxx (lock : Nat) : Nat := (lock >>> 16) &&& 0xffff

/-- `DECODE_DSLR_LOCK_MAXS`. -/
def decodeDslrLockMaxs (lock : Nat) : Nat := lock &&& 0xffff

/-- `RDMAFALockReq`: the word a fetch-and-add of `value` to a segment leaves. -/
def fetchAdd (segment : Segment) (value lock : Nat) : Nat :=
  (lock + (value <<< segment.shift) % wordBound) % wordBound

/-! ## Clients -/

/-- Where a client stands.  `prev` is the word its ticket was taken from; a holder keeps
it although nothing reads it any more. -/
inductive Phase where
  | idle
  | reverting (mode : LockMode)
  | rereading
  | polling (mode : LockMode) (prev resetFrom : Nat)
  | holding (mode : LockMode) (prev resetFrom : Nat)
  | resetting (resetFrom : Nat)
  deriving DecidableEq, Repr

/-- The lock word and the clients.  `lost` counts the tickets given up by
`handleConflict`; no step reads it. -/
structure State (Client : Type u) where
  lock : Nat
  phases : Client → Phase
  lost : LockMode → Nat

/-- The counter a request takes its ticket from. -/
def ticketSegment : LockMode → Segment
  | .shared => .maxs
  | .exclusive => .maxx

/-- The counter a release advances. -/
def releaseSegment : LockMode → Segment
  | .shared => .ns
  | .exclusive => .nx

/-- What a rejected request adds to its counter: `(uint64_t)-1` for a shared one,
`0xffffffffffff` for an exclusive one. -/
def revertValue : LockMode → Nat
  | .shared => 0xffffffffffffffff
  | .exclusive => 0xffffffffffff

/-- The counters are used up. -/
def TooLarge (prev : Nat) : Prop :=
  countMax ≤ decodeDslrLockMaxs prev ∨ countMax ≤ decodeDslrLockMaxx prev

instance (prev : Nat) : Decidable (TooLarge prev) := inferInstanceAs (Decidable (_ ∨ _))

/-- `resetFrom` of the request that takes the last ticket of its mode. -/
def resetFrom (mode : LockMode) (prev : Nat) : Nat :=
  let maxx := decodeDslrLockMaxx prev
  let maxs := decodeDslrLockMaxs prev
  match mode with
  | .shared =>
      if maxs = countMax - 1 then encodeDslrLockContent maxx countMax maxx countMax else 0
  | .exclusive =>
      if maxx = countMax - 1 then encodeDslrLockContent countMax maxs countMax maxs else 0

/-- The turn of the ticket taken from `prev` has come when the word is `lock`. -/
def Granted (mode : LockMode) (prev lock : Nat) : Prop :=
  decodeDslrLockNx lock = decodeDslrLockMaxx prev ∧
    (mode = .exclusive → decodeDslrLockNs lock = decodeDslrLockMaxs prev)

instance (mode : LockMode) (prev lock : Nat) : Decidable (Granted mode prev lock) :=
  inferInstanceAs (Decidable (_ ∧ _))

/-- `handleConflict` sees a later ticket served. -/
def Overtaken (prev lock : Nat) : Prop :=
  decodeDslrLockMaxx prev < decodeDslrLockNx lock ∨
    decodeDslrLockMaxs prev < decodeDslrLockNs lock

instance (prev lock : Nat) : Decidable (Overtaken prev lock) :=
  inferInstanceAs (Decidable (_ ∨ _))

/-- What `acquireLock` does with the word its fetch-and-add returned. -/
def acquired (mode : LockMode) (prev : Nat) : Phase :=
  if TooLarge prev then
    .reverting mode
  else if Granted mode prev prev then
    .holding mode prev (resetFrom mode prev)
  else
    .polling mode prev (resetFrom mode prev)

/-! ## Steps -/

section Steps

variable {Client : Type u} [DecidableEq Client]

/-- A free lock and no requests. -/
def State.initial : State Client where
  lock := 0
  phases _ := .idle
  lost _ := 0

/-- Write the word and move one client. -/
def State.set (state : State Client) (client : Client) (lock : Nat) (phase : Phase) :
    State Client :=
  { state with lock, phases := Function.update state.phases client phase }

/-- `acquireLock` takes a ticket. -/
def acquireLock (state : State Client) (client : Client) (mode : LockMode) :
    Option (State Client) :=
  match state.phases client with
  | .idle =>
      some (state.set client (fetchAdd (ticketSegment mode) 1 state.lock)
        (acquired mode state.lock))
  | _ => none

/-- A rejected request takes its increment back; an exclusive one then reads the word
once more before it returns. -/
def revert (state : State Client) (client : Client) : Option (State Client) :=
  match state.phases client with
  | .reverting mode =>
      some (state.set client (fetchAdd (ticketSegment mode) (revertValue mode) state.lock)
        (match mode with
        | .shared => .idle
        | .exclusive => .rereading))
  | _ => none

/-- The read after an exclusive request was taken back. -/
def reread (state : State Client) (client : Client) : Option (State Client) :=
  match state.phases client with
  | .rereading => some (state.set client state.lock .idle)
  | _ => none

/-- One round of `handleConflict`. -/
def handleConflict (state : State Client) (client : Client) : Option (State Client) :=
  match state.phases client with
  | .polling mode prev reset =>
      if Overtaken prev state.lock then
        some { state.set client state.lock .idle with
          lost := Function.update state.lost mode (state.lost mode + 1) }
      else if Granted mode prev state.lock then
        some (state.set client state.lock (.holding mode prev reset))
      else
        some state
  | _ => none

/-- `releaseLock` advances the counter of its mode. -/
def releaseLock (state : State Client) (client : Client) : Option (State Client) :=
  match state.phases client with
  | .holding mode _ reset =>
      some (state.set client (fetchAdd (releaseSegment mode) 1 state.lock)
        (if 0 < reset then .resetting reset else .idle))
  | _ => none

/-- One compare-and-swap of the loop that resets the word. -/
def reset (state : State Client) (client : Client) : Option (State Client) :=
  match state.phases client with
  | .resetting expected =>
      if state.lock = expected then some (state.set client 0 .idle) else some state
  | _ => none

/-- One atomic step of the system. -/
inductive Action (Client : Type u) where
  | acquireLock (client : Client) (mode : LockMode)
  | revert (client : Client)
  | reread (client : Client)
  | handleConflict (client : Client)
  | releaseLock (client : Client)
  | reset (client : Client)
  deriving DecidableEq, Repr

/-- The step function of the system. -/
def step (state : State Client) : Action Client → Option (State Client)
  | .acquireLock client mode => acquireLock state client mode
  | .revert client => revert state client
  | .reread client => reread state client
  | .handleConflict client => handleConflict state client
  | .releaseLock client => releaseLock state client
  | .reset client => reset state client

end Steps

/-! ## Who holds and who waits -/

/-- `acquireLock` of the client returned true and its release has not executed. -/
def Phase.Holds (mode : LockMode) : Phase → Prop
  | .holding own _ _ => own = mode
  | _ => False

/-- The client holds the lock or waits for it in `handleConflict`. -/
def Phase.HoldsOrWaits (mode : LockMode) : Phase → Prop
  | .holding own _ _ => own = mode
  | .polling own _ _ => own = mode
  | _ => False

/-- The client still has to take an increment back. -/
def Phase.Reverting (mode : LockMode) : Phase → Prop
  | .reverting own => own = mode
  | _ => False

instance (mode : LockMode) : DecidablePred (Phase.Holds mode)
  | .holding own _ _ => inferInstanceAs (Decidable (own = mode))
  | .idle | .reverting _ | .rereading | .polling _ _ _ | .resetting _ =>
      inferInstanceAs (Decidable False)

instance (mode : LockMode) : DecidablePred (Phase.HoldsOrWaits mode)
  | .holding own _ _ => inferInstanceAs (Decidable (own = mode))
  | .polling own _ _ => inferInstanceAs (Decidable (own = mode))
  | .idle | .reverting _ | .rereading | .resetting _ => inferInstanceAs (Decidable False)

instance (mode : LockMode) : DecidablePred (Phase.Reverting mode)
  | .reverting own => inferInstanceAs (Decidable (own = mode))
  | .idle | .rereading | .polling _ _ _ | .holding _ _ _ | .resetting _ =>
      inferInstanceAs (Decidable False)

end Rocc.Dslr
