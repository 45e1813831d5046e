import Mathlib.Data.List.Perm.Basic
import Rocc.Base.Run
import Rocc.Db.RemoteSet

/-!
# Phases of a transaction

A phase registers a number of replies with `prepare_multi_req`, sends a request to the servers of
a list and leaves the routine list.  Each server answers once, in any order, and the reply that
brings the count of the routine to zero puts it back.  `lock_remote` registers as many replies as
there are servers that were read from, but sends its request to those that are written to.
-/

namespace Rocc.Db.Phases

open Rtx.Batch RemoteSet

/-! ## States -/

/-- The requests of `RemoteSet`. -/
inductive Request where
  | read
  | lock
  | validate
  | release
  | commit
  deriving DecidableEq, Repr

/-- The replies of a lock or validate request go to `reply_buf1_`, the others to `reply_buf_`. -/
def Request.Checked (request : Request) : Prop := request = .lock ∨ request = .validate

instance (request : Request) : Decidable request.Checked := inferInstanceAs (Decidable (_ ∨ _))

/-- `ReplyHeader`, as far as `_check_res` reads it. -/
structure ReplyHeader where
  numItems : UInt8
  payload : UInt32
  deriving DecidableEq, Repr

/-- A reply of a server, with the number of the phase whose request it answers. -/
structure Reply where
  phase : Nat
  server : Nat
  header : ReplyHeader
  deriving DecidableEq, Repr

/-- The phase that the routine waits in. -/
structure Phase where
  request : Request
  number : Nat
  registered : Nat
  servers : List Nat
  deriving DecidableEq, Repr

/-- A coroutine, its `reply_counts_` and its requests under way.  `received` keeps the replies that
were copied to the buffer since it was given to `prepare_multi_req`, and `flight` the numbers of
the phases and the servers whose replies have yet to come. -/
structure State where
  set : RemoteSet
  maxTime : Nat
  result : Option Bool
  replyCount : Nat
  replyBuf1 : Nat → ReplyHeader
  received : List Reply
  flight : List (Nat × Nat)
  waiting : Option Phase
  ready : Bool
  phases : Nat

/-- Before the first phase; the buffer may hold anything. -/
def State.start (set : RemoteSet) (replyBuf1 : Nat → ReplyHeader) : State where
  set
  maxTime := 0
  result := none
  replyCount := 0
  replyBuf1
  received := []
  flight := []
  waiting := none
  ready := false
  phases := 0

/-! ## Requests -/

/-- `prepare_multi_req`, `broadcast_to` and `indirect_yield`. -/
def send (state : State) (request : Request) (registered : Nat) (servers : List Nat) :
    Option State :=
  if 0 < registered then
    some { state with
      replyCount := state.replyCount + registered
      received := []
      flight := state.flight ++ servers.map (state.phases, ·)
      waiting := some ⟨request, state.phases, registered, servers⟩
      ready := false
      phases := state.phases + 1 }
  else none

/-- `do_reads`, and the `indirect_yield` of its callers. -/
def doReads (state : State) : Option State :=
  if state.set.elems < 65535 then
    send { state with set := { state.set with readItems := UInt16.ofNat state.set.elems } } .read
      state.set.readServers.length state.set.readServers
  else none

/-- `lock_remote` up to its yield. -/
def lockRemote (state : State) : Option State :=
  if 0 < state.set.writeItems then
    send state .lock state.set.readServers.length state.set.writeServers
  else some { state with result := some true }

/-- `validate_remote` up to its yield. -/
def validateRemote (state : State) : Option State :=
  if state.set.needValidate ∧ 0 < state.set.readServers.length ∧ 0 < state.set.readItems then
    send state .validate state.set.readServers.length state.set.readServers
  else some { state with result := some true }

/-- `release_remote` up to its yield. -/
def releaseRemote (state : State) : Option State :=
  if 0 < state.set.writeItems then
    send state .release state.set.writeServers.length state.set.writeServers
  else some state

/-- `commit_remote`; the assertion is on `num`, an `int8_t`. -/
def commitRemote (state : State) : Option State :=
  if 0 < state.set.writeItems then
    let num := UInt8.ofNat state.set.writeItems.toNat
    if 0 < num.toNat ∧ num.toNat < 128 then
      send { state with set := state.set.updateWriteBuf } .commit state.set.writeServers.length
        state.set.writeServers
    else none
  else some state

/-! ## Replies -/

/-- `poll_comp_callback` for a reply: one that is not required is dropped. -/
def pollCompCallback (state : State) (reply : Reply) : Option State :=
  if (reply.phase, reply.server) ∈ state.flight then
    let flight := state.flight.erase (reply.phase, reply.server)
    if state.replyCount = 0 then
      some { state with flight }
    else
      some { state with
        flight
        replyCount := state.replyCount - 1
        replyBuf1 := if state.waiting.any (·.request.Checked) then
          Function.update state.replyBuf1 state.received.length reply.header else state.replyBuf1
        received := state.received ++ [reply]
        ready := state.replyCount = 1 }
  else none

/-- `_check_res`: whether all replies agree, and the largest time of those before the first that
does not. -/
def checkRes : List ReplyHeader → Nat → Bool × Nat
  | [], maxTime => (true, maxTime)
  | header :: headers, maxTime =>
      if header.numItems = 0 then (false, maxTime)
      else checkRes headers (max maxTime header.payload.toNat)

/-- The headers that `_check_res` reads. -/
def headersRead (state : State) (phase : Phase) : List ReplyHeader :=
  (List.range phase.servers.length).map state.replyBuf1

/-- The routine goes on behind the yield of its phase. -/
def resume (state : State) : Option State :=
  match state.waiting with
  | none => none
  | some phase =>
      if state.ready then
        let idle := { state with waiting := none, ready := false }
        let checked := checkRes (headersRead state phase) state.maxTime
        match phase.request with
        | .read | .commit => some idle
        | .lock => some { idle with result := some checked.1, maxTime := checked.2 }
        | .validate =>
            some { idle with
              result := some checked.1
              maxTime := checked.2
              set := { state.set with needValidate := false } }
        | .release => some { idle with set := state.set.updateWriteBuf }
      else none

/-! ## Steps -/

/-- What the routine calls while it runs, the arrival of a reply, and going on. -/
inductive Action where
  | add (pid : Nat) (tableid : UInt8) (key : UInt64)
  | addLong (currentPartition pid : Nat) (tableid : UInt8) (key : UInt64) (klen : Nat)
  | getResult (idx : Nat) (node seq : UInt64)
  | promoteToWrite (id : Nat) (val : List UInt8)
  | clear
  | needValidate
  | doReads
  | lockRemote
  | validateRemote
  | releaseRemote
  | commitRemote
  | pollCompCallback (reply : Reply)
  | resume

/-- A call of the routine, which is not waiting then. -/
def call (state : State) : Action → Option State
  | .add pid tableid key => (state.set.add pid tableid key).map fun set => { state with set }
  | .addLong currentPartition pid tableid key klen =>
      (state.set.addLong currentPartition pid tableid key klen).map fun set => { state with set }
  | .getResult idx node seq => some { state with set := state.set.getResult idx node seq }
  | .promoteToWrite id val => some { state with set := state.set.promoteToWrite id val }
  | .clear => some { state with set := state.set.clear }
  | .needValidate => some { state with set := { state.set with needValidate := true } }
  | .doReads => doReads state
  | .lockRemote => lockRemote state
  | .validateRemote => validateRemote state
  | .releaseRemote => releaseRemote state
  | .commitRemote => commitRemote state
  | .pollCompCallback _ | .resume => none

/-- A step of the coroutine or of the network. -/
def step (state : State) : Action → Option State
  | .pollCompCallback reply => pollCompCallback state reply
  | .resume => resume state
  | action => if state.waiting = none then call state action else none

/-! ## Exact phases -/

/-- The routine waits for the replies to its request: as many are registered as servers got the
request, it goes on exactly when all have arrived, those that arrived are replies of this phase,
and `_check_res` reads their headers and no others. -/
structure Exact (state : State) (phase : Phase) : Prop where
  registered : phase.registered = phase.servers.length
  own : ∀ reply ∈ state.received, reply.phase = phase.number
  resumes : state.ready = true ↔ ∀ server, (phase.number, server) ∉ state.flight
  complete : state.ready = true → (state.received.map Reply.server).Perm phase.servers
  checked : state.ready = true → phase.request.Checked →
    headersRead state phase = state.received.map Reply.header

/-- Whatever phase the routine waits in, it waits for its replies. -/
def AllExact (state : State) : Prop := ∀ phase, state.waiting = some phase → Exact state phase

/-- A lock request goes to as many servers as were read from. -/
def SameNumber (state : State) (action : Action) : Prop :=
  action = .lockRemote → 0 < state.set.writeItems →
    state.set.readServers.length = state.set.writeServers.length

/-- What holds while a routine waits. -/
structure Waits (state : State) (phase : Phase) : Prop where
  registered : phase.registered = phase.servers.length
  own : ∀ reply ∈ state.received, reply.phase = phase.number
  mine : ∀ entry ∈ state.flight, entry.1 = phase.number
  count : state.replyCount = state.flight.length
  ready : state.ready = true ↔ state.flight = []
  servers : (state.received.map Reply.server ++ state.flight.map Prod.snd).Perm phase.servers
  buffer : phase.request.Checked → ∀ index reply, state.received[index]? = some reply →
    state.replyBuf1 index = reply.header

/-- The invariant: nothing is under way while the routine runs. -/
structure Inv (state : State) : Prop where
  idle : state.waiting = none → state.replyCount = 0 ∧ state.flight = []
  waits : ∀ phase, state.waiting = some phase → Waits state phase

variable {state before after : State} {phase : Phase} {action : Action}

/-- A routine that waits so waits exactly. -/
theorem Waits.exact (waits : Waits state phase) : Exact state phase := by
  have complete : state.ready = true → (state.received.map Reply.server).Perm phase.servers := by
    intro ready
    have servers := waits.servers
    rwa [waits.ready.mp ready, List.map_nil, List.append_nil] at servers
  refine ⟨waits.registered, waits.own, ?_, complete, ?_⟩
  · rw [waits.ready]
    constructor
    · intro quiet server
      simp [quiet]
    · intro absent
      rw [List.eq_nil_iff_forall_not_mem]
      rintro ⟨number, server⟩ member
      obtain rfl : number = phase.number := waits.mine _ member
      exact absent server member
  · intro ready checked
    have lengths := (complete ready).length_eq
    rw [List.length_map] at lengths
    apply List.ext_getElem
    · simp [headersRead, lengths]
    · intro index _ inside
      rw [List.length_map] at inside
      simp [headersRead, waits.buffer checked index _ (List.getElem?_eq_getElem inside)]

theorem Inv.allExact (inv : Inv state) : AllExact state := fun phase waiting =>
  (inv.waits phase waiting).exact

theorem Inv.start (set : RemoteSet) (replyBuf1 : Nat → ReplyHeader) :
    Inv (State.start set replyBuf1) :=
  ⟨fun _ => ⟨rfl, rfl⟩, fun _ waiting => by cases waiting⟩

/-! ### Calls -/

/-- A call that sends nothing. -/
theorem Inv.of_idle (inv : Inv before) (running : before.waiting = none)
    (waiting : after.waiting = none) (replyCount : after.replyCount = before.replyCount)
    (flight : after.flight = before.flight) : Inv after := by
  obtain ⟨zero, quiet⟩ := inv.idle running
  refine ⟨fun _ => ⟨replyCount.trans zero, flight.trans quiet⟩, fun phase waits => ?_⟩
  rw [waiting] at waits
  cases waits

/-- A phase begins. -/
theorem Inv.of_send {request : Request} {registered : Nat} {servers : List Nat}
    (sent : send before request registered servers = some after)
    (matching : registered = servers.length) (zero : before.replyCount = 0)
    (quiet : before.flight = []) : Inv after := by
  rw [send] at sent
  split at sent
  · rename_i positive
    obtain rfl := Option.some.inj sent
    refine ⟨fun idle => (by cases idle), fun phase waiting => ?_⟩
    obtain rfl := Option.some.inj waiting
    constructor
    case registered => exact matching
    case own => simp
    case mine => simp [quiet]
    case count => simp [zero, quiet, matching]
    case ready => simp [quiet, List.ne_nil_of_length_pos (matching ▸ positive)]
    case servers => simp [quiet, Function.comp_def]
    case buffer => simp
  · cases sent

/-- A phase that does not register as many replies as it asks for is not exact. -/
theorem matching_of_send {request : Request} {registered : Nat} {servers : List Nat}
    (sent : send before request registered servers = some after) (exact : AllExact after) :
    registered = servers.length := by
  rw [send] at sent
  split at sent
  · obtain rfl := Option.some.inj sent
    exact (exact _ rfl).registered
  · cases sent

theorem Inv.call (inv : Inv before) (running : before.waiting = none)
    (stepped : call before action = some after) (same : SameNumber before action) :
    Inv after := by
  obtain ⟨zero, quiet⟩ := inv.idle running
  cases action with
  | add pid tableid key =>
      obtain ⟨set, -, rfl⟩ := Option.map_eq_some_iff.mp stepped
      exact inv.of_idle running running rfl rfl
  | addLong currentPartition pid tableid key klen =>
      obtain ⟨set, -, rfl⟩ := Option.map_eq_some_iff.mp stepped
      exact inv.of_idle running running rfl rfl
  | getResult idx node seq =>
      obtain rfl := Option.some.inj stepped
      exact inv.of_idle running running rfl rfl
  | promoteToWrite id val =>
      obtain rfl := Option.some.inj stepped
      exact inv.of_idle running running rfl rfl
  | clear =>
      obtain rfl := Option.some.inj stepped
      exact inv.of_idle running running rfl rfl
  | needValidate =>
      obtain rfl := Option.some.inj stepped
      exact inv.of_idle running running rfl rfl
  | doReads =>
      simp only [Phases.call, doReads] at stepped
      split at stepped
      · exact Inv.of_send stepped rfl zero quiet
      · cases stepped
  | lockRemote =>
      simp only [Phases.call, lockRemote] at stepped
      split at stepped
      · rename_i some
        exact Inv.of_send stepped (same rfl some) zero quiet
      · obtain rfl := Option.some.inj stepped
        exact inv.of_idle running running rfl rfl
  | validateRemote =>
      simp only [Phases.call, validateRemote] at stepped
      split at stepped
      · exact Inv.of_send stepped rfl zero quiet
      · obtain rfl := Option.some.inj stepped
        exact inv.of_idle running running rfl rfl
  | releaseRemote =>
      simp only [Phases.call, releaseRemote] at stepped
      split at stepped
      · exact Inv.of_send stepped rfl zero quiet
      · obtain rfl := Option.some.inj stepped
        exact inv
  | commitRemote =>
      simp only [Phases.call, commitRemote] at stepped
      split at stepped
      · split at stepped
        · exact Inv.of_send stepped rfl zero quiet
        · cases stepped
      · obtain rfl := Option.some.inj stepped
        exact inv
  | pollCompCallback reply => cases stepped
  | resume => cases stepped

/-! ### Replies -/

/-- One more reply of the phase arrives. -/
theorem Inv.pollCompCallback (inv : Inv before) {reply : Reply}
    (stepped : pollCompCallback before reply = some after) : Inv after := by
  rw [Phases.pollCompCallback] at stepped
  split at stepped
  · rename_i member
    cases waiting : before.waiting with
    | none =>
        rw [(inv.idle waiting).2] at member
        cases member
    | some phase =>
        have waits := inv.waits phase waiting
        have positive := List.length_pos_of_mem member
        rw [← waits.count] at positive
        rw [if_neg (Nat.pos_iff_ne_zero.mp positive)] at stepped
        obtain rfl := Option.some.inj stepped
        have shorter := List.length_erase_of_mem member
        have mine : reply.phase = phase.number := waits.mine _ member
        refine ⟨fun idle => ?_, fun other same => ?_⟩
        · change before.waiting = none at idle
          rw [waiting] at idle
          cases idle
        · obtain rfl : phase = other := Option.some.inj (waiting.symm.trans same)
          constructor
          case registered => exact waits.registered
          case own =>
              intro other inside
              rcases List.mem_append.mp inside with earlier | last
              · exact waits.own other earlier
              · rw [List.mem_singleton.mp last, mine]
          case mine => exact fun entry inside => waits.mine entry (List.mem_of_mem_erase inside)
          case count => simp only [shorter, waits.count]
          case ready =>
              rw [decide_eq_true_eq, ← List.length_eq_zero_iff, shorter, waits.count]
              rw [waits.count] at positive
              omega
          case servers =>
              have split := (List.perm_cons_erase member).map Prod.snd
              rw [List.map_append, List.append_assoc]
              exact ((split.append_left _).symm).trans waits.servers
          case buffer =>
              intro checked index other found
              simp only [waiting, Option.any_some, checked, decide_true, if_true]
              by_cases last : index = before.received.length
              · subst last
                rw [List.getElem?_concat_length] at found
                rw [Function.update_self, Option.some.inj found]
              · have earlier : index < before.received.length := by
                  have inside := (List.getElem?_eq_some_iff.mp found).1
                  rw [List.length_append, List.length_singleton] at inside
                  omega
                rw [List.getElem?_append_left earlier] at found
                rw [Function.update_of_ne last]
                exact waits.buffer checked index other found
  · cases stepped

/-- The routine goes on when nothing is under way for it. -/
theorem Inv.resume (inv : Inv before) (stepped : resume before = some after) : Inv after := by
  rw [Phases.resume] at stepped
  split at stepped
  · cases stepped
  · rename_i phase waiting
    have waits := inv.waits phase waiting
    split at stepped
    · rename_i ready
      have quiet := waits.ready.mp ready
      have zero : before.replyCount = 0 := by rw [waits.count, quiet, List.length_nil]
      have idle : ∀ set maxTime result,
          Inv { before with set, maxTime, result, waiting := none, ready := false } :=
        fun _ _ _ => ⟨fun _ => ⟨zero, quiet⟩, fun _ waiting => by cases waiting⟩
      cases request : phase.request
      all_goals
        simp only [request] at stepped
        obtain rfl := Option.some.inj stepped
        exact idle _ _ _
    · cases stepped

theorem Inv.step (inv : Inv before) (same : SameNumber before action)
    (stepped : step before action = some after) : Inv after := by
  cases action with
  | pollCompCallback reply => exact inv.pollCompCallback stepped
  | resume => exact inv.resume stepped
  | _ =>
      simp only [Phases.step] at stepped
      split at stepped
      · rename_i running
        exact inv.call running stepped same
      · cases stepped

/-! ## All runs -/

/-- As long as every lock request goes to as many servers as were read from, every phase waits for
exactly its replies; and a phase that begins with another number of servers does not. -/
theorem allExact_iff {set : RemoteSet} {replyBuf1 : Nat → ReplyHeader}
    (reach : Reach step SameNumber (State.start set replyBuf1) before) :
    AllExact before ∧ ∀ action after, step before action = some after →
      (AllExact after ↔ SameNumber before action) := by
  have inv : Inv before := reach.invariant Inv (Inv.start set replyBuf1)
    fun _ _ _ inv same stepped => inv.step same stepped
  refine ⟨inv.allExact, fun action after stepped => ⟨fun exact isLock some => ?_, fun same =>
    (inv.step same stepped).allExact⟩⟩
  subst isLock
  simp only [step, call, lockRemote, if_pos some] at stepped
  split at stepped
  · exact matching_of_send stepped exact
  · cases stepped

/-- A run that reads from and writes to one server. -/
theorem allExact_iff_locking : ∃ state, state.waiting = some ⟨.lock, 0, 1, [1]⟩ ∧
    AllExact state := by
  let set : RemoteSet :=
    ⟨fun _ => ⟨0, 0, 0, 0, 0⟩, 0, 0, 0, [], [], false, fun _ => 0, 16, fun _ => 0, 16⟩
  have added : Reach step SameNumber (State.start set fun _ => ⟨0, 0⟩) _ :=
    Reach.refl.tail (by rintro ⟨⟩) (show step _ (.add 1 0 7) = some _ from rfl)
  have promoted := added.tail (by rintro ⟨⟩) (show step _ (.promoteToWrite 0 [1]) = some _ from rfl)
  have locking := promoted.tail (fun _ _ => rfl) (show step _ .lockRemote = some _ from rfl)
  exact ⟨_, rfl, (allExact_iff locking).1⟩

/-- Two servers are read from and one is written to. -/
theorem not_allExact : ¬∀ (set : RemoteSet) (replyBuf1 : Nat → ReplyHeader) (state : State),
    Reachable step (State.start set replyBuf1) state → AllExact state := by
  intro always
  let set : RemoteSet :=
    ⟨fun _ => ⟨0, 0, 0, 0, 0⟩, 0, 0, 0, [], [], false, fun _ => 0, 16, fun _ => 0, 16⟩
  have added : Reachable step (State.start set fun _ => ⟨0, 0⟩) _ :=
    Reach.refl.tail trivial (show step _ (.add 1 0 7) = some _ from rfl)
  have both := added.tail trivial (show step _ (.add 2 0 8) = some _ from rfl)
  have promoted := both.tail trivial (show step _ (.promoteToWrite 0 [1]) = some _ from rfl)
  have locking := promoted.tail trivial (show step _ .lockRemote = some _ from rfl)
  exact absurd (always _ _ _ locking _ rfl).registered (by decide)

end Rocc.Db.Phases
