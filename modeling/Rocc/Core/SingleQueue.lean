import Mathlib.Data.UInt
import Rocc.Base.ByteRing
import Rocc.Base.Run

/-!
# A queue of messages in a ring

`SingleQueue` keeps messages in a ring of bytes.  A message stands between two bytes with its
size; the consumer takes a message to be there when the two bytes agree, and wipes them out
with it.  Header and tailer are counters of bytes that are taken modulo the size of the
ring; the buffer is longer than the ring by the largest message.

A size byte is signed.  Accesses outside the buffer and copies of a negative length have no
result in the model.
-/

namespace Rocc.Core

/-- `buf_size`. -/
def bufSize : Nat := 809600

/-- The bytes that the constructor allocates. -/
def bufCapacity : Nat := bufSize + 64

/-- The largest message that the buffer is made for. -/
def maxMessage : Nat := 62

/-- The value of an `int8_t`. -/
def signed (byte : UInt8) : Int := if byte.toNat < 128 then byte.toNat else byte.toNat - 256

/-- `SingleQueue`. -/
structure SingleQueue where
  header : UInt64
  tailer : UInt64
  cycleBuf : Memory

namespace SingleQueue

/-- The constructor, over a buffer of zeros. -/
def new : SingleQueue := { header := 0, tailer := 0, cycleBuf := fun _ => 0 }

/-- `buf_size - (tailer - header)`, in 64 bits. -/
def free (queue : SingleQueue) : UInt64 := UInt64.ofNat bufSize - (queue.tailer - queue.header)

/-- `enqueue` goes on behind its test. -/
def accepts (queue : SingleQueue) (msg : List UInt8) : Bool :=
  decide (UInt64.ofNat msg.length ≤ queue.free)

/-- `tailer % buf_size`. -/
def tailPlace (queue : SingleQueue) : Nat := (queue.tailer % UInt64.ofNat bufSize).toNat

/-- `header % buf_size`. -/
def headPlace (queue : SingleQueue) : Nat := (queue.header % UInt64.ofNat bufSize).toNat

/-- `enqueue`: the size, the message, the size once more. -/
def enqueue (queue : SingleQueue) (msg : List UInt8) : Option SingleQueue :=
  if queue.accepts msg then
    if queue.tailPlace + msg.length + 2 ≤ bufCapacity then
      let size := UInt8.ofNat msg.length
      some
        { queue with
          cycleBuf := ((queue.cycleBuf.write queue.tailPlace [size]).write
            (queue.tailPlace + 1) msg).write (queue.tailPlace + 1 + msg.length) [size]
          tailer := queue.tailer + UInt64.ofNat (msg.length + 2) }
    else none
  else some queue

/-- `front`: what is copied to `entry`, or `none` where it returns false. -/
def front (queue : SingleQueue) : Option (Option (List UInt8)) :=
  let size := signed (queue.cycleBuf queue.headPlace)
  if size = 0 then some none
  else
    let last : Int := queue.headPlace + 1 + size
    if 0 ≤ last ∧ last < bufCapacity then
      if signed (queue.cycleBuf last.toNat) = size then
        if 0 ≤ size then some (some (queue.cycleBuf.read (queue.headPlace + 1) size.toNat))
        else none
      else some none
    else none

/-- `pop`: wipe out what stands at the header and move on. -/
def pop (queue : SingleQueue) : Option SingleQueue :=
  let length := signed (queue.cycleBuf queue.headPlace) + 2
  if 0 ≤ length ∧ queue.headPlace + length ≤ bufCapacity then
    some
      { queue with
        cycleBuf := queue.cycleBuf.write queue.headPlace (List.replicate length.toNat 0)
        header := queue.header + UInt64.ofNat length.toNat }
  else none

end SingleQueue

/-! ## The queue in use -/

/-- The queue, and the accepted messages that have not been popped with the places where they
were put, the oldest first. -/
structure QueueState where
  queue : SingleQueue
  live : List (Nat × List UInt8)

inductive QueueAction where
  | enqueue (msg : List UInt8)
  | front
  | pop

/-- A call; `front` changes nothing. -/
def queueStep (state : QueueState) : QueueAction → Option QueueState
  | .enqueue msg =>
      if 1 ≤ msg.length ∧ msg.length ≤ maxMessage then
        (state.queue.enqueue msg).map fun queue =>
          { queue := queue
            live :=
              if state.queue.accepts msg then state.live ++ [(state.queue.tailPlace, msg)]
              else state.live }
      else none
  | .front => (state.queue.front).map fun _ => state
  | .pop => state.queue.pop.map fun queue => { queue := queue, live := state.live.tail }

/-- The queue as it is constructed. -/
def emptyQueue : QueueState := { queue := .new, live := [] }

/-- A message between its sizes. -/
def frame (msg : List UInt8) : List UInt8 :=
  UInt8.ofNat msg.length :: (msg ++ [UInt8.ofNat msg.length])

/-- An accepted message fits with its sizes, the counters do not wrap around, and only a queue
with a message is popped. -/
def Proper (state : QueueState) : QueueAction → Prop
  | .enqueue msg => state.queue.accepts msg = true →
      state.queue.tailer.toNat + msg.length + 2 ≤ state.queue.header.toNat + bufSize ∧
        state.queue.tailer.toNat + msg.length + 2 < 2 ^ 64
  | .front => True
  | .pop => state.queue.header ≠ state.queue.tailer

/-! ## What the buffer holds -/

/-- The bytes of the messages. -/
def frames (live : List (Nat × List UInt8)) : List (List UInt8) :=
  live.map fun message => frame message.2

/-- Every message stands where the messages before it end. -/
def Placed : Nat → List (Nat × List UInt8) → Prop
  | _, [] => True
  | start, message :: live =>
      message.1 = start % bufSize ∧ Placed (start + (message.2.length + 2)) live

/-- The buffer holds the frames of the messages between header and tailer, and zeros. -/
structure QueueInv (state : QueueState) : Prop where
  sized : ∀ message ∈ state.live, 1 ≤ message.2.length ∧ message.2.length ≤ maxMessage
  placed : Placed state.queue.header.toNat state.live
  tailer : state.queue.tailer.toNat = state.queue.header.toNat + span (frames state.live)
  fits : span (frames state.live) ≤ bufSize
  cycleBuf : state.queue.cycleBuf = lay bufSize state.queue.header.toNat (frames state.live)

@[simp] theorem length_frame (msg : List UInt8) : (frame msg).length = msg.length + 2 := by
  simp [frame]

@[simp] theorem frames_nil : frames [] = [] := rfl

@[simp] theorem frames_cons (message : Nat × List UInt8) (live : List (Nat × List UInt8)) :
    frames (message :: live) = frame message.2 :: frames live := rfl

@[simp] theorem frames_append (live others : List (Nat × List UInt8)) :
    frames (live ++ others) = frames live ++ frames others := List.map_append

theorem placed_append {start : Nat} {live : List (Nat × List UInt8)} {message : Nat × List UInt8}
    (placed : Placed start live) (last : message.1 = (start + span (frames live)) % bufSize) :
    Placed start (live ++ [message]) := by
  induction live generalizing start with
  | nil => exact ⟨by simpa using last, trivial⟩
  | cons head live hypothesis =>
      refine ⟨placed.1, hypothesis placed.2 ?_⟩
      rw [last, frames_cons, span_cons, length_frame, Nat.add_assoc start]

/-- Where a message in the queue was put. -/
theorem Placed.place {start : Nat} {before behind : List (Nat × List UInt8)}
    {message : Nat × List UInt8} (placed : Placed start (before ++ message :: behind)) :
    message.1 = (start + span (frames before)) % bufSize := by
  induction before generalizing start with
  | nil => exact placed.1
  | cons head before hypothesis =>
      rw [hypothesis placed.2, frames_cons, span_cons, length_frame, Nat.add_assoc start]

/-- A counter below a ring. -/
theorem toNat_mod_bufSize (counter : UInt64) :
    (counter % UInt64.ofNat bufSize).toNat = counter.toNat % bufSize := by
  rw [UInt64.toNat_mod]
  rfl

/-- A size byte of a message. -/
theorem signed_ofNat {size : Nat} (small : size ≤ maxMessage) :
    signed (UInt8.ofNat size) = size := by
  unfold maxMessage at small
  have value : (UInt8.ofNat size).toNat = size := by
    rw [UInt8.toNat_ofNat', Nat.mod_eq_of_lt (by omega)]
  rw [signed, value, if_pos (by omega)]

/-- A frame is written piece by piece. -/
theorem write_frame (memory : Memory) (place : Nat) (msg : List UInt8) :
    ((memory.write place [UInt8.ofNat msg.length]).write (place + 1) msg).write
        (place + 1 + msg.length) [UInt8.ofNat msg.length] =
      memory.write place (frame msg) := by
  have pieces : frame msg =
      [UInt8.ofNat msg.length] ++ (msg ++ [UInt8.ofNat msg.length]) := rfl
  rw [pieces, Memory.write_append, Memory.write_append]
  rfl

/-- The pieces of a frame in the buffer. -/
theorem held_frame {memory : Memory} {place : Nat} {msg : List UInt8}
    (held : memory.Holds place (frame msg)) :
    memory place = UInt8.ofNat msg.length ∧ memory.read (place + 1) msg.length = msg ∧
      memory (place + 1 + msg.length) = UInt8.ofNat msg.length := by
  have pieces : frame msg =
      [UInt8.ofNat msg.length] ++ (msg ++ [UInt8.ofNat msg.length]) := rfl
  rw [pieces, Memory.holds_append, Memory.holds_append] at held
  obtain ⟨first, middle, last⟩ := held
  exact ⟨by simpa [Memory.Holds, Memory.read] using first, middle,
    by simpa [Memory.Holds, Memory.read] using last⟩

/-! ## The calls -/

section

variable {state : QueueState}

/-- A message is accepted: its frame stands behind the last one. -/
theorem enqueue_eq {msg : List UInt8} (small : msg.length ≤ maxMessage)
    (accepted : state.queue.accepts msg = true) :
    state.queue.enqueue msg =
      some
        { state.queue with
          cycleBuf := state.queue.cycleBuf.write (state.queue.tailer.toNat % bufSize) (frame msg)
          tailer := state.queue.tailer + UInt64.ofNat (msg.length + 2) } := by
  have place := Nat.mod_lt state.queue.tailer.toNat (show 0 < bufSize by decide)
  have room : state.queue.tailer.toNat % bufSize + msg.length + 2 ≤ bufCapacity := by
    unfold maxMessage at small
    unfold bufCapacity
    omega
  rw [SingleQueue.enqueue, if_pos accepted, SingleQueue.tailPlace, toNat_mod_bufSize,
    if_pos room]
  simp only [write_frame]

/-- A message is refused. -/
theorem enqueue_refused {msg : List UInt8} (refused : ¬ state.queue.accepts msg = true) :
    state.queue.enqueue msg = some state.queue := if_neg refused

/-- The next message. -/
theorem QueueInv.enqueue (inv : QueueInv state) {msg : List UInt8} (positive : 1 ≤ msg.length)
    (small : msg.length ≤ maxMessage)
    (fits : state.queue.tailer.toNat + msg.length + 2 ≤ state.queue.header.toNat + bufSize)
    (counted : state.queue.tailer.toNat + msg.length + 2 < 2 ^ 64) :
    QueueInv
      { queue :=
          { state.queue with
            cycleBuf := state.queue.cycleBuf.write (state.queue.tailer.toNat % bufSize)
              (frame msg)
            tailer := state.queue.tailer + UInt64.ofNat (msg.length + 2) }
        live := state.live ++ [(state.queue.tailPlace, msg)] } := by
  have tailer := inv.tailer
  constructor
  · intro message member
    rw [List.mem_append, List.mem_singleton] at member
    cases member with
    | inl old => exact inv.sized message old
    | inr new =>
        rw [new]
        exact ⟨positive, small⟩
  · refine placed_append inv.placed ?_
    rw [← tailer]
    exact toNat_mod_bufSize _
  · simp only [frames_append, span_append, frames_cons, span_cons, length_frame, frames_nil,
      span_nil, UInt64.toNat_add, UInt64.toNat_ofNat']
    omega
  · simp only [frames_append, span_append, frames_cons, span_cons, length_frame, frames_nil,
      span_nil]
    omega
  · simp only [frames_append, frames_cons, frames_nil]
    rw [lay_append (by rw [length_frame]; omega), ← tailer, inv.cycleBuf]

/-- The oldest message in the buffer. -/
theorem QueueInv.oldest (inv : QueueInv state) {message : Nat × List UInt8}
    {live : List (Nat × List UInt8)} (split : state.live = message :: live) :
    state.queue.cycleBuf.Holds state.queue.headPlace (frame message.2) := by
  have fits := inv.fits
  rw [split, frames_cons] at fits
  rw [inv.cycleBuf, split, SingleQueue.headPlace, toNat_mod_bufSize]
  exact @lay_holds _ _ [] _ _ fits

/-- `front` finds the oldest message. -/
theorem QueueInv.front (inv : QueueInv state) :
    state.queue.front = some (state.live.head?.map Prod.snd) := by
  cases split : state.live with
  | nil =>
      have empty : state.queue.cycleBuf state.queue.headPlace = 0 := by
        rw [inv.cycleBuf, split]
        rfl
      rw [SingleQueue.front, empty]
      rfl
  | cons message live =>
      obtain ⟨positive, small⟩ := inv.sized message (by simp [split])
      obtain ⟨first, middle, last⟩ := held_frame (inv.oldest split)
      have place : state.queue.headPlace < bufSize := by
        rw [SingleQueue.headPlace, toNat_mod_bufSize]
        exact Nat.mod_lt _ (by decide)
      have there : ((state.queue.headPlace : Int) + 1 + (message.2.length : Int)).toNat =
          state.queue.headPlace + 1 + message.2.length := by omega
      have inside : (0 : Int) ≤ state.queue.headPlace + 1 + (message.2.length : Int) ∧
          (state.queue.headPlace : Int) + 1 + (message.2.length : Int) < bufCapacity := by
        unfold maxMessage at small
        unfold bufCapacity
        omega
      rw [SingleQueue.front, first, signed_ofNat small]
      simp only
      rw [if_neg (by omega), if_pos inside, there, last, signed_ofNat small, if_pos rfl,
        if_pos (by omega), Int.toNat_natCast, middle]
      rfl

/-- `pop` takes the oldest message away. -/
theorem QueueInv.pop (inv : QueueInv state) {message : Nat × List UInt8}
    {live : List (Nat × List UInt8)} (split : state.live = message :: live)
    (counted : state.queue.header.toNat + message.2.length + 2 < 2 ^ 64) :
    ∃ queue, state.queue.pop = some queue ∧ queue.tailer = state.queue.tailer ∧
      queue.header.toNat = state.queue.header.toNat + (message.2.length + 2) ∧
      QueueInv { queue := queue, live := live } := by
  obtain ⟨positive, small⟩ := inv.sized message (by simp [split])
  obtain ⟨first, _, _⟩ := held_frame (inv.oldest split)
  have place : state.queue.headPlace < bufSize := by
    rw [SingleQueue.headPlace, toNat_mod_bufSize]
    exact Nat.mod_lt _ (by decide)
  have length : ((message.2.length : Int) + 2).toNat = message.2.length + 2 := by omega
  have inside : (0 : Int) ≤ (message.2.length : Int) + 2 ∧
      (state.queue.headPlace : Int) + ((message.2.length : Int) + 2) ≤ bufCapacity := by
    unfold maxMessage at small
    unfold bufCapacity
    omega
  have header : (state.queue.header + UInt64.ofNat (message.2.length + 2)).toNat =
      state.queue.header.toNat + (message.2.length + 2) := by
    rw [UInt64.toNat_add, UInt64.toNat_ofNat']
    omega
  have tailer := inv.tailer
  have fits := inv.fits
  have placed := inv.placed
  rw [split] at tailer fits placed
  rw [SingleQueue.pop, first, signed_ofNat small, if_pos inside, length]
  refine ⟨_, rfl, rfl, header, ?_, ?_, ?_, ?_, ?_⟩
  · intro other member
    exact inv.sized other (by simp [split, member])
  · simp only [header]
    exact placed.2
  · simp only [header, tailer, frames_cons, span_cons, length_frame]
    omega
  · rw [frames_cons, span_cons] at fits
    simp only
    omega
  · simp only [header]
    rw [inv.cycleBuf, split, SingleQueue.headPlace, toNat_mod_bufSize, frames_cons,
      ← length_frame message.2]
    exact lay_clear fits

/-! ## Runs -/

/-- A queue whose counters differ has a message. -/
theorem QueueInv.exists_message (inv : QueueInv state)
    (different : state.queue.header ≠ state.queue.tailer) :
    ∃ message live, state.live = message :: live := by
  cases split : state.live with
  | nil =>
      have tailer := inv.tailer
      rw [split, frames_nil, span_nil, Nat.add_zero] at tailer
      exact absurd (UInt64.toNat_inj.mp tailer).symm different
  | cons message live => exact ⟨message, live, rfl⟩

/-- What every proper call keeps. -/
theorem QueueInv.step (inv : QueueInv state) {action : QueueAction} {after : QueueState}
    (proper : Proper state action) (stepped : queueStep state action = some after) :
    QueueInv after := by
  cases action with
  | enqueue msg =>
      simp only [queueStep] at stepped
      split at stepped
      · rename_i sized
        by_cases accepted : state.queue.accepts msg = true
        · obtain ⟨fits, counted⟩ := proper accepted
          rw [enqueue_eq sized.2 accepted, Option.map_some, if_pos accepted,
            Option.some.injEq] at stepped
          rw [← stepped]
          exact inv.enqueue sized.1 sized.2 fits counted
        · rw [enqueue_refused accepted, Option.map_some, if_neg accepted,
            Option.some.injEq] at stepped
          rw [← stepped]
          exact inv
      · cases stepped
  | front =>
      simp only [queueStep, inv.front, Option.map_some, Option.some.injEq] at stepped
      rw [← stepped]
      exact inv
  | pop =>
      obtain ⟨message, live, split⟩ := inv.exists_message proper
      have counted : state.queue.header.toNat + message.2.length + 2 < 2 ^ 64 := by
        have tailer := inv.tailer
        have bound := state.queue.tailer.toNat_lt
        rw [split, frames_cons, span_cons, length_frame] at tailer
        omega
      obtain ⟨queue, popped, _, _, kept⟩ := inv.pop split counted
      simp only [queueStep, popped, Option.map_some, Option.some.injEq, split,
        List.tail_cons] at stepped
      rw [← stepped]
      exact kept

end

theorem queueInv_empty : QueueInv emptyQueue :=
  ⟨by simp [emptyQueue], trivial, rfl, by simp [emptyQueue], rfl⟩

/-- The queue is a FIFO in every run of proper calls: `front` finds the oldest accepted message
and nothing when there is none, and every accepted message stays where it was put until
it is popped. -/
theorem queue_fifo {state : QueueState} (reach : Reach queueStep Proper emptyQueue state) :
    state.queue.front = some (state.live.head?.map Prod.snd) ∧
      ∀ message ∈ state.live, state.queue.cycleBuf.Holds message.1 (frame message.2) := by
  have inv : QueueInv state := by
    apply reach.invariant QueueInv queueInv_empty
    intro before action after kept proper stepped
    exact kept.step proper stepped
  refine ⟨inv.front, ?_⟩
  intro message member
  obtain ⟨before, behind, split⟩ := List.append_of_mem member
  have placed := inv.placed
  have fits := inv.fits
  rw [split] at placed fits
  rw [inv.cycleBuf, split, placed.place]
  simp only [frames_append, frames_cons] at fits ⊢
  exact lay_holds fits

/-! ## Runs of the queue -/

instance (state : QueueState) (action : QueueAction) : Decidable (Proper state action) :=
  match action with
  | .enqueue msg => inferInstanceAs (Decidable (state.queue.accepts msg = true → _))
  | .front => inferInstanceAs (Decidable True)
  | .pop => inferInstanceAs (Decidable (state.queue.header ≠ state.queue.tailer))

/-- Two messages, of which the first one is popped. -/
theorem queue_fifo_pair :
    ∃ state, Reach queueStep Proper emptyQueue state ∧ state.live = [(3, [8, 9])] ∧
      state.queue.front = some (some [8, 9]) := by
  obtain ⟨state, reach, live⟩ :
      ∃ state, Reach queueStep Proper emptyQueue state ∧ state.live = [(3, [8, 9])] :=
    Reach.exists_of_exec [.enqueue [7], .enqueue [8, 9], .front, .pop] (by decide +kernel)
  refine ⟨state, reach, live, ?_⟩
  rw [(queue_fifo reach).1, live]
  rfl

/-- What the test of `enqueue` compares with. -/
theorem QueueInv.accepts_iff {state : QueueState} (inv : QueueInv state) {msg : List UInt8}
    (small : msg.length ≤ maxMessage) :
    state.queue.accepts msg = true ↔ msg.length + span (frames state.live) ≤ bufSize := by
  have tailer := inv.tailer
  have fits := inv.fits
  have bound := state.queue.tailer.toNat_lt
  have used : (state.queue.tailer - state.queue.header).toNat = span (frames state.live) := by
    rw [UInt64.toNat_sub_of_le _ _ (UInt64.le_iff_toNat_le.mpr (by omega))]
    omega
  have ring : (UInt64.ofNat bufSize).toNat = bufSize := rfl
  have left : state.queue.free.toNat = bufSize - span (frames state.live) := by
    rw [SingleQueue.free, UInt64.toNat_sub_of_le _ _
      (UInt64.le_iff_toNat_le.mpr (by rw [used, ring]; exact fits)), used, ring]
  have size : (UInt64.ofNat msg.length).toNat = msg.length := by
    unfold maxMessage at small
    rw [UInt64.toNat_ofNat', Nat.mod_eq_of_lt (by omega)]
  rw [SingleQueue.accepts, decide_eq_true_eq, UInt64.le_iff_toNat_le, size, left]
  omega

/-- A message that is accepted in a proper call. -/
theorem QueueInv.exists_enqueue {state : QueueState} (inv : QueueInv state) {msg : List UInt8}
    (positive : 1 ≤ msg.length) (small : msg.length ≤ maxMessage)
    (room : msg.length + 2 + span (frames state.live) ≤ bufSize)
    (counted : state.queue.tailer.toNat + msg.length + 2 < 2 ^ 64) :
    ∃ after, Proper state (.enqueue msg) ∧ queueStep state (.enqueue msg) = some after ∧
      QueueInv after ∧ after.queue.header = state.queue.header ∧
      after.queue.tailer.toNat = state.queue.tailer.toNat + (msg.length + 2) ∧
      after.live = state.live ++ [(state.queue.tailer.toNat % bufSize, msg)] := by
  have tailer := inv.tailer
  have accepted : state.queue.accepts msg = true := (inv.accepts_iff small).mpr (by omega)
  have proper : Proper state (.enqueue msg) := fun _ => ⟨by omega, counted⟩
  refine ⟨_, proper, ?_, inv.enqueue positive small (by omega) counted, rfl, ?_, ?_⟩
  · simp only [queueStep]
    rw [if_pos ⟨positive, small⟩, enqueue_eq small accepted, Option.map_some, if_pos accepted]
  · simp only [UInt64.toNat_add, UInt64.toNat_ofNat']
    omega
  · simp only [SingleQueue.tailPlace, toNat_mod_bufSize]

/-- A message of the largest size. -/
def largest : List UInt8 := List.replicate 62 0

/-- Messages of the largest size, from the start of the ring. -/
def filled (count : Nat) : List (Nat × List UInt8) :=
  (List.range count).map fun index => (64 * index, largest)

theorem filled_succ (count : Nat) :
    filled (count + 1) = filled count ++ [(64 * count, largest)] := by
  simp [filled, List.range_succ]

theorem span_filled (count : Nat) : span (frames (filled count)) = 64 * count := by
  induction count with
  | zero => rfl
  | succ count hypothesis =>
      rw [filled_succ, frames_append, span_append, hypothesis]
      simp [largest]
      omega

theorem filled_two (count : Nat) :
    ∃ others, filled (count + 2) = (0, largest) :: (64, largest) :: others := by
  rw [filled, List.range_succ_eq_map, List.range_succ_eq_map]
  exact ⟨_, rfl⟩

/-- The ring has room for 12650 of them. -/
theorem exists_filled (count : Nat) (room : count ≤ 12650) :
    ∃ state, Reach queueStep Proper emptyQueue state ∧ QueueInv state ∧
      state.queue.header = 0 ∧ state.live = filled count := by
  induction count with
  | zero => exact ⟨emptyQueue, .refl, queueInv_empty, rfl, rfl⟩
  | succ count hypothesis =>
      obtain ⟨state, reach, inv, header, live⟩ := hypothesis (by omega)
      have span := span_filled count
      rw [← live] at span
      have length : largest.length = 62 := rfl
      have tailer : state.queue.tailer.toNat = 64 * count := by
        rw [inv.tailer, header, span]
        simp
      have ring : bufSize = 809600 := rfl
      obtain ⟨after, proper, stepped, kept, same, _, grown⟩ :=
        @QueueInv.exists_enqueue state inv largest (by decide) (by decide) (by omega) (by omega)
      refine ⟨after, reach.tail proper stepped, kept, same.trans header, ?_⟩
      rw [grown, live, filled_succ, tailer, Nat.mod_eq_of_lt (by omega)]

/-- The ring is full, the oldest message is popped, and a message of 61 bytes takes all but
one of the bytes that are free.  A message of one byte is accepted and put over the size
of the oldest message. -/
theorem message_overwritten :
    ∃ state, Reach queueStep anyAction emptyQueue state ∧
      ∃ message ∈ state.live, ¬ state.queue.cycleBuf.Holds message.1 (frame message.2) := by
  obtain ⟨full, reach, inv, header, live⟩ := exists_filled 12650 le_rfl
  obtain ⟨others, two⟩ := filled_two 12648
  rw [two] at live
  have length : largest.length = 62 := rfl
  have ring : bufSize = 809600 := rfl
  have used : full.queue.tailer.toNat = 809600 := by
    rw [inv.tailer, header, live, ← two, span_filled]
    rfl
  have start : full.queue.header.toNat = 0 := by
    rw [header]
    rfl
  obtain ⟨queue, popped, tailer, header', kept⟩ := inv.pop live (by simp only [start]; omega)
  simp only [start, length, Nat.zero_add] at header'
  have rest := kept.tailer
  simp only [tailer, header', used] at rest
  obtain ⟨near, _, enqueued, nearInv, sameHeader, nearTailer, nearLive⟩ :=
    @QueueInv.exists_enqueue _ kept (List.replicate 61 0) (by decide) (by decide)
      (by simp only [List.length_replicate]; omega)
      (by simp only [List.length_replicate, tailer]; omega)
  simp only [tailer, used, List.length_replicate] at nearTailer
  have counted := nearInv.tailer
  rw [nearTailer, sameHeader] at counted
  simp only [header'] at counted
  have accepted : near.queue.accepts [9] = true :=
    (nearInv.accepts_iff (by decide)).mpr (by simp only [List.length_singleton]; omega)
  have place : near.queue.tailer.toNat % bufSize = 63 := by
    rw [nearTailer, ring]
  have pop : queueStep full .pop = some { queue := queue, live := (64, largest) :: others } := by
    simp only [queueStep, popped, Option.map_some, live, List.tail_cons]
  have last : queueStep near (.enqueue [9]) = some
      { queue :=
          { near.queue with
            cycleBuf := near.queue.cycleBuf.write 63 (frame [9])
            tailer := near.queue.tailer + UInt64.ofNat 3 }
        live := near.live ++ [(near.queue.tailPlace, [9])] } := by
    simp only [queueStep]
    rw [if_pos (by decide), enqueue_eq (by decide) accepted, Option.map_some, if_pos accepted,
      place]
    rfl
  refine ⟨_, (((reach.mono fun _ _ _ => trivial).tail trivial pop).tail trivial enqueued).tail
    trivial last, (64, largest), by simp [nearLive], ?_⟩
  intro held
  have size := (held_frame held).1
  have written : near.queue.cycleBuf.write 63 (frame [9]) 64 = 9 := by
    simp [Memory.write, frame]
  exact absurd (written.symm.trans size) (by decide)

end Rocc.Core
