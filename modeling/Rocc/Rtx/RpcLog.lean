import Mathlib.Data.List.Induction
import Rocc.Base.Memory

/-!
# Logs sent with RPCs

`RpcLogger` sends the log entry of a transaction to the backups as a request.  The handler
copies it to `local_buffer`, at a place that it takes from the id of the coroutine, and
replies with an empty message.  Worker threads of different machines send with the same
ids.
-/

namespace Rocc.Rtx.RpcLog

/-- `RTX_LOG_ENTRY_SIZE`. -/
def logEntrySize : Nat := 2048

/-- `MAX_MSG_SIZE`. -/
def maxMsgSize : Nat := 4096

/-- The number of messages that `local_buffer` has room for. -/
def bufferSlots : Nat := 32

/-- A request as the handler gets it: machine and coroutine of the sender, and the entry. -/
structure Message where
  id : Nat
  cid : Nat
  msg : List UInt8
  deriving DecidableEq, Repr

/-- `log_remote_handler` on `local_buffer`: its assertion, then the copy, which has a
meaning only inside the buffer. -/
def logRemoteHandler (localBuffer : Memory) (message : Message) : Option Memory :=
  if message.msg.length < logEntrySize ∧ 0 < message.msg.length then
    if message.cid * maxMsgSize + message.msg.length ≤ maxMsgSize * bufferSlots then
      some (localBuffer.write (message.cid * maxMsgSize) message.msg)
    else none
  else none

/-- The handler on one message after the other. -/
def serve (localBuffer : Memory) (messages : List Message) : Option Memory :=
  messages.foldlM logRemoteHandler localBuffer

/-- The last log that a coroutine of a machine has sent. -/
def lastLog (id cid : Nat) (messages : List Message) : Option (List UInt8) :=
  (messages.reverse.find? fun message => message.id = id ∧ message.cid = cid).map Message.msg

/-- After every message the last log of every sender is in the buffer. -/
def KeepsLogs (localBuffer : Memory) (messages : List Message) : Prop :=
  ∀ before after, messages = before ++ after →
    ∃ buffer, serve localBuffer before = some buffer ∧
      ∀ id cid log, lastLog id cid before = some log → buffer.Holds (cid * maxMsgSize) log

/-- Two logs are the same as far as both go. -/
def Agree (log other : List UInt8) : Prop :=
  log.take other.length = other.take log.length

/-- A message that does no harm: its size and its coroutine are as expected, and it agrees
with the logs that the coroutines with this id on other machines have sent last. -/
def Harmless (before : List Message) (message : Message) : Prop :=
  0 < message.msg.length ∧ message.msg.length < logEntrySize ∧ message.cid < bufferSlots ∧
    ∀ id log, id ≠ message.id → lastLog id message.cid before = some log →
      Agree log message.msg

/-! ## The last logs -/

@[simp] theorem lastLog_nil (id cid : Nat) : lastLog id cid [] = none := rfl

theorem lastLog_concat (id cid : Nat) (messages : List Message) (message : Message) :
    lastLog id cid (messages ++ [message]) =
      if message.id = id ∧ message.cid = cid then some message.msg
      else lastLog id cid messages := by
  by_cases same : message.id = id ∧ message.cid = cid
  · simp [lastLog, same]
  · rw [if_neg same]
    simp [lastLog, same]

theorem serve_concat (localBuffer : Memory) (messages : List Message) (message : Message) :
    serve localBuffer (messages ++ [message]) =
      (serve localBuffer messages).bind fun buffer => logRemoteHandler buffer message := by
  simp [serve, List.foldlM_append]

/-- When the handler stores a message. -/
theorem logRemoteHandler_eq_some {localBuffer after : Memory} {message : Message} :
    logRemoteHandler localBuffer message = some after ↔
      0 < message.msg.length ∧ message.msg.length < logEntrySize ∧ message.cid < bufferSlots ∧
        after = localBuffer.write (message.cid * maxMsgSize) message.msg := by
  unfold logRemoteHandler
  constructor
  · intro stored
    split at stored
    · rename_i sized
      split at stored
      · rename_i inside
        cases stored
        refine ⟨sized.2, sized.1, ?_, rfl⟩
        unfold maxMsgSize bufferSlots at *
        omega
      · cases stored
    · cases stored
  · rintro ⟨positive, sized, inside, rfl⟩
    rw [if_pos ⟨sized, positive⟩, if_pos]
    unfold logEntrySize maxMsgSize bufferSlots at *
    omega

/-- What is stored was sent, and passed the assertion. -/
theorem length_lt_of_lastLog {localBuffer buffer : Memory} {messages : List Message}
    (served : serve localBuffer messages = some buffer) {id cid : Nat} {log : List UInt8}
    (last : lastLog id cid messages = some log) : log.length < logEntrySize := by
  induction messages using List.reverseRecOn generalizing buffer with
  | nil => cases last
  | append_singleton messages message hypothesis =>
      rw [serve_concat] at served
      obtain ⟨middle, served, stored⟩ := Option.bind_eq_some_iff.mp served
      rw [lastLog_concat] at last
      split at last
      · cases last
        exact (logRemoteHandler_eq_some.mp stored).2.1
      · exact hypothesis served last

/-! ## Two logs in one place -/

/-- Two logs that stand at one place agree. -/
theorem agree_of_holds {memory : Memory} {place : Nat} {log other : List UInt8}
    (holds : memory.Holds place log) (second : memory.Holds place other) : Agree log other := by
  rw [Memory.Holds] at holds second
  rw [Agree, ← holds, ← second, Memory.length_read, Memory.length_read, Memory.take_read,
    Memory.take_read, Nat.min_comm]

/-- A log stays when another one that agrees with it is written over it. -/
theorem holds_write_of_agree {memory : Memory} {place : Nat} {log other : List UInt8}
    (holds : memory.Holds place log) (agree : Agree log other) :
    (memory.write place other).Holds place log := by
  apply List.ext_getElem
  · simp
  · intro index _ inside
    have old : memory (place + index) = log[index] := by
      have whole := congrArg (·[index]?) holds
      simpa [Memory.read, inside] using whole
    by_cases covered : index < other.length
    · have same : log[index] = other[index] := by
        have both := congrArg (·[index]?) agree
        simpa [inside, covered] using both
      simp [Memory.read, Memory.write, covered, same]
    · simp [Memory.read, Memory.write, List.getElem?_eq_none (Nat.le_of_not_lt covered), old]

/-- One harmless message. -/
theorem keeps_of_harmless {buffer : Memory} {before : List Message} {message : Message}
    (small : ∀ id cid log, lastLog id cid before = some log → log.length < logEntrySize)
    (stored : ∀ id cid log, lastLog id cid before = some log →
      buffer.Holds (cid * maxMsgSize) log)
    (harmless : Harmless before message) {id cid : Nat} {log : List UInt8}
    (last : lastLog id cid (before ++ [message]) = some log) :
    (buffer.write (message.cid * maxMsgSize) message.msg).Holds (cid * maxMsgSize) log := by
  rw [lastLog_concat] at last
  split at last
  · rename_i same
    cases last
    rw [same.2]
    exact Memory.holds_write _ _ _
  · rename_i different
    have held := stored id cid log last
    by_cases same : message.cid = cid
    · subst same
      have apart : id ≠ message.id := fun equal => different ⟨equal.symm, rfl⟩
      exact holds_write_of_agree held (harmless.2.2.2 id log apart last)
    · have first := small id cid log last
      have second := harmless.2.1
      rw [Memory.Holds, Memory.read_write_disjoint]
      · exact held
      · unfold logEntrySize maxMsgSize at *
        omega

/-- The logs are kept exactly when every message is harmless. -/
theorem keepsLogs_iff (localBuffer : Memory) (messages : List Message) :
    KeepsLogs localBuffer messages ↔
      ∀ before message after, messages = before ++ message :: after →
        Harmless before message := by
  constructor
  · intro keeps before message after split
    obtain ⟨buffer, served, stored⟩ :=
      keeps (before ++ [message]) after (by rw [split, List.append_assoc]; rfl)
    rw [serve_concat] at served
    obtain ⟨middle, _, copied⟩ := Option.bind_eq_some_iff.mp served
    obtain ⟨positive, sized, inside, _⟩ := logRemoteHandler_eq_some.mp copied
    refine ⟨positive, sized, inside, ?_⟩
    intro id log different last
    have old : lastLog id message.cid (before ++ [message]) = some log := by
      rw [lastLog_concat, if_neg fun same => different same.1.symm, last]
    have new : lastLog message.id message.cid (before ++ [message]) = some message.msg := by
      rw [lastLog_concat, if_pos ⟨rfl, rfl⟩]
    exact agree_of_holds (stored _ _ _ old) (stored _ _ _ new)
  · intro harmless before after split
    induction before using List.reverseRecOn generalizing after with
    | nil => exact ⟨localBuffer, rfl, fun _ _ _ last => by cases last⟩
    | append_singleton before message hypothesis =>
        rw [List.append_assoc] at split
        obtain ⟨buffer, served, stored⟩ := hypothesis _ split
        have fine := harmless before message after split
        refine ⟨_, ?_, fun id cid log last => keeps_of_harmless
          (fun _ _ _ => length_lt_of_lastLog served) stored fine last⟩
        rw [serve_concat, served, Option.bind_some]
        exact logRemoteHandler_eq_some.mpr ⟨fine.1, fine.2.1, fine.2.2.1, rfl⟩

/-- Two machines log with the same coroutine id. -/
theorem not_keepsLogs : ¬ KeepsLogs (fun _ => 0) [⟨0, 1, [1]⟩, ⟨1, 1, [2]⟩] := by
  intro keeps
  obtain ⟨buffer, served, stored⟩ := keeps [⟨0, 1, [1]⟩, ⟨1, 1, [2]⟩] [] (by simp)
  have first := stored 0 1 [1] rfl
  have second := stored 1 1 [2] rfl
  have differ : [(1 : UInt8)] = [2] := first.symm.trans second
  cases differ

end Rocc.Rtx.RpcLog
