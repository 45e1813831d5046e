import Rocc.Base.Memory
import Rocc.Locking.Model

/-!
# The two ways of `NOWAIT` to a record

A record of the machine of the client is read and written through the node in its entry:
`local_read` and `local_write` copy the value, then `try_lock_read_w_rwlock_rpc` and
`try_lock_write_w_rwlock_rpc` take the lock, and `write_back` calls `inplace_write_op` on
the node.  Any other record is reached by messages: `lock_rpc_handler` takes the lock and
then copies the value into the reply, and `commit_rpc_handler` calls `inplace_write_op`
with the table of the record.

The node is the memory it is: the lock word, the sequence word and, behind this header, the
value.  Other transactions lock, commit to and release the record at any point between the
steps of the access.
-/

set_option linter.unusedSectionVars false

namespace Rocc.Locking.LocalPath

open Rtx Memory

universe u

variable {Tid : Type u}

/-! ## The record -/

/-- `sizeof(RdmaValHeader)`, also the `meta_len` of every table. -/
def metaLen : Nat := 16

/-- The default of the parameter `meta` of `inplace_write_op` on a node. -/
def defaultMeta : Nat := 0

/-- The transaction of the access, or another one. -/
inductive Party (Tid : Type u) where
  | own
  | other (tid : Tid)
  deriving DecidableEq, Repr

/-- The length of the record and the start times of the transactions. -/
structure Config (Tid : Type u) where
  len : Nat
  startTime : Party Tid → Nat
  lease_ne_zero : ∀ party, rLease (startTime party) ≠ 0

/-- The lock word while this transaction holds a lock of this type. -/
def Config.word (config : Config Tid) : Option (Party Tid × LockType) → Nat
  | none => 0
  | some (party, type) => type.word (config.startTime party)

/-- A value of the length of the record. -/
abbrev Config.Payload (config : Config Tid) : Type := { bytes : Bytes // bytes.length = config.len }

/-- The memory of a node. -/
def lockOf (node : Memory) : Nat := node.readWord 0

/-- The sequence word of a node. -/
def seqOf (node : Memory) : Nat := node.readWord 8

/-- The value in a node. -/
def Config.valueOf (config : Config Tid) (node : Memory) : Bytes := node.read metaLen config.len

/-- A node, and the transaction whose lock is on it. -/
structure State (config : Config Tid) where
  node : Memory
  holder : Option (Party Tid × LockType)
  lock_eq : lockOf node = config.word holder

variable {config : Config Tid}

/-! ## Operators -/

/-- `local_get_op`; it does not end while the record is marked. -/
def localGetOp (config : Config Tid) (node : Memory) : Option Bytes :=
  if seqOf node = conflictWriteFlag then none else some (config.valueOf node)

/-- `inplace_write_op` on a node; no result stands for a failed assertion. -/
def inplaceWriteOp (node : Memory) (value : Bytes) (metaAt : Nat) : Option Memory :=
  if metaLen ≤ metaAt then
    some ((((node.writeWord 8 conflictWriteFlag).write metaAt value).writeWord 8
      (seqOf node + 2)).writeWord 0 0)
  else
    none

/-- `local_try_release_op`. -/
def localTryReleaseOp (node : Memory) (lockContent : Nat) : Memory :=
  if lockOf node = lockContent then node.writeWord 0 0 else node

theorem word_lt (type : LockType) (time : Nat) : type.word time < 2 ^ 64 := by
  unfold LockType.word rLease wordBound
  cases type with
  | read => simp only; omega
  | write => simp only; omega

theorem word_ne_zero (party : Party Tid) (type : LockType) :
    config.word (some (party, type)) ≠ 0 := by
  have lease := config.lease_ne_zero party
  cases type with
  | read => exact lease
  | write => exact Nat.succ_ne_zero _

/-- The lock word is 0 exactly when nobody holds the lock. -/
theorem State.lock_eq_zero {state : State config} :
    lockOf state.node = 0 ↔ state.holder = none := by
  rw [state.lock_eq]
  cases held : state.holder with
  | none => simp [Config.word]
  | some holder => simpa using word_ne_zero holder.1 holder.2

/-- Compare-and-swap of the lock word from 0, in the handler or in the loop of the client. -/
def State.tryLock (state : State config) (party : Party Tid) (type : LockType) :
    Option (State config) :=
  if lockOf state.node = 0 then
    some
      { node := state.node.writeWord 0 (type.word (config.startTime party))
        holder := some (party, type)
        lock_eq := by
          rw [lockOf, readWord_writeWord]
          exact Nat.mod_eq_of_lt (word_lt _ _) }
  else
    none

/-! ## Other transactions -/

/-- What another transaction does to the record. -/
inductive Other (config : Config Tid) where
  | lock (tid : Tid) (type : LockType)
  | commit (tid : Tid) (payload : config.Payload)
  | release (tid : Tid)

/-- A node after a commit message for it. -/
def commitRpcHandler (node : Memory) (payload : config.Payload) : Memory :=
  (inplaceWriteOp node payload metaLen).getD node

theorem inplaceWriteOp_metaLen (node : Memory) (payload : config.Payload) :
    inplaceWriteOp node payload metaLen = some (commitRpcHandler node payload) := by
  simp [commitRpcHandler, inplaceWriteOp]

@[simp] theorem lockOf_commitRpcHandler (node : Memory) (payload : config.Payload) :
    lockOf (commitRpcHandler node payload) = 0 := by
  simp [commitRpcHandler, inplaceWriteOp, lockOf]

@[simp] theorem valueOf_commitRpcHandler (node : Memory) (payload : config.Payload) :
    config.valueOf (commitRpcHandler node payload) = payload := by
  simp only [commitRpcHandler, inplaceWriteOp, le_refl, if_true, Option.getD_some, Config.valueOf]
  rw [read_writeWord_disjoint _ (.inr (by decide)), read_writeWord_disjoint _ (.inr (by decide)),
    read_write_of_length _ payload.2]

@[simp] theorem valueOf_writeLock (node : Memory) (word : Nat) :
    config.valueOf (node.writeWord 0 word) = config.valueOf node :=
  read_writeWord_disjoint _ (.inr (by decide))

section Steps

variable [DecidableEq Tid]

/-- A step of another transaction.  A refused lock request changes nothing, and only a
transaction that holds the lock writes to the record or gives the lock back. -/
def State.other (state : State config) : Other config → State config
  | .lock tid type => (state.tryLock (.other tid) type).getD state
  | .commit tid payload =>
      if state.holder = some (.other tid, .write) then
        { node := commitRpcHandler state.node payload
          holder := none
          lock_eq := lockOf_commitRpcHandler _ _ }
      else
        state
  | .release tid =>
      if state.holder = some (.other tid, .read) ∨ state.holder = some (.other tid, .write) then
        { node := state.node.writeWord 0 0
          holder := none
          lock_eq := by simp [lockOf, Config.word] }
      else
        state

/-- Steps of other transactions. -/
def State.run (state : State config) (schedule : List (Other config)) : State config :=
  schedule.foldl State.other state

/-! ## The access -/

/-- How the client gets to the record. -/
inductive Path where
  | node
  | rpc
  deriving DecidableEq, Repr

/-- A successful access: the record with its lock, what the client buffers, and the value of
the record when the lock was taken. -/
structure Served (config : Config Tid) where
  state : State config
  buffer : Bytes
  atLock : Bytes

/-- `lock_rpc_handler`. -/
def lockRpcHandler (state : State config) (type : LockType) : State config × Bytes :=
  match state.tryLock .own type with
  | none => (state, [lockFailMagic])
  | some locked => (locked, lockSuccessMagic :: locked.node.read metaLen config.len)

/-- `read` and `write` of a record while other transactions take some steps: after the copy of a
local record, and before the request for a remote one arrives.  No result stands for a
refused lock. -/
def access (path : Path) (type : LockType) (replyBuf : Bytes) (between : List (Other config))
    (state : State config) : Option (Served config) :=
  match path with
  | .node =>
      match localGetOp config state.node with
      | none => none
      | some copy =>
          ((state.run between).tryLock .own type).map fun locked =>
            { state := locked
              buffer := copy
              atLock := config.valueOf locked.node }
  | .rpc =>
      let reply := lockRpcHandler (state.run between) type
      match receive replyBuf reply.2 with
      | [] => none
      | status :: payload =>
          if status = lockSuccessMagic then
            some
              { state := reply.1
                buffer := payload.take config.len
                atLock := config.valueOf reply.1.node }
          else
            none

/-- `commit`, for this record: the write-back of an entry of the write set, the release of an
entry of the read set.  No result stands for a failed assertion. -/
def commit (path : Path) (type : LockType) (data : config.Payload) (node : Memory) :
    Option Memory :=
  match path, type with
  | .node, .write => inplaceWriteOp node data defaultMeta
  | .rpc, .write => inplaceWriteOp node data metaLen
  | .node, .read => some (localTryReleaseOp node (config.word (some (.own, .read))))
  | .rpc, .read =>
      if lockOf node = config.word (some (.own, .read)) then some (node.writeWord 0 0) else none

/-- A successful access buffers the value the record had when its lock was taken, and commits,
whatever other transactions do meanwhile: the lock is released, and of a write the payload is
the value of the record. -/
def Behaves (path : Path) (type : LockType) (replyBuf : Bytes)
    (between after : List (Other config)) (data : config.Payload) (state : State config) : Prop :=
  ∀ served, access path type replyBuf between state = some served →
    served.buffer = served.atLock ∧
    ∃ final, commit path type data (served.state.run after).node = some final ∧
      lockOf final = 0 ∧ (type = .write → config.valueOf final = data)

/-- The access is a remote one, or it is refused, or it is a read and the value did not
change between the copy and the lock. -/
def Harmless (path : Path) (type : LockType) (between : List (Other config))
    (state : State config) : Prop :=
  path = .rpc ∨ seqOf state.node = conflictWriteFlag ∨ lockOf (state.run between).node ≠ 0 ∨
    type = .read ∧ config.valueOf (state.run between).node = config.valueOf state.node

/-! ## Results -/

/-- Nobody else touches a record that is locked by this transaction. -/
theorem run_of_own {type : LockType} {state : State config}
    (held : state.holder = some (.own, type)) (schedule : List (Other config)) :
    state.run schedule = state := by
  induction schedule with
  | nil => rfl
  | cons other rest ih =>
      have unchanged : state.other other = state := by
        cases other with
        | lock tid otherType =>
            have taken : lockOf state.node ≠ 0 := by
              rw [Ne, State.lock_eq_zero, held]
              simp
            simp [State.other, State.tryLock, taken]
        | commit tid payload => simp [State.other, held]
        | release tid => simp [State.other, held]
      rw [State.run, List.foldl_cons, unchanged]
      exact ih

/-- What taking the lock does. -/
theorem tryLock_eq_some {state locked : State config} {party : Party Tid} {type : LockType}
    (taken : state.tryLock party type = some locked) :
    lockOf state.node = 0 ∧ locked.holder = some (party, type) ∧
      config.valueOf locked.node = config.valueOf state.node := by
  unfold State.tryLock at taken
  split at taken
  · rename_i free
    rw [Option.some.injEq] at taken
    subst taken
    exact ⟨free, rfl, valueOf_writeLock _ _⟩
  · cases taken

theorem exists_tryLock {state : State config} (free : lockOf state.node = 0) (party : Party Tid)
    (type : LockType) : ∃ locked, state.tryLock party type = some locked :=
  ⟨_, if_pos free⟩

/-- The node of a record that is locked by this transaction. -/
theorem lockOf_of_own {type : LockType} {state : State config}
    (held : state.holder = some (.own, type)) :
    lockOf state.node = config.word (some (.own, type)) := by
  rw [state.lock_eq, held]

/-- A locked record commits on either way, except a write through the node. -/
theorem exists_commit {path : Path} {type : LockType} {state : State config}
    (held : state.holder = some (.own, type)) (data : config.Payload)
    (allowed : path = .rpc ∨ type = .read) :
    ∃ final, commit path type data state.node = some final ∧ lockOf final = 0 ∧
      (type = .write → config.valueOf final = data) := by
  have lock := lockOf_of_own held
  have released : lockOf (state.node.writeWord 0 0) = 0 := by simp [lockOf]
  cases type with
  | write =>
      obtain rfl : path = .rpc := by simpa using allowed
      exact ⟨_, inplaceWriteOp_metaLen _ data, lockOf_commitRpcHandler _ _,
        fun _ => valueOf_commitRpcHandler _ _⟩
  | read =>
      refine ⟨state.node.writeWord 0 0, ?_, released, by simp⟩
      cases path with
      | node => rw [commit, localTryReleaseOp, if_pos lock]
      | rpc => rw [commit, if_pos lock]

/-- A remote access that succeeds buffers the value it locked. -/
theorem access_rpc {type : LockType} {replyBuf : Bytes} {between : List (Other config)}
    {state : State config} {served : Served config}
    (succeeded : access .rpc type replyBuf between state = some served) :
    served.buffer = served.atLock ∧ served.state.holder = some (.own, type) := by
  unfold access lockRpcHandler at succeeded
  cases taken : (state.run between).tryLock .own type with
  | none =>
      rw [taken] at succeeded
      simp [receive, lockFailMagic, lockSuccessMagic] at succeeded
  | some locked =>
      rw [taken] at succeeded
      simp only [receive, List.cons_append, if_true, Option.some.injEq] at succeeded
      subst succeeded
      refine ⟨?_, (tryLock_eq_some taken).2.1⟩
      simp only [Config.valueOf]
      rw [List.take_append_of_le_length (by simp), List.take_of_length_le (by simp)]

/-- A local access that succeeds buffers what it copied first. -/
theorem access_node {type : LockType} {replyBuf : Bytes} {between : List (Other config)}
    {state : State config} {served : Served config}
    (succeeded : access .node type replyBuf between state = some served) :
    seqOf state.node ≠ conflictWriteFlag ∧ lockOf (state.run between).node = 0 ∧
      served.buffer = config.valueOf state.node ∧
      served.atLock = config.valueOf (state.run between).node ∧
      served.state.holder = some (.own, type) := by
  unfold access at succeeded
  cases copied : localGetOp config state.node with
  | none =>
      rw [copied] at succeeded
      cases succeeded
  | some copy =>
      rw [copied] at succeeded
      obtain ⟨locked, taken, rfl⟩ := Option.map_eq_some_iff.mp succeeded
      obtain ⟨free, held, value⟩ := tryLock_eq_some taken
      unfold localGetOp at copied
      split at copied
      · cases copied
      · rename_i unmarked
        rw [Option.some.injEq] at copied
        exact ⟨unmarked, free, copied.symm, value, held⟩

theorem exists_access_node {type : LockType} {between : List (Other config)}
    {state : State config} (unmarked : seqOf state.node ≠ conflictWriteFlag)
    (free : lockOf (state.run between).node = 0) (replyBuf : Bytes) :
    ∃ served, access .node type replyBuf between state = some served := by
  obtain ⟨locked, taken⟩ := exists_tryLock free .own type
  simp only [access, localGetOp, if_neg unmarked, taken, Option.map_some]
  exact ⟨_, rfl⟩

/-- An access does what it should exactly when it is a remote one, or is refused, or is a read
whose value did not change between the copy and the lock. -/
theorem behaves_iff (path : Path) (type : LockType) (replyBuf : Bytes)
    (between after : List (Other config)) (data : config.Payload) (state : State config) :
    Behaves path type replyBuf between after data state ↔
      Harmless path type between state := by
  constructor
  · intro behaves
    cases path with
    | rpc => exact .inl rfl
    | node =>
        by_cases marked : seqOf state.node = conflictWriteFlag
        · exact .inr (.inl marked)
        · by_cases free : lockOf (state.run between).node = 0
          · obtain ⟨served, succeeded⟩ := exists_access_node marked free replyBuf
            obtain ⟨same, final, committed, -, -⟩ := behaves served succeeded
            obtain ⟨-, -, buffer, atLock, -⟩ := access_node succeeded
            rw [buffer, atLock] at same
            cases type with
            | read => exact .inr (.inr (.inr ⟨rfl, same.symm⟩))
            | write => simp [commit, inplaceWriteOp, metaLen, defaultMeta] at committed
          · exact .inr (.inr (.inl free))
  · intro harmless served succeeded
    cases path with
    | rpc =>
        obtain ⟨same, held⟩ := access_rpc succeeded
        rw [run_of_own held]
        exact ⟨same, exists_commit held data (.inl rfl)⟩
    | node =>
        obtain ⟨unmarked, free, buffer, atLock, held⟩ := access_node succeeded
        obtain ⟨rfl, unchanged⟩ : type = .read ∧ config.valueOf (state.run between).node =
            config.valueOf state.node := by
          simpa [Harmless, unmarked, free] using harmless
        rw [run_of_own held, buffer, atLock]
        exact ⟨unchanged.symm, exists_commit held data (.inr rfl)⟩

end Steps

/-- One other transaction, and records of one byte. -/
def pair : Config Unit where
  len := 1
  startTime
    | .own => 1
    | .other () => 2
  lease_ne_zero := by
    intro party
    rcases party with _ | ⟨⟨⟩⟩ <;> decide

/-- A record that nobody has locked, with value 0. -/
def free : State pair where
  node _ := 0
  holder := none
  lock_eq := by decide

/-- Between the copy and the lock of a local read another transaction commits the value 7. -/
theorem not_behaves : ¬∀ (config : Config Unit) (path : Path) (type : LockType)
    (replyBuf : Bytes) (between after : List (Other config)) (data : config.Payload)
    (state : State config), Behaves path type replyBuf between after data state := by
  intro always
  obtain ⟨served, succeeded⟩ : ∃ served, access .node .read []
      [.lock () .write, .commit () ⟨[7], rfl⟩] free = some served :=
    exists_access_node (by decide +kernel) (by decide +kernel) []
  have same := (always pair .node .read [] _ [] ⟨[0], rfl⟩ free served succeeded).1
  obtain ⟨-, -, buffer, atLock, -⟩ := access_node succeeded
  rw [buffer, atLock] at same
  revert same
  decide +kernel

end Rocc.Locking.LocalPath
