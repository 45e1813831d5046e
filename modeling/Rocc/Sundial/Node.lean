import Rocc.Base.Ledger
import Rocc.Rtx.Record

/-!
# SUNDIAL records

The sequence word of a header holds two logical times: the write timestamp in its
upper half and the read timestamp in its lower half, each without its top bit.
The functions below are the per-item bodies of the SUNDIAL handlers and of the
one-sided write-back.  `inplace_write_op` keeps the commit id in `read_lock` of
the node and only counts the sequence word up, so the two ways of writing a
record back agree on very few headers; `write_back_agrees` says on which.
-/

namespace Rocc.Sundial

open Rtx

universe u v w

/-! ## Timestamp words -/

/-- Number of values of a timestamp. -/
def timestampBound : Nat := 2 ^ 31

/-- Number of values of a 32-bit `commit_id_`. -/
def commitIdBound : Nat := 2 ^ 32

/-- `WTS`. -/
def wts (word : Nat) : Nat := (word &&& 0x7fffffff00000000) >>> 32

/-- `RTS`. -/
def rts (word : Nat) : Nat := word &&& 0x7fffffff

/-- The header word of a record written with a commit id. -/
def newlease (commitId : Nat) : Nat := (commitId + commitId <<< 32) % wordBound

/-- The header word of a renewed lease. -/
def renewed (tss commitId : Nat) : Nat :=
  ((tss &&& 0xffffffff00000000) + commitId) % wordBound

theorem and_shiftLeft (word mask bits : Nat) :
    word &&& mask <<< bits = ((word >>> bits) &&& mask) <<< bits := by
  apply Nat.eq_of_testBit_eq
  intro index
  by_cases low : bits ≤ index
  · simp [Nat.testBit_shiftLeft, Nat.testBit_shiftRight, low]
  · simp [Nat.testBit_shiftLeft, low]

theorem wts_eq (word : Nat) : wts word = word / 2 ^ 32 % timestampBound := by
  have mask : (0x7fffffff00000000 : Nat) = 0x7fffffff <<< 32 := rfl
  rw [wts, mask, and_shiftLeft, Nat.shiftLeft_shiftRight, Nat.shiftRight_eq_div_pow]
  exact Nat.and_two_pow_sub_one_eq_mod _ 31

theorem rts_eq (word : Nat) : rts word = word % timestampBound :=
  Nat.and_two_pow_sub_one_eq_mod word 31

theorem renewed_eq {tss commitId : Nat} (word : tss < wordBound)
    (bounded : commitId < commitIdBound) :
    renewed tss commitId = tss / 2 ^ 32 * 2 ^ 32 + commitId := by
  have mask : (0xffffffff00000000 : Nat) = 0xffffffff <<< 32 := rfl
  have upper : (tss >>> 32) &&& 0xffffffff = tss / 2 ^ 32 % 2 ^ 32 := by
    rw [Nat.shiftRight_eq_div_pow]
    exact Nat.and_two_pow_sub_one_eq_mod _ 32
  rw [renewed, mask, and_shiftLeft, upper, Nat.shiftLeft_eq]
  simp only [wordBound, commitIdBound] at *
  omega

theorem newlease_eq {commitId : Nat} (bounded : commitId < timestampBound) :
    newlease commitId = commitId + commitId * 2 ^ 32 := by
  rw [newlease, Nat.shiftLeft_eq]
  apply Nat.mod_eq_of_lt
  simp only [timestampBound, wordBound] at *
  omega

theorem rts_lt (word : Nat) : rts word < timestampBound := by
  rw [rts_eq]
  exact Nat.mod_lt _ (by decide)

/-- Both halves of the word of a write hold the commit id. -/
theorem wts_newlease {commitId : Nat} (bounded : commitId < timestampBound) :
    wts (newlease commitId) = commitId := by
  have small : commitId < 2 ^ 32 := bounded.trans (by decide)
  rw [wts_eq, newlease_eq bounded, Nat.add_mul_div_right _ _ (by decide),
    Nat.div_eq_of_lt small, Nat.zero_add, Nat.mod_eq_of_lt bounded]

theorem rts_newlease {commitId : Nat} (bounded : commitId < timestampBound) :
    rts (newlease commitId) = commitId := by
  rw [rts_eq, newlease_eq bounded]
  simp only [timestampBound] at *
  omega

/-- A renewal keeps the write timestamp. -/
theorem wts_renewed_of_lt {tss commitId : Nat} (word : tss < wordBound)
    (bounded : commitId < commitIdBound) : wts (renewed tss commitId) = wts tss := by
  rw [wts_eq, wts_eq, renewed_eq word bounded]
  simp only [timestampBound, commitIdBound] at *
  omega

/-- A renewal keeps the write timestamp and sets the read timestamp. -/
theorem wts_renewed {tss commitId : Nat} (word : tss < wordBound)
    (bounded : commitId < timestampBound) : wts (renewed tss commitId) = wts tss :=
  wts_renewed_of_lt word (bounded.trans (by decide))

theorem rts_renewed {tss commitId : Nat} (word : tss < wordBound)
    (bounded : commitId < timestampBound) : rts (renewed tss commitId) = commitId := by
  have small : commitId < commitIdBound := bounded.trans (by decide)
  rw [rts_eq, renewed_eq word small]
  simp only [timestampBound] at *
  omega

theorem newlease_lt (commitId : Nat) : newlease commitId < wordBound :=
  Nat.mod_lt _ (by decide)

theorem renewed_lt (tss commitId : Nat) : renewed tss commitId < wordBound :=
  Nat.mod_lt _ (by decide)

/-! ## Handlers -/

/-- A `MemNode`: the record and the `read_lock` word of the node. -/
structure Node (Value : Type u) extends Record Value where
  readLock : Nat
  deriving DecidableEq, Repr

variable {Value : Type u}

namespace Node

/-- A loaded record: the header is cleared. -/
def initial (value : Value) : Node Value :=
  { lock := 0, seq := 0, value, readLock := 0 }

/-- `prepare_buf`: both timestamps and the value. -/
def prepareBuf (node : Node Value) : Nat × Nat × Value :=
  (wts node.seq, rts node.seq, node.value)

/-- `inplace_write_op` on a key: the commit id goes to `read_lock`. -/
def inplaceWriteOp (node : Node Value) (value : Value) (commitId : Nat) : Node Value :=
  { node.toRecord.inplaceWriteOp value commitId with
    readLock := if commitId = noCommitId then node.readLock else newlease commitId }

/-- One item of `update_rpc_handler`: the write, then the lock word is cleared whatever
it is. -/
def updateRpcHandler (node : Node Value) (value : Value) (commitId : Nat) : Node Value :=
  { node.inplaceWriteOp value commitId with lock := 0 }

/-- One item of `release_rpc_handler`. -/
def releaseRpcHandler (node : Node Value) : Node Value := { node with lock := 0 }

/-- `renew_lease_local`: refused when the version changed, or when the lease has to be
extended and the record is locked. -/
def renewLeaseLocal (node : Node Value) (itemWts commitId : Nat) : Option (Node Value) :=
  if itemWts ≠ wts node.seq ∨ (rts node.seq < commitId ∧ node.lock ≠ 0) then
    none
  else if rts node.seq < commitId then
    some { node with seq := renewed node.seq commitId }
  else
    some node

/-- The first verb of `try_update_rdma` for an item: header word and value. -/
def writeBack (node : Node Value) (value : Value) (commitId : Nat) : Node Value :=
  { node with seq := newlease commitId, value }

theorem writeBack_lock (node : Node Value) (value : Value) (commitId : Nat) :
    (node.writeBack value commitId).lock = node.lock := by
  simp only [writeBack]

/-- The second verb: the lock word. -/
def unlock (node : Node Value) : Node Value := { node with lock := 0 }

/-- `try_update_rdma` for one item. -/
def tryUpdateRdma (node : Node Value) (value : Value) (commitId : Nat) : Node Value :=
  (node.writeBack value commitId).unlock

end Node

/-- Answers to a lock request; a queued request is answered later. -/
inductive LockReply where
  | granted
  | failed
  | queued
  deriving DecidableEq, Repr

/-- One item of `lock_read_rpc_handler`; a transaction that asks again for its own lock
runs into an assertion. -/
def Node.lockReadRpcHandler (node : Node Value) (timestamp : Nat) :
    Option (Node Value × LockReply) :=
  if node.lock ≠ 0 then
    if timestamp < node.lock then
      some (node, .queued)
    else if timestamp = node.lock then
      none
    else
      some (node, .failed)
  else
    some ({ node with lock := timestamp }, .granted)

/-- The `SUNDIAL_REQ_LOCK_READ` branch of `check_to_notify`. -/
def Node.checkToNotifyItem (node : Node Value) (timestamp : Nat) :
    Node Value × LockReply :=
  if node.lock = 0 then
    ({ node with lock := timestamp }, .granted)
  else if timestamp < node.lock then
    (node, .queued)
  else
    (node, .failed)

/-- Everything a lock request can do: the free lock is taken, or nothing changes. -/
inductive LockOutcome (node : Node Value) (timestamp : Nat) : Node Value → LockReply → Prop where
  | granted (free : node.lock = 0) :
      LockOutcome node timestamp { node with lock := timestamp } .granted
  | failed (taken : node.lock ≠ 0) : LockOutcome node timestamp node .failed
  | queued (taken : node.lock ≠ 0) : LockOutcome node timestamp node .queued

theorem Node.lockReadRpcHandler_outcome {node node' : Node Value} {timestamp : Nat}
    {reply : LockReply}
    (answered : node.lockReadRpcHandler timestamp = some (node', reply)) :
    LockOutcome node timestamp node' reply := by
  simp only [lockReadRpcHandler] at answered
  split at answered
  · rename_i taken
    split at answered
    · cases answered
      exact .queued taken
    · split at answered
      · cases answered
      · cases answered
        exact .failed taken
  · rename_i free
    cases answered
    exact .granted (not_not.mp free)

theorem Node.checkToNotifyItem_outcome (node : Node Value) (timestamp : Nat) :
    LockOutcome node timestamp (node.checkToNotifyItem timestamp).1
      (node.checkToNotifyItem timestamp).2 := by
  simp only [checkToNotifyItem]
  split
  · rename_i free
    exact .granted free
  · rename_i taken
    split
    · exact .queued taken
    · exact .failed taken

/-- A renewal succeeds on an unchanged version whose lease is long enough already, or on
one that is unlocked. -/
theorem Node.renewLeaseLocal_eq_some {node node' : Node Value} {itemWts commitId : Nat}
    (success : node.renewLeaseLocal itemWts commitId = some node') :
    itemWts = wts node.seq ∧ ((commitId ≤ rts node.seq ∧ node' = node) ∨
      (rts node.seq < commitId ∧ node.lock = 0 ∧
        node' = { node with seq := renewed node.seq commitId })) := by
  simp only [renewLeaseLocal] at success
  split at success
  · cases success
  · rename_i passed
    rw [not_or, not_not, not_and, not_not] at passed
    refine ⟨passed.1, ?_⟩
    split at success
    · rename_i short
      exact .inr ⟨short, passed.2 short, (Option.some.inj success).symm⟩
    · rename_i long
      exact .inl ⟨not_lt.mp long, (Option.some.inj success).symm⟩

/-- Counting the sequence word up moves the read timestamp. -/
theorem rts_count {word : Nat} (fits : rts word + 2 < timestampBound) :
    rts ((word + 2) % wordBound) = rts word + 2 := by
  rw [rts_eq] at fits ⊢
  rw [rts_eq]
  simp only [timestampBound, wordBound] at *
  omega

/-- An update keeps its commit id in `read_lock`. -/
theorem Node.updateRpcHandler_readLock (node : Node Value) (value : Value) {commitId : Nat}
    (bounded : commitId < timestampBound) :
    wts (node.updateRpcHandler value commitId).readLock = commitId := by
  have real : commitId ≠ noCommitId := by
    simp only [timestampBound, noCommitId] at *
    omega
  simp only [updateRpcHandler, inplaceWriteOp, if_neg real]
  exact wts_newlease bounded

/-! ## Two ways to write a record back -/

/-- Both ways leave the payload, both timestamps equal to the commit id and an unlocked
record. -/
structure WriteBackAgrees (node : Node Value) (payload : Value) (commitId : Nat) :
    Prop where
  rpcValue : (node.updateRpcHandler payload commitId).value = payload
  rpcWts : wts (node.updateRpcHandler payload commitId).seq = commitId
  rpcRts : rts (node.updateRpcHandler payload commitId).seq = commitId
  rpcLock : (node.updateRpcHandler payload commitId).lock = 0
  rdmaValue : (node.tryUpdateRdma payload commitId).value = payload
  rdmaWts : wts (node.tryUpdateRdma payload commitId).seq = commitId
  rdmaRts : rts (node.tryUpdateRdma payload commitId).seq = commitId
  rdmaLock : (node.tryUpdateRdma payload commitId).lock = 0

/-- The header lags behind a commit id by one write: its read timestamp is the commit id
less 2 and its write timestamp is the commit id already, up to the carry of a lower half
that overflows. -/
def HeaderLags (word commitId : Nat) : Prop :=
  (rts word + 2) % timestampBound = commitId ∧
    if word % 2 ^ 32 + 2 < 2 ^ 32 then wts word = commitId
    else (wts word + 1) % timestampBound = commitId

instance (word commitId : Nat) : Decidable (HeaderLags word commitId) :=
  inferInstanceAs (Decidable ((rts word + 2) % timestampBound = commitId ∧
    if word % 2 ^ 32 + 2 < 2 ^ 32 then wts word = commitId
    else (wts word + 1) % timestampBound = commitId))

/-- Counting the word up moves the read timestamp by 2 and the write timestamp by the
carry. -/
theorem headerLags_iff {word commitId : Nat} (bounded : word < wordBound) :
    HeaderLags word commitId ↔ wts ((word + 2) % wordBound) = commitId ∧
      rts ((word + 2) % wordBound) = commitId := by
  rw [HeaderLags, and_comm]
  simp only [wts_eq, rts_eq]
  have lower : (word % timestampBound + 2) % timestampBound =
      (word + 2) % wordBound % timestampBound := by
    simp only [timestampBound, wordBound]
    omega
  rw [lower]
  apply and_congr_left
  intro _
  split
  · rename_i noCarry
    have upper : (word + 2) % wordBound / 2 ^ 32 = word / 2 ^ 32 := by
      simp only [wordBound] at *
      omega
    rw [upper]
  · rename_i carry
    have upper : (word + 2) % wordBound / 2 ^ 32 % timestampBound =
        (word / 2 ^ 32 % timestampBound + 1) % timestampBound := by
      simp only [timestampBound, wordBound] at *
      omega
    rw [upper]

/-- The two commit paths leave the same record exactly when the commit id fits into a
timestamp and the old header lags behind it by one write. -/
theorem write_back_agrees (node : Node Value) (payload : Value) (commitId : Nat)
    (word : node.seq < wordBound) :
    WriteBackAgrees node payload commitId ↔
      commitId < timestampBound ∧ HeaderLags node.seq commitId := by
  rw [headerLags_iff word]
  constructor
  · intro agrees
    refine ⟨?_, agrees.rpcWts, agrees.rpcRts⟩
    have bound := rts_lt (node.updateRpcHandler payload commitId).seq
    rw [agrees.rpcRts] at bound
    exact bound
  · rintro ⟨bounded, sameWts, sameRts⟩
    constructor
    · rfl
    · exact sameWts
    · exact sameRts
    · rfl
    · rfl
    · exact wts_newlease bounded
    · exact rts_newlease bounded
    · rfl

/-- A locked record whose header holds the write timestamp 5 and the read timestamp 3. -/
theorem write_back_agrees_lagging :
    WriteBackAgrees (Node.mk ⟨9, 5 * 2 ^ 32 + 3, false⟩ 0) true 5 :=
  (write_back_agrees _ true 5 (by decide)).mpr (by
    refine ⟨by decide, by decide, ?_⟩
    rw [if_pos (by decide)]
    decide)

/-- The first update of a fresh record, with commit id 1, leaves the write timestamp 0 on
the RPC path and 1 on the one-sided path. -/
theorem write_back_first_update :
    let node : Node Bool := { Node.initial false with lock := 9 }
    wts (node.updateRpcHandler true 1).seq = 0 ∧
      wts (node.tryUpdateRdma true 1).seq = 1 ∧ ¬ WriteBackAgrees node true 1 := by
  intro node
  refine ⟨by decide, by decide, ?_⟩
  intro agrees
  exact absurd agrees.rpcWts (by decide)

/-! ## Transactions and their lock words -/

/-- Placement of records and `txn_start_time` of every transaction. -/
structure Config (Key : Type v) (Tid : Type w) where
  pid : Key → Nat
  startTime : Tid → Nat
  startTime_ne_zero : ∀ tid, startTime tid ≠ 0
  startTime_injective : Function.Injective startTime

section Config

variable {Key : Type v} {Tid : Type w}

/-- Items of a message addressed to `machine`. -/
def Config.at {Item : Type u} (config : Config Key Tid) (key : Item → Key) (machine : Nat)
    (item : Item) : Bool :=
  config.pid (key item) == machine

/-- Lock words are start times. -/
def Config.Belongs (config : Config Key Tid) (tid : Tid) (word : Nat) : Prop :=
  word = config.startTime tid

theorem Config.lockWords (config : Config Key Tid) : LockWords config.Belongs where
  ne_zero := by
    intro tid word mine
    rw [mine]
    exact config.startTime_ne_zero tid
  unique := by
    intro left right word leftMine rightMine
    exact config.startTime_injective (leftMine.symm.trans rightMine)

variable [DecidableEq Key] (records : Key → Node Value) (key : Key) (node : Node Value)

theorem lock_update_self : (Function.update records key node key).lock = node.lock := by
  rw [Function.update_self]

theorem lock_update_of_ne (other : Key) (different : other ≠ key) :
    (Function.update records key node other).lock = (records other).lock := by
  rw [Function.update_of_ne different]

variable {records key node}

theorem lock_update_of_eq (same : node.lock = (records key).lock) :
    ∀ other, (Function.update records key node other).lock = (records other).lock := by
  rw [Function.forall_update_iff records fun other node => node.lock = (records other).lock]
  exact ⟨same, fun _ _ => rfl⟩

end Config

/-- Two transactions; record `n` lies on machine `n`. -/
def pairConfig : Config Nat (Fin 2) where
  pid key := key
  startTime tid := tid.val + 1
  startTime_ne_zero _ := Nat.succ_ne_zero _
  startTime_injective _ _ same := Fin.ext (Nat.add_right_cancel same)

end Rocc.Sundial
