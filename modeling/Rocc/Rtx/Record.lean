import Mathlib.Tactic.Common
import Mathlib.Data.Nat.Bitwise

/-!
# Records and the operations on them

Every record starts with an `RdmaValHeader` (lock word and sequence word)
followed by its value.  The functions below are the per-record operators of
`local_op_impl.hpp`; each of them reads and writes one record and is used by the
RPC handlers as one atomic step.  Words are naturals; an operation of the source
that can wrap around 64 bits says so.
-/

namespace Rocc.Rtx

universe u

/-- Number of values of an unsigned 64-bit word. -/
def wordBound : Nat := 2 ^ 64

/-- `CONFLICT_WRITE_FLAG`: the sequence word of a record being overwritten. -/
def conflictWriteFlag : Nat := 73

/-- The default `commit_id` of `inplace_write_op`, `-1` as a 32-bit word. -/
def noCommitId : Nat := 0xffffffff

/-- `RdmaValHeader` together with the value stored behind it. -/
structure Record (Value : Type u) where
  lock : Nat
  seq : Nat
  value : Value
  deriving DecidableEq, Repr

variable {Value : Type u}

namespace Record

/-- `local_get_op`: value and sequence word of the record.  The source retries
while the record is marked as being overwritten; there the step does not end. -/
def localGetOp (record : Record Value) : Option (Nat × Value) :=
  if record.seq = conflictWriteFlag then none else some (record.seq, record.value)

/-- `local_try_lock_op`: compare-and-swap of the lock word from 0. -/
def localTryLockOp (record : Record Value) (lockContent : Nat) :
    Option (Record Value) :=
  if record.lock ≠ 0 then none else some { record with lock := lockContent }

/-- `local_try_release_op`: compare-and-swap of the lock word back to 0. -/
def localTryReleaseOp (record : Record Value) (lockContent : Nat) :
    Record Value :=
  if record.lock = lockContent then { record with lock := 0 } else record

/-- `local_validate_op`. -/
def localValidateOp (record : Record Value) (seq : Nat) : Bool :=
  seq == record.seq && record.lock == 0

/-- `inplace_write_op` on a node: the new value, the sequence word advanced by 2,
and, when no `commit_id` is given, the lock word cleared. -/
def inplaceWriteOp (record : Record Value) (value : Value)
    (commitId : Nat) : Record Value where
  lock := if commitId = noCommitId then 0 else record.lock
  seq := (record.seq + 2) % wordBound
  value := value

@[simp] theorem localTryReleaseOp_seq (record : Record Value)
    (lockContent : Nat) :
    (record.localTryReleaseOp lockContent).seq = record.seq := by
  unfold localTryReleaseOp
  split <;> rfl

@[simp] theorem localTryReleaseOp_value (record : Record Value)
    (lockContent : Nat) :
    (record.localTryReleaseOp lockContent).value = record.value := by
  unfold localTryReleaseOp
  split <;> rfl

@[simp] theorem inplaceWriteOp_value (record : Record Value) (value : Value)
    (commitId : Nat) : (record.inplaceWriteOp value commitId).value = value := rfl

@[simp] theorem inplaceWriteOp_lock (record : Record Value) (value : Value) :
    (record.inplaceWriteOp value noCommitId).lock = 0 := by
  simp [inplaceWriteOp]

theorem inplaceWriteOp_seq {record : Record Value} (value : Value)
    (commitId : Nat) (fits : record.seq + 2 < wordBound) :
    (record.inplaceWriteOp value commitId).seq = record.seq + 2 := by
  simp [inplaceWriteOp, Nat.mod_eq_of_lt fits]

end Record

end Rocc.Rtx
