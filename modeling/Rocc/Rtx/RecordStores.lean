import Mathlib.Logic.Function.Basic
import Mathlib.Tactic.Common
import Rocc.Base.Run
import Rocc.Rtx.Record

/-!
# A record written store by store

Threads that read a record may run while another one overwrites it.  Here
`inplace_write_op` is the sequence of its stores: the busy value into the sequence word, the
bytes of the value in any order, the old sequence word plus 2, then either the lock word
or, with a commit id, `read_lock` of the node and the lock word later.  A writer takes
the lock word before.  Every load and every store of the header or of one byte is one step,
and the steps of all threads are interleaved in any order.

The versions that have been written are kept as history; no step reads them.
-/

namespace Rocc.Rtx.RecordStores

set_option linter.unusedSectionVars false

universe u

variable {Writer : Type u} {len : Nat}

/-- A value with its sequence word. -/
structure Version (len : Nat) where
  value : Fin len → UInt8
  seq : Nat

/-- What a writer has done so far. -/
inductive Phase (len : Nat) where
  | idle
  /-- It holds the lock. -/
  | locked
  /-- It has loaded the sequence word. -/
  | loaded (val : Fin len → UInt8) (commitId oldSeq : Nat)
  /-- The record is marked, and these bytes are stored. -/
  | writing (val : Fin len → UInt8) (commitId oldSeq : Nat) (stored : Fin len → Bool)
  /-- The new sequence word is stored. -/
  | published (commitId : Nat)
  /-- Only the lock is left. -/
  | releasing

/-- The record, `read_lock` of its node, the writers and the versions, the newest first. -/
structure Stores (Writer : Type u) (len : Nat) where
  lock : Nat
  seq : Nat
  value : Fin len → UInt8
  readLock : Nat
  phase : Writer → Phase len
  versions : List (Version len)

inductive WriteAction (len : Nat) where
  /-- `local_try_lock_op` succeeds. -/
  | acquire (lockContent : Nat)
  | load (val : Fin len → UInt8) (commitId : Nat)
  | mark
  | store (index : Fin len)
  | publish
  | stamp
  | release

variable [DecidableEq Writer]

/-- The writer goes on. -/
def Stores.move (stores : Stores Writer len) (writer : Writer) (phase : Phase len) :
    Stores Writer len :=
  { stores with phase := Function.update stores.phase writer phase }

/-- A step of a writer. -/
def writeStep (stores : Stores Writer len) (writer : Writer) :
    WriteAction len → Option (Stores Writer len)
  | .acquire lockContent =>
      match stores.phase writer with
      | .idle =>
          if stores.lock = 0 ∧ lockContent ≠ 0 then
            some { stores.move writer .locked with lock := lockContent }
          else none
      | _ => none
  | .load val commitId =>
      match stores.phase writer with
      | .locked => some (stores.move writer (.loaded val commitId stores.seq))
      | _ => none
  | .mark =>
      match stores.phase writer with
      | .loaded val commitId oldSeq =>
          some
            { stores.move writer (.writing val commitId oldSeq fun _ => false) with
              seq := conflictWriteFlag }
      | _ => none
  | .store index =>
      match stores.phase writer with
      | .writing val commitId oldSeq stored =>
          if stored index = false then
            some
              { stores.move writer
                  (.writing val commitId oldSeq (Function.update stored index true)) with
                value := Function.update stores.value index (val index) }
          else none
      | _ => none
  | .publish =>
      match stores.phase writer with
      | .writing val commitId oldSeq stored =>
          if ∀ index, stored index = true then
            some
              { stores.move writer (.published commitId) with
                seq := (oldSeq + 2) % wordBound
                versions := ⟨val, (oldSeq + 2) % wordBound⟩ :: stores.versions }
          else none
      | _ => none
  | .stamp =>
      match stores.phase writer with
      | .published commitId =>
          if commitId = noCommitId then none
          else
            some
              { stores.move writer .releasing with
                readLock := (commitId + commitId <<< 32) % wordBound }
      | _ => none
  | .release =>
      match stores.phase writer with
      | .published commitId =>
          if commitId = noCommitId then some { stores.move writer .idle with lock := 0 }
          else none
      | .releasing => some { stores.move writer .idle with lock := 0 }
      | _ => none

/-- A record that is loaded with this version. -/
def freshRecord (version : Version len) : Stores Writer len :=
  { lock := 0
    seq := version.seq
    value := version.value
    readLock := 0
    phase := fun _ => .idle
    versions := [version] }

/-! ## What the writers keep -/

/-- The record is marked. -/
def Phase.isWriting : Phase len → Bool
  | .writing _ _ _ _ => true
  | _ => false

/-- Some writer has marked the record. -/
def Busy (stores : Stores Writer len) : Prop := ∃ writer, (stores.phase writer).isWriting = true

/-- No writer that has marked the record has bytes left to store. -/
def Complete (stores : Stores Writer len) : Prop :=
  ∀ writer val commitId oldSeq stored,
    stores.phase writer = .writing val commitId oldSeq stored → ∀ index, stored index = true

/-- One writer at a time holds the lock; the record is the newest version, or the busy value
and bytes of the newest version and of the next one. -/
structure WriteInv (stores : Stores Writer len) (current : Version len) : Prop where
  newest : ∃ older, stores.versions = current :: older
  held : ∀ writer, stores.phase writer ≠ .idle → stores.lock ≠ 0
  alone : ∀ writer other, stores.phase writer ≠ .idle → stores.phase other ≠ .idle →
    writer = other
  loaded : ∀ writer val commitId oldSeq,
    stores.phase writer = .loaded val commitId oldSeq → oldSeq = current.seq
  writing : ∀ writer val commitId oldSeq stored,
    stores.phase writer = .writing val commitId oldSeq stored →
      oldSeq = current.seq ∧ stores.seq = conflictWriteFlag ∧
        ∀ index, stores.value index = if stored index then val index else current.value index
  settled : ¬ Busy stores → stores.seq = current.seq ∧ stores.value = current.value

/-- What a reader can see of a step of a writer. -/
inductive Effect (action : WriteAction len) (before after : Stores Writer len)
    (current next : Version len) : Prop where
  | quiet (seq : after.seq = before.seq) (value : after.value = before.value)
      (versions : after.versions = before.versions) (same : next = current)
      (busy : Busy after ↔ Busy before) (complete : Complete before → Complete after)
  | marked (marks : action = .mark) (free : ¬ Busy before) (busy : Busy after)
      (value : after.value = before.value)
      (versions : after.versions = before.versions) (same : next = current)
  | stored (busy : Busy before) (still : Busy after) (incomplete : ¬ Complete before)
      (seq : after.seq = before.seq) (versions : after.versions = before.versions)
      (same : next = current)
  | published (publishes : action = .publish) (busy : Busy before) (free : ¬ Busy after)
      (value : after.value = before.value)
      (versions : after.versions = next :: before.versions)
      (seq : next.seq = (current.seq + 2) % wordBound)

section

variable {stores : Stores Writer len} {current : Version len}

theorem writeInv_fresh (version : Version len) :
    WriteInv (freshRecord version : Stores Writer len) version := by
  constructor
  · exact ⟨[], rfl⟩
  · intro writer phase
    exact absurd rfl phase
  · intro writer other phase
    exact absurd rfl phase
  · intro writer val commitId oldSeq phase
    cases phase
  · intro writer val commitId oldSeq stored phase
    cases phase
  · intro _
    exact ⟨rfl, rfl⟩

/-- While one writer is at work the others are idle. -/
theorem WriteInv.others_idle (inv : WriteInv stores current) {writer other : Writer}
    (working : stores.phase writer ≠ .idle) (different : other ≠ writer) :
    stores.phase other = .idle := by
  by_contra busy
  exact different (inv.alone other writer busy working)

/-- While a writer is at work elsewhere the record is not marked. -/
theorem WriteInv.not_busy (inv : WriteInv stores current) {writer : Writer}
    (working : stores.phase writer ≠ .idle)
    (elsewhere : (stores.phase writer).isWriting = false) : ¬ Busy stores := by
  rintro ⟨other, writing⟩
  by_cases same : other = writer
  · rw [same, elsewhere] at writing
    cases writing
  · rw [inv.others_idle working same] at writing
    cases writing

/-- This writer is in this phase and the others are idle. -/
structure Alone (after : Stores Writer len) (writer : Writer) (phase : Phase len) : Prop where
  own : after.phase writer = phase
  others : ∀ other, other ≠ writer → after.phase other = .idle

theorem Alone.of_move {writer : Writer} {phase : Phase len}
    (idle : ∀ other, other ≠ writer → stores.phase other = .idle) {after : Stores Writer len}
    (moved : after.phase = Function.update stores.phase writer phase) :
    Alone after writer phase := by
  constructor
  · rw [moved, Function.update_self]
  · intro other different
    rw [moved, Function.update_of_ne different, idle other different]

section Alone

variable {after : Stores Writer len} {writer : Writer} {phase : Phase len}

/-- A writer at work is this one. -/
theorem Alone.eq (alone : Alone after writer phase) {other : Writer} {found : Phase len}
    (isFound : after.phase other = found) (working : found ≠ .idle) :
    other = writer ∧ found = phase := by
  by_cases same : other = writer
  · rw [same, alone.own] at isFound
    exact ⟨same, isFound.symm⟩
  · rw [alone.others other same] at isFound
    exact absurd isFound.symm working

theorem Alone.busy_iff (alone : Alone after writer phase) :
    Busy after ↔ phase.isWriting = true := by
  constructor
  · rintro ⟨other, writing⟩
    have working : after.phase other ≠ .idle := by
      intro idle
      rw [idle] at writing
      cases writing
    rwa [(alone.eq rfl working).2] at writing
  · intro writing
    exact ⟨writer, by rw [alone.own]; exact writing⟩

theorem Alone.complete (alone : Alone after writer phase) (free : phase.isWriting = false) :
    Complete after := by
  intro other val commitId oldSeq stored writing
  rw [← (alone.eq writing fun idle => by cases idle).2] at free
  cases free

/-- The invariant speaks of the one writer at work only. -/
theorem WriteInv.of_alone (alone : Alone after writer phase) {next : Version len}
    (newest : ∃ older, after.versions = next :: older) (held : phase ≠ .idle → after.lock ≠ 0)
    (loaded : ∀ val commitId oldSeq, phase = .loaded val commitId oldSeq → oldSeq = next.seq)
    (writing : ∀ val commitId oldSeq stored, phase = .writing val commitId oldSeq stored →
      oldSeq = next.seq ∧ after.seq = conflictWriteFlag ∧
        ∀ index, after.value index = if stored index then val index else next.value index)
    (settled : phase.isWriting = false → after.seq = next.seq ∧ after.value = next.value) :
    WriteInv after next := by
  refine ⟨newest, ?_, ?_, ?_, ?_, ?_⟩
  · intro other working
    obtain ⟨-, same⟩ := alone.eq rfl working
    exact held (same ▸ working)
  · intro other another working alsoWorking
    rw [(alone.eq rfl working).1, (alone.eq rfl alsoWorking).1]
  · intro other val commitId oldSeq found
    exact loaded val commitId oldSeq (alone.eq found fun idle => by cases idle).2.symm
  · intro other val commitId oldSeq stored found
    exact writing val commitId oldSeq stored (alone.eq found fun idle => by cases idle).2.symm
  · intro free
    rw [alone.busy_iff, Bool.not_eq_true] at free
    exact settled free

end Alone

/-- A writer that moves outside a write. -/
theorem WriteInv.quiet (inv : WriteInv stores current) {writer : Writer} {phase : Phase len}
    {action : WriteAction len}
    (idle : ∀ other, other ≠ writer → stores.phase other = .idle)
    (before : (stores.phase writer).isWriting = false) (free : phase.isWriting = false)
    {after : Stores Writer len}
    (moved : after.phase = Function.update stores.phase writer phase)
    (held : phase ≠ .idle → after.lock ≠ 0)
    (loaded : ∀ val commitId oldSeq, phase = .loaded val commitId oldSeq → oldSeq = current.seq)
    (seq : after.seq = stores.seq) (value : after.value = stores.value)
    (versions : after.versions = stores.versions) :
    WriteInv after current ∧ Effect action stores after current current := by
  have alone := Alone.of_move idle moved
  have notBusy : ¬ Busy stores := by
    rw [Alone.busy_iff ⟨rfl, idle⟩, before]
    exact Bool.false_ne_true
  have notBusyAfter : ¬ Busy after := by
    rw [alone.busy_iff, free]
    exact Bool.false_ne_true
  constructor
  · apply WriteInv.of_alone alone (versions ▸ inv.newest) held loaded
    · intro val commitId oldSeq stored found
      rw [found] at free
      cases free
    · intro _
      rw [seq, value]
      exact inv.settled notBusy
  · exact .quiet seq value versions rfl (iff_of_false notBusyAfter notBusy)
      fun _ => alone.complete free

/-- A writer that starts, goes on with or ends the stores of a value. -/
theorem WriteInv.store (inv : WriteInv stores current) {writer : Writer}
    {val : Fin len → UInt8} {commitId oldSeq : Nat} {stored : Fin len → Bool}
    (idle : ∀ other, other ≠ writer → stores.phase other = .idle)
    (locked : stores.phase writer ≠ .idle) {after : Stores Writer len}
    (moved : after.phase =
      Function.update stores.phase writer (.writing val commitId oldSeq stored))
    (lock : after.lock = stores.lock) (old : oldSeq = current.seq)
    (seq : after.seq = conflictWriteFlag)
    (value : ∀ index, after.value index =
      if stored index then val index else current.value index)
    (versions : after.versions = stores.versions) : WriteInv after current := by
  apply WriteInv.of_alone (.of_move idle moved) (versions ▸ inv.newest)
  · intro _
    rw [lock]
    exact inv.held writer locked
  · intro val' commitId' oldSeq' found
    cases found
  · intro val' commitId' oldSeq' stored' found
    cases found
    exact ⟨old, seq, value⟩
  · intro free
    cases free

/-- A writer that has stored all bytes stores the new sequence word. -/
theorem WriteInv.published (inv : WriteInv stores current) {writer : Writer} {commitId : Nat}
    (idle : ∀ other, other ≠ writer → stores.phase other = .idle)
    (locked : stores.phase writer ≠ .idle) {after : Stores Writer len} {next : Version len}
    (moved : after.phase = Function.update stores.phase writer (.published commitId))
    (lock : after.lock = stores.lock) (seq : after.seq = next.seq)
    (value : after.value = next.value) (versions : after.versions = next :: stores.versions) :
    WriteInv after next := by
  apply WriteInv.of_alone (.of_move idle moved) ⟨stores.versions, versions⟩
  · intro _
    rw [lock]
    exact inv.held writer locked
  · intro val commitId' oldSeq found
    cases found
  · intro val commitId' oldSeq stored found
    cases found
  · intro _
    exact ⟨seq, value⟩

/-! ### The three stores into the record -/

section Stores

variable {after : Stores Writer len} {writer : Writer}

/-- The sequence word is marked. -/
theorem WriteInv.mark_step (inv : WriteInv stores current)
    (stepped : writeStep stores writer .mark = some after) :
    ∃ next, WriteInv after next ∧ Effect .mark stores after current next := by
  simp only [writeStep] at stepped
  split at stepped
  · rename_i val commitId oldSeq phase
    cases stepped
    have working : stores.phase writer ≠ .idle := by simp [phase]
    have idle := fun other => @WriteInv.others_idle _ _ _ _ _ inv writer other working
    have free := inv.not_busy working (by rw [phase]; rfl)
    refine ⟨current, inv.store idle working rfl rfl
      (inv.loaded writer val commitId oldSeq phase) rfl ?_ rfl, ?_⟩
    · intro index
      exact congrFun (inv.settled free).2 index
    · exact .marked rfl free ((Alone.of_move idle rfl).busy_iff.mpr rfl) rfl rfl rfl
  · cases stepped

/-- One byte is stored that has not been stored yet. -/
theorem WriteInv.store_step (inv : WriteInv stores current) {index : Fin len}
    (stepped : writeStep stores writer (.store index) = some after) :
    ∃ next, WriteInv after next ∧ Effect (.store index) stores after current next := by
  simp only [writeStep] at stepped
  split at stepped
  · rename_i val commitId oldSeq stored phase
    split at stepped
    · rename_i missing
      cases stepped
      have working : stores.phase writer ≠ .idle := by simp [phase]
      have idle := fun other => @WriteInv.others_idle _ _ _ _ _ inv writer other working
      obtain ⟨old, seq, value⟩ := inv.writing writer val commitId oldSeq stored phase
      refine ⟨current, inv.store idle working rfl rfl old seq ?_ rfl, ?_⟩
      · intro other
        by_cases same : other = index
        · subst same
          simp
        · simpa [same] using value other
      · refine .stored ⟨writer, by rw [phase]; rfl⟩ ((Alone.of_move idle rfl).busy_iff.mpr rfl) ?_
          rfl rfl rfl
        intro complete
        rw [complete writer val commitId oldSeq stored phase index] at missing
        cases missing
    · cases stepped
  · cases stepped

/-- All bytes are stored and the new sequence word follows. -/
theorem WriteInv.publish_step (inv : WriteInv stores current)
    (stepped : writeStep stores writer .publish = some after) :
    ∃ next, WriteInv after next ∧ Effect .publish stores after current next := by
  simp only [writeStep] at stepped
  split at stepped
  · rename_i val commitId oldSeq stored phase
    split at stepped
    · rename_i complete
      cases stepped
      have working : stores.phase writer ≠ .idle := by simp [phase]
      have idle := fun other => @WriteInv.others_idle _ _ _ _ _ inv writer other working
      obtain ⟨old, seq, value⟩ := inv.writing writer val commitId oldSeq stored phase
      have written : stores.value = val := by
        funext index
        rw [value index, if_pos (complete index)]
      refine ⟨⟨val, (oldSeq + 2) % wordBound⟩,
        inv.published idle working rfl rfl rfl written rfl, ?_⟩
      refine .published rfl ⟨writer, by rw [phase]; rfl⟩ ?_ rfl rfl (by rw [old])
      rw [(Alone.of_move idle rfl).busy_iff]
      exact Bool.false_ne_true
    · cases stepped
  · cases stepped

end Stores

/-- What one step of a writer keeps, and what it does to the record. -/
theorem WriteInv.step (inv : WriteInv stores current) {writer : Writer}
    {action : WriteAction len} {after : Stores Writer len}
    (stepped : writeStep stores writer action = some after) :
    ∃ next, WriteInv after next ∧ Effect action stores after current next := by
  cases action with
  | acquire lockContent =>
      simp only [writeStep] at stepped
      split at stepped
      · rename_i phase
        split at stepped
        · rename_i free
          cases stepped
          have idle : ∀ other, other ≠ writer → stores.phase other = .idle := by
            intro other _
            by_contra busy
            exact inv.held other busy free.1
          exact ⟨current, inv.quiet idle (by rw [phase]; rfl) rfl rfl (fun _ => free.2)
            (fun _ _ _ found => by cases found) rfl rfl rfl⟩
        · cases stepped
      · cases stepped
  | load val commitId =>
      simp only [writeStep] at stepped
      split at stepped
      · rename_i phase
        cases stepped
        have working : stores.phase writer ≠ .idle := by simp [phase]
        have free := inv.not_busy working (by rw [phase]; rfl)
        exact ⟨current, inv.quiet (fun other => inv.others_idle working) (by rw [phase]; rfl)
          rfl rfl (fun _ => inv.held writer working)
          (fun _ _ _ found => by cases found; exact (inv.settled free).1) rfl rfl rfl⟩
      · cases stepped
  | mark => exact inv.mark_step stepped
  | store index => exact inv.store_step stepped
  | publish => exact inv.publish_step stepped
  | stamp =>
      simp only [writeStep] at stepped
      split at stepped
      · rename_i commitId phase
        split at stepped
        · cases stepped
        · cases stepped
          have working : stores.phase writer ≠ .idle := by simp [phase]
          exact ⟨current, inv.quiet (fun other => inv.others_idle working) (by rw [phase]; rfl)
            rfl rfl (fun _ => inv.held writer working) (fun _ _ _ found => by cases found)
            rfl rfl rfl⟩
      · cases stepped
  | release =>
      simp only [writeStep] at stepped
      split at stepped
      · rename_i commitId phase
        split at stepped
        · cases stepped
          have working : stores.phase writer ≠ .idle := by simp [phase]
          exact ⟨current, inv.quiet (fun other => inv.others_idle working) (by rw [phase]; rfl)
            rfl rfl (fun still => absurd rfl still) (fun _ _ _ found => by cases found)
            rfl rfl rfl⟩
        · cases stepped
      · rename_i phase
        cases stepped
        have working : stores.phase writer ≠ .idle := by simp [phase]
        exact ⟨current, inv.quiet (fun other => inv.others_idle working) (by rw [phase]; rfl)
          rfl rfl (fun still => absurd rfl still) (fun _ _ _ found => by cases found)
          rfl rfl rfl⟩
      · cases stepped

end

/-- A record that is not marked has no bytes missing. -/
theorem complete_of_not_busy {stores : Stores Writer len} (free : ¬ Busy stores) :
    Complete stores := by
  intro writer val commitId oldSeq stored phase
  exact absurd ⟨writer, by rw [phase]; rfl⟩ free

/-- The new sequence word is stored by a writer that has marked the record. -/
theorem writing_of_publish {stores after : Stores Writer len} {writer : Writer}
    (stepped : writeStep stores writer .publish = some after) :
    ∃ val commitId oldSeq stored,
      stores.phase writer = .writing val commitId oldSeq stored := by
  simp only [writeStep] at stepped
  split at stepped
  · rename_i val commitId oldSeq stored phase
    exact ⟨val, commitId, oldSeq, stored, phase⟩
  · cases stepped

end Rocc.Rtx.RecordStores
