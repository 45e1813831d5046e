import Mathlib.Data.Fintype.Basic
import Rocc.Rtx.RecordStores
import Rocc.Sundial.Node

/-!
# Replies to reads while a record is written

`prepare_buf` of the lock manager fills a reply with the value of a record and its two
timestamps.  It copies the value with a `local_get_op` of its own, which compares the word `seq`
of the `MemNode`; `inplace_write_op` marks the sequence word of the header, and nobody
stores the word of the node.  The timestamps are loaded from the header afterwards, one
after the other.
-/

namespace Rocc.Sundial.Reply

open Rtx Rtx.RecordStores

set_option linter.unusedSectionVars false

universe u v

variable {Writer : Type u} {Reader : Type v} {len : Nat}

/-- Where a reader is in `prepare_buf`. -/
inductive ReplyPhase (len : Nat) where
  | idle
  /-- It has loaded `node->seq` and copied some bytes. -/
  | copying (seq : Nat) (copied : Fin len → Option UInt8)
  /-- `local_get_op` has returned. -/
  | checked (copied : Fin len → Option UInt8)
  /-- `wts` is in the reply. -/
  | stamped (copied : Fin len → Option UInt8) (wts : Nat)
  /-- The reply is complete. -/
  | replied (copied : Fin len → Option UInt8) (wts rts : Nat)

/-- The record with its writers, the word `seq` of its node, and the readers. -/
structure State (Writer : Type u) (Reader : Type v) (len : Nat) where
  stores : Stores Writer len
  nodeSeq : Nat
  readers : Reader → ReplyPhase len

inductive Action (Writer : Type u) (Reader : Type v) (len : Nat) where
  | write (writer : Writer) (action : WriteAction len)
  | load (reader : Reader)
  | copy (reader : Reader) (index : Fin len)
  | check (reader : Reader)
  | loadWts (reader : Reader)
  | loadRts (reader : Reader)

variable [DecidableEq Writer] [DecidableEq Reader]

/-- The reader goes on. -/
def State.move (state : State Writer Reader len) (reader : Reader) (phase : ReplyPhase len) :
    State Writer Reader len :=
  { state with readers := Function.update state.readers reader phase }

/-- A step of a writer or of a reader. -/
def step (state : State Writer Reader len) :
    Action Writer Reader len → Option (State Writer Reader len)
  | .write writer action =>
      match writeStep state.stores writer action with
      | none => none
      | some stores => some { state with stores := stores }
  | .load reader =>
      match state.readers reader with
      | .idle | .replied _ _ _ => some (state.move reader (.copying state.nodeSeq fun _ => none))
      | _ => none
  | .copy reader index =>
      match state.readers reader with
      | .copying seq copied =>
          if copied index = none then
            some (state.move reader (.copying seq
              (Function.update copied index (some (state.stores.value index)))))
          else none
      | _ => none
  | .check reader =>
      match state.readers reader with
      | .copying seq copied =>
          if ∀ index, (copied index).isSome = true then
            if state.nodeSeq ≠ seq ∨ seq = conflictWriteFlag then some (state.move reader .idle)
            else some (state.move reader (.checked copied))
          else none
      | _ => none
  | .loadWts reader =>
      match state.readers reader with
      | .checked copied => some (state.move reader (.stamped copied (wts state.stores.seq)))
      | _ => none
  | .loadRts reader =>
      match state.readers reader with
      | .stamped copied wts =>
          some (state.move reader (.replied copied wts (rts state.stores.seq)))
      | _ => none

/-- A record that is loaded with this version, and nobody at work. -/
def initial (version : Version len) (nodeSeq : Nat) : State Writer Reader len :=
  { stores := freshRecord version, nodeSeq := nodeSeq, readers := fun _ => .idle }

/-- A complete reply has the value and the timestamps of one version. -/
def Consistent (stores : Stores Writer len) : ReplyPhase len → Prop
  | .replied copied wtsOf rtsOf =>
      ∃ version ∈ stores.versions, (∀ index, copied index = some (version.value index)) ∧
        wtsOf = wts version.seq ∧ rtsOf = rts version.seq
  | _ => True

/-- The reader has copied a byte, and the last timestamp is still to be loaded. -/
def InWindow : ReplyPhase len → Prop
  | .copying _ copied => ∃ index, copied index ≠ none
  | .checked _ => True
  | .stamped _ _ => True
  | _ => False

/-- The first byte is not copied while a writer has bytes left to store, the first timestamp is
not loaded while the record is marked, and no writer marks it from the first byte to the last
timestamp. -/
def Separate (state : State Writer Reader len) : Action Writer Reader len → Prop
  | .write _ .mark => ∀ reader, ¬ InWindow (state.readers reader)
  | .copy reader _ => ¬ InWindow (state.readers reader) → Complete state.stores
  | .loadWts _ => ¬ Busy state.stores
  | _ => True

/-! ## What the readers keep -/

/-- What a reader has copied is still the value of the record, and from the first timestamp
on the value of the newest version. -/
def ReplyOk (stores : Stores Writer len) (current : Version len) : ReplyPhase len → Prop
  | .idle => True
  | .copying seq copied =>
      (∀ index byte, copied index = some byte → byte = stores.value index) ∧
        (InWindow (.copying seq copied) → Complete stores)
  | .checked copied => (∀ index, copied index = some (stores.value index)) ∧ Complete stores
  | .stamped copied wtsOf =>
      (∀ index, copied index = some (current.value index)) ∧ wtsOf = wts current.seq ∧
        ¬ Busy stores
  | .replied copied wtsOf rtsOf => Consistent stores (.replied copied wtsOf rtsOf)

/-- The invariant of the writers and the readers. -/
structure Inv (state : State Writer Reader len) (current : Version len) : Prop where
  write : WriteInv state.stores current
  readers : ∀ reader, ReplyOk state.stores current (state.readers reader)

section

variable {state after : State Writer Reader len} {current : Version len}

/-- A step of a writer, seen by a reader. -/
theorem ReplyOk.effect {before next : Stores Writer len} {newer : Version len}
    {phase : ReplyPhase len} {action : WriteAction len} (ok : ReplyOk before current phase)
    (effect : Effect action before next current newer)
    (separate : action = .mark → ¬ InWindow phase) : ReplyOk next newer phase := by
  cases effect with
  | quiet seq value versions same busy complete =>
      subst same
      cases phase with
      | idle => trivial
      | copying seq copied =>
          exact ⟨by rw [value]; exact ok.1, fun window => complete (ok.2 window)⟩
      | checked copied => exact ⟨by rw [value]; exact ok.1, complete ok.2⟩
      | stamped copied wtsOf => exact ⟨ok.1, ok.2.1, fun marked => ok.2.2 (busy.mp marked)⟩
      | replied copied wtsOf rtsOf =>
          rw [ReplyOk, Consistent, versions]
          exact ok
  | marked marks free busy value versions same =>
      subst same
      have outside := separate marks
      cases phase with
      | idle => trivial
      | copying seq copied =>
          exact ⟨by rw [value]; exact ok.1, fun window => absurd window outside⟩
      | checked copied => exact absurd trivial outside
      | stamped copied wtsOf => exact absurd trivial outside
      | replied copied wtsOf rtsOf =>
          rw [ReplyOk, Consistent, versions]
          exact ok
  | stored busy still incomplete seq versions same =>
      subst same
      cases phase with
      | idle => trivial
      | copying seq copied =>
          -- Nothing is copied yet, since bytes were left to store.
          have outside : ∀ index, copied index = none := by
            intro index
            by_contra some
            exact incomplete (ok.2 ⟨index, some⟩)
          refine ⟨fun index byte found => ?_, fun window => ?_⟩
          · rw [outside index] at found
            cases found
          · obtain ⟨index, some⟩ := window
            exact absurd (outside index) some
      | checked copied => exact absurd ok.2 incomplete
      | stamped copied wtsOf => exact absurd busy ok.2.2
      | replied copied wtsOf rtsOf =>
          rw [ReplyOk, Consistent, versions]
          exact ok
  | published publishes busy free value versions seq =>
      have complete := complete_of_not_busy free
      cases phase with
      | idle => trivial
      | copying seq copied => exact ⟨by rw [value]; exact ok.1, fun _ => complete⟩
      | checked copied => exact ⟨by rw [value]; exact ok.1, complete⟩
      | stamped copied wtsOf => exact absurd busy ok.2.2
      | replied copied wtsOf rtsOf =>
          obtain ⟨version, member, same⟩ := ok
          exact ⟨version, versions ▸ List.mem_cons_of_mem _ member, same⟩

/-- A reader that moves. -/
theorem Inv.move (inv : Inv state current) {reader : Reader} {phase : ReplyPhase len}
    (ok : ReplyOk state.stores current phase) : Inv (state.move reader phase) current := by
  refine ⟨inv.write, ?_⟩
  intro other
  by_cases same : other = reader
  · subst same
    simpa [State.move] using ok
  · simpa [State.move, same] using inv.readers other

/-- A step of a writer that is apart from the readers. -/
theorem Inv.write_step (inv : Inv state current) {writer : Writer} {action : WriteAction len}
    {stores : Stores Writer len}
    (separate : Separate state (.write writer action : Action Writer Reader len))
    (stepped : writeStep state.stores writer action = some stores) :
    ∃ next, Inv { state with stores := stores } next := by
  obtain ⟨next, write, effect⟩ := inv.write.step stepped
  refine ⟨next, write, fun reader => (inv.readers reader).effect effect ?_⟩
  rintro rfl
  exact separate reader

/-- A reader copies a byte. -/
theorem Inv.copy (inv : Inv state current) {reader : Reader} {index : Fin len} {seq : Nat}
    {copied : Fin len → Option UInt8} (phase : state.readers reader = .copying seq copied)
    (separate : Separate state (.copy reader index : Action Writer Reader len)) :
    Inv (state.move reader (.copying seq
      (Function.update copied index (some (state.stores.value index))))) current := by
  have ok := inv.readers reader
  rw [phase] at ok
  have complete : Complete state.stores := by
    by_cases window : InWindow (state.readers reader)
    · rw [phase] at window
      exact ok.2 window
    · exact separate window
  refine inv.move ⟨?_, fun _ => complete⟩
  intro other byte found
  by_cases same : other = index
  · subst same
    rw [Function.update_self, Option.some.injEq] at found
    exact found.symm
  · rw [Function.update_of_ne same] at found
    exact ok.1 other byte found

/-- A reader that has copied all bytes returns from `local_get_op`. -/
theorem Inv.check (inv : Inv state current) {reader : Reader} {seq : Nat}
    {copied : Fin len → Option UInt8} (phase : state.readers reader = .copying seq copied)
    (all : ∀ index, (copied index).isSome = true) :
    Inv (state.move reader (.checked copied)) current := by
  have ok := inv.readers reader
  rw [phase] at ok
  refine inv.move ⟨?_, ?_⟩
  · intro index
    obtain ⟨byte, found⟩ := Option.isSome_iff_exists.mp (all index)
    rw [found, ok.1 index byte found]
  · intro writer val commitId oldSeq stored writing index
    have some : copied index ≠ none := Option.isSome_iff_ne_none.mp (all index)
    exact ok.2 ⟨index, some⟩ writer val commitId oldSeq stored writing index

/-- What every separate step keeps. -/
theorem Inv.step (inv : Inv state current) {action : Action Writer Reader len}
    (separate : Separate state action) (stepped : Reply.step state action = some after) :
    ∃ next, Inv after next := by
  cases action with
  | write writer action =>
      simp only [Reply.step] at stepped
      split at stepped
      · cases stepped
      · rename_i stores written
        cases stepped
        exact inv.write_step separate written
  | load reader =>
      have start : ReplyOk state.stores current
          (.copying state.nodeSeq fun _ => none : ReplyPhase len) := by
        constructor
        · intro index byte found
          cases found
        · rintro ⟨index, some⟩
          exact absurd rfl some
      simp only [Reply.step] at stepped
      split at stepped
      · cases stepped
        exact ⟨current, inv.move start⟩
      · cases stepped
        exact ⟨current, inv.move start⟩
      · cases stepped
  | copy reader index =>
      simp only [Reply.step] at stepped
      split at stepped
      · rename_i seq copied phase
        split at stepped
        · cases stepped
          exact ⟨current, inv.copy phase separate⟩
        · cases stepped
      · cases stepped
  | check reader =>
      simp only [Reply.step] at stepped
      split at stepped
      · rename_i seq copied phase
        split at stepped
        · rename_i all
          split at stepped
          · cases stepped
            exact ⟨current, inv.move trivial⟩
          · cases stepped
            exact ⟨current, inv.check phase all⟩
        · cases stepped
      · cases stepped
  | loadWts reader =>
      simp only [Reply.step] at stepped
      split at stepped
      · rename_i copied phase
        cases stepped
        have ok := inv.readers reader
        rw [phase] at ok
        obtain ⟨seq, value⟩ := inv.write.settled separate
        refine ⟨current, inv.move ⟨?_, by rw [seq], separate⟩⟩
        rw [← value]
        exact ok.1
      · cases stepped
  | loadRts reader =>
      simp only [Reply.step] at stepped
      split at stepped
      · rename_i copied wtsOf phase
        cases stepped
        have ok := inv.readers reader
        rw [phase] at ok
        obtain ⟨older, versions⟩ := inv.write.newest
        exact ⟨current, inv.move ⟨current, by simp [versions], ok.1, ok.2.1,
          by rw [(inv.write.settled ok.2.2).1]⟩⟩
      · cases stepped

end

/-- While the writers keep apart from the readers, every complete reply has the value and the
timestamps of one version. -/
theorem replies_consistent {version : Version len} {nodeSeq : Nat}
    {state : State Writer Reader len} (reach : Reach step Separate (initial version nodeSeq) state)
    (reader : Reader) : Consistent state.stores (state.readers reader) := by
  obtain ⟨current, inv⟩ : ∃ current, Inv state current := by
    apply reach.invariant fun state => ∃ current, Inv state current
    · exact ⟨version, writeInv_fresh version, fun _ => trivial⟩
    · rintro before action after ⟨current, inv⟩ separate stepped
      exact inv.step separate stepped
  have ok := inv.readers reader
  cases phase : state.readers reader with
  | idle | copying | checked | stamped => trivial
  | replied copied wtsOf rtsOf =>
      rw [phase] at ok
      exact ok

/-- The byte at an index of a complete reply. -/
def ReplyPhase.byte : ReplyPhase len → Fin len → Option UInt8
  | .replied copied _ _, index => copied index
  | _, _ => none

/-- The timestamps of a complete reply. -/
def ReplyPhase.stamps : ReplyPhase len → Option (Nat × Nat)
  | .replied _ wts rts => some (wts, rts)
  | _ => none

theorem Consistent.byte {stores : Stores Writer len} {phase : ReplyPhase len}
    (consistent : Consistent stores phase) {stamps : Nat × Nat}
    (replied : phase.stamps = some stamps) :
    ∃ version ∈ stores.versions, (∀ index, phase.byte index = some (version.value index)) ∧
      stamps = (wts version.seq, rts version.seq) := by
  cases phase with
  | replied copied wtsOf rtsOf =>
      obtain ⟨version, member, bytes, wtsSame, rtsSame⟩ := consistent
      rw [ReplyPhase.stamps, Option.some.injEq] at replied
      exact ⟨version, member, bytes, by rw [← replied, wtsSame, rtsSame]⟩
  | idle | copying | checked | stamped => cases replied

/-- The writer has no bytes left to store. -/
def hasStored : Phase len → Bool
  | .writing _ _ _ stored => decide (∀ index, stored index = true)
  | _ => true

theorem complete_iff {stores : Stores Writer len} :
    Complete stores ↔ ∀ writer, hasStored (stores.phase writer) = true := by
  constructor
  · intro complete writer
    cases phase : stores.phase writer with
    | writing val commitId oldSeq stored =>
        exact decide_eq_true (complete writer val commitId oldSeq stored phase)
    | idle | locked | loaded | published | releasing => rfl
  · intro all writer val commitId oldSeq stored phase
    have done := all writer
    rw [phase] at done
    exact of_decide_eq_true done

instance [Fintype Writer] (stores : Stores Writer len) : Decidable (Complete stores) :=
  decidable_of_iff _ complete_iff.symm

instance [Fintype Writer] (stores : Stores Writer len) : Decidable (Busy stores) :=
  inferInstanceAs (Decidable (∃ writer, (stores.phase writer).isWriting = true))

instance (phase : ReplyPhase len) : Decidable (InWindow phase) :=
  match phase with
  | .idle => isFalse id
  | .copying _ copied => inferInstanceAs (Decidable (∃ index, copied index ≠ none))
  | .checked _ => isTrue trivial
  | .stamped _ _ => isTrue trivial
  | .replied _ _ _ => isFalse id

instance [Fintype Writer] [Fintype Reader] (state : State Writer Reader len)
    (action : Action Writer Reader len) : Decidable (Separate state action) :=
  match action with
  | .write _ .mark => inferInstanceAs (Decidable (∀ reader, ¬ InWindow (state.readers reader)))
  | .write _ (.acquire _) => isTrue trivial
  | .write _ (.load _ _) => isTrue trivial
  | .write _ (.store _) => isTrue trivial
  | .write _ .publish => isTrue trivial
  | .write _ .stamp => isTrue trivial
  | .write _ .release => isTrue trivial
  | .load _ => isTrue trivial
  | .copy reader _ =>
      inferInstanceAs
        (Decidable (¬ InWindow (state.readers reader) → Complete state.stores))
  | .check _ => isTrue trivial
  | .loadWts _ => inferInstanceAs (Decidable (¬ Busy state.stores))
  | .loadRts _ => isTrue trivial

/-- The bytes are copied when they are all stored, and the timestamps loaded when the new
sequence word is. -/
theorem replies_consistent_written :
    ∃ state, Reach step Separate (initial ⟨fun _ => 7, 2⟩ 1 : State Unit Unit 2) state ∧
      (state.readers ()).stamps = some (0, 4) ∧
        Consistent state.stores (state.readers ()) := by
  obtain ⟨state, reach, stamps⟩ : ∃ state,
      Reach step Separate (initial ⟨fun _ => 7, 2⟩ 1 : State Unit Unit 2) state ∧
        (state.readers ()).stamps = some (0, 4) :=
    Reach.exists_of_exec
      [.load (), .write () (.acquire 1), .write () (.load (fun _ => 9) 5), .write () .mark,
        .write () (.store 0), .write () (.store 1), .copy () 0, .copy () 1, .check (),
        .write () .publish, .loadWts (), .write () .stamp, .write () .release, .loadRts ()]
      (by decide +kernel)
  exact ⟨state, reach, stamps, replies_consistent reach ()⟩

/-- A whole write falls between the two bytes of a reply. -/
theorem replies_torn :
    ∃ state, Reach step (fun _ _ => True)
        (initial ⟨fun _ => 7, 2⟩ 1 : State Unit Unit 2) state ∧
      ¬ Consistent state.stores (state.readers ()) := by
  obtain ⟨state, reach, stamps, old, new, versions⟩ : ∃ state,
      Reach step (fun _ _ => True) (initial ⟨fun _ => 7, 2⟩ 1 : State Unit Unit 2) state ∧
        (state.readers ()).stamps = some (0, 4) ∧ (state.readers ()).byte 0 = some 7 ∧
          (state.readers ()).byte 1 = some 9 ∧
            ∀ version ∈ state.stores.versions, version.value 0 = version.value 1 :=
    Reach.exists_of_exec
      [.load (), .copy () 0, .write () (.acquire 1), .write () (.load (fun _ => 9) 5),
        .write () .mark, .write () (.store 0), .write () (.store 1), .write () .publish,
        .write () .stamp, .write () .release, .copy () 1, .check (), .loadWts (), .loadRts ()]
      (by decide +kernel)
  refine ⟨state, reach, fun consistent => ?_⟩
  obtain ⟨version, member, bytes, _⟩ := consistent.byte stamps
  have same := versions version member
  rw [bytes 0, Option.some.injEq] at old
  rw [bytes 1, Option.some.injEq] at new
  rw [old, new] at same
  exact absurd same (by decide)

end Rocc.Sundial.Reply
