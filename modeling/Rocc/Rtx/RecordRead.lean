import Rocc.Rtx.RecordStores

/-!
# Reads of a record that is being written

`local_get_op` loads the sequence word, copies the value byte by byte and loads the sequence
word again; it starts over when the two words differ or are the busy value.  Any number of
readers run beside the writers.
-/

namespace Rocc.Rtx.RecordRead

open RecordStores

universe u v

set_option linter.unusedSectionVars false

variable {Writer : Type u} {Reader : Type v} {len : Nat}

/-- Where a reader is in `local_get_op`. -/
inductive ReadPhase (len : Nat) where
  | idle
  /-- It has loaded the sequence word and copied some bytes. -/
  | copying (seq : Nat) (copied : Fin len → Option UInt8)
  /-- It has returned these bytes and this sequence word. -/
  | returned (val : Fin len → Option UInt8) (seq : Nat)

/-- The record with its writers, and the readers. -/
structure State (Writer : Type u) (Reader : Type v) (len : Nat) where
  stores : Stores Writer len
  readers : Reader → ReadPhase len

inductive Action (Writer : Type u) (Reader : Type v) (len : Nat) where
  | write (writer : Writer) (action : WriteAction len)
  /-- The first load of the sequence word. -/
  | load (reader : Reader)
  | copy (reader : Reader) (index : Fin len)
  /-- The second load of the sequence word. -/
  | check (reader : Reader)

variable [DecidableEq Writer] [DecidableEq Reader]

/-- The reader goes on. -/
def State.move (state : State Writer Reader len) (reader : Reader) (phase : ReadPhase len) :
    State Writer Reader len :=
  { state with readers := Function.update state.readers reader phase }

/-- A step of a writer or of a reader. -/
def step (state : State Writer Reader len) :
    Action Writer Reader len → Option (State Writer Reader len)
  | .write writer action =>
      match writeStep state.stores writer action with
      | none => none
      | some stores => some { state with stores := stores }
  | .load reader =>
      match state.readers reader with
      | .copying _ _ => none
      | _ => some (state.move reader (.copying state.stores.seq fun _ => none))
  | .copy reader index =>
      match state.readers reader with
      | .copying seq copied =>
          if copied index = none then
            some (state.move reader (.copying seq
              (Function.update copied index (some (state.stores.value index)))))
          else none
      | _ => none
  | .check reader =>
      match state.readers reader with
      | .copying seq copied =>
          if ∀ index, (copied index).isSome = true then
            if state.stores.seq ≠ seq ∨ seq = conflictWriteFlag then
              some (state.move reader .idle)
            else some (state.move reader (.returned copied seq))
          else none
      | _ => none

/-- A record that is loaded with this version, and nobody at work. -/
def initial (version : Version len) : State Writer Reader len :=
  { stores := freshRecord version, readers := fun _ => .idle }

/-- The next sequence word of a writer fits. -/
def Counted : Phase len → Prop
  | .writing _ _ oldSeq _ => oldSeq + 2 < wordBound
  | _ => True

/-- The sequence word does not wrap around when it is stored. -/
def NoWrap (state : State Writer Reader len) : Action Writer Reader len → Prop
  | .write writer .publish => Counted (state.stores.phase writer)
  | _ => True

/-! ## What the readers keep -/

/-- What a reader may have: the bytes it has copied are those of the newest version while that
is the version it has seen first and no writer has marked the record. -/
def ReadOk (stores : Stores Writer len) (current : Version len) : ReadPhase len → Prop
  | .idle => True
  | .copying seq copied =>
      (seq = conflictWriteFlag ∨ seq ≤ current.seq) ∧
        (seq = current.seq → ¬ Busy stores →
          ∀ index byte, copied index = some byte → byte = current.value index)
  | .returned val seq =>
      ∃ version ∈ stores.versions, version.seq = seq ∧
        ∀ index, val index = some (version.value index)

/-- The invariant of the writers, even sequence words, and the readers. -/
structure Inv (state : State Writer Reader len) (current : Version len) : Prop where
  write : WriteInv state.stores current
  even : current.seq % 2 = 0
  readers : ∀ reader, ReadOk state.stores current (state.readers reader)

section

variable {state after : State Writer Reader len} {current : Version len}

/-- A step of a writer, seen by a reader. -/
theorem ReadOk.effect {before next : Stores Writer len} {newer : Version len}
    {phase : ReadPhase len} {action : WriteAction len} (ok : ReadOk before current phase)
    (effect : Effect action before next current newer) (even : newer.seq % 2 = 0)
    (grows : Busy before → ¬ Busy next → current.seq < newer.seq) :
    ReadOk next newer phase := by
  have kept : ∀ version ∈ before.versions, version ∈ next.versions := by
    intro version member
    cases effect with
    | quiet _ _ versions | marked _ _ _ _ versions | stored _ _ _ _ versions =>
        exact versions ▸ member
    | published _ _ _ _ versions => exact versions ▸ List.mem_cons_of_mem _ member
  cases phase with
  | idle => trivial
  | copying seq copied =>
      obtain ⟨seen, bytes⟩ := ok
      cases effect with
      | quiet _ _ _ same busy =>
          subst same
          exact ⟨seen, fun first free => bytes first fun marked => free (busy.mpr marked)⟩
      | marked _ _ busy _ _ same =>
          subst same
          exact ⟨seen, fun _ free => absurd busy free⟩
      | stored _ busy _ _ _ same =>
          subst same
          exact ⟨seen, fun _ free => absurd busy free⟩
      | published _ busy free =>
          have less := grows busy free
          -- The version the reader has started with is not the newest one any more.
          refine ⟨seen.imp_right fun below => below.trans less.le, fun first _ => ?_⟩
          rcases seen with marker | below
          · rw [← first, marker] at even
            exact absurd even (by decide)
          · omega
  | returned val seq =>
      obtain ⟨version, member, same, bytes⟩ := ok
      exact ⟨version, kept version member, same, bytes⟩

/-- A reader that moves. -/
theorem Inv.move (inv : Inv state current) {reader : Reader} {phase : ReadPhase len}
    (ok : ReadOk state.stores current phase) : Inv (state.move reader phase) current := by
  refine ⟨inv.write, inv.even, ?_⟩
  intro other
  by_cases same : other = reader
  · subst same
    simpa [State.move] using ok
  · simpa [State.move, same] using inv.readers other

/-- The sequence word of the record. -/
theorem Inv.seq (inv : Inv state current) :
    state.stores.seq = conflictWriteFlag ∨
      (state.stores.seq = current.seq ∧ ¬ Busy state.stores) := by
  by_cases busy : Busy state.stores
  · left
    obtain ⟨writer, marked⟩ := busy
    cases phase : state.stores.phase writer with
    | writing val commitId oldSeq stored =>
        exact (inv.write.writing writer val commitId oldSeq stored phase).2.1
    | idle | locked | loaded | published | releasing =>
        rw [phase] at marked
        cases marked
  · exact .inr ⟨(inv.write.settled busy).1, busy⟩

/-- A step of a writer. -/
theorem Inv.write_step (inv : Inv state current) {writer : Writer} {action : WriteAction len}
    {stores : Stores Writer len}
    (fits : NoWrap state (.write writer action : Action Writer Reader len))
    (stepped : writeStep state.stores writer action = some stores) :
    ∃ next, Inv { state with stores := stores } next := by
  obtain ⟨next, write, effect⟩ := inv.write.step stepped
  have even : next.seq % 2 = 0 := by
    cases effect with
    | quiet _ _ _ same | marked _ _ _ _ _ same | stored _ _ _ _ _ same => exact same ▸ inv.even
    | published _ _ _ _ _ seq =>
        have old := inv.even
        rw [seq]
        unfold wordBound
        omega
  have grows : Busy state.stores → ¬ Busy stores → current.seq < next.seq := by
    intro busy free
    cases effect with
    | quiet _ _ _ _ still => exact absurd (still.mpr busy) free
    | marked _ unmarked => exact absurd busy unmarked
    | stored _ still => exact absurd still free
    | published publishes _ _ _ _ seq =>
        subst publishes
        obtain ⟨val, commitId, oldSeq, stored, phase⟩ := writing_of_publish stepped
        have counted : oldSeq + 2 < wordBound := by
          simpa [NoWrap, Counted, phase] using fits
        rw [(inv.write.writing writer val commitId oldSeq stored phase).1] at counted
        rw [seq, Nat.mod_eq_of_lt counted]
        omega
  exact ⟨next, write, even, fun reader => (inv.readers reader).effect effect even grows⟩

/-- A reader copies a byte. -/
theorem Inv.copy (inv : Inv state current) {reader : Reader} {index : Fin len} {seq : Nat}
    {copied : Fin len → Option UInt8} (phase : state.readers reader = .copying seq copied) :
    Inv (state.move reader (.copying seq
      (Function.update copied index (some (state.stores.value index))))) current := by
  have ok := inv.readers reader
  rw [phase] at ok
  refine inv.move ⟨ok.1, ?_⟩
  intro first free other byte found
  by_cases same : other = index
  · subst same
    rw [Function.update_self, Option.some.injEq] at found
    rw [← found, (inv.write.settled free).2]
  · rw [Function.update_of_ne same] at found
    exact ok.2 first free other byte found

/-- A reader that has copied all bytes finds the sequence word it started with. -/
theorem Inv.check (inv : Inv state current) {reader : Reader} {seq : Nat}
    {copied : Fin len → Option UInt8} (phase : state.readers reader = .copying seq copied)
    (complete : ∀ index, (copied index).isSome = true) (same : state.stores.seq = seq)
    (unmarked : seq ≠ conflictWriteFlag) :
    Inv (state.move reader (.returned copied seq)) current := by
  have ok := inv.readers reader
  rw [phase] at ok
  rcases inv.seq with marked | ⟨newest, free⟩
  · exact absurd (same.symm.trans marked) unmarked
  · obtain ⟨older, versions⟩ := inv.write.newest
    refine inv.move ⟨current, by simp [versions], newest.symm.trans same, ?_⟩
    intro index
    obtain ⟨byte, found⟩ := Option.isSome_iff_exists.mp (complete index)
    rw [found, ok.2 (same.symm.trans newest) free index byte found]

/-- What every step keeps. -/
theorem Inv.step (inv : Inv state current) {action : Action Writer Reader len}
    (fits : NoWrap state action) (stepped : RecordRead.step state action = some after) :
    ∃ next, Inv after next := by
  cases action with
  | write writer action =>
      simp only [RecordRead.step] at stepped
      split at stepped
      · cases stepped
      · rename_i stores written
        cases stepped
        exact inv.write_step fits written
  | load reader =>
      have start : ReadOk state.stores current
          (.copying state.stores.seq fun _ => none : ReadPhase len) := by
        refine ⟨?_, fun _ _ _ _ found => by cases found⟩
        rcases inv.seq with marked | ⟨same, _⟩
        · exact .inl marked
        · exact .inr same.le
      simp only [RecordRead.step] at stepped
      split at stepped
      · cases stepped
      · cases stepped
        exact ⟨current, inv.move start⟩
  | copy reader index =>
      simp only [RecordRead.step] at stepped
      split at stepped
      · rename_i seq copied phase
        split at stepped
        · cases stepped
          exact ⟨current, inv.copy phase⟩
        · cases stepped
      · cases stepped
  | check reader =>
      simp only [RecordRead.step] at stepped
      split at stepped
      · rename_i seq copied phase
        split at stepped
        · rename_i complete
          split at stepped
          · cases stepped
            exact ⟨current, inv.move trivial⟩
          · rename_i passed
            cases stepped
            have same : state.stores.seq = seq := by
              by_contra different
              exact passed (.inl different)
            exact ⟨current, inv.check phase complete same fun marked => passed (.inr marked)⟩
        · cases stepped
      · cases stepped

end

/-- Every read that has returned has the complete value of one version and the sequence word of
that version; while nobody writes the sequence word is even and not the busy value. -/
theorem reads_one_version {version : Version len} (even : version.seq % 2 = 0)
    {state : State Writer Reader len} (reach : Reach step NoWrap (initial version) state) :
    (∀ reader val seq, state.readers reader = .returned val seq →
      ∃ version ∈ state.stores.versions, version.seq = seq ∧
        ∀ index, val index = some (version.value index)) ∧
    ((∀ writer, state.stores.phase writer = .idle) →
      state.stores.seq % 2 = 0 ∧ state.stores.seq ≠ conflictWriteFlag) := by
  obtain ⟨current, inv⟩ : ∃ current, Inv state current := by
    apply reach.invariant fun state => ∃ current, Inv state current
    · exact ⟨version, writeInv_fresh version, even, fun _ => trivial⟩
    · rintro before action after ⟨current, inv⟩ fits stepped
      exact inv.step fits stepped
  constructor
  · intro reader val seq returned
    have ok := inv.readers reader
    rw [returned] at ok
    exact ok
  · intro idle
    have free : ¬ Busy state.stores := by
      rintro ⟨writer, marked⟩
      rw [idle writer] at marked
      cases marked
    have seq := (inv.write.settled free).1
    have even := inv.even
    rw [seq]
    refine ⟨even, ?_⟩
    unfold conflictWriteFlag
    omega

instance (phase : Phase len) : Decidable (Counted phase) :=
  match phase with
  | .idle => isTrue trivial
  | .locked => isTrue trivial
  | .loaded _ _ _ => isTrue trivial
  | .writing _ _ oldSeq _ => inferInstanceAs (Decidable (oldSeq + 2 < wordBound))
  | .published _ => isTrue trivial
  | .releasing => isTrue trivial

instance (state : State Writer Reader len) (action : Action Writer Reader len) :
    Decidable (NoWrap state action) :=
  match action with
  | .write writer .publish => inferInstanceAs (Decidable (Counted (state.stores.phase writer)))
  | .write _ (.acquire _) => isTrue trivial
  | .write _ (.load _ _) => isTrue trivial
  | .write _ .mark => isTrue trivial
  | .write _ (.store _) => isTrue trivial
  | .write _ .stamp => isTrue trivial
  | .write _ .release => isTrue trivial
  | .load _ => isTrue trivial
  | .copy _ _ => isTrue trivial
  | .check _ => isTrue trivial

/-- The sequence word that a read has returned. -/
def ReadPhase.returnedSeq : ReadPhase len → Option Nat
  | .returned _ seq => some seq
  | _ => none

/-- A value of one byte is overwritten while it is read. -/
theorem reads_one_version_written :
    ∃ state, Reach step NoWrap (initial ⟨fun _ => 7, 2⟩ : State Unit Unit 1) state ∧
      ∃ val, state.readers () = .returned val 4 ∧
        ∃ version ∈ state.stores.versions, version.seq = 4 ∧
          ∀ index, val index = some (version.value index) := by
  obtain ⟨state, reach, result⟩ : ∃ state,
      Reach step NoWrap (initial ⟨fun _ => 7, 2⟩ : State Unit Unit 1) state ∧
        (state.readers ()).returnedSeq = some 4 :=
    Reach.exists_of_exec
      [.load (), .write () (.acquire 1), .write () (.load (fun _ => 9) noCommitId),
        .write () .mark, .copy () 0, .write () (.store 0), .write () .publish, .check (),
        .load (), .copy () 0, .check ()] (by decide +kernel)
  cases phase : state.readers () with
  | returned val seq =>
      rw [phase, ReadPhase.returnedSeq, Option.some.injEq] at result
      subst result
      exact ⟨state, reach, val, phase, (reads_one_version rfl reach).1 () val 4 phase⟩
  | idle | copying =>
      rw [phase] at result
      cases result

end Rocc.Rtx.RecordRead
