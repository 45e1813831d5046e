import Mathlib.Logic.Function.Basic
import Rocc.Base.Replay

/-!
# A log ahead of its store

A transaction enters the log when it commits and stores its values afterwards, one
record at a time.  `Deferred` relates the log to the store in between: replaying the
log gives every record the value that is still owed to it, and the value it stores
when nothing is owed.
-/

namespace Rocc

universe u v

variable {Key : Type u} {Value : Type v}

/-- The log is serial and explains the store up to the writes that are still owed. -/
structure Deferred (init : Key → Value) (log : List (Footprint Key Value))
    (store : Key → Value) (owed : Key → Value → Prop) : Prop where
  serial : Serial init log
  pending : ∀ key value, owed key value → replay init log key = value
  settled : ∀ key, (∀ value, ¬ owed key value) → replay init log key = store key

namespace Deferred

variable {init store store' : Key → Value} {log : List (Footprint Key Value)}
variable {owed owed' : Key → Value → Prop}

theorem initial (init : Key → Value) (nothing : ∀ key value, ¬ owed key value) :
    Deferred init [] init owed where
  serial := trivial
  pending key value isOwed := absurd isOwed (nothing key value)
  settled _ _ := rfl

/-- A step that stores nothing and commits nothing. -/
theorem frame (deferred : Deferred init log store owed)
    (sameStore : ∀ key, store' key = store key)
    (sameOwed : ∀ key value, owed' key value ↔ owed key value) :
    Deferred init log store' owed' where
  serial := deferred.serial
  pending key value isOwed := deferred.pending key value ((sameOwed key value).mp isOwed)
  settled key nothing := by
    rw [sameStore]
    apply deferred.settled
    exact fun value isOwed => nothing value ((sameOwed key value).mpr isOwed)

/-- A transaction that read current values commits and owes what it writes. -/
theorem commit (deferred : Deferred init log store owed) {last : Footprint Key Value}
    (reads : ∀ key value, last.reads key = some value → store key = value)
    (unowed : ∀ key, last.reads key ≠ none ∨ last.writes key ≠ none →
      ∀ value, ¬ owed key value)
    (owes : ∀ key value, owed' key value ↔ owed key value ∨ last.writes key = some value) :
    Deferred init (log ++ [last]) store owed' where
  serial := by
    refine serial_concat.mpr ⟨deferred.serial, ?_⟩
    intro key value read
    rw [deferred.settled key (unowed key (.inl (by simp [read])))]
    exact reads key value read
  pending := by
    intro key value isOwed
    rw [replay_concat]
    rcases (owes key value).mp isOwed with wasOwed | written
    · have unwritten : last.writes key = none := by
        by_contra written
        exact unowed key (.inr written) value wasOwed
      rw [Footprint.apply_of_not_writes unwritten]
      exact deferred.pending key value wasOwed
    · exact Footprint.apply_of_writes written
  settled := by
    intro key nothing
    have unwritten : last.writes key = none := by
      cases written : last.writes key with
      | none => rfl
      | some value => exact absurd ((owes key value).mpr (.inr written)) (nothing value)
    rw [replay_concat, Footprint.apply_of_not_writes unwritten]
    apply deferred.settled
    exact fun value wasOwed => nothing value ((owes key value).mpr (.inl wasOwed))

/-- A value that was owed reaches the store. -/
theorem pay [DecidableEq Key] (deferred : Deferred init log store owed) {key : Key}
    {value : Value} (isOwed : owed key value)
    (paid : ∀ other payment, owed other payment → other = key ∨ owed' other payment)
    (wasOwed : ∀ other payment, owed' other payment → owed other payment) :
    Deferred init log (Function.update store key value) owed' where
  serial := deferred.serial
  pending other payment stillOwed :=
    deferred.pending other payment (wasOwed other payment stillOwed)
  settled := by
    intro other nothing
    rcases eq_or_ne other key with rfl | different
    · rw [Function.update_self]
      exact deferred.pending other value isOwed
    · rw [Function.update_of_ne different]
      apply deferred.settled
      intro payment owedBefore
      rcases paid other payment owedBefore with same | stillOwed
      · exact different same
      · exact nothing payment stillOwed

end Deferred

end Rocc
