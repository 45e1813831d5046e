import Mathlib.Data.List.Nodup
import Mathlib.Data.List.Pairwise

/-!
# Conflict serializability

A schedule lists the reads and writes of all transactions in the order in which they
happened.  Two transactions conflict in the order in which they accessed one record when
one of the two accesses is a write, and a set of transactions is conflict-serializable
when they can be put in an order that no conflict runs against.
-/

namespace Rocc.Schedule

universe u v

/-- One access of a transaction to a record. -/
structure Operation (Tid : Type u) (Key : Type v) where
  tid : Tid
  key : Key
  write : Bool
  deriving DecidableEq, Repr

variable {Tid : Type u} {Key : Type v}

/-- `first` accesses a record before `second`, and one of the accesses is a write. -/
def Conflict (schedule : List (Operation Tid Key)) (first second : Tid) : Prop :=
  first ≠ second ∧ ∃ left right, [left, right].Sublist schedule ∧
    left.tid = first ∧ right.tid = second ∧ left.key = right.key ∧
    (left.write = true ∨ right.write = true)

/-- Some order of the committed transactions has every conflict run forward. -/
def ConflictSerializable (schedule : List (Operation Tid Key)) (committed : Tid → Prop) :
    Prop :=
  ∃ order : List Tid, order.Nodup ∧ (∀ tid, tid ∈ order ↔ committed tid) ∧
    order.Pairwise fun earlier later => ¬ Conflict schedule later earlier

/-- A conflict is between two entries of the history that stand in this order. -/
theorem Conflict.of_pairwise {Event : Type*} {operation : Event → Operation Tid Key}
    {history : List Event} {rel : Event → Event → Prop} {first second : Tid}
    (ordered : history.Pairwise rel)
    (conflict : Conflict (history.map operation) first second) :
    ∃ left ∈ history, ∃ right ∈ history, rel left right ∧
      (operation left).tid = first ∧ (operation right).tid = second ∧
      (operation left).key = (operation right).key ∧
      ((operation left).write = true ∨ (operation right).write = true) := by
  obtain ⟨-, left, right, listed, rfl, rfl, sameKey, write⟩ := conflict
  obtain ⟨entries, sublist, mapped⟩ := List.sublist_map_iff.mp listed
  obtain ⟨leftEvent, tail, rfl, rfl, tailMapped⟩ := List.map_eq_cons_iff.mp mapped.symm
  obtain ⟨rightEvent, rest, rfl, rfl, restMapped⟩ := List.map_eq_cons_iff.mp tailMapped
  have related := (List.pairwise_cons.mp (ordered.sublist sublist)).1 rightEvent (by simp)
  exact ⟨leftEvent, sublist.subset (by simp), rightEvent, sublist.subset (by simp), related,
    rfl, rfl, sameKey, write⟩

/-- Two committed transactions that conflict in both directions have no order. -/
theorem not_conflictSerializable_of_cycle {schedule : List (Operation Tid Key)}
    {committed : Tid → Prop} {first second : Tid} (firstCommitted : committed first)
    (secondCommitted : committed second) (forward : Conflict schedule first second)
    (backward : Conflict schedule second first) :
    ¬ ConflictSerializable schedule committed := by
  rintro ⟨order, -, members, respected⟩
  let Apart (left right : Tid) : Prop :=
    ¬ (Conflict schedule left right ∧ Conflict schedule right left)
  have : Std.Symm Apart := ⟨fun _ _ apart both => apart both.symm⟩
  have apart : order.Pairwise Apart := respected.imp fun unordered both => unordered both.2
  exact apart.forall ((members first).mpr firstCommitted)
    ((members second).mpr secondCommitted) forward.1 ⟨forward, backward⟩

end Rocc.Schedule
