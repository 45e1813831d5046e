import Mathlib.Data.Finset.Insert
import Mathlib.Data.Finset.Lattice.Basic
import Mathlib.Data.List.Range
import Mathlib.Logic.Function.Basic

/-!
# Checked cells and loops over them

An array of a fixed size is a function together with its size; an access outside has no
result.  A counted loop whose body may fail runs to its end when every round succeeds
from what the rounds before have left.
-/

namespace Rocc

universe u

variable {Value State Element : Type u}

/-! ## Accesses -/

/-- Read a cell. -/
def loadCell (size : Nat) (cells : Nat → Value) (index : Nat) : Option Value :=
  if index < size then some (cells index) else none

/-- Overwrite a cell. -/
def storeCell (size : Nat) (cells : Nat → Value) (index : Nat) (value : Value) :
    Option (Nat → Value) :=
  if index < size then some (Function.update cells index value) else none

theorem loadCell_of_lt {size index : Nat} (cells : Nat → Value) (inside : index < size) :
    loadCell size cells index = some (cells index) := if_pos inside

theorem storeCell_of_lt {size index : Nat} (cells : Nat → Value) (value : Value)
    (inside : index < size) :
    storeCell size cells index value = some (Function.update cells index value) := if_pos inside

/-! ## Loops -/

/-- The invariant rule of a counted loop. -/
theorem exists_foldlM_range {body : State → Nat → Option State} (inv : Nat → State → Prop)
    {count : Nat} {state : State} (initially : inv 0 state)
    (preserved : ∀ index < count, ∀ before, inv index before →
      ∃ after, body before index = some after ∧ inv (index + 1) after) :
    ∃ last, (List.range count).foldlM body state = some last ∧ inv count last := by
  induction count with
  | zero => exact ⟨state, rfl, initially⟩
  | succ count hypothesis =>
      obtain ⟨middle, run, holds⟩ :=
        hypothesis fun index inside => preserved index (by omega)
      obtain ⟨last, stepped, after⟩ := preserved count (by omega) middle holds
      refine ⟨last, ?_, after⟩
      rw [List.range_succ, List.foldlM_append, run]
      simp [stepped]

/-- A search among results that are all there. -/
theorem anyM_eq_some {search : Element → Option Bool} {found : Element → Bool}
    {elements : List Element} (each : ∀ element ∈ elements, search element = some (found element)) :
    elements.anyM search = some (elements.any found) := by
  induction elements with
  | nil => rfl
  | cons head rest hypothesis =>
      rw [List.anyM, each head (by simp), List.any_cons]
      cases found head with
      | true => rfl
      | false => simpa using hypothesis fun element member => each element (by simp [member])

/-- A list of results that are all there. -/
theorem mapM_eq_some {read : Element → Option Value} {value : Element → Value}
    {elements : List Element} (each : ∀ element ∈ elements, read element = some (value element)) :
    elements.mapM read = some (elements.map value) := by
  induction elements with
  | nil => rfl
  | cons head rest hypothesis =>
      rw [List.mapM_cons, each head (by simp),
        hypothesis fun element member => each element (by simp [member])]
      rfl

/-- A set to which every round adds its result. -/
theorem foldlM_insert_eq_some [DecidableEq Value] {add : Element → Option Value}
    {added : Element → Value} {elements : List Element} {set : Finset Value}
    (each : ∀ element ∈ elements, add element = some (added element)) :
    ∃ last, elements.foldlM (fun set element => (add element).map (insert · set)) set =
        some last ∧ ∀ value, value ∈ last ↔ value ∈ set ∨ value ∈ elements.map added := by
  induction elements generalizing set with
  | nil => exact ⟨set, rfl, by simp⟩
  | cons head rest hypothesis =>
      obtain ⟨last, run, members⟩ := @hypothesis (insert (added head) set)
        fun element member => each element (by simp [member])
      refine ⟨last, ?_, ?_⟩
      · rw [List.foldlM_cons, each head (by simp)]
        exact run
      · intro value
        rw [members, Finset.mem_insert, List.map_cons, List.mem_cons]
        tauto

end Rocc
