import Mathlib.Data.List.Induction
import Mathlib.Order.Lattice

/-!
# Cells that keep the latest version

A cell takes over an update only if its version is higher than the one it has.  What it ends with
depends neither on the order of the updates nor on how often each of them arrives, as long as one
version comes with one value.
-/

namespace Rocc

universe u v

/-- A version with its value. -/
structure Versioned (Version : Type u) (Value : Type v) where
  version : Version
  value : Value
  deriving DecidableEq, Repr

namespace Versioned

variable {Version : Type u} {Value : Type v} [LinearOrder Version]
variable {start cell other : Versioned Version Value}
variable {updates others : List (Versioned Version Value)}

/-- The cell takes over a higher version. -/
def absorb (cell update : Versioned Version Value) : Versioned Version Value :=
  if update.version ≤ cell.version then cell else update

/-- The cell is what it started with or one of the updates, and no version is higher. -/
structure IsLatest (start : Versioned Version Value) (updates : List (Versioned Version Value))
    (cell : Versioned Version Value) : Prop where
  upper : ∀ update ∈ updates, update.version ≤ cell.version
  source : cell = start ∨ cell ∈ updates ∧ start.version < cell.version

/-- One version comes with one value. -/
def Agree (updates : List (Versioned Version Value)) : Prop :=
  ∀ left ∈ updates, ∀ right ∈ updates, left.version = right.version → left = right

namespace IsLatest

theorem start_le (latest : IsLatest start updates cell) : start.version ≤ cell.version := by
  rcases latest.source with rfl | ⟨_, higher⟩
  · exact le_rfl
  · exact higher.le

/-- One more update. -/
theorem absorb (latest : IsLatest start updates cell) (update : Versioned Version Value) :
    IsLatest start (updates ++ [update]) (cell.absorb update) := by
  have start_le := latest.start_le
  rw [Versioned.absorb]
  split
  · rename_i old
    refine ⟨List.forall_mem_append.mpr ⟨latest.upper, by simpa using old⟩, ?_⟩
    exact latest.source.imp_right fun found => ⟨List.mem_append_left _ found.1, found.2⟩
  · rename_i new
    have higher := not_le.mp new
    refine ⟨List.forall_mem_append.mpr ⟨fun one member => ?_, by simp⟩, .inr ⟨by simp, ?_⟩⟩
    · exact (latest.upper one member).trans higher.le
    · exact start_le.trans_lt higher

/-- Which updates there are decides what the cell is. -/
theorem eq_of_same (latest : IsLatest start updates cell)
    (other_latest : IsLatest start others other)
    (same : ∀ update, update ∈ updates ↔ update ∈ others) (agree : Agree updates) :
    cell = other := by
  rcases latest.source with rfl | ⟨member, higher⟩
  · rcases other_latest.source with rfl | ⟨member, higher⟩
    · rfl
    · exact absurd (latest.upper other ((same other).mpr member)) (not_le.mpr higher)
  · have upper := other_latest.upper cell ((same cell).mp member)
    rcases other_latest.source with rfl | ⟨otherMember, _⟩
    · exact absurd upper (not_le.mpr higher)
    · have inUpdates := (same other).mpr otherMember
      exact agree cell member other inUpdates (le_antisymm upper (latest.upper other inUpdates))

end IsLatest

/-- A cell that absorbs updates one after another ends with the latest. -/
theorem isLatest_foldl (start : Versioned Version Value)
    (updates : List (Versioned Version Value)) :
    IsLatest start updates (updates.foldl absorb start) := by
  induction updates using List.reverseRecOn with
  | nil => exact ⟨by simp, .inl rfl⟩
  | append_singleton updates update ih =>
      rw [List.foldl_append]
      exact ih.absorb update

end Versioned

end Rocc
