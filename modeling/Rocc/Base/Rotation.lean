import Mathlib.Data.Finset.Card
import Mathlib.Data.List.Nodup
import Mathlib.Data.List.Range

/-!
# Rotations

The numbers below `total` are turned by an amount: `turn` goes forward, `turnBack`
returns.  A rotation assigns to every number the next `amount` ones; it is assigned by the
`amount` ones before it.
-/

namespace Rocc

/-- The number reached from `place` after `amount` steps forward. -/
def turn (total place amount : Nat) : Nat := (place + amount) % total

/-- The number from which `place` is reached after `amount` steps forward. -/
def turnBack (total place amount : Nat) : Nat := (place + (total - amount)) % total

section

variable {total place other amount another : Nat}

theorem turn_lt (below : place < total) : turn total place amount < total :=
  Nat.mod_lt _ (Nat.zero_lt_of_lt below)

theorem turnBack_lt (below : place < total) : turnBack total place amount < total :=
  Nat.mod_lt _ (Nat.zero_lt_of_lt below)

/-- A turn by less than a round passes the end at most once. -/
theorem turn_eq (below : place < total) (short : amount ≤ total) :
    turn total place amount =
      if place + amount < total then place + amount else place + amount - total := by
  unfold turn
  split
  · rename_i inside
    exact Nat.mod_eq_of_lt inside
  · rw [Nat.mod_eq_sub_mod (by omega), Nat.mod_eq_of_lt (by omega)]

theorem turnBack_eq_turn : turnBack total place amount = turn total place (total - amount) :=
  rfl

theorem turnBack_turn (below : place < total) (short : amount < total) :
    turnBack total (turn total place amount) amount = place := by
  rw [turnBack_eq_turn, turn_eq (turn_lt below) (by omega), turn_eq below (by omega)]
  split <;> split <;> omega

theorem turn_turnBack (below : place < total) (short : amount < total) :
    turn total (turnBack total place amount) amount = place := by
  rw [turn_eq (turnBack_lt below) (by omega), turnBack_eq_turn, turn_eq below (by omega)]
  split <;> split <;> omega

/-- The two turns say the same. -/
theorem turn_eq_iff (below : place < total) (second : other < total) (short : amount < total) :
    turn total place amount = other ↔ turnBack total other amount = place := by
  constructor
  · rintro rfl
    exact turnBack_turn below short
  · rintro rfl
    exact turn_turnBack second short

/-- Different short turns lead to different numbers. -/
theorem turn_injective (below : place < total) (short : amount < total)
    (second : another < total) (same : turn total place amount = turn total place another) :
    amount = another := by
  rw [turn_eq below (by omega), turn_eq below (by omega)] at same
  split at same <;> split at same <;> omega

theorem turnBack_injective (below : place < total) (positive : 0 < amount)
    (short : amount < total) (first : 0 < another) (second : another < total)
    (same : turnBack total place amount = turnBack total place another) :
    amount = another := by
  have equal := turn_injective below (by omega) (by omega) same
  omega

/-- A turn by less than a round does not return. -/
theorem turn_ne (below : place < total) (positive : 0 < amount) (short : amount < total) :
    turn total place amount ≠ place := by
  rw [turn_eq below (by omega)]
  split <;> omega

end

/-! ## The next ones and the ones before -/

/-- The `amount` numbers behind `place`. -/
def nextOnes (total place amount : Nat) : List Nat :=
  (List.range amount).map fun index => turn total place (index + 1)

/-- The `amount` numbers before `place`. -/
def previousOnes (total place amount : Nat) : List Nat :=
  (List.range amount).map fun index => turnBack total place (index + 1)

section

variable {total place other amount : Nat}

@[simp] theorem length_nextOnes : (nextOnes total place amount).length = amount := by
  simp [nextOnes]

@[simp] theorem length_previousOnes : (previousOnes total place amount).length = amount := by
  simp [previousOnes]

theorem mem_nextOnes :
    other ∈ nextOnes total place amount ↔
      ∃ index < amount, turn total place (index + 1) = other := by
  simp [nextOnes]

theorem mem_previousOnes :
    other ∈ previousOnes total place amount ↔
      ∃ index < amount, turnBack total place (index + 1) = other := by
  simp [previousOnes]

theorem nodup_nextOnes (below : place < total) (short : amount < total) :
    (nextOnes total place amount).Nodup := by
  apply List.Nodup.map_on _ List.nodup_range
  intro index inside second within same
  rw [List.mem_range] at inside within
  have equal := turn_injective below (by omega) (by omega) same
  omega

theorem nodup_previousOnes (below : place < total) (short : amount < total) :
    (previousOnes total place amount).Nodup := by
  apply List.Nodup.map_on _ List.nodup_range
  intro index inside second within same
  rw [List.mem_range] at inside within
  have equal := turnBack_injective below (by omega) (by omega) (by omega) (by omega) same
  omega

theorem not_mem_nextOnes (below : place < total) (short : amount < total) :
    place ∉ nextOnes total place amount := by
  rw [mem_nextOnes]
  rintro ⟨index, inside, same⟩
  exact turn_ne below (by omega) (by omega) same

theorem not_mem_previousOnes (below : place < total) (short : amount < total) :
    place ∉ previousOnes total place amount := by
  rw [mem_previousOnes]
  rintro ⟨index, inside, same⟩
  exact turn_ne below (by omega) (by omega) same

theorem lt_of_mem_previousOnes (below : place < total)
    (member : other ∈ previousOnes total place amount) : other < total := by
  obtain ⟨index, _, rfl⟩ := mem_previousOnes.mp member
  exact turnBack_lt below

/-- The two lists are inverse to each other. -/
theorem mem_nextOnes_iff (below : place < total) (second : other < total)
    (short : amount < total) :
    other ∈ nextOnes total place amount ↔ place ∈ previousOnes total other amount := by
  rw [mem_nextOnes, mem_previousOnes]
  constructor
  · rintro ⟨index, inside, same⟩
    exact ⟨index, inside, (turn_eq_iff below second (by omega)).mp same⟩
  · rintro ⟨index, inside, same⟩
    exact ⟨index, inside, (turn_eq_iff below second (by omega)).mpr same⟩

end

end Rocc
