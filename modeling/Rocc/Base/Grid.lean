import Mathlib.Algebra.Order.Ring.Nat
import Mathlib.Algebra.Order.Group.Nat
import Mathlib.Tactic.Ring

/-!
# Blocks of a grid

A region of `rows * (columns * width)` cells is divided into rows, every row into
columns, and every column is one block of `width` cells.  `block` is the first cell
of a block.  Different blocks are disjoint and lie in the region.  The sizes are
often kept in an `int`, whose products and sums have a meaning only when they fit.
-/

namespace Rocc

/-! ## Products and sums of an `int` -/

/-- One more than the largest value of an `int`. -/
def intLimit : Nat := 2 ^ 31

/-- The value of an `int` expression that is not negative; an overflow has no meaning. -/
def toInt (value : Nat) : Option Nat :=
  if value < intLimit then some value else none

@[simp] theorem toInt_eq_some {value result : Nat} :
    toInt value = some result ↔ value < intLimit ∧ value = result := by
  unfold toInt
  split <;> simp_all

theorem toInt_of_lt {value : Nat} (fits : value < intLimit) : toInt value = some value :=
  toInt_eq_some.mpr ⟨fits, rfl⟩

/-! ## Blocks -/

/-- The first cell of a block. -/
def block (columns width row column : Nat) : Nat :=
  row * (columns * width) + column * width

section

variable {rows columns width row column other another : Nat}

/-- A row ends before the next one starts. -/
theorem row_succ_le (size : Nat) (less : row < other) : row * size + size ≤ other * size := by
  calc row * size + size = (row + 1) * size := by ring
    _ ≤ other * size := Nat.mul_le_mul_right size less

/-- A block stays in its row. -/
theorem block_le_row (inside : column < columns) :
    block columns width row column + width ≤ row * (columns * width) + columns * width := by
  have ends : column * width + width ≤ columns * width := row_succ_le width inside
  unfold block
  omega

/-- A block stays in the region. -/
theorem block_le_region (machine : row < rows) (inside : column < columns) :
    block columns width row column + width ≤ rows * (columns * width) :=
  (block_le_row inside).trans (row_succ_le _ machine)

/-- The last block ends where the region ends. -/
theorem block_last (row column columns width : Nat) (last : columns = column + 1) :
    block columns width row column + width = (row + 1) * (columns * width) := by
  subst last
  unfold block
  ring

/-- Blocks of different rows are disjoint. -/
theorem block_disjoint_of_row (less : row < other) (inside : column < columns) :
    block columns width row column + width ≤ block columns width other another := by
  have ends : block columns width row column + width ≤
      row * (columns * width) + columns * width := block_le_row inside
  have next := row_succ_le (columns * width) less
  unfold block at *
  omega

/-- Different blocks are disjoint. -/
theorem block_disjoint (inside : column < columns) (within : another < columns)
    (different : (row, column) ≠ (other, another)) :
    block columns width row column + width ≤ block columns width other another ∨
      block columns width other another + width ≤ block columns width row column := by
  rcases Nat.lt_trichotomy row other with less | same | more
  · exact .inl (block_disjoint_of_row less inside)
  · subst same
    rcases Nat.lt_trichotomy column another with less | same | more
    · left
      have ends := row_succ_le width less
      unfold block
      omega
    · exact absurd (by rw [same]) different
    · right
      have ends := row_succ_le width more
      unfold block
      omega
  · exact .inr (block_disjoint_of_row more within)

end

end Rocc
