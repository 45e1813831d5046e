import Mathlib.Tactic.Common
import Rocc.Base.Memory

/-!
# Byte rings with slack

Blocks of bytes stand one behind the other, each at the sum of the lengths before it
modulo the size of the ring.  A block is never divided: where it reaches the end of
the ring it goes on behind it.  As long as all blocks together are not longer than the
ring they do not meet, and `lay` is the memory that has these blocks and zeros elsewhere.
-/

namespace Rocc

/-- Two ranges do not meet. -/
def RangeApart (place length other another : Nat) : Prop :=
  place + length ≤ other ∨ other + another ≤ place

instance (place length other another : Nat) : Decidable (RangeApart place length other another) :=
  inferInstanceAs (Decidable (_ ∨ _))

theorem RangeApart.symm {place length other another : Nat}
    (apart : RangeApart place length other another) : RangeApart other another place length :=
  Or.symm apart

/-- Two blocks do not meet when the ring has the bytes from the start of the one to the end
of the other. -/
theorem apart_of_counted {ring start since length another : Nat} (behind : another ≤ since)
    (fits : since + length ≤ ring) :
    RangeApart ((start + since) % ring) length (start % ring) another := by
  by_cases empty : ring = 0
  · subst empty
    simp only [Nat.mod_zero]
    exact .inr (by omega)
  have place := Nat.mod_lt start (Nat.pos_of_ne_zero empty)
  rw [← Nat.mod_add_mod]
  unfold RangeApart
  by_cases before : start % ring + since < ring
  · rw [Nat.mod_eq_of_lt before]
    omega
  · rw [Nat.mod_eq_sub_mod (by omega), Nat.mod_eq_of_lt (by omega)]
    omega

/-- A place further on, where the ring is not gone round. -/
theorem circular_place {ring start distance : Nat} (short : distance < ring) :
    (start + distance) % ring = start % ring + distance ∨
      (start + distance) % ring + ring = start % ring + distance := by
  have place := Nat.mod_lt start (Nat.zero_lt_of_lt short)
  rw [← Nat.mod_add_mod]
  by_cases before : start % ring + distance < ring
  · exact .inl (Nat.mod_eq_of_lt before)
  · right
    rw [Nat.mod_eq_sub_mod (Nat.le_of_not_lt before), Nat.mod_eq_of_lt (by omega)]
    omega

/-- How far it is from one place to another. -/
theorem circular_distance {ring start distance : Nat} (short : distance < ring) :
    (if start % ring ≤ (start + distance) % ring then (start + distance) % ring - start % ring
      else ring - start % ring + (start + distance) % ring) = distance := by
  have place := Nat.mod_lt start (Nat.zero_lt_of_lt short)
  have further := @circular_place ring start distance short
  split <;> omega

/-- What is left of the ring, where some of it is taken. -/
theorem circular_rest {ring start distance : Nat} (taken : 0 < distance)
    (short : distance < ring) :
    (if start % ring < (start + distance) % ring then
        ring - (start + distance) % ring + start % ring
      else start % ring - (start + distance) % ring) = ring - distance := by
  have place := Nat.mod_lt start (Nat.zero_lt_of_lt short)
  have other := Nat.mod_lt (start + distance) (Nat.zero_lt_of_lt short)
  have further := @circular_place ring start distance short
  split <;> omega

/-- The bytes of all blocks. -/
def span (blocks : List (List UInt8)) : Nat := (blocks.map List.length).sum

@[simp] theorem span_nil : span [] = 0 := rfl

@[simp] theorem span_cons (block : List UInt8) (blocks : List (List UInt8)) :
    span (block :: blocks) = block.length + span blocks := by
  simp [span]

@[simp] theorem span_append (blocks others : List (List UInt8)) :
    span (blocks ++ others) = span blocks + span others := by
  simp [span]

/-- Where blocks of these lengths stand. -/
def places (ring : Nat) : Nat → List Nat → List Nat
  | _, [] => []
  | start, length :: lengths => start % ring :: places ring (start + length) lengths

@[simp] theorem length_places (ring start : Nat) (lengths : List Nat) :
    (places ring start lengths).length = lengths.length := by
  induction lengths generalizing start with
  | nil => rfl
  | cons length lengths hypothesis => simp [places, hypothesis]

theorem places_append (ring start : Nat) (lengths others : List Nat) :
    places ring start (lengths ++ others) =
      places ring start lengths ++ places ring (start + lengths.sum) others := by
  induction lengths generalizing start with
  | nil => rfl
  | cons length lengths hypothesis => simp [places, hypothesis, Nat.add_assoc]

/-- The blocks, the first one at `start`, and zeros elsewhere. -/
def lay (ring : Nat) : Nat → List (List UInt8) → Memory
  | _, [] => fun _ => 0
  | start, block :: blocks => (lay ring (start + block.length) blocks).write (start % ring) block

section

variable {ring start : Nat} {blocks : List (List UInt8)}

/-- A range that comes before all blocks is zero, if the ring has it as well. -/
theorem lay_eq_zero {place length address : Nat} (behind : place + length ≤ start)
    (fits : start + span blocks ≤ place + ring) (low : place % ring ≤ address)
    (high : address < place % ring + length) : lay ring start blocks address = 0 := by
  induction blocks generalizing start with
  | nil => rfl
  | cons block blocks hypothesis =>
      rw [span_cons] at fits
      have apart : RangeApart (start % ring) block.length (place % ring) length := by
        rw [← Nat.add_sub_of_le (Nat.le_of_add_right_le behind)]
        exact apart_of_counted (by omega) (by omega)
      unfold RangeApart at apart
      rw [lay, Memory.write_outside _ (by omega)]
      exact hypothesis (by omega) (by omega)

/-- One more block behind the last one. -/
theorem lay_append {block : List UInt8} (fits : span blocks + block.length ≤ ring) :
    lay ring start (blocks ++ [block]) =
      (lay ring start blocks).write ((start + span blocks) % ring) block := by
  induction blocks generalizing start with
  | nil => rfl
  | cons head blocks hypothesis =>
      rw [span_cons] at fits
      have apart : RangeApart ((start + (head.length + span blocks)) % ring) block.length
          (start % ring) head.length := apart_of_counted (by omega) (by omega)
      rw [List.cons_append, lay, lay, hypothesis (by omega), span_cons, Nat.add_assoc,
        Memory.write_comm _ apart]

/-- A block of zeros behind the last one. -/
theorem lay_append_zeros (length : Nat) :
    lay ring start (blocks ++ [List.replicate length 0]) = lay ring start blocks := by
  induction blocks generalizing start with
  | nil => exact Memory.zeros_write _ _
  | cons block blocks hypothesis => rw [List.cons_append, lay, lay, hypothesis]

/-- The first block is wiped out. -/
theorem lay_clear {block : List UInt8} (fits : span (block :: blocks) ≤ ring) :
    (lay ring start (block :: blocks)).write (start % ring) (List.replicate block.length 0) =
      lay ring (start + block.length) blocks := by
  rw [span_cons] at fits
  funext address
  by_cases inside : start % ring ≤ address ∧ address < start % ring + block.length
  · rw [lay_eq_zero le_rfl (by omega) inside.1 inside.2, Memory.write, if_pos inside.1,
      List.getElem?_replicate, if_pos (by omega)]
    rfl
  · rw [Memory.write_outside _ (by rw [List.length_replicate]; omega), lay,
      Memory.write_outside _ (by omega)]

/-- A piece of a block is overwritten. -/
theorem lay_write {before behind : List (List UInt8)} (left : List UInt8)
    {piece other : List UInt8} (right : List UInt8) (sized : other.length = piece.length)
    (fits : span (before ++ (left ++ (piece ++ right)) :: behind) ≤ ring) :
    (lay ring start (before ++ (left ++ (piece ++ right)) :: behind)).write
        ((start + span before) % ring + left.length) other =
      lay ring start (before ++ (left ++ (other ++ right)) :: behind) := by
  induction before generalizing start with
  | nil =>
      have kept : (left ++ (other ++ right)).length = (left ++ (piece ++ right)).length := by
        simp only [List.length_append, sized]
      rw [List.nil_append, List.nil_append, lay, lay, span_nil, Nat.add_zero,
        Memory.write_write_inside _ _ left right sized, kept]
  | cons head before hypothesis =>
      rw [List.cons_append, span_cons, span_append, span_cons] at fits
      have apart : RangeApart ((start + (head.length + span before)) % ring)
          (left ++ (piece ++ right)).length (start % ring) head.length :=
        apart_of_counted (by omega) (by omega)
      have rest := @hypothesis (start + head.length) (by rw [span_append, span_cons]; omega)
      rw [List.length_append, List.length_append] at apart
      unfold RangeApart at apart
      rw [Nat.add_assoc] at rest
      rw [List.cons_append, List.cons_append, lay, lay, span_cons,
        Memory.write_comm _ (by omega), rest]

/-- Every block stands where it was laid. -/
theorem lay_holds {before behind : List (List UInt8)} {block : List UInt8}
    (fits : span (before ++ block :: behind) ≤ ring) :
    (lay ring start (before ++ block :: behind)).Holds ((start + span before) % ring) block := by
  induction before generalizing start with
  | nil => exact Memory.holds_write _ _ _
  | cons head before hypothesis =>
      rw [List.cons_append, span_cons, span_append, span_cons] at fits
      have apart : RangeApart ((start + (head.length + span before)) % ring) block.length
          (start % ring) head.length := apart_of_counted (by omega) (by omega)
      have rest := @hypothesis (start + head.length) (by rw [span_append, span_cons]; omega)
      rw [Nat.add_assoc] at rest
      rw [List.cons_append, lay, span_cons, Memory.Holds, Memory.read_write_disjoint _ apart]
      exact rest

end

end Rocc
