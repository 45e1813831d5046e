import Mathlib.Data.List.Basic
import Mathlib.Data.Nat.Basic
import Mathlib.Algebra.Order.Ring.Nat

/-!
# Byte memories

A memory gives every address a byte.  Blocks are read and written as lists of
bytes; a 64-bit word is the block of its eight bytes, the lowest first.
-/

namespace Rocc

/-- The bytes at all addresses. -/
def Memory := Nat → UInt8

namespace Memory

/-- The block of `length` bytes at `offset`. -/
def read (memory : Memory) (offset length : Nat) : List UInt8 :=
  (List.range length).map fun index => memory (offset + index)

/-- Overwrite the block at `offset`. -/
def write (memory : Memory) (offset : Nat) (bytes : List UInt8) : Memory := fun address =>
  if offset ≤ address then bytes[address - offset]?.getD (memory address) else memory address

@[simp] theorem length_read (memory : Memory) (offset length : Nat) :
    (memory.read offset length).length = length := by
  simp [read]

/-- A block reads the same from memories that agree on it. -/
theorem read_congr {memory other : Memory} {offset length : Nat}
    (same : ∀ address, offset ≤ address → address < offset + length →
      memory address = other address) :
    memory.read offset length = other.read offset length := by
  apply List.map_congr_left
  intro index inside
  rw [List.mem_range] at inside
  exact same _ (by omega) (by omega)

/-- The beginning of a block. -/
theorem take_read (memory : Memory) (offset length size : Nat) :
    (memory.read offset size).take length = memory.read offset (min length size) := by
  simp [read, ← List.map_take, List.take_range]

/-- A block is two blocks. -/
theorem read_add (memory : Memory) (offset first second : Nat) :
    memory.read offset (first + second) =
      memory.read offset first ++ memory.read (offset + first) second := by
  simp [read, List.range_add, Function.comp_def, Nat.add_assoc]

/-- A write changes its own block only. -/
theorem write_outside (memory : Memory) {offset address : Nat} {bytes : List UInt8}
    (outside : address < offset ∨ offset + bytes.length ≤ address) :
    memory.write offset bytes address = memory address := by
  unfold write
  split
  · rename_i behind
    rw [List.getElem?_eq_none (by omega), Option.getD_none]
  · rfl

@[simp] theorem write_nil (memory : Memory) (offset : Nat) : memory.write offset [] = memory := by
  funext address
  exact write_outside memory (Nat.lt_or_ge address offset)

/-- Zeros where there are zeros. -/
theorem zeros_write (offset length : Nat) :
    write (fun _ => 0) offset (List.replicate length 0) = fun _ => 0 := by
  funext address
  unfold write
  split
  · rw [List.getElem?_replicate]
    split <;> rfl
  · rfl

/-- Inside its block a write does not depend on what was there. -/
theorem write_inside (memory other : Memory) {offset address : Nat} {bytes : List UInt8}
    (behind : offset ≤ address) (before : address < offset + bytes.length) :
    memory.write offset bytes address = other.write offset bytes address := by
  have inside : address - offset < bytes.length := by omega
  rw [write, write, if_pos behind, if_pos behind, List.getElem?_eq_getElem inside]
  rfl

/-- A block of the same length takes the place of one just written. -/
theorem write_write (memory : Memory) (offset : Nat) {bytes others : List UInt8}
    (sized : others.length = bytes.length) :
    (memory.write offset bytes).write offset others = memory.write offset others := by
  funext address
  by_cases inside : offset ≤ address ∧ address < offset + others.length
  · exact write_inside _ _ inside.1 inside.2
  · rw [write_outside _ (by omega), write_outside _ (by omega), write_outside _ (by omega)]

/-- The bytes of a block just written. -/
theorem getElem?_write (memory : Memory) (offset : Nat) {bytes : List UInt8} {index : Nat}
    (inside : index < bytes.length) :
    bytes[index]? = some (memory.write offset bytes (offset + index)) := by
  rw [write, if_pos (Nat.le_add_right offset index), Nat.add_sub_cancel_left,
    List.getElem?_eq_getElem inside, Option.getD_some]

/-- Writes of disjoint blocks commute. -/
theorem write_comm (memory : Memory) {offset other : Nat} {bytes others : List UInt8}
    (disjoint : offset + bytes.length ≤ other ∨ other + others.length ≤ offset) :
    (memory.write offset bytes).write other others =
      (memory.write other others).write offset bytes := by
  funext address
  by_cases inside : offset ≤ address ∧ address < offset + bytes.length
  · rw [write_outside _ (by omega)]
    exact write_inside _ _ inside.1 inside.2
  · by_cases within : other ≤ address ∧ address < other + others.length
    · rw [write_outside (memory.write other others) (by omega)]
      exact write_inside _ _ within.1 within.2
    · rw [write_outside _ (by omega), write_outside _ (by omega), write_outside _ (by omega),
        write_outside _ (by omega)]

/-- What was written is read back. -/
theorem read_write_self (memory : Memory) (offset : Nat) (bytes : List UInt8) :
    (memory.write offset bytes).read offset bytes.length = bytes := by
  apply List.ext_getElem
  · simp
  · intro index _ inside
    simp [read, write, List.getElem?_eq_getElem inside]

theorem read_write_of_length (memory : Memory) {offset length : Nat} {bytes : List UInt8}
    (sized : bytes.length = length) :
    (memory.write offset bytes).read offset length = bytes := by
  rw [← sized, read_write_self]

/-- A disjoint block is read as before. -/
theorem read_write_disjoint (memory : Memory) {offset other length : Nat}
    {bytes : List UInt8}
    (disjoint : other + length ≤ offset ∨ offset + bytes.length ≤ other) :
    (memory.write offset bytes).read other length = memory.read other length := by
  unfold read
  apply List.map_congr_left
  intro index inside
  rw [List.mem_range] at inside
  apply write_outside
  omega

/-- Two neighbouring blocks are written as one. -/
theorem write_append (memory : Memory) (offset : Nat) (first second : List UInt8) :
    memory.write offset (first ++ second) =
      (memory.write offset first).write (offset + first.length) second := by
  funext address
  by_cases before : address < offset + first.length
  · rw [write_outside _ (.inl before)]
    unfold write
    split
    · rw [List.getElem?_append_left (by omega)]
    · rfl
  · have behind : offset + first.length ≤ address := Nat.le_of_not_lt before
    have same : memory.write offset first address = memory address :=
      write_outside _ (.inr behind)
    have shifted : address - offset - first.length = address - (offset + first.length) := by
      omega
    rw [write, if_pos (by omega), List.getElem?_append_right (by omega), write, if_pos behind,
      same, shifted]

/-- A piece of a block just written is overwritten. -/
theorem write_write_inside (memory : Memory) (offset : Nat) (left : List UInt8)
    {piece other : List UInt8} (right : List UInt8) (sized : other.length = piece.length) :
    (memory.write offset (left ++ (piece ++ right))).write (offset + left.length) other =
      memory.write offset (left ++ (other ++ right)) := by
  rw [write_append, write_append, write_append, write_append, sized]
  rw [write_comm _ (.inr (by rw [sized])), write_write _ _ sized]

/-- A block inside a block just written. -/
theorem read_write_inside (memory : Memory) {offset length : Nat} {bytes : List UInt8}
    (start : Nat) (inside : offset + length ≤ bytes.length) :
    (memory.write start bytes).read (start + offset) length =
      (bytes.drop offset).take length := by
  apply List.ext_getElem
  · simp
    omega
  · intro index left right
    have within : offset + index < bytes.length := by
      simp only [length_read] at left
      omega
    simp [read, write, Nat.add_assoc, List.getElem?_eq_getElem within]

/-- A block inside a block just read. -/
theorem take_drop_read (memory : Memory) {offset length size : Nat} (start : Nat)
    (inside : offset + length ≤ size) :
    ((memory.read start size).drop offset).take length = memory.read (start + offset) length := by
  apply List.ext_getElem
  · simp
    omega
  · intro index _ _
    simp [read, Nat.add_assoc]

/-- These bytes stand at `offset`. -/
def Holds (memory : Memory) (offset : Nat) (bytes : List UInt8) : Prop :=
  memory.read offset bytes.length = bytes

theorem holds_write (memory : Memory) (offset : Nat) (bytes : List UInt8) :
    (memory.write offset bytes).Holds offset bytes :=
  memory.read_write_self offset bytes

/-- They stand there still after another block is written. -/
theorem Holds.write {memory : Memory} {offset other : Nat} {bytes others : List UInt8}
    (holds : memory.Holds offset bytes)
    (disjoint : offset + bytes.length ≤ other ∨ other + others.length ≤ offset) :
    (memory.write other others).Holds offset bytes :=
  (read_write_disjoint memory disjoint).trans holds

theorem holds_zeros (offset length : Nat) :
    Holds (fun _ => 0) offset (List.replicate length 0) := by
  simp [Holds, read, List.map_const']

/-- Two pieces stand one behind the other. -/
theorem holds_append {memory : Memory} {offset : Nat} {first second : List UInt8} :
    memory.Holds offset (first ++ second) ↔
      memory.Holds offset first ∧ memory.Holds (offset + first.length) second := by
  rw [Holds, Holds, Holds, List.length_append, read_add]
  constructor
  · intro both
    exact List.append_inj both (by simp)
  · rintro ⟨left, right⟩
    rw [left, right]

/-! ## Words -/

/-- The `length` lowest bytes of a number, the lowest first. -/
def toBytes : Nat → Nat → List UInt8
  | 0, _ => []
  | length + 1, number => UInt8.ofNat number :: toBytes length (number / 256)

/-- The number with these bytes. -/
def ofBytes : List UInt8 → Nat
  | [] => 0
  | byte :: rest => byte.toNat + 256 * ofBytes rest

@[simp] theorem length_toBytes (length number : Nat) :
    (toBytes length number).length = length := by
  induction length generalizing number with
  | zero => rfl
  | succ length ih => simp [toBytes, ih]

theorem ofBytes_toBytes (length number : Nat) :
    ofBytes (toBytes length number) = number % 256 ^ length := by
  induction length generalizing number with
  | zero => simp [toBytes, ofBytes, Nat.mod_one]
  | succ length ih =>
      have low : (UInt8.ofNat number).toNat = number % 256 := UInt8.toNat_ofNat'
      rw [toBytes, ofBytes, ih, low, Nat.pow_succ', Nat.mod_mul]

/-- A number that was stored is read back, as far as it fits. -/
theorem Holds.ofBytes {memory : Memory} {offset length number : Nat}
    (holds : memory.Holds offset (toBytes length number)) :
    Memory.ofBytes (memory.read offset length) = number % 256 ^ length := by
  rw [Holds, length_toBytes] at holds
  rw [holds, ofBytes_toBytes]

/-- The word at `offset`. -/
def readWord (memory : Memory) (offset : Nat) : Nat :=
  ofBytes (memory.read offset 8)

/-- Overwrite the word at `offset`. -/
def writeWord (memory : Memory) (offset word : Nat) : Memory :=
  memory.write offset (toBytes 8 word)

@[simp] theorem readWord_writeWord (memory : Memory) (offset word : Nat) :
    (memory.writeWord offset word).readWord offset = word % 2 ^ 64 := by
  rw [readWord, writeWord, read_write_of_length _ (length_toBytes 8 word), ofBytes_toBytes]
  rfl

theorem readWord_write_disjoint (memory : Memory) {offset other : Nat} {bytes : List UInt8}
    (disjoint : other + 8 ≤ offset ∨ offset + bytes.length ≤ other) :
    (memory.write offset bytes).readWord other = memory.readWord other := by
  rw [readWord, readWord, read_write_disjoint _ disjoint]

theorem readWord_writeWord_disjoint (memory : Memory) {offset other word : Nat}
    (disjoint : other + 8 ≤ offset ∨ offset + 8 ≤ other) :
    (memory.writeWord offset word).readWord other = memory.readWord other := by
  apply readWord_write_disjoint
  simpa using disjoint

theorem read_writeWord_disjoint (memory : Memory) {offset other length word : Nat}
    (disjoint : other + length ≤ offset ∨ offset + 8 ≤ other) :
    (memory.writeWord offset word).read other length = memory.read other length := by
  apply read_write_disjoint
  simpa using disjoint

theorem writeWord_outside (memory : Memory) {offset address word : Nat}
    (outside : address < offset ∨ offset + 8 ≤ address) :
    memory.writeWord offset word address = memory address := by
  apply write_outside
  simpa using outside

end Memory

end Rocc
