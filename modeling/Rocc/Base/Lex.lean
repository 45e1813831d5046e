import Mathlib.Data.List.Lex
import Rocc.Base.Memory

/-!
# Lexicographic order of bytes

Numbers of equally many bytes, the highest first, are ordered as the lists of their bytes.  A
list of bytes that are not zero may be filled up with zeros for that.
-/

namespace Rocc.Lex

universe u

/-- Lists with beginnings of the same length. -/
theorem append_lt_append {Item : Type u} [LT Item] [Std.Irrefl (α := Item) (· < ·)]
    {front front' back back' : List Item} (same : front.length = front'.length) :
    front ++ back < front' ++ back' ↔ front < front' ∨ front = front' ∧ back < back' := by
  induction front generalizing front' with
  | nil =>
      obtain rfl := List.eq_nil_of_length_eq_zero same.symm
      simp
  | cons first rest ih =>
      cases front' with
      | nil => simp at same
      | cons first' rest' =>
          rw [List.cons_append, List.cons_append, List.cons_lt_cons_iff, List.cons_lt_cons_iff,
            ih (Nat.succ_inj.mp same), List.cons_eq_cons]
          tauto

/-- The number with these bytes, the highest first. -/
def bigEndian : List UInt8 → Nat
  | [] => 0
  | byte :: rest => byte.toNat * 256 ^ rest.length + bigEndian rest

theorem bigEndian_lt (bytes : List UInt8) : bigEndian bytes < 256 ^ bytes.length := by
  induction bytes with
  | nil => simp [bigEndian]
  | cons byte rest ih =>
      have high := byte.toNat_lt
      rw [bigEndian, List.length_cons, Nat.pow_succ']
      calc byte.toNat * 256 ^ rest.length + bigEndian rest
          < byte.toNat * 256 ^ rest.length + 256 ^ rest.length := Nat.add_lt_add_left ih _
        _ = (byte.toNat + 1) * 256 ^ rest.length := (Nat.succ_mul _ _).symm
        _ ≤ 256 * 256 ^ rest.length := Nat.mul_le_mul_right _ high

theorem bigEndian_append (front back : List UInt8) :
    bigEndian (front ++ back) = bigEndian front * 256 ^ back.length + bigEndian back := by
  induction front with
  | nil => simp [bigEndian]
  | cons byte rest ih =>
      rw [List.cons_append, bigEndian, bigEndian, ih, List.length_append, Nat.pow_add, Nat.add_mul,
        Nat.mul_assoc, Nat.add_assoc]

/-- With the lowest byte first it is the same from the other end. -/
theorem ofBytes_reverse (bytes : List UInt8) :
    Memory.ofBytes bytes.reverse = bigEndian bytes := by
  have whole : ∀ bytes : List UInt8, Memory.ofBytes bytes = bigEndian bytes.reverse := by
    intro bytes
    induction bytes with
    | nil => rfl
    | cons byte rest ih =>
        rw [List.reverse_cons, bigEndian_append, Memory.ofBytes, ih, Nat.add_comm, Nat.mul_comm]
        simp [bigEndian]
  rw [whole, List.reverse_reverse]

theorem bigEndian_lt_bigEndian {bytes bytes' : List UInt8} (same : bytes.length = bytes'.length) :
    bigEndian bytes < bigEndian bytes' ↔ bytes < bytes' := by
  induction bytes generalizing bytes' with
  | nil =>
      obtain rfl := List.eq_nil_of_length_eq_zero same.symm
      simp
  | cons byte rest ih =>
      cases bytes' with
      | nil => simp at same
      | cons byte' rest' =>
          have sameRest : rest.length = rest'.length := Nat.succ_inj.mp same
          have low := bigEndian_lt rest
          have low' := bigEndian_lt rest'
          rw [List.cons_lt_cons_iff, ← ih sameRest, bigEndian, bigEndian, ← sameRest,
            UInt8.lt_iff_toNat_lt, ← UInt8.toNat_inj]
          rw [← sameRest] at low'
          rcases Nat.lt_trichotomy byte.toNat byte'.toNat with below | equal | above
          · have next : (byte.toNat + 1) * 256 ^ rest.length ≤ byte'.toNat * 256 ^ rest.length :=
              Nat.mul_le_mul_right _ below
            rw [Nat.succ_mul] at next
            exact ⟨fun _ => .inl below, fun _ => by omega⟩
          · rw [equal]
            omega
          · have next : (byte'.toNat + 1) * 256 ^ rest.length ≤ byte.toNat * 256 ^ rest.length :=
              Nat.mul_le_mul_right _ above
            rw [Nat.succ_mul] at next
            constructor <;> intro less <;> omega

theorem bigEndian_inj {bytes bytes' : List UInt8} (same : bytes.length = bytes'.length) :
    bigEndian bytes = bigEndian bytes' ↔ bytes = bytes' := by
  constructor
  · intro number
    apply Std.Trichotomous.trichotomous (r := (· < ·)) <;> intro less
    · exact absurd ((bigEndian_lt_bigEndian same).mpr less) (by omega)
    · exact absurd ((bigEndian_lt_bigEndian same.symm).mpr less) (by omega)
  · rintro rfl
    rfl

/-! ## Strings in memory -/

/-- What is in memory where a string starts: its bytes, a zero, and what happens to be behind. -/
def terminated (chars : List UInt8) (behind : Nat → UInt8) (index : Nat) : UInt8 :=
  (chars ++ [0])[index]?.getD (behind index)

/-- The first bytes of a string in memory. -/
def firstBytes (chars : List UInt8) (behind : Nat → UInt8) (count : Nat) : List UInt8 :=
  (List.range count).map (terminated chars behind)

variable {chars chars' : List UInt8} {behind behind' : Nat → UInt8} {count : Nat}

@[simp] theorem length_firstBytes : (firstBytes chars behind count).length = count := by
  simp [firstBytes]

theorem firstBytes_nil :
    firstBytes [] behind (count + 1) = 0 :: (List.range count).map (behind ∘ Nat.succ) := by
  rw [firstBytes, List.range_succ_eq_map, List.map_cons, List.map_map]
  rfl

theorem firstBytes_cons (char : UInt8) :
    firstBytes (char :: chars) behind (count + 1) =
      char :: firstBytes chars (behind ∘ Nat.succ) count := by
  rw [firstBytes, List.range_succ_eq_map, List.map_cons, List.map_map]
  rfl

theorem terminated_of_lt {index : Nat} (inside : index < chars.length) :
    terminated chars behind index = chars[index] := by
  simp [terminated, List.getElem?_append_left inside, inside]

/-- Strings without a zero are ordered by their first bytes in memory, if they differ there. -/
theorem firstBytes_lt (nonzero : 0 ∉ chars) (nonzero' : 0 ∉ chars')
    (differ : chars.take count ≠ chars'.take count) :
    firstBytes chars behind count < firstBytes chars' behind' count ↔ chars < chars' := by
  have pos : ∀ {char : UInt8} {rest : List UInt8}, 0 ∉ char :: rest → 0 < char := by
    intro char rest nonzero
    have notZero : char ≠ 0 := fun same => nonzero (by simp [same])
    exact UInt8.pos_iff_ne_zero.mpr notZero
  induction count generalizing chars chars' behind behind' with
  | zero => simp at differ
  | succ count ih =>
      cases chars with
      | nil =>
          cases chars' with
          | nil => simp at differ
          | cons char' rest' =>
              rw [firstBytes_nil, firstBytes_cons, List.cons_lt_cons_iff]
              simp [pos nonzero']
      | cons char rest =>
          cases chars' with
          | nil =>
              rw [firstBytes_nil, firstBytes_cons, List.cons_lt_cons_iff]
              have positive := pos nonzero
              have notZero : char ≠ 0 := UInt8.pos_iff_ne_zero.mp positive
              simp [notZero, UInt8.lt_asymm positive]
          | cons char' rest' =>
              rw [firstBytes_cons, firstBytes_cons, List.cons_lt_cons_iff, List.cons_lt_cons_iff]
              by_cases same : char = char'
              · subst same
                have differRest : rest.take count ≠ rest'.take count := by
                  intro equal
                  exact differ (by rw [List.take_succ_cons, List.take_succ_cons, equal])
                have less := @ih rest rest' (behind ∘ Nat.succ) (behind' ∘ Nat.succ)
                  (fun member => nonzero (List.mem_cons_of_mem _ member))
                  (fun member => nonzero' (List.mem_cons_of_mem _ member)) differRest
                exact or_congr Iff.rfl (and_congr Iff.rfl less)
              · simp [same]

/-- Strings that do not differ there, but are not the same, have the same first bytes. -/
theorem firstBytes_congr (differ : chars ≠ chars') (same : chars.take count = chars'.take count) :
    firstBytes chars behind count = firstBytes chars' behind' count := by
  induction count generalizing chars chars' behind behind' with
  | zero => rfl
  | succ count ih =>
      cases chars with
      | nil =>
          cases chars' with
          | nil => exact absurd rfl differ
          | cons char' rest' => simp at same
      | cons char rest =>
          cases chars' with
          | nil => simp at same
          | cons char' rest' =>
              rw [List.take_succ_cons, List.take_succ_cons, List.cons_eq_cons] at same
              obtain ⟨rfl, sameRest⟩ := same
              have differRest : rest ≠ rest' := fun equal => differ (by rw [equal])
              rw [firstBytes_cons, firstBytes_cons, ih differRest sameRest]

theorem firstBytes_inj (nonzero : 0 ∉ chars) (nonzero' : 0 ∉ chars')
    (differ : chars.take count ≠ chars'.take count) :
    firstBytes chars behind count ≠ firstBytes chars' behind' count := by
  intro same
  have below := @firstBytes_lt chars chars' behind behind' count nonzero nonzero' differ
  have above := @firstBytes_lt chars' chars behind' behind count nonzero' nonzero differ.symm
  rw [same] at below above
  have equal : chars = chars' := by
    apply Std.Trichotomous.trichotomous (r := (· < ·))
    · rw [← below]
      exact Std.Irrefl.irrefl _
    · rw [← above]
      exact Std.Irrefl.irrefl _
  exact differ (by rw [equal])

end Rocc.Lex
