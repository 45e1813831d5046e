import Mathlib.Data.List.Basic
import Mathlib.Data.List.TakeWhile
import Mathlib.Logic.Function.Basic

/-!
# Arrays with a count

A node of a search tree keeps its entries in the first cells of an array and counts them.
The loops that work on such an array (search the first cell that fails a test, make room
for an entry, close the gap of one, copy a part to another array) are given as loops, and
each comes with what it does to the list of the counted cells.
-/

namespace Rocc.Slots

universe u

variable {Value : Type u}

/-- The first `count` cells. -/
def list (cells : Nat → Value) (count : Nat) : List Value := (List.range count).map cells

/-- The first of `left` cells from `index` on that fails the test, or the one behind them. -/
def scanFrom (cells : Nat → Value) (test : Value → Bool) : Nat → Nat → Nat
  | 0, index => index
  | left + 1, index => if test (cells index) then scanFrom cells test left (index + 1) else index

/-- The first of `count` cells that fails the test. -/
def scan (cells : Nat → Value) (test : Value → Bool) (count : Nat) : Nat :=
  scanFrom cells test count 0

/-- Move the cells from `place` on up by one, the last one first. -/
def openUp (cells : Nat → Value) (place : Nat) : Nat → Nat → Value
  | 0 => cells
  | count + 1 =>
      if place < count + 1 then
        openUp (Function.update cells (count + 1) (cells count)) place count
      else
        cells

/-- Move the cells behind `place` up to `count` down by one, the first one first. -/
def closeUp (cells : Nat → Value) (place : Nat) : Nat → Nat → Value
  | 0 => cells
  | count + 1 =>
      let closed := closeUp cells place count
      if place < count + 1 then Function.update closed count (closed (count + 1)) else closed

/-- Copy `count` cells from `offset` on to the front of another array. -/
def copyTo (source : Nat → Value) (offset : Nat) (target : Nat → Value) :
    Nat → Nat → Value
  | 0 => target
  | count + 1 => Function.update (copyTo source offset target count) count
      (source (offset + count))

variable {cells source target : Nat → Value} {count place index : Nat} {test : Value → Bool}

/-! ## Cells after the loops -/

theorem openUp_apply : openUp cells place count index =
    if place < index ∧ index ≤ count then cells (index - 1) else cells index := by
  induction count generalizing cells with
  | zero =>
      rw [openUp, if_neg]
      omega
  | succ count ih =>
      rw [openUp]
      by_cases inside : place < count + 1
      · rw [if_pos inside, ih]
        rcases lt_trichotomy index (count + 1) with before | same | behind
        · have kept : index ≠ count + 1 := by omega
          have keptLeft : index - 1 ≠ count + 1 := by omega
          have order : index ≤ count ↔ index ≤ count + 1 := by omega
          simp only [Function.update_of_ne kept, Function.update_of_ne keptLeft, order]
        · subst same
          rw [if_neg (by omega), if_pos (by omega), Function.update_self, Nat.add_sub_cancel]
        · rw [if_neg (by omega), if_neg (by omega), Function.update_of_ne (by omega)]
      · rw [if_neg inside, if_neg (by omega)]

theorem closeUp_apply : closeUp cells place count index =
    if place ≤ index ∧ index < count then cells (index + 1) else cells index := by
  induction count generalizing index with
  | zero =>
      rw [closeUp, if_neg]
      omega
  | succ count ih =>
      rw [closeUp]
      by_cases inside : place < count + 1
      · simp only [if_pos inside]
        by_cases last : index = count
        · subst last
          rw [Function.update_self, ih, if_neg (by omega), if_pos (by omega)]
        · have order : index < count ↔ index < count + 1 := by omega
          rw [Function.update_of_ne last, ih]
          simp only [order]
      · simp only [if_neg inside]
        rw [ih, if_neg (by omega), if_neg (by omega)]

theorem copyTo_apply {offset : Nat} : copyTo source offset target count index =
    if index < count then source (offset + index) else target index := by
  induction count with
  | zero => simp [copyTo]
  | succ count ih =>
      rw [copyTo]
      by_cases last : index = count
      · subst last
        rw [Function.update_self, if_pos (Nat.lt_succ_self _)]
      · have order : index < count ↔ index < count + 1 := by omega
        rw [Function.update_of_ne last, ih]
        simp only [order]

/-! ## The list of the counted cells -/

@[simp] theorem length_list : (list cells count).length = count := by simp [list]

@[simp] theorem getElem_list (inside : index < (list cells count).length) :
    (list cells count)[index] = cells index := by simp [list]

theorem mem_list {value : Value} :
    value ∈ list cells count ↔ ∃ index < count, cells index = value := by
  simp [list]

theorem list_succ : list cells (count + 1) = list cells count ++ [cells count] := by
  simp [list, List.range_succ]

theorem list_succ_cons :
    list cells (count + 1) = cells 0 :: list (fun index => cells (index + 1)) count := by
  rw [list, List.range_succ_eq_map, List.map_cons, List.map_map]
  rfl

theorem list_congr {other : Nat → Value} (same : ∀ index < count, cells index = other index) :
    list cells count = list other count :=
  List.map_congr_left fun index member => same index (List.mem_range.mp member)

/-- Counting fewer cells. -/
theorem list_of_le {fewer : Nat} (few : fewer ≤ count) :
    list cells fewer = (list cells count).take fewer := by
  rw [list, list, ← List.map_take, List.take_range, Nat.min_eq_left few]

/-- The cells around one of them. -/
theorem list_eq_of_lt (inside : index < count) :
    list cells count =
      (list cells count).take index ++ cells index :: (list cells count).drop (index + 1) := by
  have bound : index < (list cells count).length := by simpa using inside
  conv_lhs =>
    rw [← List.take_append_drop index (list cells count), List.drop_eq_getElem_cons bound]
  rw [getElem_list]

theorem list_update_of_le (value : Value) (behind : count ≤ place) :
    list (Function.update cells place value) count = list cells count :=
  list_congr fun index inside => Function.update_of_ne (by omega) _ _

theorem list_update (value : Value) (inside : place < count) :
    list (Function.update cells place value) count =
      (list cells count).take place ++ value :: (list cells count).drop (place + 1) := by
  rw [@list_eq_of_lt _ (Function.update cells place value) _ _ inside, Function.update_self]
  congr 1
  · rw [← list_of_le inside.le, ← list_of_le inside.le]
    exact list_update_of_le value le_rfl
  · congr 1
    apply List.ext_getElem
    · simp
    · intro index _ _
      simp [show place + 1 + index ≠ place by omega]

/-- An entry is put in place. -/
theorem list_openUp (value : Value) (inside : place ≤ count) :
    list (Function.update (openUp cells place count) place value) (count + 1) =
      (list cells count).take place ++ value :: (list cells count).drop place := by
  apply List.ext_getElem
  · simp
    omega
  · intro index first second
    rw [getElem_list]
    rcases lt_trichotomy index place with before | same | behind
    · rw [Function.update_of_ne (by omega), openUp_apply, if_neg (by omega),
        List.getElem_append_left (by simp; omega)]
      simp
    · subst same
      have room : min index count = index := Nat.min_eq_left inside
      rw [Function.update_self, List.getElem_append_right (by simp [room])]
      simp [room]
    · have bound : index < count + 1 := by simpa using first
      rw [Function.update_of_ne (by omega), openUp_apply, if_pos (by omega),
        List.getElem_append_right (by simp; omega)]
      obtain ⟨more, rfl⟩ : ∃ more, index = place + more + 1 := ⟨index - place - 1, by omega⟩
      have shift : place + more + 1 - min place count = more + 1 := by omega
      simp only [List.length_take, length_list, shift, List.getElem_cons_succ, List.getElem_drop,
        getElem_list]
      rfl

/-- An entry is taken out. -/
theorem list_closeUp (inside : place ≤ count) :
    list (closeUp cells place count) count =
      (list cells (count + 1)).take place ++ (list cells (count + 1)).drop (place + 1) := by
  apply List.ext_getElem
  · simp
    omega
  · intro index first second
    have bound : index < count := by simpa using first
    rw [getElem_list, closeUp_apply]
    by_cases before : index < place
    · rw [if_neg (by omega), List.getElem_append_left (by simp; omega)]
      simp
    · rw [if_pos (by omega), List.getElem_append_right (by simp; omega)]
      simp only [List.length_take, length_list, List.getElem_drop, getElem_list]
      congr 1
      omega

/-- A part is copied. -/
theorem list_copyTo {offset : Nat} :
    list (copyTo source offset target count) count =
      (list source (offset + count)).drop offset := by
  apply List.ext_getElem
  · simp
  · intro index first _
    have bound : index < count := by simpa using first
    rw [getElem_list, copyTo_apply, if_pos bound]
    simp

/-! ## Insertion in one of two parts -/

theorem insert_left {values : List Value} {middle : Nat} (value : Value) (before : place ≤ middle) :
    (values.take middle).take place ++ value :: (values.take middle).drop place ++
      values.drop middle = values.take place ++ value :: values.drop place := by
  have rest : (values.take middle).drop place ++ values.drop middle = values.drop place := by
    have split := List.take_append_drop (middle - place) (values.drop place)
    rwa [List.drop_drop, Nat.add_sub_cancel' before, ← List.drop_take] at split
  rw [List.take_take, Nat.min_eq_left before, List.append_assoc, List.cons_append, rest]

theorem insert_right {values : List Value} {middle : Nat} (value : Value) :
    values.take middle ++ ((values.drop middle).take place ++ value ::
      (values.drop middle).drop place) =
        values.take (middle + place) ++ value :: values.drop (middle + place) := by
  rw [List.take_add, List.drop_drop, List.append_assoc]

/-! ## Searching -/

theorem scanFrom_eq {left : Nat} : scanFrom cells test left index =
    index + ((list (fun offset => cells (index + offset)) left).takeWhile test).length := by
  induction left generalizing index with
  | zero => simp [scanFrom, list]
  | succ left ih =>
      have split : list (fun offset => cells (index + offset)) (left + 1) =
          cells index :: list (fun offset => cells (index + 1 + offset)) left := by
        simp only [list, List.range_succ_eq_map, List.map_cons, List.map_map, Nat.add_zero]
        congr 1
        apply List.map_congr_left
        intro offset _
        simp only [Function.comp_apply]
        congr 1
        omega
      rw [scanFrom, split, List.takeWhile_cons]
      by_cases passes : test (cells index) = true
      · rw [if_pos passes, if_pos passes, ih]
        simp only [List.length_cons]
        omega
      · rw [if_neg passes, if_neg passes]
        simp

theorem scan_eq : scan cells test count = ((list cells count).takeWhile test).length := by
  simp [scan, scanFrom_eq]

theorem scan_le : scan cells test count ≤ count := by
  rw [scan_eq]
  exact (List.takeWhile_sublist test).length_le.trans_eq length_list

theorem take_scan :
    (list cells count).take (scan cells test count) = (list cells count).takeWhile test := by
  rw [scan_eq]
  exact (List.prefix_iff_eq_take.mp (List.takeWhile_prefix test)).symm

theorem drop_scan :
    (list cells count).drop (scan cells test count) = (list cells count).dropWhile test := by
  have joined : (list cells count).takeWhile test ++ (list cells count).dropWhile test =
      list cells count := List.takeWhile_append_dropWhile
  have split := List.take_append_drop (scan cells test count) (list cells count)
  rw [take_scan] at split
  exact List.append_cancel_left (split.trans joined.symm)

/-- The cells before pass the test. -/
theorem test_of_lt_scan (before : index < scan cells test count) : test (cells index) = true := by
  have inside : index < count := before.trans_le scan_le
  have member : cells index ∈ (list cells count).takeWhile test := by
    rw [← take_scan]
    refine List.mem_take_iff_getElem.mpr ⟨index, by simp; omega, by simp⟩
  exact List.mem_takeWhile_imp member

/-- The cell found fails it. -/
theorem not_test_scan (inside : scan cells test count < count) :
    test (cells (scan cells test count)) = false := by
  have rest : (list cells count).drop (scan cells test count) ≠ [] := by simp; omega
  have head := List.head_dropWhile_not test (l := list cells count) (by rwa [← drop_scan])
  simp only [← drop_scan, List.head_drop, getElem_list] at head
  exact head

end Rocc.Slots
