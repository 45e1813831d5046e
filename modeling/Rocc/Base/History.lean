import Mathlib.Data.List.Induction
import Mathlib.Data.List.Nodup

/-!
# The values of a counter

A counter that only grows, with the list of all values it has had.  The position of a
value in the list is its version; the latest value has the last position and no
other.
-/

namespace Rocc

/-- The values are strictly increasing and the last one is `latest`. -/
structure History (values : List Nat) (latest : Nat) : Prop where
  increasing : values.Pairwise (· < ·)
  last : values.getLast? = some latest

namespace History

variable {values : List Nat} {latest : Nat}

theorem singleton (value : Nat) : History [value] value where
  increasing := by simp
  last := rfl

theorem nodup (history : History values latest) : values.Nodup :=
  history.increasing.imp Nat.ne_of_lt

theorem length_pos (history : History values latest) : 0 < values.length := by
  rw [List.length_pos_iff]
  rintro rfl
  simpa using history.last

/-- The latest value has the last position. -/
theorem getElem?_last (history : History values latest) :
    values[values.length - 1]? = some latest := by
  rw [← List.getLast?_eq_getElem?]
  exact history.last

theorem le_latest (history : History values latest) {value : Nat}
    (member : value ∈ values) : value ≤ latest := by
  obtain ⟨front, rfl⟩ := List.getLast?_eq_some_iff.mp history.last
  rcases List.mem_append.mp member with member | member
  · have before := (List.pairwise_append.mp history.increasing).2.2
    exact Nat.le_of_lt (before value member latest (by simp))
  · exact Nat.le_of_eq (List.mem_singleton.mp member)

/-- A position that has the latest value is the last one. -/
theorem position (history : History values latest) {index : Nat}
    (found : values[index]? = some latest) : index + 1 = values.length := by
  have bound : index < values.length := by
    by_contra outside
    rw [List.getElem?_eq_none (by omega)] at found
    cases found
  have lastBound : values.length - 1 < values.length := by
    have := history.length_pos
    omega
  have last := history.getElem?_last
  rw [List.getElem?_eq_getElem bound, Option.some.injEq] at found
  rw [List.getElem?_eq_getElem lastBound, Option.some.injEq] at last
  have same : index = values.length - 1 :=
    history.nodup.getElem_inj_iff.mp (found.trans last.symm)
  omega

/-- The counter grows. -/
theorem append (history : History values latest) {next : Nat} (grows : latest < next) :
    History (values ++ [next]) next where
  increasing := by
    rw [List.pairwise_append]
    refine ⟨history.increasing, by simp, ?_⟩
    intro value member other otherMember
    rw [List.mem_singleton.mp otherMember]
    exact Nat.lt_of_le_of_lt (history.le_latest member) grows
  last := by simp

end History

/-- Numbers that are two apart, each of them the first one or two above another. -/
theorem eq_everySecond {first : Nat} {values : List Nat}
    (apart : values.Pairwise fun earlier later => earlier + 2 ≤ later)
    (above : ∀ value ∈ values, first ≤ value)
    (follows : ∀ value ∈ values, value = first ∨ ∃ before ∈ values, before + 2 = value) :
    values = (List.range values.length).map fun index => first + 2 * index := by
  induction values using List.reverseRecOn with
  | nil => rfl
  | append_singleton values value ih =>
      obtain ⟨apartFront, -, apartLast⟩ := List.pairwise_append.mp apart
      have below : ∀ other ∈ values, other + 2 ≤ value := fun other member =>
        apartLast other member value (by simp)
      have front : values = (List.range values.length).map fun index => first + 2 * index := by
        refine ih apartFront (fun other member => above other (by simp [member])) ?_
        intro other member
        refine (follows other (by simp [member])).imp_right ?_
        rintro ⟨before, beforeMember, same⟩
        rcases List.mem_append.mp beforeMember with inFront | isLast
        · exact ⟨before, inFront, same⟩
        · rw [List.mem_singleton.mp isLast] at same
          have := below other member
          omega
      have mem_front {other : Nat} :
          other ∈ values ↔ ∃ index < values.length, first + 2 * index = other := by
        rw [front]
        simp
      -- the last number is two above the one before it, or the first one
      have last : first + 2 * values.length = value := by
        rcases Nat.eq_zero_or_pos values.length with none | some
        · obtain rfl := List.length_eq_zero_iff.mp none
          have isFirst : value = first := by simpa using follows value (by simp)
          exact isFirst.symm
        · have next := below _ (mem_front.mpr ⟨values.length - 1, by omega, rfl⟩)
          rcases follows value (by simp) with isFirst | ⟨before, member, same⟩
          · omega
          · rcases List.mem_append.mp member with inFront | isLast
            · obtain ⟨index, bound, rfl⟩ := mem_front.mp inFront
              omega
            · rw [List.mem_singleton.mp isLast] at same
              omega
      rw [List.length_append, List.length_singleton, List.range_succ, List.map_append, ← front,
        List.map_singleton, last]

end Rocc
