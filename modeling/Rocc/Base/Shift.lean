import Mathlib.Data.List.Basic
import Mathlib.Logic.Function.Basic

/-!
# Moving contents along a walk

A walk through places whose last one is free.  From its end on, each place takes what is in
the one before, so that the first place becomes free.  The walk may come back to a place: it
has then something else by the time it hands its contents on.

What such a shift does to the places does not depend on what is in them, and it neither
loses contents nor puts them into two places.
-/

namespace Rocc

universe u v w

variable {Place : Type u} {Content : Type v} {Other : Type w} [DecidableEq Place]

/-- Each place takes the contents of the one before, from the end of the walk on. -/
def shift (contents : Place → Content) : List Place → Place → Content
  | place :: next :: rest =>
      let moved := shift contents (next :: rest)
      Function.update moved next (moved place)
  | _ => contents

variable {contents : Place → Content} {path : List Place} {place : Place}

/-- The shift does not look at what it moves. -/
theorem shift_map (move : Content → Other) (contents : Place → Content) (path : List Place) :
    shift (fun place => move (contents place)) path =
      fun place => move (shift contents path place) := by
  induction path with
  | nil => rfl
  | cons first rest ih =>
      cases rest with
      | nil => rfl
      | cons next rest =>
          funext place
          simp only [shift, ih]
          by_cases same : place = next
          · subst same
            simp
          · simp [Function.update_of_ne same]

/-- The place from which a shift brings what a place has in the end. -/
def source (path : List Place) : Place → Place :=
  shift id path

theorem shift_eq_source (contents : Place → Content) (path : List Place) (place : Place) :
    shift contents path place = contents (source path place) :=
  congrFun (shift_map contents id path) place

/-- Only the places behind the first one change. -/
theorem shift_of_notMem (outside : place ∉ path.tail) :
    shift contents path place = contents place := by
  induction path with
  | nil => rfl
  | cons first rest ih =>
      cases rest with
      | nil => rfl
      | cons next rest =>
          rw [List.tail_cons, List.mem_cons, not_or] at outside
          rw [shift]
          simp only [Function.update_of_ne outside.1]
          exact ih outside.2

/-- A walk that does not come back moves everything by one place. -/
theorem source_of_nodup {front back : List Place} {first next : Place}
    (distinct : (front ++ first :: next :: back).Nodup) :
    source (front ++ first :: next :: back) next = first := by
  induction front with
  | nil =>
      have outside : first ∉ (next :: back).tail := fun member =>
        (List.nodup_cons.mp distinct).1 (List.mem_cons_of_mem _ member)
      rw [List.nil_append, source, shift]
      simp only [Function.update_self]
      exact shift_of_notMem outside
  | cons start rest ih =>
      have later := (List.nodup_cons.mp distinct).2
      cases rest with
      | nil =>
          have notNext : next ≠ first := by
            rintro rfl
            exact (List.nodup_cons.mp later).1 List.mem_cons_self
          exact (Function.update_of_ne notNext _ _).trans (ih later)
      | cons second rest =>
          have notNext : next ≠ second := by
            rintro rfl
            exact (List.nodup_cons.mp later).1 (by simp)
          exact (Function.update_of_ne notNext _ _).trans (ih later)

/-- The contents of the places in use, except the free one: each key is in one of them. -/
structure Spread (used : Place → Prop) (contents : Place → Content) (hole : Place)
    (keyOf : Content → Other) (all : Content → Prop) : Prop where
  single : ∀ one two, used one → used two → one ≠ hole → two ≠ hole →
    keyOf (contents one) = keyOf (contents two) → one = two
  all_iff : ∀ content, all content ↔ ∃ place, used place ∧ place ≠ hole ∧
    contents place = content

namespace Spread

variable {used : Place → Prop} {hole : Place} {keyOf : Content → Other} {all : Content → Prop}

/-- A place hands its contents to the free one and becomes free. -/
theorem move (spread : Spread used contents hole keyOf all) (isUsed : used hole)
    (alsoUsed : used place) :
    Spread used (Function.update contents hole (contents place)) place keyOf all := by
  by_cases same : place = hole
  · subst same
    rwa [Function.update_eq_self]
  · constructor
    case single =>
      intro one two usedOne usedTwo notOne notTwo equal
      by_cases first : one = hole
      · by_cases second : two = hole
        · rw [first, second]
        · subst first
          rw [Function.update_self, Function.update_of_ne second] at equal
          exact absurd (spread.single place two alsoUsed usedTwo same second equal).symm notTwo
      · rw [Function.update_of_ne first] at equal
        by_cases second : two = hole
        · subst second
          rw [Function.update_self] at equal
          exact absurd (spread.single one place usedOne alsoUsed first same equal) notOne
        · rw [Function.update_of_ne second] at equal
          exact spread.single one two usedOne usedTwo first second equal
    case all_iff =>
      intro content
      rw [spread.all_iff]
      constructor
      · rintro ⟨other, isOther, notHole, rfl⟩
        by_cases moved : other = place
        · subst moved
          exact ⟨hole, isUsed, Ne.symm notHole, Function.update_self ..⟩
        · exact ⟨other, isOther, moved, Function.update_of_ne notHole _ _⟩
      · rintro ⟨other, isOther, notPlace, rfl⟩
        by_cases moved : other = hole
        · subst moved
          exact ⟨place, alsoUsed, same, by rw [Function.update_self]⟩
        · exact ⟨other, isOther, moved, (Function.update_of_ne moved _ _).symm⟩

/-- A shift along a walk through places in use. -/
theorem shift {first : Place} {rest : List Place}
    (spread : Spread used contents ((first :: rest).getLast (List.cons_ne_nil _ _)) keyOf all)
    (onWalk : ∀ place ∈ first :: rest, used place) :
    Spread used (Rocc.shift contents (first :: rest)) first keyOf all := by
  induction rest generalizing first with
  | nil => exact spread
  | cons next rest ih =>
      rw [List.getLast_cons_cons] at spread
      have moved := ih spread fun place member => onWalk place (List.mem_cons_of_mem _ member)
      exact moved.move (onWalk next (by simp)) (onWalk first (by simp))

/-- New contents come into the free place. -/
theorem fill (spread : Spread used contents hole keyOf all) (isUsed : used hole)
    {added : Content} (new : ∀ content, all content → keyOf content ≠ keyOf added) :
    (∀ one two, used one → used two →
        keyOf (Function.update contents hole added one) =
          keyOf (Function.update contents hole added two) → one = two) ∧
      ∀ content, (content = added ∨ all content) ↔
        ∃ place, used place ∧ Function.update contents hole added place = content := by
  have other : ∀ place, used place → place ≠ hole → keyOf (contents place) ≠ keyOf added :=
    fun place isUsed different =>
      new _ ((spread.all_iff _).mpr ⟨place, isUsed, different, rfl⟩)
  constructor
  · intro one two usedOne usedTwo equal
    by_cases first : one = hole
    · by_cases second : two = hole
      · rw [first, second]
      · rw [first, Function.update_self, Function.update_of_ne second] at equal
        exact absurd equal.symm (other two usedTwo second)
    · rw [Function.update_of_ne first] at equal
      by_cases second : two = hole
      · rw [second, Function.update_self] at equal
        exact absurd equal (other one usedOne first)
      · rw [Function.update_of_ne second] at equal
        exact spread.single one two usedOne usedTwo first second equal
  · intro content
    rw [spread.all_iff]
    constructor
    · rintro (rfl | ⟨place, isPlace, different, rfl⟩)
      · exact ⟨hole, isUsed, Function.update_self ..⟩
      · exact ⟨place, isPlace, Function.update_of_ne different _ _⟩
    · rintro ⟨place, isPlace, rfl⟩
      by_cases same : place = hole
      · exact .inl (by rw [same, Function.update_self])
      · exact .inr ⟨place, isPlace, same, (Function.update_of_ne same _ _).symm⟩

end Spread

end Rocc
