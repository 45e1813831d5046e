import Mathlib.Data.List.Infix
import Mathlib.Data.List.Nodup
import Mathlib.Logic.Function.Basic

/-!
# Doubly linked rings

A ring is given by two functions, the successor and the predecessor of a node, and by two
nodes, the header and the last node.  `IsRing` says that following the successors from the
header visits the nodes of a list one after the other and returns to the header, and
that the predecessors lead the same way back.  The predecessor of the header is not
kept.  Taking a node out and adding a node behind the last one keep this.
-/

namespace Rocc

universe u

variable {Node : Type u}

/-! ## Neighbours in a list -/

/-- Neighbours in an appended list. -/
theorem pair_infix_append {left right : Node} {first second : List Node} :
    [left, right] <:+: first ++ second ↔
      [left, right] <:+: first ∨ [left, right] <:+: second ∨
        (first.getLast? = some left ∧ second.head? = some right) := by
  constructor
  · rintro ⟨front, back, split⟩
    rw [List.append_assoc, List.append_eq_append_iff] at split
    rcases split with ⟨middle, rfl, rest⟩ | ⟨middle, rfl, rest⟩
    · -- The first list ends behind `front`.
      match middle, rest with
      | [], rest =>
          right
          left
          exact ⟨[], back, by simpa using rest⟩
      | [only], rest =>
          simp only [List.cons_append, List.nil_append, List.cons.injEq] at rest
          obtain ⟨rfl, rest⟩ := rest
          right
          right
          exact ⟨by simp, by rw [← rest]; rfl⟩
      | one :: two :: others, rest =>
          simp only [List.cons_append, List.nil_append, List.cons.injEq] at rest
          obtain ⟨rfl, rfl, _⟩ := rest
          left
          exact ⟨front, others, by simp⟩
    · right
      left
      exact ⟨middle, back, by rw [rest, List.append_assoc]⟩
  · rintro (⟨front, back, rfl⟩ | ⟨front, back, rfl⟩ | ⟨last, head⟩)
    · exact ⟨front, back ++ second, by simp⟩
    · exact ⟨first ++ front, back, by simp⟩
    · obtain ⟨front, rfl⟩ := List.getLast?_eq_some_iff.mp last
      obtain ⟨back, rfl⟩ := List.head?_eq_some_iff.mp head
      exact ⟨front, back, by simp⟩

/-- The left one of two neighbours is not the last element. -/
theorem ne_getLast_of_pair {left right : Node} {nodes : List Node} (distinct : nodes.Nodup)
    (pair : [left, right] <:+: nodes) : nodes.getLast? ≠ some left := by
  obtain ⟨front, back, rfl⟩ := pair
  intro last
  have member : left ∈ right :: back := by
    have tail : (right :: back).getLast? = some left := by
      rw [List.append_assoc] at last
      simpa using last
    exact List.mem_of_getLast? tail
  rw [List.append_assoc] at distinct
  exact (List.nodup_cons.mp (List.nodup_append.mp distinct).2.1).1 member

/-- The right one of two neighbours is not the first element. -/
theorem ne_head_of_pair {left right : Node} {nodes : List Node} (distinct : nodes.Nodup)
    (pair : [left, right] <:+: nodes) : nodes.head? ≠ some right := by
  obtain ⟨front, back, rfl⟩ := pair
  intro head
  cases front with
  | nil =>
      simp only [List.nil_append, List.cons_append, List.head?_cons, Option.some.injEq] at head
      subst head
      simp at distinct
  | cons first others =>
      simp only [List.cons_append, List.head?_cons, Option.some.injEq] at head
      subst head
      simp at distinct

/-! ## Rings -/

/-- From `header` the successors lead through `ring` to `tailer` and back to `header`, and
the predecessors of the nodes of `ring` lead the other way. -/
structure IsRing (next prev : Node → Node) (header tailer : Node) (ring : List Node) :
    Prop where
  nodup : (header :: ring).Nodup
  linked : ∀ left right, [left, right] <:+: header :: ring →
    next left = right ∧ prev right = left
  last : (header :: ring).getLast? = some tailer
  closed : next tailer = header

namespace IsRing

variable {next prev : Node → Node} {header tailer : Node} {ring front back : List Node}
variable {node : Node}

/-- The node behind a node of the ring is another node. -/
theorem next_mem_rest (isRing : IsRing next prev header tailer (front ++ node :: back)) :
    next node ∈ header :: (front ++ back) := by
  cases back with
  | nil =>
      have last := isRing.last
      rw [← List.cons_append, List.getLast?_concat, Option.some.injEq] at last
      rw [last, isRing.closed]
      exact List.mem_cons_self
  | cons right rest =>
      have pair : [node, right] <:+: header :: (front ++ node :: right :: rest) :=
        ⟨header :: front, rest, by simp⟩
      rw [(isRing.linked node right pair).1]
      simp

/-- The node behind the header is in the ring, unless the ring is empty. -/
theorem next_header_mem (isRing : IsRing next prev header tailer ring) :
    next header ∈ header :: ring := by
  cases ring with
  | nil =>
      have last := isRing.last
      rw [List.getLast?_singleton, Option.some.injEq] at last
      subst last
      rw [isRing.closed]
      exact List.mem_cons_self
  | cons first rest =>
      rw [(isRing.linked header first ⟨[], rest, by simp⟩).1]
      simp

/-- The node before a node of the ring is the last one of what lies before it. -/
theorem prev_eq_last (isRing : IsRing next prev header tailer (front ++ node :: back)) :
    (header :: front).getLast? = some (prev node) ∧ next (prev node) = node := by
  obtain ⟨last, found⟩ : ∃ last, (header :: front).getLast? = some last :=
    Option.isSome_iff_exists.mp (by simp)
  have pair : [last, node] <:+: header :: (front ++ node :: back) := by
    rw [← List.cons_append, pair_infix_append]
    exact .inr (.inr ⟨found, rfl⟩)
  obtain ⟨forward, backward⟩ := isRing.linked last node pair
  rw [backward]
  exact ⟨found, forward⟩

variable [DecidableEq Node]

/-- A node is taken out by linking its neighbours. -/
theorem unlink (isRing : IsRing next prev header tailer (front ++ node :: back)) :
    IsRing (Function.update next (prev node) (next node))
      (Function.update prev (next node) (prev node)) header
      (if tailer = node then prev node else tailer) (front ++ back) := by
  obtain ⟨before, _⟩ := isRing.prev_eq_last
  have distinct := isRing.nodup
  rw [← List.cons_append, List.nodup_append] at distinct
  obtain ⟨frontDistinct, behind, apart⟩ := distinct
  obtain ⟨notBack, backDistinct⟩ := List.nodup_cons.mp behind
  have prevMember : prev node ∈ header :: front := List.mem_of_getLast? before
  have kept : (header :: (front ++ back)).Nodup := by
    rw [← List.cons_append, List.nodup_append]
    exact ⟨frontDistinct, backDistinct,
      fun left inFront right inBack => apart left inFront right (List.mem_cons_of_mem _ inBack)⟩
  have frontLinked : ∀ left right, [left, right] <:+: header :: front →
      next left = right ∧ prev right = left := fun left right pair =>
    isRing.linked left right (by rw [← List.cons_append, pair_infix_append]; exact .inl pair)
  have backLinked : ∀ left right, [left, right] <:+: node :: back →
      next left = right ∧ prev right = left := fun left right pair =>
    isRing.linked left right
      (by rw [← List.cons_append, pair_infix_append]; exact .inr (.inl pair))
  -- In front of the node nothing changes: the last one there is nobody's left neighbour.
  have frontKept : ∀ left right, [left, right] <:+: header :: front → next node ∉ front →
      Function.update next (prev node) (next node) left = right ∧
        Function.update prev (next node) (prev node) right = left := by
    intro left right pair outside
    have notLast : left ≠ prev node := fun same =>
      ne_getLast_of_pair frontDistinct pair (same ▸ before)
    have notHead := ne_head_of_pair frontDistinct pair
    have member : right ∈ header :: front := pair.subset (by simp)
    have notNext : right ≠ next node := by
      rintro rfl
      rcases List.mem_cons.mp member with same | inside
      · exact notHead (by rw [same]; rfl)
      · exact outside inside
    rw [Function.update_of_ne notLast, Function.update_of_ne notNext]
    exact frontLinked left right pair
  cases back with
  | nil =>
      have tailerIs : tailer = node := by
        have last := isRing.last
        rw [← List.cons_append, List.getLast?_concat, Option.some.injEq] at last
        exact last.symm
      subst tailerIs
      rw [if_pos rfl, List.append_nil]
      have outside : next tailer ∉ front := by
        rw [isRing.closed]
        exact (List.nodup_cons.mp frontDistinct).1
      exact ⟨frontDistinct, fun left right pair => frontKept left right pair outside, before,
        by rw [Function.update_self, isRing.closed]⟩
  | cons right rest =>
      obtain ⟨nextIs, prevIs⟩ := backLinked node right ⟨[], rest, by simp⟩
      have outside : next node ∉ front := by
        rw [nextIs]
        intro inFront
        exact apart right (List.mem_cons_of_mem _ inFront) right (by simp) rfl
      have last : (right :: rest).getLast? = some tailer := by
        have whole := isRing.last
        rw [← List.cons_append, List.getLast?_append] at whole
        simpa using whole
      have tailerMember : tailer ∈ right :: rest := List.mem_of_getLast? last
      have notNode : tailer ≠ node := fun same => notBack (same ▸ tailerMember)
      have notPrev : tailer ≠ prev node := fun same =>
        apart (prev node) prevMember tailer (List.mem_cons_of_mem _ tailerMember) same.symm
      rw [if_neg notNode]
      refine ⟨kept, ?_, ?_, ?_⟩
      · intro one two pair
        rw [← List.cons_append, pair_infix_append] at pair
        rcases pair with inFront | inBack | ⟨isLast, isHead⟩
        · exact frontKept one two inFront outside
        · have notLast : one ≠ prev node := by
            rintro rfl
            exact apart (prev node) prevMember (prev node)
              (List.mem_cons_of_mem _ (inBack.subset (by simp))) rfl
          have notNext : two ≠ next node := by
            rw [nextIs]
            rintro rfl
            exact ne_head_of_pair backDistinct inBack rfl
          rw [Function.update_of_ne notLast, Function.update_of_ne notNext]
          exact backLinked one two (inBack.trans (List.suffix_cons _ _).isInfix)
        · rw [before, Option.some.injEq] at isLast
          rw [List.head?_cons, Option.some.injEq] at isHead
          subst isLast isHead
          rw [nextIs, Function.update_self, Function.update_self]
          exact ⟨rfl, rfl⟩
      · rw [← List.cons_append, List.getLast?_append, last]
        rfl
      · rw [Function.update_of_ne notPrev]
        exact isRing.closed

/-- A node is added behind the last one. -/
theorem append (isRing : IsRing next prev header tailer ring) (new : node ∉ header :: ring) :
    IsRing (Function.update (Function.update next tailer node) node header)
      (Function.update prev node tailer) header node (ring ++ [node]) := by
  refine ⟨?_, ?_, ?_, ?_⟩
  · rw [← List.cons_append, List.nodup_append]
    refine ⟨isRing.nodup, List.nodup_singleton node, ?_⟩
    rintro other member _ last rfl
    rw [List.mem_singleton.mp last] at member
    exact new member
  · intro left right pair
    rw [← List.cons_append, pair_infix_append] at pair
    rcases pair with old | short | ⟨last, head⟩
    · have notTailer : left ≠ tailer := fun same =>
        ne_getLast_of_pair isRing.nodup old (same ▸ isRing.last)
      have notLeft : left ≠ node := fun same => new (same ▸ old.subset (by simp))
      have notRight : right ≠ node := fun same => new (same ▸ old.subset (by simp))
      rw [Function.update_of_ne notLeft, Function.update_of_ne notTailer,
        Function.update_of_ne notRight]
      exact isRing.linked left right old
    · exact absurd short.length_le (by simp)
    · rw [isRing.last, Option.some.injEq] at last
      rw [List.head?_cons, Option.some.injEq] at head
      subst last head
      have notNode : tailer ≠ node := fun same =>
        new (same ▸ List.mem_of_getLast? isRing.last)
      rw [Function.update_of_ne notNode, Function.update_self, Function.update_self]
      exact ⟨rfl, rfl⟩
  · rw [← List.cons_append, List.getLast?_concat]
  · rw [Function.update_self]

end IsRing

end Rocc
