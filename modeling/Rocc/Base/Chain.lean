import Mathlib.Data.List.Nodup
import Mathlib.Logic.Function.Basic

/-!
# Doubly linked lists

A list is given by two functions, the successor and the predecessor of a node, and by its
first node; both ends point nowhere.  `Segment` describes a stretch of such a list
together with what its first node points back to and its last node points on to, so that
the ways to take a node out are all the same lemma about two neighbouring stretches.
-/

namespace Rocc

universe u

variable {Node : Type u}

/-- The nodes are linked to each other in this order, the first one back to `before` and the
last one on to `behind`. -/
def Segment (next prev : Node → Option Node) :
    Option Node → List Node → Option Node → Prop
  | _, [], _ => True
  | before, node :: rest, behind =>
      prev node = before ∧ next node = rest.head?.or behind ∧
        Segment next prev (some node) rest behind

namespace Segment

variable {next prev next' prev' : Node → Option Node} {before behind : Option Node}
variable {nodes front back : List Node} {node : Node}

/-- Two stretches that point to each other. -/
theorem append :
    Segment next prev before (front ++ back) behind ↔
      Segment next prev before front (back.head?.or behind) ∧
        Segment next prev (front.getLast?.or before) back behind := by
  induction front generalizing before with
  | nil => simp [Segment]
  | cons first rest ih =>
      have lastOf : (first :: rest).getLast?.or before = rest.getLast?.or (some first) := by
        cases rest with
        | nil => simp
        | cons second others => simp [List.getLast?_cons]
      have headOf : (rest ++ back).head?.or behind = rest.head?.or (back.head?.or behind) := by
        cases rest <;> simp
      rw [List.cons_append, Segment, Segment, ih, lastOf, headOf]
      simp only [and_assoc]

/-- Only the links of the nodes themselves matter. -/
theorem congr (segment : Segment next prev before nodes behind)
    (sameNext : ∀ other ∈ nodes, next' other = next other)
    (samePrev : ∀ other ∈ nodes, prev' other = prev other) :
    Segment next' prev' before nodes behind := by
  induction nodes generalizing before with
  | nil => trivial
  | cons first rest ih =>
      obtain ⟨backward, forward, linked⟩ := segment
      refine ⟨?_, ?_, ?_⟩
      · rw [samePrev first List.mem_cons_self]
        exact backward
      · rw [sameNext first List.mem_cons_self]
        exact forward
      · exact ih linked (fun other member => sameNext other (List.mem_cons_of_mem _ member))
          fun other member => samePrev other (List.mem_cons_of_mem _ member)

/-- A node of a stretch and what it points to. -/
theorem of_mid (segment : Segment next prev before (front ++ node :: back) behind) :
    prev node = front.getLast?.or before ∧ next node = back.head?.or behind := by
  obtain ⟨backward, forward, -⟩ := (append.mp segment).2
  exact ⟨backward, forward⟩

variable [DecidableEq Node]

/-- The first node is pointed back to another one. -/
theorem setPrev (segment : Segment next prev before (node :: nodes) behind)
    (fresh : node ∉ nodes) (before' : Option Node) :
    Segment next (Function.update prev node before') before' (node :: nodes) behind := by
  obtain ⟨-, forward, linked⟩ := segment
  refine ⟨Function.update_self .., forward, ?_⟩
  apply linked.congr (fun _ _ => rfl)
  intro other member
  exact Function.update_of_ne (ne_of_mem_of_not_mem member fresh) _ _

/-- The last node is pointed on to another one. -/
theorem setNext (segment : Segment next prev before (nodes ++ [node]) behind)
    (fresh : node ∉ nodes) (behind' : Option Node) :
    Segment (Function.update next node behind') prev before (nodes ++ [node]) behind' := by
  obtain ⟨linked, backward, -, -⟩ := append.mp segment
  refine append.mpr ⟨?_, backward, Function.update_self .., trivial⟩
  apply linked.congr
  · intro other member
    exact Function.update_of_ne (ne_of_mem_of_not_mem member fresh) _ _
  · exact fun _ _ => rfl

end Segment

/-- `target->prev = value`, when there is a target. -/
def pointBack [DecidableEq Node] (prev : Node → Option Node) (target value : Option Node) :
    Node → Option Node :=
  match target with
  | some node => Function.update prev node value
  | none => prev

/-- From `head` the successors lead through the nodes, and the predecessors back. -/
structure IsChain (next prev : Node → Option Node) (head : Option Node)
    (nodes : List Node) : Prop where
  nodup : nodes.Nodup
  starts : head = nodes.head?
  linked : Segment next prev none nodes none

namespace IsChain

variable {next prev : Node → Option Node} {head : Option Node}
variable {nodes front back : List Node} {node : Node}

theorem nil (next prev : Node → Option Node) : IsChain next prev none [] :=
  ⟨List.nodup_nil, rfl, trivial⟩

/-- Successors and predecessors of the nodes of a chain are inverse to each other. -/
theorem next_eq_iff (chain : IsChain next prev head nodes) {left right : Node}
    (leftMember : left ∈ nodes) (rightMember : right ∈ nodes) :
    next left = some right ↔ prev right = some left := by
  have distinct := chain.nodup
  have linked := chain.linked
  constructor
  · intro forward
    obtain ⟨front, back, rfl⟩ := List.append_of_mem leftMember
    cases back with
    | nil => simp [linked.of_mid.2] at forward
    | cons second rest =>
        rw [linked.of_mid.2] at forward
        simp only [List.head?_cons, Option.some_or, Option.some.injEq] at forward
        subst forward
        rw [← List.singleton_append, ← List.append_assoc] at linked
        simpa using linked.of_mid.1
  · intro backward
    obtain ⟨front, back, rfl⟩ := List.append_of_mem rightMember
    rcases List.eq_nil_or_concat' front with rfl | ⟨rest, last, rfl⟩
    · simp [linked.of_mid.1] at backward
    · rw [linked.of_mid.1] at backward
      simp only [List.getLast?_concat, Option.some_or, Option.some.injEq] at backward
      subst backward
      rw [List.append_assoc] at linked
      simpa using linked.of_mid.2

variable [DecidableEq Node]

/-- A new node in front of an empty chain. -/
theorem singleton (next prev : Node → Option Node) (node : Node) :
    IsChain (Function.update next node none) (Function.update prev node none) (some node)
      [node] :=
  ⟨List.nodup_singleton node, rfl, Function.update_self .., Function.update_self .., trivial⟩

/-- A new node in front of the first one. -/
theorem push {first : Node} {rest : List Node}
    (chain : IsChain next prev head (first :: rest)) (fresh : node ∉ first :: rest) :
    IsChain (Function.update next node (some first))
      (Function.update (Function.update prev node none) first (some node)) (some node)
      (node :: first :: rest) := by
  have different : first ≠ node := fun same => fresh (same ▸ List.mem_cons_self)
  refine ⟨List.nodup_cons.mpr ⟨fresh, chain.nodup⟩, rfl, ?_, Function.update_self .., ?_⟩
  · rw [Function.update_of_ne different.symm, Function.update_self]
  · have kept : Segment (Function.update next node (some first))
        (Function.update prev node none) none (first :: rest) none :=
      chain.linked.congr
        (fun other member => Function.update_of_ne (ne_of_mem_of_not_mem member fresh) _ _)
        (fun other member => Function.update_of_ne (ne_of_mem_of_not_mem member fresh) _ _)
    exact kept.setPrev (List.nodup_cons.mp chain.nodup).1 (some node)

/-- The predecessor of the node behind a node that is taken out. -/
theorem relink {before behind : Option Node} (segment : Segment next prev before back behind)
    (distinct : back.Nodup) (before' : Option Node) :
    Segment next (pointBack prev back.head? before') before' back behind := by
  cases back with
  | nil => trivial
  | cons right rest => exact segment.setPrev (List.nodup_cons.mp distinct).1 before'

/-- The first node is taken out. -/
theorem tail (chain : IsChain next prev head (node :: back)) :
    IsChain next (pointBack prev back.head? none) back.head? back :=
  ⟨(List.nodup_cons.mp chain.nodup).2, rfl,
    relink chain.linked.2.2 (List.nodup_cons.mp chain.nodup).2 none⟩

/-- A node behind `left` is taken out. -/
theorem unlink {left : Node} (chain : IsChain next prev head (front ++ [left] ++ node :: back)) :
    IsChain (Function.update next left back.head?) (pointBack prev back.head? (some left)) head
      (front ++ [left] ++ back) := by
  have distinct := chain.nodup
  rw [List.nodup_append] at distinct
  obtain ⟨leftDistinct, nodeDistinct, apart⟩ := distinct
  have backDistinct := (List.nodup_cons.mp nodeDistinct).2
  have outside : ∀ other ∈ front ++ [left], other ∉ back := fun other member inBack =>
    apart other member other (List.mem_cons_of_mem _ inBack) rfl
  have fresh : left ∉ front := by
    rw [List.nodup_append] at leftDistinct
    exact fun member => leftDistinct.2.2 left member left (by simp) rfl
  have prevKept : ∀ other ∈ front ++ [left],
      pointBack prev back.head? (some left) other = prev other := by
    intro other member
    cases back with
    | nil => rfl
    | cons right rest =>
        exact Function.update_of_ne
          (ne_of_mem_of_not_mem List.mem_cons_self (outside other member)).symm _ _
  obtain ⟨before, after⟩ := Segment.append.mp chain.linked
  refine ⟨?_, ?_, Segment.append.mpr ⟨?_, ?_⟩⟩
  · rw [List.nodup_append]
    exact ⟨leftDistinct, backDistinct, fun one inLeft two inBack =>
      apart one inLeft two (List.mem_cons_of_mem _ inBack)⟩
  · rw [chain.starts, List.append_assoc, List.append_assoc]
    cases front <;> rfl
  · have ended := before.setNext fresh back.head?
    rw [Option.or_none]
    exact ended.congr (fun _ _ => rfl) prevKept
  · have joined := relink after.2.2 backDistinct (some left)
    rw [List.getLast?_concat, Option.some_or]
    apply joined.congr
    · exact fun other member =>
        Function.update_of_ne (ne_of_mem_of_not_mem member (outside left (by simp))) _ _
    · exact fun _ _ => rfl

/-- A new node behind another one. -/
theorem insertAfter {fresh : Node} (chain : IsChain next prev head (front ++ node :: back))
    (new : fresh ∉ front ++ node :: back) :
    IsChain (Function.update (Function.update next node (some fresh)) fresh back.head?)
      (Function.update (pointBack prev back.head? (some fresh)) fresh (some node)) head
      (front ++ node :: fresh :: back) := by
  have distinct := chain.nodup
  rw [List.nodup_append, List.nodup_cons] at distinct
  obtain ⟨frontDistinct, ⟨nodeFresh, backDistinct⟩, apart⟩ := distinct
  simp only [List.mem_append, List.mem_cons, not_or] at new
  obtain ⟨notFront, notNode, notBack⟩ := new
  have outside : node ∉ front := fun member => apart node member node List.mem_cons_self rfl
  have pointed : ∀ other, other ∉ back →
      pointBack prev back.head? (some fresh) other = prev other := by
    intro other outsideBack
    cases back with
    | nil => rfl
    | cons right rest =>
        exact Function.update_of_ne (ne_of_mem_of_not_mem List.mem_cons_self outsideBack).symm _ _
  obtain ⟨before, backward, -, after⟩ := Segment.append.mp chain.linked
  refine ⟨?_, ?_, Segment.append.mpr ⟨?_, ?_, ?_, ?_, ?_, ?_⟩⟩
  · rw [List.nodup_append, List.nodup_cons, List.nodup_cons]
    refine ⟨frontDistinct, ⟨?_, notBack, backDistinct⟩, ?_⟩
    · simpa using ⟨Ne.symm notNode, nodeFresh⟩
    · intro one inFront two behind same
      subst same
      rcases List.mem_cons.mp behind with rfl | later
      · exact outside inFront
      · rcases List.mem_cons.mp later with rfl | last
        · exact notFront inFront
        · exact apart one inFront one (List.mem_cons_of_mem _ last) rfl
  · rw [chain.starts]
    cases front <;> rfl
  · apply before.congr
    · intro other member
      rw [Function.update_of_ne (ne_of_mem_of_not_mem member notFront),
        Function.update_of_ne (ne_of_mem_of_not_mem member outside)]
    · intro other member
      rw [Function.update_of_ne (ne_of_mem_of_not_mem member notFront)]
      exact pointed other fun inBack => apart other member other (List.mem_cons_of_mem _ inBack) rfl
  · rw [Function.update_of_ne (Ne.symm notNode), pointed node nodeFresh, backward]
  · rw [Function.update_of_ne (Ne.symm notNode), Function.update_self]
    rfl
  · rw [Function.update_self]
  · rw [Function.update_self, Option.or_none]
  · apply (relink after backDistinct (some fresh)).congr
    · intro other member
      rw [Function.update_of_ne (ne_of_mem_of_not_mem member notBack),
        Function.update_of_ne (ne_of_mem_of_not_mem member nodeFresh)]
    · intro other member
      rw [Function.update_of_ne (ne_of_mem_of_not_mem member notBack)]

end IsChain

end Rocc
