import Rocc.Base.Fences
import Rocc.Memstore.BPlusTree.Model

/-!
# The leaves of a B+ tree in order

A subtree is flattened to its leaves, each under the separator that leads to it; the first
one gets the lower bound of the subtree.  Descents find a place in this list, and what
insertion does to the inner nodes is to put one more leaf behind the one that was split.
-/

namespace Rocc.Memstore.BPlusTree

variable {Key Child : Type} {depth : Nat}

/-- The separator in front of a child. -/
def InnerNode.fence (lo : WithBot Key) (inner : InnerNode Key Child) : Nat → WithBot Key
  | 0 => lo
  | index + 1 => inner.keys index

/-- The children, each with the separator in front of it. -/
def InnerNode.pairs (lo : WithBot Key) (inner : InnerNode Key Child) :
    List (WithBot Key × Child) :=
  Slots.list (fun index => (inner.fence lo index, inner.children index)) (inner.numKeys + 1)

/-- The leaves of a subtree with their fences. -/
def flat : (depth : Nat) → WithBot Key → Subtree Key depth → List (WithBot Key × LeafId)
  | 0, lo, leaf => [(lo, leaf)]
  | depth + 1, lo, (inner : InnerNode Key (Subtree Key depth)) =>
      (inner.pairs lo).flatMap fun child => flat depth child.1 child.2

/-- The leaves of several subtrees. -/
def flats (depth : Nat) (children : List (WithBot Key × Subtree Key depth)) :
    List (WithBot Key × LeafId) :=
  children.flatMap fun child => flat depth child.1 child.2

/-- No inner node has more keys than its array. -/
def Fits : (depth : Nat) → Subtree Key depth → Prop
  | 0, _ => True
  | depth + 1, (inner : InnerNode Key (Subtree Key depth)) =>
      inner.numKeys ≤ nodeKeys ∧ ∀ index ≤ inner.numKeys, Fits depth (inner.children index)

/-- No inner node of a tree has more keys than its array. -/
def Tree.Fits (tree : Tree Key) : Prop :=
  match tree.root with
  | some ⟨depth, root⟩ => BPlusTree.Fits depth root
  | none => True

/-- The leaves of a tree. -/
def Tree.flat (tree : Tree Key) : List (WithBot Key × LeafId) :=
  match tree.root with
  | some ⟨depth, root⟩ => BPlusTree.flat depth ⊥ root
  | none => []

/-! ## Children and leaves -/

section Flats

variable {inner : InnerNode Key (Subtree Key depth)} {lo : WithBot Key}
variable {front back : List (WithBot Key × Subtree Key depth)}

@[simp] theorem length_pairs {inner : InnerNode Key Child} :
    (inner.pairs lo).length = inner.numKeys + 1 := Slots.length_list

@[simp] theorem flat_zero {leaf : LeafId} :
    flat 0 lo (leaf : Subtree Key 0) = [(lo, leaf)] := rfl

theorem flat_succ : flat (depth + 1) lo inner = flats depth (inner.pairs lo) := rfl

@[simp] theorem flats_nil : flats depth ([] : List (WithBot Key × Subtree Key depth)) = [] := rfl

@[simp] theorem flats_cons {child : WithBot Key × Subtree Key depth} :
    flats depth (child :: back) = flat depth child.1 child.2 ++ flats depth back := rfl

@[simp] theorem flats_append :
    flats depth (front ++ back) = flats depth front ++ flats depth back :=
  List.flatMap_append

/-- The leaves of a subtree from left to right. -/
def leavesBelow : (depth : Nat) → Subtree Key depth → List LeafId
  | 0, leaf => [leaf]
  | depth + 1, (inner : InnerNode Key (Subtree Key depth)) =>
      (Slots.list inner.children (inner.numKeys + 1)).flatMap (leavesBelow depth)

theorem map_flat (node : Subtree Key depth) :
    (flat depth lo node).map Prod.snd = leavesBelow depth node := by
  induction depth generalizing lo with
  | zero => rfl
  | succ depth ih =>
      change ((InnerNode.pairs lo _).flatMap _).map Prod.snd = _
      rw [List.map_flatMap]
      simp only [ih, leavesBelow, InnerNode.pairs, Slots.list, List.flatMap_map]

/-- Only the fence of the first leaf depends on the lower bound. -/
theorem flat_eq_cons (node : Subtree Key depth) :
    ∃ leaf rest, ∀ lo, flat depth lo node = (lo, leaf) :: rest := by
  induction depth with
  | zero => exact ⟨node, [], fun _ => rfl⟩
  | succ depth ih =>
      let inner : InnerNode Key (Subtree Key depth) := node
      obtain ⟨leaf, rest, first⟩ := ih (inner.children 0)
      refine ⟨leaf, rest ++ flats depth (Slots.list (fun index =>
        ((inner.keys index : WithBot Key), inner.children (index + 1))) inner.numKeys), ?_⟩
      intro lo
      change flats depth (inner.pairs lo) = _
      rw [InnerNode.pairs, Slots.list_succ_cons, flats_cons]
      simp only [InnerNode.fence, first]
      rfl

/-- The children around one of them. -/
theorem pairs_eq {inner : InnerNode Key Child} {k : Nat} (inside : k ≤ inner.numKeys) :
    inner.pairs lo = (inner.pairs lo).take k ++
      (inner.fence lo k, inner.children k) :: (inner.pairs lo).drop (k + 1) :=
  Slots.list_eq_of_lt (Nat.lt_succ_of_le inside)

/-- The first of the children behind one of them. -/
theorem drop_pairs {inner : InnerNode Key Child} {k : Nat} (inside : k < inner.numKeys) :
    (inner.pairs lo).drop (k + 1) =
      ((inner.keys k : WithBot Key), inner.children (k + 1)) :: (inner.pairs lo).drop (k + 2) := by
  rw [List.drop_eq_getElem_cons (by simpa using inside)]
  simp [InnerNode.pairs, InnerNode.fence]

theorem drop_pairs_last {inner : InnerNode Key Child} :
    (inner.pairs lo).drop (inner.numKeys + 1) = [] := by
  simp

/-- Another child in the same place. -/
theorem pairs_update {inner : InnerNode Key Child} {k : Nat} (inside : k ≤ inner.numKeys)
    (child : Child) :
    InnerNode.pairs lo { inner with children := Function.update inner.children k child } =
      (inner.pairs lo).take k ++ (inner.fence lo k, child) :: (inner.pairs lo).drop (k + 1) := by
  rw [InnerNode.pairs, InnerNode.pairs, ← Slots.list_update _ (Nat.lt_succ_of_le inside)]
  apply Slots.list_congr
  intro index _
  by_cases same : index = k
  · subst same
    simp [InnerNode.fence]
  · simp [same]
    rfl

theorem take_pairs_update {inner : InnerNode Key Child} {k : Nat} (inside : k ≤ inner.numKeys)
    (child : Child) :
    (InnerNode.pairs lo { inner with children := Function.update inner.children k child }).take k =
      (inner.pairs lo).take k := by
  rw [pairs_update inside]
  exact List.take_left' (by simp; omega)

theorem drop_pairs_update {inner : InnerNode Key Child} {k : Nat} (inside : k ≤ inner.numKeys)
    (child : Child) :
    (InnerNode.pairs lo
      { inner with children := Function.update inner.children k child }).drop (k + 1) =
        (inner.pairs lo).drop (k + 1) := by
  rw [pairs_update inside, List.append_cons]
  exact List.drop_left' (by simp; omega)

theorem fits_succ (lo : WithBot Key) :
    Fits (depth + 1) inner ↔
      inner.numKeys ≤ nodeKeys ∧ ∀ child ∈ inner.pairs lo, Fits depth child.2 := by
  simp only [Fits, InnerNode.pairs, Slots.mem_list]
  apply and_congr_right
  intro _
  constructor
  · rintro fit _ ⟨index, inside, rfl⟩
    exact fit index (Nat.le_of_lt_succ inside)
  · exact fun fit index inside => fit _ ⟨index, Nat.lt_succ_of_le inside, rfl⟩

theorem fits_update (fits : Fits (depth + 1) inner) {k : Nat} (inside : k ≤ inner.numKeys)
    {child : Subtree Key depth} (childFits : Fits depth child) :
    Fits (depth + 1) ({ inner with children := Function.update inner.children k child } :
      InnerNode Key (Subtree Key depth)) := by
  have old := ((fits_succ ⊥).mp fits).2
  refine (fits_succ ⊥).mpr ⟨fits.1, ?_⟩
  rw [pairs_update inside]
  simp only [List.mem_append, List.mem_cons]
  rintro pair (before | rfl | behind)
  · exact old pair (List.mem_of_mem_take before)
  · exact childFits
  · exact old pair (List.mem_of_mem_drop behind)

/-- The leaves of a node around those of another child in the same place. -/
theorem flat_update {k : Nat} (inside : k ≤ inner.numKeys) {child : Subtree Key depth} :
    flat (depth + 1) lo ({ inner with children := Function.update inner.children k child } :
        InnerNode Key (Subtree Key depth)) =
      flats depth ((inner.pairs lo).take k) ++ flat depth (inner.fence lo k) child ++
        flats depth ((inner.pairs lo).drop (k + 1)) := by
  rw [flat_succ, pairs_update inside, flats_append, flats_cons, List.append_assoc]

/-- A subtree has leaves. -/
theorem flats_ne_nil {children : List (WithBot Key × Subtree Key depth)} (some : children ≠ []) :
    flats depth children ≠ [] := by
  cases children with
  | nil => exact absurd rfl some
  | cons child rest =>
      obtain ⟨leaf, others, first⟩ := flat_eq_cons child.2
      simp [first]

theorem last_of_flats_eq_nil {k : Nat} (inside : k ≤ inner.numKeys)
    (none : flats depth ((inner.pairs lo).drop (k + 1)) = []) : k = inner.numKeys := by
  by_contra notLast
  refine flats_ne_nil ?_ none
  rw [drop_pairs (inside.lt_of_ne notLast)]
  exact List.cons_ne_nil _ _

/-- The separator behind a child is a fence. -/
theorem exists_fence {k : Nat} (more : k < inner.numKeys) :
    ∃ leaf, ((inner.keys k : WithBot Key), leaf) ∈ flats depth ((inner.pairs lo).drop (k + 1)) := by
  obtain ⟨leaf, others, first⟩ := flat_eq_cons (inner.children (k + 1))
  exact ⟨leaf, by rw [drop_pairs more]; simp [first]⟩

/-- The leaves of a node around those of one child. -/
theorem flat_around {k : Nat} (inside : k ≤ inner.numKeys) :
    flat (depth + 1) lo inner = flats depth ((inner.pairs lo).take k) ++
      flat depth (inner.fence lo k) (inner.children k) ++
        flats depth ((inner.pairs lo).drop (k + 1)) := by
  rw [flat_succ]
  conv_lhs => rw [pairs_eq inside]
  rw [flats_append, flats_cons, List.append_assoc]

/-- The leaves of a node and of its new sibling. -/
def flatOf (depth : Nat) (lo : WithBot Key) (node : Subtree Key depth)
    (sibling : Option (Subtree Key depth × Key)) : List (WithBot Key × LeafId) :=
  flat depth lo node ++ sibling.elim [] fun sibling => flat depth sibling.2 sibling.1

theorem pairs_newRoot [Inhabited Key] [Inhabited Child] {lo : WithBot Key} (left right : Child)
    (upKey : Key) :
    (newRoot left upKey right).pairs lo = [(lo, left), ((upKey : WithBot Key), right)] := by
  simp [newRoot, InnerNode.pairs, Slots.list, InnerNode.fence, List.range_succ]

/-- The leaves under a new root. -/
theorem flat_newRoot [Inhabited Key] {lo : WithBot Key} (left right : Subtree Key depth)
    (upKey : Key) :
    flat (depth + 1) lo (newRoot left upKey right) =
      flat depth lo left ++ flat depth upKey right := by
  rw [flat_succ, pairs_newRoot]
  simp

theorem fits_newRoot [Inhabited Key] {left right : Subtree Key depth} {upKey : Key}
    (leftFits : Fits depth left) (rightFits : Fits depth right) :
    Fits (depth + 1) (newRoot left upKey right) := by
  refine (fits_succ ⊥).mpr ⟨by simp [newRoot, nodeKeys], ?_⟩
  rw [pairs_newRoot]
  simp [leftFits, rightFits]

end Flats

/-! ## Descents -/

section Order

variable [LinearOrder Key]

/-- Increasing fences. -/
abbrev Ordered {Block : Type} (blocks : List (WithBot Key × Block)) : Prop :=
  blocks.Pairwise fun low high => low.1 < high.1

variable {inner : InnerNode Key (Subtree Key depth)} {lo : WithBot Key}

theorem Ordered.pairs {children : List (WithBot Key × Subtree Key depth)}
    (ordered : Ordered (flats depth children)) : Ordered children := by
  rw [Ordered, flats, List.pairwise_flatMap] at ordered
  apply ordered.2.imp
  intro low high across
  obtain ⟨leaf, rest, first⟩ := flat_eq_cons low.2
  obtain ⟨leaf', rest', first'⟩ := flat_eq_cons high.2
  exact across (low.1, leaf) (by simp [first]) (high.1, leaf') (by simp [first'])

/-- Separators increase. -/
theorem keys_lt {inner : InnerNode Key Child} (ordered : Ordered (inner.pairs lo)) {low high : Nat}
    (before : low < high) (inside : high < inner.numKeys) : inner.keys low < inner.keys high := by
  have apart := List.pairwise_iff_getElem.mp ordered (low + 1) (high + 1) (by simp; omega)
    (by simp; omega) (by omega)
  simpa [InnerNode.pairs, InnerNode.fence] using apart

/-- A descent ends at the leaf whose fence is the last one that passes the test. -/
theorem descend_spec {goRight : Key → Bool} {low high : WithBot Key → Prop}
    (right : ∀ separator, goRight separator = true → low separator)
    (left : ∀ separator, goRight separator = false → high separator)
    (upward : ∀ one two, high one → one < two → high two) {node : Subtree Key depth}
    (ordered : Ordered (flat depth lo node)) (reached : low lo) :
    ∃ before fence behind,
      flat depth lo node = before ++ (fence, descend goRight depth node) :: behind ∧
        low fence ∧ ∀ next ∈ behind, high next.1 := by
  induction depth generalizing lo with
  | zero => exact ⟨[], lo, [], rfl, reached, by simp⟩
  | succ depth ih =>
      let inner : InnerNode Key (Subtree Key depth) := node
      let k := Slots.scan inner.keys goRight inner.numKeys
      have inside : k ≤ inner.numKeys := Slots.scan_le
      have split : flat (depth + 1) lo node = flats depth ((inner.pairs lo).take k) ++
          (flat depth (inner.fence lo k) (inner.children k) ++
            flats depth ((inner.pairs lo).drop (k + 1))) := by
        change flats depth (inner.pairs lo) = _
        conv_lhs => rw [pairs_eq inside]
        rw [flats_append, flats_cons]
      rw [split] at ordered ⊢
      have fromChild := (List.pairwise_append.mp ordered).2.1
      have passed : low (inner.fence lo k) := by
        cases place : k with
        | zero => exact reached
        | succ last => exact right _ (Slots.test_of_lt_scan (show last < k by omega))
      obtain ⟨before, fence, behind, found, fencePassed, ended⟩ :=
        ih (List.pairwise_append.mp fromChild).1 passed
      refine ⟨flats depth ((inner.pairs lo).take k) ++ before, fence,
        behind ++ flats depth ((inner.pairs lo).drop (k + 1)), ?_, fencePassed, ?_⟩
      · rw [found]
        change _ = _ ++ (fence, descend goRight depth (inner.children k)) :: _
        simp
      · intro next member
        rcases List.mem_append.mp member with inChild | later
        · exact ended next inChild
        · rcases inside.lt_or_eq with more | last
          · have rest := (List.pairwise_append.mp fromChild).2.1
            rw [drop_pairs more, flats_cons] at rest later
            obtain ⟨leaf, others, first⟩ := flat_eq_cons (inner.children (k + 1))
            simp only [first, List.cons_append] at rest later
            have stopped : high (inner.keys k) := left _ (Slots.not_test_scan more)
            rcases List.mem_cons.mp later with rfl | beyond
            · exact stopped
            · exact upward _ _ stopped ((List.pairwise_cons.mp rest).1 next beyond)
          · rw [last, drop_pairs_last, flats_nil] at later
            cases later

end Order

/-! ## A new child -/

section AddChild

variable {inner : InnerNode Key Child} {lo : WithBot Key} {k : Nat} {key : Key} {child : Child}

theorem place_numKeys (few : k ≤ nodeKeys) :
    (inner.place k key child).numKeys = inner.numKeys + 1 := by
  have isIndex : k ≠ noIndex := by simp only [nodeKeys, noIndex] at *; omega
  simp [InnerNode.place, isIndex]

theorem place_keys (few : k ≤ nodeKeys) {index : Nat} (behind : inner.numKeys < index)
    (inside : k ≤ inner.numKeys) : (inner.place k key child).keys index = inner.keys index := by
  have isIndex : k ≠ noIndex := by simp only [nodeKeys, noIndex] at *; omega
  simp only [InnerNode.place, if_pos isIndex]
  rw [Function.update_of_ne (by omega), Slots.openUp_apply, if_neg (by omega)]

/-- The child comes behind the one at `k`, under the key. -/
theorem pairs_place (few : k ≤ nodeKeys) (inside : k ≤ inner.numKeys) :
    (inner.place k key child).pairs lo =
      (inner.pairs lo).take (k + 1) ++ ((key : WithBot Key), child) ::
        (inner.pairs lo).drop (k + 1) := by
  have isIndex : k ≠ noIndex := by simp only [nodeKeys, noIndex] at *; omega
  have small : (k + 1) % 2 ^ 32 = k + 1 := Nat.mod_eq_of_lt (by simp only [nodeKeys] at few; omega)
  rw [InnerNode.pairs, place_numKeys few, InnerNode.pairs,
    ← Slots.list_openUp _ (show k + 1 ≤ inner.numKeys + 1 by omega)]
  apply Slots.list_congr
  intro index _
  simp only [InnerNode.place, if_pos isIndex, small]
  cases index with
  | zero => simp [InnerNode.fence, Slots.openUp_apply]
  | succ index =>
      by_cases same : index = k
      · subst same
        simp [InnerNode.fence]
      · simp only [InnerNode.fence, Function.update_of_ne same,
          Function.update_of_ne (show index + 1 ≠ k + 1 by omega), Slots.openUp_apply]
        by_cases moved : k < index ∧ index ≤ inner.numKeys
        · obtain ⟨last, rfl⟩ : ∃ last, index = last + 1 := ⟨index - 1, by omega⟩
          rw [if_pos moved, if_pos (by omega), if_pos (by omega)]
          rfl
        · rw [if_neg moved, if_neg (by omega), if_neg (by omega)]

/-- The children of a node and of its new sibling. -/
def pairsOf (lo : WithBot Key) (result : InnerNode Key Child × Option (InnerNode Key Child × Key)) :
    List (WithBot Key × Child) :=
  result.1.pairs lo ++ result.2.elim [] fun sibling => sibling.1.pairs sibling.2

theorem flatOf_eq {lo : WithBot Key} (result : InnerNode Key (Subtree Key depth) ×
      Option (InnerNode Key (Subtree Key depth) × Key)) :
    flatOf (depth + 1) lo result.1 result.2 = flats depth (pairsOf lo result) := by
  obtain ⟨node, _ | sibling⟩ := result
  · exact (List.append_nil _).trans (congrArg (flats depth) (List.append_nil _).symm)
  · simp only [flatOf, pairsOf, Option.elim_some, flats_append]
    rfl

theorem pairs_lowerHalf (full : inner.numKeys = nodeKeys) :
    InnerNode.pairs lo { inner with numKeys := threshold - 1 } =
      (inner.pairs lo).take threshold := by
  have some : threshold ≤ inner.numKeys + 1 := by rw [full]; decide
  exact Slots.list_of_le some

theorem pairs_upperHalf (lo : WithBot Key) (full : inner.numKeys = nodeKeys)
    (fresh : InnerNode Key Child) :
    (inner.upperHalf fresh).pairs (inner.keys (threshold - 1)) =
      (inner.pairs lo).drop threshold := by
  have count : inner.numKeys - threshold = 7 := by rw [full]; rfl
  apply List.ext_getElem
  · rw [length_pairs, List.length_drop, length_pairs, full]
    exact congrArg Nat.succ count
  · intro index first _
    have bound : index < 8 := by
      rw [length_pairs] at first
      exact first.trans_eq (congrArg Nat.succ count)
    simp only [InnerNode.pairs, Slots.getElem_list, List.getElem_drop, Prod.mk.injEq]
    constructor
    · cases index with
      | zero => rfl
      | succ index =>
          have notLast : index ≠ nodeKeys - 1 := by rw [show nodeKeys - 1 = 14 from rfl]; omega
          simp only [InnerNode.fence, InnerNode.upperHalf, WithBot.coe_inj, count]
          rw [Function.update_of_ne notLast, Slots.copyTo_apply, if_pos (by omega)]
          rfl
    · simp only [InnerNode.upperHalf, count]
      by_cases last : index = 7
      · subst last
        rw [Function.update_self, full]
        rfl
      · rw [Function.update_of_ne last, Slots.copyTo_apply, if_pos (by omega)]

variable [LinearOrder Key]

/-- The new child goes to the half of the child that it comes behind. -/
theorem middle_le_iff (full : inner.numKeys = nodeKeys) (inside : k ≤ inner.numKeys)
    (ordered : Ordered (inner.pairs lo)) {side : Key}
    (low : inner.fence lo k ≤ side) (high : k < inner.numKeys → side < inner.keys k) :
    inner.keys (threshold - 1) ≤ side ↔ 8 ≤ k := by
  have count : inner.numKeys = 15 := full
  constructor
  · intro right
    by_contra lower
    have below : side < inner.keys k := high (by omega)
    rcases (show k ≤ 7 by omega).lt_or_eq with before | same
    · exact (below.trans (keys_lt ordered before (by omega))).not_ge right
    · exact below.not_ge (same ▸ right)
  · intro upper
    obtain ⟨last, rfl⟩ : ∃ last, k = last + 1 := ⟨k - 1, by omega⟩
    have reached : inner.keys last ≤ side := WithBot.coe_le_coe.mp low
    rcases (show 7 ≤ last by omega).lt_or_eq with before | same
    · exact (keys_lt ordered before inside).le.trans reached
    · subst same
      exact reached

variable [Inhabited Key] [Inhabited Child] {new : NewChild Key Child}

/-- Insertion in one of two halves. -/
theorem pairs_addChild (fits : inner.numKeys ≤ nodeKeys) (inside : k ≤ inner.numKeys)
    (ordered : Ordered (inner.pairs lo)) (low : inner.fence lo k ≤ new.side)
    (high : k < inner.numKeys → new.side < inner.keys k)
    (last : new.alone = true → k = inner.numKeys) :
    pairsOf lo (inner.addChild k new) =
      (inner.pairs lo).take (k + 1) ++ ((new.key : WithBot Key), new.child) ::
        (inner.pairs lo).drop (k + 1) := by
  have few : k ≤ nodeKeys := inside.trans fits
  have count : (inner.pairs lo).length = inner.numKeys + 1 := length_pairs
  rw [InnerNode.addChild]
  by_cases full : inner.numKeys = nodeKeys
  · rw [if_pos full]
    have place := middle_le_iff full inside ordered low high
    by_cases alone : new.alone = true
    · simp only [if_pos alone]
      rw [last alone, ← count, List.take_length, List.drop_length]
      simp [pairsOf, InnerNode.pairs, InnerNode.place, noIndex, Slots.list, InnerNode.fence]
    · simp only [if_neg alone]
      by_cases right : inner.keys (threshold - 1) ≤ new.side
      · obtain ⟨more, rfl⟩ := Nat.exists_eq_add_of_le (place.mp right)
        have upper : threshold ≤ 8 + more := Nat.le_add_right 8 more
        have shifted : 8 + more - threshold = more := Nat.add_sub_cancel_left 8 more
        have room : more ≤ (inner.upperHalf default).numKeys := by
          simp only [InnerNode.upperHalf, full] at inside ⊢
          exact Nat.le_sub_of_add_le' inside
        simp only [if_pos right, if_pos upper, pairsOf, Option.elim_some, shifted]
        rw [pairs_lowerHalf full, pairs_place ((Nat.le_add_left _ _).trans few) room,
          pairs_upperHalf lo full, Slots.insert_right, ← add_assoc]
        rfl
      · have lower : k < 8 := by
          by_contra upper
          exact right (place.mpr (not_lt.mp upper))
        simp only [if_neg right, pairsOf, Option.elim_some]
        rw [pairs_place few (Nat.le_of_lt_succ lower), pairs_lowerHalf full,
          pairs_upperHalf lo full, Slots.insert_left _ (show k + 1 ≤ threshold from lower)]
  · simp only [if_neg full, pairsOf, Option.elim_none, List.append_nil]
    exact pairs_place few inside

/-- Nodes stay small, and the key that a new sibling goes under is in its last place. -/
theorem addChild_fits (fits : inner.numKeys ≤ nodeKeys) (inside : k ≤ inner.numKeys) :
    (inner.addChild k new).1.numKeys ≤ nodeKeys ∧
      ∀ sibling ∈ (inner.addChild k new).2, sibling.1.numKeys ≤ nodeKeys ∧
        sibling.1.keys (nodeKeys - 1) = sibling.2 ∧
        (sibling.1.numKeys = 0 → new.alone = true) := by
  have few : k ≤ nodeKeys := inside.trans fits
  rw [InnerNode.addChild]
  by_cases full : inner.numKeys = nodeKeys
  · have half : inner.numKeys - threshold = 7 := by rw [full]; rfl
    rw [if_pos full]
    by_cases alone : new.alone = true
    · simp only [if_pos alone]
      refine ⟨fits, ?_⟩
      rintro sibling ⟨⟩
      simp [InnerNode.place, alone]
    · simp only [if_neg alone]
      by_cases right : inner.keys (threshold - 1) ≤ new.side
      · simp only [if_pos right]
        refine ⟨by decide, ?_⟩
        rintro sibling ⟨⟩
        have small : (if threshold ≤ k then k - threshold else 0) ≤ 7 := by
          split
          · exact (Nat.sub_le_sub_right few _).trans_eq rfl
          · exact Nat.zero_le _
        have place : (if threshold ≤ k then k - threshold else 0) ≤ nodeKeys :=
          small.trans (by decide)
        refine ⟨?_, ?_, ?_⟩
        · rw [place_numKeys place, InnerNode.upperHalf, half]
          exact (by decide : 7 + 1 ≤ nodeKeys)
        · rw [place_keys place]
          · simp [InnerNode.upperHalf]
          · simp [InnerNode.upperHalf, half]
          · simpa [InnerNode.upperHalf, half] using small
        · rw [place_numKeys place]
          simp
      · simp only [if_neg right]
        refine ⟨?_, ?_⟩
        · rw [place_numKeys few]
          exact (by decide : 7 + 1 ≤ nodeKeys)
        · rintro sibling ⟨⟩
          simp [InnerNode.upperHalf, half, nodeKeys]
  · simp only [if_neg full]
    refine ⟨?_, by simp⟩
    rw [place_numKeys few]
    exact fits.lt_of_ne full

end AddChild

end Rocc.Memstore.BPlusTree
