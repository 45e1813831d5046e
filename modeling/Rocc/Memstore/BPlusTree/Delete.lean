import Rocc.Memstore.BPlusTree.Invariant

/-!
# Deletion from a B+ tree

Only `MemstoreUint64BPlusTree` deletes.  A leaf that becomes empty leaves the chain, and an
inner node without children is freed by its parent.  The parent of a leaf whose first key
has changed gets the new one as its separator, if it has one in front of that child.
-/

namespace Rocc.Memstore.BPlusTree

open Fences Rtx

variable {Key Child : Type} {depth : Nat}

/-- `DeleteResult`.  `upKey` is `none` as long as its first word is the `-1` it starts with. -/
structure DeleteResult (Key : Type) where
  value : NodeId
  freeNode : Bool
  upKey : Option Key

/-- `removeLeafEntry`. -/
def LeafNode.removeEntry (leaf : LeafNode Key) (slot : Nat) : LeafNode Key :=
  let left := leaf.numKeys - 1
  { leaf with
    numKeys := left
    entries := if slot = left then leaf.entries else Slots.closeUp leaf.entries slot left
    seq := (leaf.seq + 1) % wordBound }

/-- `left->right = right`, if there is a left neighbour. -/
def linkOn (leaves : Leaves Key) (left : Option LeafId) (right : Option LeafId) : Leaves Key :=
  match left with
  | some left => Function.update leaves left { leaves left with right := right }
  | none => leaves

/-- A leaf is taken out of the chain. -/
def unlink (leaves : Leaves Key) (leaf : LeafId) : Leaves Key :=
  let node := leaves leaf
  linkBack (linkOn leaves node.left node.right) node.right node.left

/-- `removeInnerEntry`. -/
def InnerNode.removeEntry (inner : InnerNode Key Child) (slot : Nat) (res : DeleteResult Key) :
    InnerNode Key Child × DeleteResult Key :=
  if inner.numKeys = 0 then
    (inner, { res with freeNode := true })
  else if slot = inner.numKeys then
    ({ inner with numKeys := inner.numKeys - 1 }, res)
  else
    let children := Slots.closeUp inner.children slot inner.numKeys
    let left := inner.numKeys - 1
    if slot = 0 then
      ({ numKeys := left, keys := Slots.closeUp inner.keys slot left, children := children },
        { res with upKey := some (inner.keys slot) })
    else
      ({ numKeys := left, keys := Slots.closeUp inner.keys (slot - 1) left, children := children },
        res)

/-- The part of `InnerDelete` after the record was deleted below the child in `slot`; `pending`
is the test `upKey[0] != -1`. -/
def InnerNode.afterDelete (pending : Key → Bool) (inner : InnerNode Key Child) (slot : Nat)
    (res : DeleteResult Key) : InnerNode Key Child × DeleteResult Key :=
  if res.freeNode then
    inner.removeEntry slot { res with freeNode := false }
  else
    match res.upKey with
    | some upKey =>
        if pending upKey ∧ slot ≠ 0 then
          ({ inner with keys := Function.update inner.keys (slot - 1) upKey },
            { res with upKey := none })
        else
          (inner, res)
    | none => (inner, res)

/-- What a deletion leaves and returns. -/
structure Deleted (Key : Type) (depth : Nat) where
  leaves : Leaves Key
  node : Subtree Key depth
  res : DeleteResult Key

section Ordered

variable [LinearOrder Key]

/-- `LeafDelete`. -/
def leafDelete (leaves : Leaves Key) (key : Key) (leaf : LeafId) :
    Option (Leaves Key × DeleteResult Key) :=
  let node := leaves leaf
  let slot := node.slotOf key
  if slot = node.numKeys then
    none
  else
    let value := (node.entries slot).2
    let removed := node.removeEntry slot
    let after := Function.update leaves leaf removed
    if removed.numKeys = 0 then
      some (unlink after leaf, ⟨value, true, none⟩)
    else
      some (after, ⟨value, false, if slot = 0 then some (removed.entries 0).1 else none⟩)

/-- `InnerDelete`, and `LeafDelete` on the last level. -/
def deleteBelow (pending : Key → Bool) (leaves : Leaves Key) (key : Key) :
    (depth : Nat) → Subtree Key depth → Option (Deleted Key depth)
  | 0, (leaf : LeafId) =>
      (leafDelete leaves key leaf).map fun result => ⟨result.1, leaf, result.2⟩
  | depth + 1, (inner : InnerNode Key (Subtree Key depth)) =>
      let slot := Slots.scan inner.keys (fun separator => separator ≤ key) inner.numKeys
      (deleteBelow pending leaves key depth (inner.children slot)).map fun result =>
        let inner := { inner with children := Function.update inner.children slot result.node }
        let after := inner.afterDelete pending slot result.res
        ⟨result.leaves, after.1, after.2⟩

/-- `Delete_rtm`, which does not survive a root of `NULL`. -/
def Tree.deleteRtm (pending : Key → Bool) (tree : Tree Key) (key : Key) :
    Option (Tree Key × Option NodeId) :=
  tree.root.map fun root =>
    match deleteBelow pending tree.leaves key root.1 root.2 with
    | none => (tree, none)
    | some result =>
        let root := if result.res.freeNode then none else some ⟨root.1, result.node⟩
        (⟨result.leaves, root⟩, some result.res.value)

end Ordered

/-! ## Children after a deletion -/

section Children

variable {lo : WithBot Key}

/-- The lower bound of a subtree is the fence of its first leaf. -/
theorem flat_refence (lo' : WithBot Key) (node : Subtree Key depth) :
    flat depth lo' node = refence lo' (flat depth lo node) := by
  obtain ⟨leaf, rest, first⟩ := flat_eq_cons node
  rw [first, first, refence_cons]

theorem flats_refence {children : List (WithBot Key × Subtree Key depth)} :
    flats depth (refence lo children) = refence lo (flats depth children) := by
  cases children with
  | nil => rfl
  | cons first rest =>
      obtain ⟨leaf, others, isFlat⟩ := flat_eq_cons first.2
      simp [isFlat]

variable {inner : InnerNode Key Child} {slot : Nat} {res : DeleteResult Key}

/-- Another separator in front of a child. -/
theorem pairs_setKey (inside : slot ≤ inner.numKeys) (notFirst : slot ≠ 0) (key : Key) :
    InnerNode.pairs lo { inner with keys := Function.update inner.keys (slot - 1) key } =
      (inner.pairs lo).take slot ++ ((key : WithBot Key), inner.children slot) ::
        (inner.pairs lo).drop (slot + 1) := by
  obtain ⟨last, rfl⟩ := Nat.exists_eq_succ_of_ne_zero notFirst
  rw [InnerNode.pairs, InnerNode.pairs, ← Slots.list_update _ (Nat.lt_succ_of_le inside)]
  apply Slots.list_congr
  intro index _
  cases index with
  | zero => simp [InnerNode.fence]
  | succ index =>
      by_cases same : index = last
      · subst same
        simp [InnerNode.fence]
      · simp [InnerNode.fence, same]

/-- A child is taken out; the first one leaves its lower bound to the next one. -/
theorem pairs_removeEntry (inside : slot ≤ inner.numKeys) (some : inner.numKeys ≠ 0) :
    (inner.removeEntry slot res).1.pairs lo =
      if slot = 0 then refence lo ((inner.pairs lo).drop 1)
      else (inner.pairs lo).take slot ++ (inner.pairs lo).drop (slot + 1) := by
  obtain ⟨left, count⟩ := Nat.exists_eq_add_one_of_ne_zero some
  rw [InnerNode.removeEntry, if_neg some]
  by_cases last : slot = inner.numKeys
  · have notFirst : slot ≠ 0 := last ▸ some
    have none : (inner.pairs lo).drop (slot + 1) = [] := by simp [last]
    rw [if_pos last, if_neg notFirst, none, List.append_nil, last, InnerNode.pairs]
    simp only [count, Nat.add_sub_cancel]
    exact Slots.list_of_le (count.symm.le.trans (Nat.le_succ _))
  · rw [if_neg last]
    by_cases isFirst : slot = 0
    · subst isFirst
      simp only [if_true, count, Nat.add_sub_cancel, InnerNode.pairs]
      rw [Slots.list_succ_cons, List.drop_one, Slots.list_succ_cons, List.tail_cons,
        Slots.list_succ_cons, refence_cons]
      congr 1
      · simp [InnerNode.fence, Slots.closeUp_apply]
      · apply Slots.list_congr
        intro index before
        simp [InnerNode.fence, Slots.closeUp_apply, before]
    · simp only [if_neg isFirst, InnerNode.pairs, count, Nat.add_sub_cancel]
      rw [← Slots.list_closeUp (show slot ≤ left + 1 by omega)]
      apply Slots.list_congr
      intro index _
      rw [Slots.closeUp_apply]
      by_cases behind : slot ≤ index ∧ index < left + 1
      · obtain ⟨before, rfl⟩ := Nat.exists_eq_add_one_of_ne_zero (show index ≠ 0 by omega)
        rw [if_pos behind]
        simp only [InnerNode.fence, Slots.closeUp_apply, if_pos behind,
          if_pos (show slot - 1 ≤ before ∧ before < left by omega)]
      · rw [if_neg behind]
        cases index with
        | zero => simp [InnerNode.fence, Slots.closeUp_apply, isFirst]
        | succ before =>
            simp only [InnerNode.fence, Slots.closeUp_apply, if_neg behind,
              if_neg (show ¬(slot - 1 ≤ before ∧ before < left) by omega)]

theorem removeEntry_snd (others : inner.numKeys ≠ 0) : (inner.removeEntry slot res).2 =
    if slot = 0 then { res with upKey := some (inner.keys 0) } else res := by
  rw [InnerNode.removeEntry, if_neg others]
  by_cases last : slot = inner.numKeys
  · rw [if_pos last, if_neg (last ▸ others)]
  · rw [if_neg last]
    by_cases isFirst : slot = 0
    · simp only [if_pos isFirst]
      rw [isFirst]
    · simp only [if_neg isFirst]

theorem afterDelete_fits {inner : InnerNode Key (Subtree Key depth)} (pending : Key → Bool)
    (fits : Fits (depth + 1) inner) (inside : slot ≤ inner.numKeys) :
    Fits (depth + 1) (inner.afterDelete pending slot res).1 := by
  rw [InnerNode.afterDelete]
  split
  · by_cases alone : inner.numKeys = 0
    · rw [InnerNode.removeEntry, if_pos alone]
      exact fits
    · have old := ((fits_succ ⊥).mp fits).2
      refine (fits_succ ⊥).mpr ⟨?_, ?_⟩
      · rw [InnerNode.removeEntry, if_neg alone]
        have few : inner.numKeys - 1 ≤ nodeKeys := (Nat.sub_le _ _).trans fits.1
        split
        · exact few
        · split <;> exact few
      · rw [pairs_removeEntry inside alone]
        intro child member
        split at member
        · have fit : ∀ other ∈ (inner.pairs ⊥).drop 1, Fits depth other.2 :=
            fun other isIn => old other (List.mem_of_mem_drop isIn)
          cases rest : (inner.pairs ⊥).drop 1 with
          | nil =>
              rw [rest] at member
              cases member
          | cons first others =>
              rw [rest] at member fit
              rcases List.mem_cons.mp member with rfl | later
              · exact fit first List.mem_cons_self
              · exact fit child (List.mem_cons_of_mem _ later)
        · rcases List.mem_append.mp member with before | behind
          · exact old child (List.mem_of_mem_take before)
          · exact old child (List.mem_of_mem_drop behind)
  · split
    · split
      · exact fits
      · exact fits
    · exact fits

end Children

/-! ## Leaves after a deletion -/

section Below

variable [LinearOrder Key] {pending : Key → Bool} {lo fence : WithBot Key} {leaf : LeafId}
variable {before behind rest more : List (WithBot Key × LeafId)} {res : DeleteResult Key}

/-- What a deletion may leave of a leaf and those behind it.  A leaf that stays is under the
same fence or under its new first key; one that goes may leave its fence to the next one. -/
inductive Remains (res : DeleteResult Key) (fence : WithBot Key) (leaf : LeafId)
    (behind : List (WithBot Key × LeafId)) : List (WithBot Key × LeafId) → Prop where
  | same : res.freeNode = false → Remains res fence leaf behind ((fence, leaf) :: behind)
  | raised {upKey : Key} : res.freeNode = false → res.upKey = some upKey →
      Remains res fence leaf behind ((upKey, leaf) :: behind)
  | dropped : res.freeNode = true → Remains res fence leaf behind behind
  | lowered : res.freeNode = true → Remains res fence leaf behind (refence fence behind)

omit [LinearOrder Key] in
theorem Remains.append (remains : Remains res fence leaf behind rest) :
    Remains res fence leaf (behind ++ more) (rest ++ more) := by
  cases remains with
  | same kept => exact .same kept
  | raised kept upKey => exact .raised kept upKey
  | dropped freed => exact .dropped freed
  | lowered freed =>
      cases behind with
      | nil => exact .dropped freed
      | cons first others => exact .lowered freed

/-- What a deletion from the leaf does to a subtree with the blocks `before` in front of it. -/
structure DeletedBelow (pending : Key → Bool) (res : DeleteResult Key)
    (before : List (WithBot Key × LeafId)) (fence : WithBot Key) (leaf : LeafId)
    (behind : List (WithBot Key × LeafId)) (lo : WithBot Key) (node : Subtree Key depth)
    (res' : DeleteResult Key) : Prop where
  value : res'.value = res.value
  freed : res'.freeNode = true →
    res.freeNode = true ∧ before = [] ∧ behind = [] ∧ res'.upKey = none
  kept : res'.freeNode = false → ∃ rest, flat depth lo node = before ++ rest ∧
    Remains res fence leaf behind rest ∧
    ∀ upKey, res'.upKey = some upKey → pending upKey = true →
      before = [] ∧ Remains res fence leaf behind (refence upKey rest)

section Step

omit [LinearOrder Key] in
/-- The fence of a leaf that is all of a subtree. -/
theorem fence_eq_of_alone {node : Subtree Key depth}
    (alone : flat depth lo node = [(fence, leaf)]) : fence = lo := by
  obtain ⟨first, rest, isFlat⟩ := flat_eq_cons node
  rw [isFlat, List.cons.injEq] at alone
  exact (congrArg Prod.fst alone.1).symm

variable {inner : InnerNode Key (Subtree Key depth)} {slot : Nat} {res' : DeleteResult Key}

omit [LinearOrder Key] in
/-- The child was freed. -/
theorem DeletedBelow.step_freed (inside : slot ≤ inner.numKeys)
    (isFence : fence = inner.fence lo slot)
    (deleted : DeletedBelow pending res before fence leaf behind (inner.fence lo slot)
      (inner.children slot) res')
    (freed : res'.freeNode = true) :
    @DeletedBelow _ (depth + 1) pending res
      (flats depth ((inner.pairs lo).take slot) ++ before) fence leaf
      (behind ++ flats depth ((inner.pairs lo).drop (slot + 1))) lo
      (inner.afterDelete pending slot res').1 (inner.afterDelete pending slot res').2 := by
  obtain ⟨leafFreed, rfl, rfl, noKey⟩ := deleted.freed freed
  rw [InnerNode.afterDelete, if_pos freed, List.append_nil, List.nil_append]
  by_cases alone : inner.numKeys = 0
  · obtain rfl : slot = 0 := Nat.le_zero.mp (alone ▸ inside)
    have none : (inner.pairs lo).drop (0 + 1) = [] := alone ▸ drop_pairs_last
    rw [InnerNode.removeEntry, if_pos alone, none]
    exact ⟨deleted.value, fun _ => ⟨leafFreed, rfl, rfl, noKey⟩, by simp⟩
  · rw [removeEntry_snd alone]
    by_cases isFirst : slot = 0
    · subst isFirst
      obtain ⟨first, others, isFlat⟩ := flat_eq_cons (inner.children 1)
      have next : flats depth ((inner.pairs lo).drop 1) =
          ((inner.keys 0 : WithBot Key), first) ::
            (others ++ flats depth ((inner.pairs lo).drop 2)) := by
        rw [drop_pairs (Nat.pos_of_ne_zero alone), flats_cons, isFlat]
        rfl
      have isLow : fence = lo := isFence
      rw [if_pos rfl]
      refine ⟨deleted.value, by simp, fun _ => ⟨_, ?_, .lowered leafFreed, ?_⟩⟩
      · rw [flat_succ, pairs_removeEntry inside alone, if_pos rfl, flats_refence, isLow]
        rfl
      · rintro upKey ⟨⟩ -
        refine ⟨rfl, ?_⟩
        rw [next, refence_cons, refence_cons]
        exact .dropped leafFreed
    · rw [if_neg isFirst]
      refine ⟨deleted.value, by simp, fun _ => ⟨_, ?_, .dropped leafFreed, by simp [noKey]⟩⟩
      rw [flat_succ, pairs_removeEntry inside alone, if_neg isFirst, flats_append]

omit [LinearOrder Key] in
/-- The child stays. -/
theorem DeletedBelow.step_kept (inside : slot ≤ inner.numKeys)
    (deleted : DeletedBelow pending res before fence leaf behind (inner.fence lo slot)
      (inner.children slot) res')
    (kept : res'.freeNode = false) :
    @DeletedBelow _ (depth + 1) pending res
      (flats depth ((inner.pairs lo).take slot) ++ before) fence leaf
      (behind ++ flats depth ((inner.pairs lo).drop (slot + 1))) lo
      (inner.afterDelete pending slot res').1 (inner.afterDelete pending slot res').2 := by
  obtain ⟨rest, isFlat, remains, upKeys⟩ := deleted.kept kept
  rw [InnerNode.afterDelete, kept, if_neg Bool.false_ne_true]
  have unchanged : flat (depth + 1) lo inner = flats depth ((inner.pairs lo).take slot) ++ before ++
      (rest ++ flats depth ((inner.pairs lo).drop (slot + 1))) := by
    rw [flat_around inside, isFlat]
    simp only [List.append_assoc]
  cases upKey : res'.upKey with
  | none =>
      exact ⟨deleted.value, by simp [kept], fun _ =>
        ⟨_, unchanged, remains.append, by simp [upKey]⟩⟩
  | some key =>
      simp only
      by_cases up : pending key = true ∧ slot ≠ 0
      · rw [if_pos up]
        obtain ⟨rfl, refenced⟩ := upKeys key upKey up.1
        refine ⟨deleted.value, by simp, fun _ => ⟨_, ?_, refenced.append, by simp⟩⟩
        rw [flat_succ, pairs_setKey inside up.2, flats_append, flats_cons,
          @flat_refence _ _ (inner.fence lo slot), isFlat, List.append_nil]
        rfl
      · rw [if_neg up]
        refine ⟨deleted.value, by simp [kept], fun _ => ⟨_, unchanged, remains.append, ?_⟩⟩
        intro other isKey isPending
        have isFirst : slot = 0 := by
          by_contra notFirst
          exact up ⟨Option.some.inj (upKey.symm.trans isKey) ▸ isPending, notFirst⟩
        obtain ⟨rfl, refenced⟩ := upKeys other isKey isPending
        obtain ⟨first, others, isCons⟩ := flat_eq_cons (inner.children slot)
        have isRest : rest = (inner.fence lo slot, first) :: others :=
          isFlat.symm.trans (isCons _)
        subst isFirst isRest
        exact ⟨rfl, refenced.append⟩

end Step

section Descent

variable {leaves after : Leaves Key} {key : Key}

/-- A leaf that is freed has no key to give up. -/
theorem upKey_of_freed (deleted : leafDelete leaves key leaf = some (after, res))
    (freed : res.freeNode = true) : res.upKey = none := by
  simp only [leafDelete] at deleted
  split at deleted
  · cases deleted
  · split at deleted
    · obtain ⟨-, rfl⟩ := Prod.mk.inj (Option.some.inj deleted)
      rfl
    · obtain ⟨-, rfl⟩ := Prod.mk.inj (Option.some.inj deleted)
      cases freed

theorem deletedBelow_leaf (deleted : leafDelete leaves key leaf = some (after, res)) :
    @DeletedBelow _ 0 pending res [] lo leaf [] lo leaf res := by
  refine ⟨rfl, fun freed => ⟨freed, rfl, rfl, upKey_of_freed deleted freed⟩, fun kept => ?_⟩
  exact ⟨_, rfl, .same kept, fun upKey isKey _ => ⟨rfl, .raised kept isKey⟩⟩

/-- A deletion from a subtree is one from the leaf that the key belongs to. -/
theorem deleteBelow_spec {node : Subtree Key depth} (ordered : Ordered (flat depth lo node))
    (reached : lo ≤ key) (fits : Fits depth node) :
    ∃ before fence leaf behind, Located (flat depth lo node) key before fence leaf behind ∧
      descend (fun separator => separator ≤ key) depth node = leaf ∧
      (leafDelete leaves key leaf = none → deleteBelow pending leaves key depth node = none) ∧
      ∀ after res, leafDelete leaves key leaf = some (after, res) →
        ∃ node' res', deleteBelow pending leaves key depth node = some ⟨after, node', res'⟩ ∧
          Fits depth node' ∧ DeletedBelow pending res before fence leaf behind lo node' res' := by
  induction depth generalizing lo with
  | zero =>
      obtain ⟨leaf, isLeaf⟩ : ∃ leaf : LeafId, leaf = node := ⟨node, rfl⟩
      subst isLeaf
      refine ⟨[], lo, leaf, [], ⟨rfl, reached, by simp⟩, rfl, ?_, ?_⟩
      · intro absent
        rw [deleteBelow, absent, Option.map_none]
      · intro after res deleted
        refine ⟨leaf, res, ?_, trivial, deletedBelow_leaf deleted⟩
        rw [deleteBelow, deleted, Option.map_some]
  | succ depth ih =>
      obtain ⟨inner, isInner⟩ : ∃ inner : InnerNode Key (Subtree Key depth), inner = node :=
        ⟨node, rfl⟩
      subst isInner
      obtain ⟨slot, found⟩ : ∃ slot, Slots.scan inner.keys (fun separator => separator ≤ key)
        inner.numKeys = slot := ⟨_, rfl⟩
      obtain ⟨inside, low, high⟩ := scan_spec reached found
      have around := @flat_around _ _ inner lo slot inside
      have childOrdered : Ordered (flat depth (inner.fence lo slot) (inner.children slot)) := by
        rw [around] at ordered
        exact (List.pairwise_append.mp (List.pairwise_append.mp ordered).1).2.1
      obtain ⟨before, fence, leaf, behind, located, descended, absent, present⟩ :=
        ih childOrdered low (fits.2 slot inside)
      refine ⟨flats depth ((inner.pairs lo).take slot) ++ before, fence, leaf,
        behind ++ flats depth ((inner.pairs lo).drop (slot + 1)),
        ⟨?_, located.reached, ?_⟩, ?_, ?_, ?_⟩
      · rw [around, located.split]
        simp only [List.append_assoc, List.cons_append]
      · intro next member
        rcases List.mem_append.mp member with inChild | beyond
        · exact located.ended next inChild
        · exact lt_of_mem_behind ordered inside high beyond
      · rw [descend, found, descended]
      · intro isNone
        rw [deleteBelow, found, absent isNone, Option.map_none]
      · intro after res isSome
        obtain ⟨child, childRes, deleted, childFits, below⟩ := present after res isSome
        obtain ⟨changed, isChanged⟩ : ∃ changed : InnerNode Key (Subtree Key depth),
          { inner with children := Function.update inner.children slot child } = changed := ⟨_, rfl⟩
        have changedFits := fits_update fits inside childFits
        have sameFront := @take_pairs_update _ _ lo inner slot inside child
        have sameBack := @drop_pairs_update _ _ lo inner slot inside child
        rw [isChanged] at changedFits sameFront sameBack
        have sameFence : changed.fence lo slot = inner.fence lo slot := by
          rw [← isChanged]
          cases slot <;> rfl
        have isChild : changed.children slot = child := by
          rw [← isChanged]
          exact Function.update_self ..
        have changedInside : slot ≤ changed.numKeys := isChanged ▸ inside
        refine ⟨(changed.afterDelete pending slot childRes).1,
          (changed.afterDelete pending slot childRes).2, ?_,
          afterDelete_fits pending changedFits changedInside, ?_⟩
        · rw [deleteBelow, found, deleted, Option.map_some, isChanged]
        · rw [← sameFence, ← isChild] at below
          rw [← sameFront, ← sameBack]
          cases freed : childRes.freeNode with
          | false => exact below.step_kept changedInside freed
          | true =>
              obtain ⟨-, rfl, rfl, -⟩ := below.freed freed
              exact below.step_freed changedInside
                ((fence_eq_of_alone located.split).trans sameFence.symm) freed

end Descent

end Below

end Rocc.Memstore.BPlusTree
