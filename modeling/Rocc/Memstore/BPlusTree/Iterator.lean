import Rocc.Memstore.BPlusTree.Invariant

/-!
# Iterators over a B+ tree

An iterator remembers a leaf, a place in it and the `seq` of the leaf; when that has
changed it looks for its place again by the key, to the right.  `Seek` and `SeekPrev` look
for it from the root.
-/

namespace Rocc.Memstore.BPlusTree

open Fences

/-- `Iterator`.  `link_` is the address of the `seq` of a leaf, and a `leaf_index` below zero
comes from a leaf without keys only. -/
structure Iterator (Key : Type) where
  node : Option LeafId
  seq : Nat
  leafIndex : Int
  link : Option LeafId
  target : Nat
  key : Key
  value : NodeId

namespace Iterator

variable {Key : Type}

/-- `Valid`. -/
def valid (iterator : Iterator Key) (leaves : Leaves Key) : Bool :=
  iterator.node.any fun node => 0 < (leaves node).numKeys

/-- `CurNode`. -/
def curNode (iterator : Iterator Key) (leaves : Leaves Key) : Option NodeId :=
  if iterator.valid leaves then some iterator.value else none

/-- What an iterator takes from the entry that it is on. -/
def load (iterator : Iterator Key) (leaves : Leaves Key) (node : LeafId) : Iterator Key :=
  { iterator with
    seq := (leaves node).seq
    key := ((leaves node).entries iterator.leafIndex.toNat).1
    value := ((leaves node).entries iterator.leafIndex.toNat).2 }

variable [LinearOrder Key]

/-- The loop in `Next` that looks for the first key above `key`, from leaf to leaf.  There is
no result after `fuel` leaves, and no place behind the last one. -/
def walk (leaves : Leaves Key) (key : Key) : Nat → LeafId → Option (Option (LeafId × Nat))
  | 0, _ => none
  | fuel + 1, node =>
      let k := Slots.scan (leaves node).entries (fun entry => entry.1 ≤ key) (leaves node).numKeys
      if k = (leaves node).numKeys then
        match (leaves node).right with
        | some right => walk leaves key fuel right
        | none => some none
      else
        some (some (node, k))

/-- The second half of `Next`: go on to the next leaf behind the last entry, and take the
entry there. -/
def settle (iterator : Iterator Key) (leaves : Leaves Key) (node : LeafId) : Iterator Key :=
  if ((leaves node).numKeys : Int) ≤ iterator.leafIndex then
    match (leaves node).right with
    | some right =>
        let moved := { iterator with
          node := some right
          leafIndex := 0
          link := some right
          target := (leaves right).seq }
        moved.load leaves right
    | none => { iterator with node := none, leafIndex := 0 }
  else
    iterator.load leaves node

/-- `Next`, and whether the leaf was unchanged. -/
def next (iterator : Iterator Key) (leaves : Leaves Key) (fuel : Nat) :
    Option (Iterator Key × Bool) :=
  match iterator.node with
  | none => none
  | some node =>
      if (leaves node).seq ≠ iterator.seq then
        match walk leaves iterator.key fuel node with
        | some (some (node, k)) =>
            let found := { iterator with node := some node, leafIndex := k }
            some (found.settle leaves node, false)
        | some none => some ({ iterator with node := none }, false)
        | none => none
      else
        let onward := { iterator with leafIndex := iterator.leafIndex + 1 }
        some (onward.settle leaves node, true)

/-- The place that `Seek` finds; `FindLeaf` is a parameter. -/
def position (iterator : Iterator Key) (leaves : Leaves Key) (leaf : LeafId) (key : Key) :
    Iterator Key :=
  let found := { iterator with link := some leaf, target := (leaves leaf).seq }
  let k := (leaves leaf).slotOf key
  if k = (leaves leaf).numKeys then
    { found with node := (leaves leaf).right, leafIndex := 0 }
  else
    { found with node := some leaf, leafIndex := k }

/-- `SeekPrev`, which does not survive a leaf without a left neighbour. -/
def seekPrev (iterator : Iterator Key) (leaves : Leaves Key) (leaf : LeafId) (key : Key) :
    Option (Iterator Key) :=
  let found := { iterator with link := some leaf, target := (leaves leaf).seq }
  if (leaves leaf).slotOf key = 0 then
    (leaves leaf).left.map fun left =>
      { found with
        node := some left
        link := some left
        target := (leaves left).seq
        leafIndex := (leaves left).numKeys - 1 }
  else
    some { found with node := some leaf }

end Iterator

/-! ## Places in the chain -/

section Places

variable {Key : Type} [LinearOrder Key] {leaves : Leaves Key}
variable {before behind : List (WithBot Key × LeafId)} {fence : WithBot Key} {leaf : LeafId}

/-- The leaf to the right has keys. -/
theorem Chained.right_spec (chained : Chained leaves (before ++ (fence, leaf) :: behind)) :
    ((leaves leaf).right = none ∧ behind = []) ∨
      ∃ nextFence next rest, behind = (nextFence, next) :: rest ∧
        (leaves leaf).right = some next ∧ 0 < (leaves next).numKeys := by
  have right := chained.links.2
  cases behind with
  | nil => exact .inl ⟨right, rfl⟩
  | cons block rest =>
      refine .inr ⟨block.1, block.2, rest, rfl, right, Nat.pos_of_ne_zero fun empty => ?_⟩
      have alone := congrArg List.length (chained.filled block (by simp) empty)
      simp only [List.length_append, List.length_cons, List.length_nil] at alone
      omega

/-- The leaf to the left has keys. -/
theorem Chained.left_spec (chained : Chained leaves (before ++ (fence, leaf) :: behind)) :
    ((leaves leaf).left = none ∧ before = []) ∨
      ∃ rest lastFence last, before = rest ++ [(lastFence, last)] ∧
        (leaves leaf).left = some last ∧ 0 < (leaves last).numKeys := by
  have left := chained.links.1
  rcases List.eq_nil_or_concat' before with rfl | ⟨rest, block, rfl⟩
  · exact .inl ⟨left, rfl⟩
  · refine .inr ⟨rest, block.1, block.2, rfl, ?_, Nat.pos_of_ne_zero fun empty => ?_⟩
    · rw [left]
      simp
    · have alone := congrArg List.length (chained.filled block (by simp) empty)
      simp only [List.length_append, List.length_cons, List.length_nil] at alone
      omega

omit [LinearOrder Key] in
/-- All entries around one. -/
theorem contents_at {k : Nat} (inside : k < (leaves leaf).numKeys) :
    contents (entriesIn leaves) (before ++ (fence, leaf) :: behind) =
      (contents (entriesIn leaves) before ++ (leaves leaf).list.take k) ++
        (leaves leaf).entries k ::
          ((leaves leaf).list.drop (k + 1) ++ contents (entriesIn leaves) behind) := by
  have split : entriesIn leaves leaf = (leaves leaf).list.take k ++
      (leaves leaf).entries k :: (leaves leaf).list.drop (k + 1) := Slots.list_eq_of_lt inside
  rw [contents_append, contents_cons, split]
  simp only [List.append_assoc, List.cons_append]

/-- The first entry that qualifies, by its place. -/
theorem Chained.isFirst_at (chained : Chained leaves (before ++ (fence, leaf) :: behind)) {k : Nat}
    (inside : k < (leaves leaf).numKeys) {qualifies : Key → Prop}
    (leavesBefore : ∀ entry ∈ contents (entriesIn leaves) before, ¬qualifies entry.1)
    (entriesBefore : ∀ entry ∈ (leaves leaf).list.take k, ¬qualifies entry.1)
    (qualified : qualifies ((leaves leaf).entries k).1) :
    IsFirst (contents (entriesIn leaves) (before ++ (fence, leaf) :: behind)) qualifies
      ((leaves leaf).entries k) := by
  refine .of_split chained.fenced.contents_ascending (contents_at inside) ?_ qualified
  intro entry member
  rcases List.mem_append.mp member with inBefore | here
  · exact leavesBefore entry inBefore
  · exact entriesBefore entry here

end Places

/-! ## Iterators on an entry -/

/-- The iterator is on an entry: it knows the place unless the leaf has changed. -/
structure Iterator.On {Key : Type} [LinearOrder Key] (iterator : Iterator Key) (tree : Tree Key)
    (leaf : LeafId) : Prop where
  node : iterator.node = some leaf
  fence : ∃ fence, (fence, leaf) ∈ tree.flat ∧ fence ≤ iterator.key
  stored : (iterator.key, iterator.value) ∈ tree.contents
  index : (tree.leaves leaf).seq = iterator.seq →
    0 ≤ iterator.leafIndex ∧ iterator.leafIndex.toNat < (tree.leaves leaf).numKeys ∧
      (tree.leaves leaf).entries iterator.leafIndex.toNat = (iterator.key, iterator.value)

section On

variable {Key : Type} [LinearOrder Key] {tree : Tree Key} {iterator : Iterator Key}
variable {qualifies : Key → Prop}

/-- The leaf of a well-formed tree that an iterator is on has keys. -/
theorem Iterator.On.valid {leaf : LeafId} (on : iterator.On tree leaf)
    (wellFormed : tree.WellFormed) : iterator.valid tree.leaves = true := by
  obtain ⟨fence, member, -⟩ := on.fence
  rw [Iterator.valid, on.node, Option.any_some, decide_eq_true_eq]
  refine Nat.pos_of_ne_zero fun empty => ?_
  have alone := wellFormed.chained.filled (fence, leaf) member empty
  have stored := on.stored
  rw [Tree.contents, alone, contents_cons, contents_nil, List.append_nil, entriesIn] at stored
  have count := List.length_pos_of_mem stored
  rw [LeafNode.length_list, empty] at count
  exact lt_irrefl 0 count

/-- The iterator is on the first entry that qualifies, with the `seq` of its leaf, or there is
none and it is on no leaf. -/
def Iterator.Reaches (iterator : Iterator Key) (tree : Tree Key) (qualifies : Key → Prop) : Prop :=
  (iterator.node = none ∧ ∀ entry ∈ tree.contents, ¬qualifies entry.1) ∨
    ∃ leaf, iterator.On tree leaf ∧ iterator.seq = (tree.leaves leaf).seq ∧
      IsFirst tree.contents qualifies (iterator.key, iterator.value)

/-- An iterator that has taken the first entry that qualifies. -/
theorem Tree.WellFormed.reaches_load (wellFormed : tree.WellFormed)
    {before behind : List (WithBot Key × LeafId)} {fence : WithBot Key} {leaf : LeafId}
    (split : tree.flat = before ++ (fence, leaf) :: behind) {k : Nat}
    (inside : k < (tree.leaves leaf).numKeys)
    (leavesBefore : ∀ entry ∈ Fences.contents (entriesIn tree.leaves) before,
      ¬qualifies entry.1)
    (entriesBefore : ∀ entry ∈ (tree.leaves leaf).list.take k, ¬qualifies entry.1)
    (qualified : qualifies ((tree.leaves leaf).entries k).1)
    (node : iterator.node = some leaf) (index : iterator.leafIndex = k) :
    (iterator.load tree.leaves leaf).Reaches tree qualifies := by
  have chained := wellFormed.chained
  rw [split] at chained
  have first := chained.isFirst_at inside leavesBefore entriesBefore qualified
  rw [← split] at first
  have place : iterator.leafIndex.toNat = k := by rw [index, Int.toNat_natCast]
  have entry : (tree.leaves leaf).entries k ∈ (tree.leaves leaf).list :=
    Slots.mem_list.mpr ⟨k, inside, rfl⟩
  have isEntry : ((iterator.load tree.leaves leaf).key, (iterator.load tree.leaves leaf).value) =
      (tree.leaves leaf).entries k := by rw [Iterator.load, place]
  refine .inr ⟨leaf, ⟨node, ⟨fence, by simp [split], ?_⟩, ?_, ?_⟩, rfl, ?_⟩
  · have above := chained.fenced.above (fence, leaf) (by simp) _ entry
    rwa [← congrArg Prod.fst isEntry] at above
  · rw [isEntry]
    exact first.member
  · intro _
    rw [isEntry]
    simp only [Iterator.load, place]
    exact ⟨by omega, inside, trivial⟩
  · rw [isEntry]
    exact first

/-- Behind the last entry of a leaf comes the first one of the next leaf. -/
theorem Tree.WellFormed.reaches_right (wellFormed : tree.WellFormed)
    {before behind : List (WithBot Key × LeafId)} {fence : WithBot Key} {leaf : LeafId}
    (split : tree.flat = before ++ (fence, leaf) :: behind)
    (leavesBefore : ∀ entry ∈ Fences.contents (entriesIn tree.leaves) before,
      ¬qualifies entry.1)
    (entriesBefore : ∀ entry ∈ (tree.leaves leaf).list, ¬qualifies entry.1)
    (behindQualified : ∀ entry ∈ Fences.contents (entriesIn tree.leaves) behind,
      qualifies entry.1) :
    ((tree.leaves leaf).right = none ∧ ∀ entry ∈ tree.contents, ¬qualifies entry.1) ∨
      ∃ next, (tree.leaves leaf).right = some next ∧ ∀ iterator : Iterator Key,
        iterator.node = some next → iterator.leafIndex = 0 →
          (iterator.load tree.leaves next).Reaches tree qualifies := by
  have chained := wellFormed.chained
  rw [split] at chained
  have upTo : ∀ entry ∈ Fences.contents (entriesIn tree.leaves) (before ++ [(fence, leaf)]),
      ¬qualifies entry.1 := by
    intro entry member
    rw [contents_append, List.mem_append] at member
    rcases member with inBefore | here
    · exact leavesBefore entry inBefore
    · exact entriesBefore entry (by simpa using here)
  rcases chained.right_spec with ⟨last, rfl⟩ | ⟨nextFence, next, rest, rfl, right, some⟩
  · refine .inl ⟨last, ?_⟩
    rw [Tree.contents, split]
    exact upTo
  · refine .inr ⟨next, right, fun iterator node index => ?_⟩
    apply wellFormed.reaches_load (by rw [split, List.append_cons]) some upTo (by simp) ?_ node
      index
    apply behindQualified
    rw [contents_cons]
    exact List.mem_append_left _ (Slots.mem_list.mpr ⟨0, some, rfl⟩)

/-- What `Seek` finds below a leaf whose fence the key reaches. -/
theorem Tree.WellFormed.position_spec (wellFormed : tree.WellFormed)
    {before behind : List (WithBot Key × LeafId)} {fence : WithBot Key} {leaf : LeafId}
    (split : tree.flat = before ++ (fence, leaf) :: behind) {key : Key} (reached : fence ≤ key)
    (ended : ∀ next ∈ behind, (key : WithBot Key) ≤ next.1) :
    ((iterator.position tree.leaves leaf key).node = none ∧
        ∀ entry ∈ tree.contents, ¬key ≤ entry.1) ∨
      ∃ node, (iterator.position tree.leaves leaf key).node = some node ∧
        ((iterator.position tree.leaves leaf key).load tree.leaves node).Reaches tree
          fun stored => key ≤ stored := by
  have chained := wellFormed.chained
  rw [split] at chained
  have leavesBefore : ∀ entry ∈ Fences.contents (entriesIn tree.leaves) before,
      ¬key ≤ entry.1 :=
    fun entry member => (chained.fenced.lt_of_mem_before reached member).not_ge
  have entriesBefore : ∀ entry ∈ (tree.leaves leaf).list.take ((tree.leaves leaf).slotOf key),
      ¬key ≤ entry.1 := fun entry member => (LeafNode.lt_of_mem_take member).not_ge
  by_cases last : (tree.leaves leaf).slotOf key = (tree.leaves leaf).numKeys
  · simp only [Iterator.position, if_pos last]
    rw [last, ← LeafNode.length_list, List.take_length] at entriesBefore
    rcases wellFormed.reaches_right split leavesBefore entriesBefore
      (fun entry member => chained.fenced.le_of_mem_behind ended member) with
      ⟨none, absent⟩ | ⟨next, right, reaches⟩
    · exact .inl ⟨none, absent⟩
    · exact .inr ⟨next, right, reaches _ right rfl⟩
  · simp only [Iterator.position, if_neg last]
    have inside : (tree.leaves leaf).slotOf key < (tree.leaves leaf).numKeys :=
      LeafNode.slotOf_le.lt_of_ne last
    refine .inr ⟨leaf, rfl,
      wellFormed.reaches_load split inside leavesBefore entriesBefore ?_ rfl rfl⟩
    apply LeafNode.le_of_mem_drop chained.ascending
    rw [LeafNode.drop_eq_cons inside]
    exact List.mem_cons_self

/-- The end of `Next`, from the first place that may qualify. -/
theorem Tree.WellFormed.settle_spec (wellFormed : tree.WellFormed)
    {before behind : List (WithBot Key × LeafId)} {fence : WithBot Key} {leaf : LeafId}
    (split : tree.flat = before ++ (fence, leaf) :: behind) {k : Nat}
    (inside : k ≤ (tree.leaves leaf).numKeys)
    (leavesBefore : ∀ entry ∈ Fences.contents (entriesIn tree.leaves) before,
      ¬qualifies entry.1)
    (entriesBefore : ∀ entry ∈ (tree.leaves leaf).list.take k, ¬qualifies entry.1)
    (qualified : k < (tree.leaves leaf).numKeys → qualifies ((tree.leaves leaf).entries k).1)
    (behindQualified : ∀ entry ∈ Fences.contents (entriesIn tree.leaves) behind,
      qualifies entry.1)
    (node : iterator.node = some leaf) (index : iterator.leafIndex = k) :
    (iterator.settle tree.leaves leaf).Reaches tree qualifies := by
  rw [Iterator.settle, index]
  rcases inside.lt_or_eq with more | last
  · rw [if_neg (by omega)]
    exact wellFormed.reaches_load split more leavesBefore entriesBefore (qualified more) node index
  · rw [if_pos (by omega)]
    rw [last, ← LeafNode.length_list, List.take_length] at entriesBefore
    rcases wellFormed.reaches_right split leavesBefore entriesBefore behindQualified with
      ⟨none, absent⟩ | ⟨next, right, reaches⟩
    · rw [none]
      exact .inl ⟨rfl, absent⟩
    · rw [right]
      exact reaches _ rfl rfl

/-- The walk ends at the first entry above the key. -/
theorem walk_spec {leaves : Leaves Key} {key : Key}
    {before behind : List (WithBot Key × LeafId)} {fence : WithBot Key} {leaf : LeafId}
    (chained : Chained leaves (before ++ (fence, leaf) :: behind))
    (leavesBefore : ∀ entry ∈ contents (entriesIn leaves) before, ¬key < entry.1) {fuel : Nat}
    (enough : behind.length < fuel) :
    (Iterator.walk leaves key fuel leaf = some none ∧
        ∀ entry ∈ contents (entriesIn leaves) (before ++ (fence, leaf) :: behind),
          ¬key < entry.1) ∨
      ∃ before' fence' leaf' behind' k,
        Iterator.walk leaves key fuel leaf = some (some (leaf', k)) ∧
        before ++ (fence, leaf) :: behind = before' ++ (fence', leaf') :: behind' ∧
        k < (leaves leaf').numKeys ∧
        (∀ entry ∈ contents (entriesIn leaves) before', ¬key < entry.1) ∧
        (∀ entry ∈ (leaves leaf').list.take k, ¬key < entry.1) ∧
        key < ((leaves leaf').entries k).1 := by
  induction fuel generalizing before fence leaf behind with
  | zero => exact absurd enough (Nat.not_lt_zero _)
  | succ fuel ih =>
      obtain ⟨k, found⟩ : ∃ k, Slots.scan (leaves leaf).entries (fun entry => entry.1 ≤ key)
        (leaves leaf).numKeys = k := ⟨_, rfl⟩
      have entriesBefore : ∀ entry ∈ (leaves leaf).list.take k, ¬key < entry.1 := by
        intro entry member
        rw [LeafNode.list, ← found, Slots.take_scan] at member
        have passed : entry.1 ≤ key := by simpa using List.mem_takeWhile_imp member
        exact passed.not_gt
      simp only [Iterator.walk, found]
      by_cases last : k = (leaves leaf).numKeys
      · rw [if_pos last]
        rw [last, ← LeafNode.length_list, List.take_length] at entriesBefore
        have upTo : ∀ entry ∈ contents (entriesIn leaves) (before ++ [(fence, leaf)]),
            ¬key < entry.1 := by
          intro entry member
          rw [contents_append, List.mem_append] at member
          rcases member with inBefore | here
          · exact leavesBefore entry inBefore
          · exact entriesBefore entry (by simpa using here)
        rcases chained.right_spec with ⟨none, rfl⟩ | ⟨nextFence, next, rest, rfl, right, -⟩
        · rw [none]
          exact .inl ⟨rfl, upTo⟩
        · rw [right]
          rw [List.append_cons] at chained ⊢
          exact ih chained upTo (Nat.lt_of_succ_lt_succ enough)
      · rw [if_neg last]
        have inside : k < (leaves leaf).numKeys := by
          refine lt_of_le_of_ne ?_ last
          rw [← found]
          exact Slots.scan_le
        refine .inr ⟨before, fence, leaf, behind, k, rfl, rfl, inside, leavesBefore,
          entriesBefore, ?_⟩
        have failed := Slots.not_test_scan (found.trans_lt inside)
        rw [found] at failed
        simpa using failed

/-- `Next` finds the entry behind the one the iterator is on. -/
theorem Tree.WellFormed.next_spec (wellFormed : tree.WellFormed) {leaf : LeafId}
    (on : iterator.On tree leaf) {fuel : Nat} (enough : tree.flat.length ≤ fuel) :
    ∃ after same, iterator.next tree.leaves fuel = some (after, same) ∧
      after.Reaches tree fun key => iterator.key < key := by
  obtain ⟨fence, member, reached⟩ := on.fence
  obtain ⟨before, behind, split⟩ := List.append_of_mem member
  have chained := wellFormed.chained
  rw [split] at chained
  have leavesBefore : ∀ entry ∈ Fences.contents (entriesIn tree.leaves) before,
      ¬iterator.key < entry.1 :=
    fun entry member => (chained.fenced.lt_of_mem_before reached member).not_gt
  by_cases same : (tree.leaves leaf).seq = iterator.seq
  · obtain ⟨positive, inside, isEntry⟩ := on.index same
    obtain ⟨k, index⟩ := Int.eq_ofNat_of_zero_le positive
    rw [index, Int.toNat_natCast] at inside isEntry
    have sorted := chained.ascending
    rw [LeafNode.list, Slots.list_eq_of_lt inside, isEntry] at sorted
    obtain ⟨-, fromKey, below⟩ := List.pairwise_append.mp sorted
    have above := (List.pairwise_cons.mp fromKey).1
    have notSame : ¬(tree.leaves leaf).seq ≠ iterator.seq := not_not.mpr same
    simp only [Iterator.next, on.node, if_neg notSame]
    refine ⟨_, _, rfl, ?_⟩
    apply wellFormed.settle_spec split (Nat.succ_le_of_lt inside) leavesBefore ?_ ?_ ?_ rfl
    · simp [index]
    · intro entry member
      rw [LeafNode.list, List.take_succ_eq_append_getElem (by simpa using inside),
        Slots.getElem_list, isEntry, List.mem_append, List.mem_singleton] at member
      rcases member with inBefore | rfl
      · exact (below entry inBefore _ List.mem_cons_self).not_gt
      · exact lt_irrefl _
    · intro more
      apply above
      rw [List.drop_eq_getElem_cons (by simpa using more), Slots.getElem_list]
      exact List.mem_cons_self
    · intro entry inBehind
      have here : (iterator.key, iterator.value) ∈ entriesIn tree.leaves leaf :=
        Slots.mem_list.mpr ⟨k, inside, isEntry⟩
      exact chained.fenced.lt_of_mem here inBehind
  · have enoughBehind : behind.length < fuel := by
      rw [split, List.length_append, List.length_cons] at enough
      omega
    have notSame : (tree.leaves leaf).seq ≠ iterator.seq := same
    rcases walk_spec chained leavesBefore enoughBehind with
      ⟨walked, absent⟩ | ⟨before', fence', leaf', behind', k, walked, split', inside,
        leavesBefore', entriesBefore, above⟩
    · simp only [Iterator.next, on.node, if_pos notSame, walked]
      refine ⟨_, _, rfl, .inl ⟨rfl, ?_⟩⟩
      rw [Tree.contents, split]
      exact absent
    · simp only [Iterator.next, on.node, if_pos notSame, walked]
      refine ⟨_, _, rfl, ?_⟩
      apply wellFormed.settle_spec (split.trans split') inside.le leavesBefore' entriesBefore
        (fun _ => above) ?_ rfl rfl
      intro entry inBehind
      rw [split'] at chained
      exact above.trans (chained.fenced.lt_of_mem (Slots.mem_list.mpr ⟨k, inside, rfl⟩) inBehind)

/-! ## Iterators in front of the remaining entries -/

/-- The iterator is on the first of the remaining entries, or on no leaf if there is none. -/
structure Iterator.Ahead (iterator : Iterator Key) (tree : Tree Key)
    (passed rest : List (Key × NodeId)) : Prop where
  split : tree.contents = passed ++ rest
  ended : rest = [] → iterator.node = none
  on : ∀ entry others, rest = entry :: others →
    ∃ leaf, iterator.On tree leaf ∧ (iterator.key, iterator.value) = entry

theorem Iterator.Reaches.ahead (reaches : iterator.Reaches tree qualifies)
    (sorted : Ascending tree.contents)
    (upward : ∀ {low high}, low < high → qualifies low → qualifies high) :
    ∃ passed rest, iterator.Ahead tree passed rest ∧
      (∀ entry ∈ passed, ¬qualifies entry.1) ∧ ∀ entry ∈ rest, qualifies entry.1 := by
  rcases reaches with ⟨node, absent⟩ | ⟨leaf, on, same, first⟩
  · refine ⟨tree.contents, [], ⟨by simp, fun _ => node, by simp⟩, absent, by simp⟩
  · obtain ⟨passed, rest, split⟩ := List.append_of_mem first.member
    refine ⟨passed, _, ⟨split, by simp, ?_⟩, ?_, ?_⟩
    · intro entry others isRest
      exact ⟨leaf, on, (List.cons.inj isRest).1⟩
    · intro entry member isQualified
      have inTree : entry ∈ tree.contents := by
        rw [split]
        exact List.mem_append_left _ member
      have before : entry.1 < iterator.key := by
        rw [split] at sorted
        exact (List.pairwise_append.mp sorted).2.2 entry member _ List.mem_cons_self
      exact (first.least entry inTree isQualified).not_gt before
    · intro entry member
      rw [split] at sorted
      rcases List.mem_cons.mp member with rfl | later
      · exact first.qualified
      · have behind := (List.pairwise_cons.mp (List.pairwise_append.mp sorted).2.1).1 entry later
        exact upward behind first.qualified

/-- `Next` passes one entry. -/
theorem Tree.WellFormed.next_ahead (wellFormed : tree.WellFormed)
    {passed rest : List (Key × NodeId)} {entry : Key × NodeId}
    (ahead : iterator.Ahead tree passed (entry :: rest)) {fuel : Nat}
    (enough : tree.flat.length ≤ fuel) :
    ∃ after same, iterator.next tree.leaves fuel = some (after, same) ∧
      after.Ahead tree (passed ++ [entry]) rest := by
  obtain ⟨leaf, on, isEntry⟩ := ahead.on entry rest rfl
  obtain ⟨after, same, isNext, reaches⟩ := wellFormed.next_spec on enough
  refine ⟨after, same, isNext, ?_⟩
  have sorted := wellFormed.contents_ascending
  obtain ⟨passed', rest', ahead', below, above⟩ :=
    reaches.ahead sorted fun less above => above.trans less
  rw [ahead.split] at sorted
  obtain ⟨-, fromEntry, across⟩ := List.pairwise_append.mp sorted
  have key : iterator.key = entry.1 := congrArg Prod.fst isEntry
  have same : passed' ++ rest' = (passed ++ [entry]) ++ rest := by
    rw [← ahead'.split, ahead.split, List.append_assoc, List.singleton_append]
  obtain ⟨rfl, rfl⟩ := cut_unique same below above
    (by
      intro other member
      rw [key]
      rcases List.mem_append.mp member with before | last
      · exact (across other before entry List.mem_cons_self).not_gt
      · rw [List.mem_singleton.mp last]
        exact lt_irrefl _)
    (by
      rw [key]
      exact (List.pairwise_cons.mp fromEntry).1)
  exact ahead'

end On

end Rocc.Memstore.BPlusTree
