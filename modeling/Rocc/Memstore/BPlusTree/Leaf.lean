import Rocc.Base.Chain
import Rocc.Base.Fences
import Rocc.Memstore.BPlusTree.Model

/-!
# Leaves of a B+ tree

What the search in a leaf finds, and the three things an insertion can do to a leaf: find
the key, put the entry in, or split the leaf first.
-/

namespace Rocc.Memstore.BPlusTree

open Fences Rtx

variable {Key : Type}

@[simp] theorem LeafNode.length_list {leaf : LeafNode Key} : leaf.list.length = leaf.numKeys :=
  Slots.length_list

theorem list_place {leaf : LeafNode Key} {k : Nat} (inside : k ≤ leaf.numKeys)
    (entry : Key × NodeId) :
    (leaf.place k entry).list = leaf.list.take k ++ entry :: leaf.list.drop k :=
  Slots.list_openUp entry inside

/-! ## Links -/

section LinkBack

variable {leaves : Leaves Key} {right left : Option LeafId} {leaf : LeafId}

/-- Only the link to the left changes. -/
theorem linkBack_eq :
    ∃ link, linkBack leaves right left leaf = { leaves leaf with left := link } := by
  cases right with
  | none => exact ⟨_, rfl⟩
  | some node =>
      by_cases same : leaf = node
      · subst same
        exact ⟨left, by simp [linkBack]⟩
      · exact ⟨_, Function.update_of_ne same _ _⟩

@[simp] theorem linkBack_list : (linkBack leaves right left leaf).list = (leaves leaf).list := by
  obtain ⟨link, same⟩ := @linkBack_eq _ leaves right left leaf
  rw [same]
  rfl

@[simp] theorem linkBack_numKeys :
    (linkBack leaves right left leaf).numKeys = (leaves leaf).numKeys := by
  obtain ⟨link, same⟩ := @linkBack_eq _ leaves right left leaf
  rw [same]

@[simp] theorem linkBack_right :
    (linkBack leaves right left leaf).right = (leaves leaf).right := by
  obtain ⟨link, same⟩ := @linkBack_eq _ leaves right left leaf
  rw [same]

@[simp] theorem linkBack_seq : (linkBack leaves right left leaf).seq = (leaves leaf).seq := by
  obtain ⟨link, same⟩ := @linkBack_eq _ leaves right left leaf
  rw [same]

@[simp] theorem linkBack_left : (linkBack leaves right left leaf).left =
    pointBack (fun leaf => (leaves leaf).left) right left leaf := by
  cases right with
  | none => rfl
  | some node =>
      by_cases same : leaf = node
      · subst same
        simp [linkBack, pointBack]
      · simp [linkBack, pointBack, same]

/-- The memory after a split. -/
def afterSplit (leaves : Leaves Key) (leaf fresh : LeafId) (rest sibling : LeafNode Key) :
    Leaves Key :=
  Function.update (Function.update
    (linkBack leaves (leaves leaf).right (some fresh)) leaf rest) fresh sibling

variable {fresh other : LeafId} {rest sibling : LeafNode Key}

@[simp] theorem afterSplit_fresh : afterSplit leaves leaf fresh rest sibling fresh = sibling :=
  Function.update_self ..

theorem afterSplit_leaf (apart : leaf ≠ fresh) :
    afterSplit leaves leaf fresh rest sibling leaf = rest := by
  rw [afterSplit, Function.update_of_ne apart, Function.update_self]

/-- Other leaves may only get another left neighbour. -/
theorem afterSplit_of_ne (notLeaf : other ≠ leaf) (notFresh : other ≠ fresh) :
    afterSplit leaves leaf fresh rest sibling other =
      linkBack leaves (leaves leaf).right (some fresh) other := by
  rw [afterSplit, Function.update_of_ne notFresh, Function.update_of_ne notLeaf]

end LinkBack

/-! ## Splitting -/

/-- Both parts of a split together have the entry in its place. -/
theorem split_list {node fresh : LeafNode Key} {k : Nat} (full : node.numKeys = nodeKeys)
    (inside : k ≤ node.numKeys) (entry : Key × NodeId) :
    (node.split fresh k entry).1.list ++ (node.split fresh k entry).2.list =
      node.list.take k ++ entry :: node.list.drop k := by
  have count : node.numKeys - threshold = 7 := by rw [full]; rfl
  have half : threshold ≤ node.numKeys := by rw [full]; decide
  rw [LeafNode.split]
  by_cases last : node.right = none ∧ k = node.numKeys
  · simp only [if_pos last]
    have allBefore : node.list.take k = node.list := List.take_of_length_le (by simp [last.2])
    have noneBehind : node.list.drop k = [] := List.drop_of_length_le (by simp [last.2])
    rw [list_place le_rfl, allBefore, noneBehind]
    simp [LeafNode.list, Slots.list]
  · have lower : LeafNode.list { node with numKeys := threshold } = node.list.take threshold :=
      Slots.list_of_le half
    have upper : LeafNode.list { fresh with
        numKeys := 7
        entries := Slots.copyTo node.entries threshold fresh.entries 7 } =
          node.list.drop threshold := by
      have copied := @Slots.list_copyTo _ node.entries fresh.entries 7 threshold
      rwa [show threshold + 7 = node.numKeys from full.symm] at copied
    simp only [if_neg last, count]
    by_cases right : threshold ≤ k
    · obtain ⟨more, rfl⟩ := Nat.exists_eq_add_of_le right
      have room : more ≤ 7 := by
        rw [full] at inside
        exact Nat.le_of_add_le_add_left inside
      simp only [if_pos right, Nat.add_sub_cancel_left]
      rw [list_place (by exact room), lower, upper, Slots.insert_right]
    · have left : k ≤ threshold := (not_le.mp right).le
      simp only [if_neg right]
      rw [list_place (by exact left), lower, upper, Slots.insert_left _ left]

/-- Neither part is empty or too large; only a leaf at the right end is left as it is. -/
theorem split_numKeys {node fresh : LeafNode Key} {k : Nat} (full : node.numKeys = nodeKeys)
    (entry : Key × NodeId) :
    (0 < (node.split fresh k entry).1.numKeys ∧
        (node.split fresh k entry).1.numKeys ≤ nodeKeys) ∧
      (0 < (node.split fresh k entry).2.numKeys ∧
        (node.split fresh k entry).2.numKeys ≤ nodeKeys) ∧
      ((node.split fresh k entry).2.numKeys = 1 → node.right = none) := by
  have count : node.numKeys - threshold = 7 := by rw [full]; rfl
  rw [LeafNode.split]
  by_cases last : node.right = none ∧ k = node.numKeys
  · simp only [if_pos last]
    exact ⟨by simp [full, nodeKeys], by simp [LeafNode.place, nodeKeys], fun _ => last.1⟩
  · simp only [if_neg last, count]
    split
    · exact ⟨by simp [threshold, nodeKeys], by simp [LeafNode.place, nodeKeys],
        by simp [LeafNode.place]⟩
    · exact ⟨by simp [LeafNode.place, threshold, nodeKeys], by simp [nodeKeys], by simp⟩

variable [LinearOrder Key]

/-! ## Searching -/

namespace LeafNode

variable {leaf : LeafNode Key} {key : Key} {node : NodeId}

/-- The first entry has the least key. -/
theorem first_le (sorted : Ascending leaf.list) {entry : Key × NodeId}
    (member : entry ∈ leaf.list) : (leaf.entries 0).1 ≤ entry.1 := by
  cases count : leaf.numKeys with
  | zero => simp [list, count, Slots.list] at member
  | succ left =>
      have split : leaf.list = leaf.entries 0 ::
          Slots.list (fun index => leaf.entries (index + 1)) left := by
        rw [list, count, Slots.list_succ_cons]
      rw [split] at sorted member
      rcases List.mem_cons.mp member with rfl | later
      · exact le_rfl
      · exact ((List.pairwise_cons.mp sorted).1 entry later).le

/-- A key has one place. -/
theorem place_unique (sorted : Ascending leaf.list) {one two : Nat} (first : one < leaf.numKeys)
    (second : two < leaf.numKeys) (same : (leaf.entries one).1 = (leaf.entries two).1) :
    one = two := by
  have distinct : (leaf.list.map Prod.fst).Nodup :=
    List.pairwise_map.mpr (sorted.imp fun ordered => ordered.ne)
  have firstBound : one < (leaf.list.map Prod.fst).length := by simpa using first
  have secondBound : two < (leaf.list.map Prod.fst).length := by simpa using second
  have sameKey : (leaf.list.map Prod.fst).get ⟨one, firstBound⟩ =
      (leaf.list.map Prod.fst).get ⟨two, secondBound⟩ := by simpa [list] using same
  exact congrArg Fin.val (List.nodup_iff_injective_get.mp distinct sameKey)

theorem slotOf_le : leaf.slotOf key ≤ leaf.numKeys := Slots.scan_le

theorem take_slotOf :
    leaf.list.take (leaf.slotOf key) = leaf.list.takeWhile fun entry => entry.1 < key :=
  Slots.take_scan

theorem drop_slotOf :
    leaf.list.drop (leaf.slotOf key) = leaf.list.dropWhile fun entry => entry.1 < key :=
  Slots.drop_scan

/-- The entries before the slot are smaller. -/
theorem lt_of_mem_take {entry : Key × NodeId}
    (member : entry ∈ leaf.list.take (leaf.slotOf key)) : entry.1 < key :=
  lt_of_mem_takeWhile (by rwa [← take_slotOf])

/-- The entries from the slot on are not. -/
theorem le_of_mem_drop (sorted : Ascending leaf.list) {entry : Key × NodeId}
    (member : entry ∈ leaf.list.drop (leaf.slotOf key)) : key ≤ entry.1 :=
  le_of_mem_dropWhile sorted (by rwa [← drop_slotOf])

/-- The entry at the slot is the first of the others. -/
theorem drop_eq_cons (inside : leaf.slotOf key < leaf.numKeys) :
    leaf.list.drop (leaf.slotOf key) =
      leaf.entries (leaf.slotOf key) :: leaf.list.drop (leaf.slotOf key + 1) := by
  rw [List.drop_eq_getElem_cons (by simpa using inside)]
  congr 1
  exact Slots.getElem_list _

/-- The slot of a stored key is its entry. -/
theorem entries_slotOf (sorted : Ascending leaf.list) (member : (key, node) ∈ leaf.list) :
    leaf.slotOf key < leaf.numKeys ∧ leaf.entries (leaf.slotOf key) = (key, node) := by
  have behind : (key, node) ∈ leaf.list.drop (leaf.slotOf key) := by
    rw [← List.take_append_drop (leaf.slotOf key) leaf.list] at member
    rcases List.mem_append.mp member with before | behind
    · exact absurd (lt_of_mem_take before) (lt_irrefl key)
    · exact behind
  have inside : leaf.slotOf key < leaf.numKeys := by
    by_contra outside
    rw [List.drop_of_length_le (by simpa using not_lt.mp outside)] at behind
    cases behind
  refine ⟨inside, ?_⟩
  have reached : key ≤ (leaf.entries (leaf.slotOf key)).1 :=
    le_of_mem_drop sorted (by rw [drop_eq_cons inside]; exact List.mem_cons_self)
  have rest := sorted.sublist (List.drop_sublist (leaf.slotOf key) leaf.list)
  rw [drop_eq_cons inside] at behind rest
  rcases List.mem_cons.mp behind with same | later
  · exact same.symm
  · exact absurd ((List.pairwise_cons.mp rest).1 _ later) reached.not_gt

/-- The search finds what is stored. -/
theorem find_eq_some (sorted : Ascending leaf.list) :
    leaf.find key = some node ↔ (key, node) ∈ leaf.list := by
  constructor
  · intro found
    simp only [find] at found
    split at found
    · rename_i here
      obtain ⟨inside, same⟩ := here
      have value : (leaf.entries (leaf.slotOf key)).2 = node := Option.some.inj found
      exact Slots.mem_list.mpr ⟨_, inside, Prod.ext same value⟩
    · cases found
  · intro member
    obtain ⟨inside, entry⟩ := entries_slotOf sorted member
    simp [find, inside, entry]

/-- A key that is not stored comes between the entries before the slot and the others. -/
theorem lt_of_mem_drop (sorted : Ascending leaf.list) (absent : ∀ node, (key, node) ∉ leaf.list)
    {entry : Key × NodeId} (member : entry ∈ leaf.list.drop (leaf.slotOf key)) :
    key < entry.1 := by
  refine lt_of_le_of_ne (le_of_mem_drop sorted member) ?_
  rintro rfl
  exact absent entry.2 (List.mem_of_mem_drop member)

end LeafNode

/-! ## Insertion -/

/-- The entries of a leaf with one more. -/
def LeafNode.with (leaf : LeafNode Key) (key : Key) (node : NodeId) : List (Key × NodeId) :=
  leaf.list.take (leaf.slotOf key) ++ (key, node) :: leaf.list.drop (leaf.slotOf key)

section Insert

variable {leaves : Leaves Key} {leaf fresh : LeafId} {key : Key} {dummyval node : NodeId}

theorem mem_with {entry : Key × NodeId} :
    entry ∈ (leaves leaf).with key node ↔ entry ∈ (leaves leaf).list ∨ entry = (key, node) := by
  rw [LeafNode.with, List.mem_append, List.mem_cons]
  conv_rhs => rw [← List.take_append_drop ((leaves leaf).slotOf key) (leaves leaf).list]
  rw [List.mem_append]
  tauto

theorem with_ascending (sorted : Ascending (leaves leaf).list)
    (absent : ∀ node, (key, node) ∉ (leaves leaf).list) :
    Ascending ((leaves leaf).with key node) := by
  apply Ascending.insert
  · rw [List.take_append_drop]
    exact sorted
  · exact fun entry => LeafNode.lt_of_mem_take
  · exact fun entry => LeafNode.lt_of_mem_drop sorted absent

/-- The key is found. -/
theorem leafInsert_found (sorted : Ascending (leaves leaf).list)
    (member : (key, node) ∈ (leaves leaf).list) :
    leafInsert leaves key leaf dummyval fresh = ⟨leaves, none, node, false⟩ := by
  obtain ⟨inside, entry⟩ := LeafNode.entries_slotOf sorted member
  simp [leafInsert, inside, entry]

theorem not_found (absent : ∀ node, (key, node) ∉ (leaves leaf).list) :
    ¬((leaves leaf).slotOf key < (leaves leaf).numKeys ∧
      ((leaves leaf).entries ((leaves leaf).slotOf key)).1 = key) := by
  rintro ⟨inside, same⟩
  exact absent _ (Slots.mem_list.mpr ⟨_, inside, Prod.ext same rfl⟩)

/-- There is room for the entry. -/
theorem leafInsert_room (absent : ∀ node, (key, node) ∉ (leaves leaf).list)
    (room : (leaves leaf).numKeys ≠ nodeKeys) :
    ∃ inserted : LeafNode Key,
      leafInsert leaves key leaf dummyval fresh =
        ⟨Function.update leaves leaf inserted, none, dummyval, true⟩ ∧
      inserted.list = (leaves leaf).with key dummyval ∧
      inserted.numKeys = (leaves leaf).numKeys + 1 ∧
      inserted.left = (leaves leaf).left ∧ inserted.right = (leaves leaf).right ∧
      inserted.seq = ((leaves leaf).seq + 1) % wordBound := by
  refine ⟨{ (leaves leaf).place ((leaves leaf).slotOf key) (key, dummyval) with
    seq := ((leaves leaf).seq + 1) % wordBound }, ?_, ?_, rfl, rfl, rfl, rfl⟩
  · simp only [leafInsert, if_neg (not_found absent), if_neg room]
  · exact list_place LeafNode.slotOf_le _

/-- A split leaf and its sibling. -/
structure Split (leaves : Leaves Key) (leaf fresh : LeafId) (key : Key) (dummyval : NodeId)
    (rest sibling : LeafNode Key) : Prop where
  joined : rest.list ++ sibling.list = (leaves leaf).with key dummyval
  rest_keys : 0 < rest.numKeys ∧ rest.numKeys ≤ nodeKeys
  sibling_keys : 0 < sibling.numKeys ∧ sibling.numKeys ≤ nodeKeys
  alone : sibling.numKeys = 1 → (leaves leaf).right = none
  rest_left : rest.left = (leaves leaf).left
  rest_right : rest.right = some fresh
  rest_seq : rest.seq = ((leaves leaf).seq + 1) % wordBound
  sibling_left : sibling.left = some leaf
  sibling_right : sibling.right = (leaves leaf).right

/-- The leaf is full. -/
theorem leafInsert_full (absent : ∀ node, (key, node) ∉ (leaves leaf).list)
    (full : (leaves leaf).numKeys = nodeKeys) :
    ∃ rest sibling : LeafNode Key,
      leafInsert leaves key leaf dummyval fresh =
        ⟨afterSplit leaves leaf fresh rest sibling, some fresh, dummyval, true⟩ ∧
      Split leaves leaf fresh key dummyval rest sibling := by
  simp only [leafInsert, if_neg (not_found absent), if_pos full]
  obtain ⟨restKeys, siblingKeys, alone⟩ :=
    @split_numKeys _ (leaves leaf) (leaves fresh) ((leaves leaf).slotOf key) full (key, dummyval)
  refine ⟨_, _, rfl, ?_, restKeys, siblingKeys, alone, ?_, rfl, rfl, rfl, rfl⟩
  · exact split_list full LeafNode.slotOf_le (key, dummyval)
  · simp only [LeafNode.split]
    split
    · rfl
    · split <;> rfl

end Insert

end Rocc.Memstore.BPlusTree
