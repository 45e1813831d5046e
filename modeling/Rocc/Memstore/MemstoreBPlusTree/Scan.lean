import Mathlib.Data.Fintype.Card
import Rocc.Base.Run
import Rocc.Memstore.BPlusTree.Iterator
import Rocc.Memstore.MemstoreBPlusTree

/-!
# Scans of a `MemstoreBPlusTree`

An iterator is moved through the tree while any threads insert.  Every insertion into its
leaf moves the `seq` of the leaf on, and there are not enough keys for the `seq` to come
around before the iterator is moved again.
-/

namespace Rocc.Memstore.MemstoreBPlusTree

open BPlusTree Fences Rtx

variable {Thread : Type} [DecidableEq Thread]

/-- `Seek`. -/
def Store.seek (store : Store Thread) (iterator : Iterator Key) (key : Key) :
    Option (Iterator Key) :=
  (store.tree.findLeaf fun separator => separator ≤ key).map fun leaf =>
    let found := iterator.position store.tree.leaves leaf key
    match found.node with
    | some node => found.load store.tree.leaves node
    | none => found

/-- `Next`; no chain is longer than the number of leaves allocated so far. -/
def Store.next (store : Store Thread) (iterator : Iterator Key) : Option (Iterator Key × Bool) :=
  iterator.next store.tree.leaves store.nextLeaf

/-- A scan, with the keys it has returned so far, the last one first. -/
structure Scan (Thread : Type) where
  store : Store Thread
  iterator : Iterator Key
  returned : List Key

namespace Scan

/-- `Valid`. -/
def valid (scan : Scan Thread) : Bool := scan.iterator.valid scan.store.tree.leaves

/-- The iterator has been moved. -/
def moved (scan : Scan Thread) (iterator : Iterator Key) : Scan Thread where
  store := scan.store
  iterator := iterator
  returned :=
    if iterator.valid scan.store.tree.leaves then iterator.key :: scan.returned else scan.returned

/-- A scan begins with `Seek`. -/
def start (store : Store Thread) (iterator : Iterator Key) (key : Key) : Option (Scan Thread) :=
  (store.seek iterator key).map (moved ⟨store, iterator, []⟩)

/-- What happens while a scan goes on. -/
inductive Action (Thread : Type) where
  | insert (call : Call Thread)
  | next

/-- `Next` is for a valid iterator. -/
def step (scan : Scan Thread) : Action Thread → Option (Scan Thread)
  | .insert call => some { scan with store := (scan.store.call call).1 }
  | .next =>
      if scan.valid then
        (scan.store.next scan.iterator).map fun result => scan.moved result.1
      else
        none

end Scan

/-! ## Iterators between the calls -/

/-- The iterator is on an entry, and `bumps` insertions into its leaf have come since. -/
structure Tracks (iterator : Iterator Key) (tree : BPlusTree.Tree Key) (leaf : LeafId) : Prop where
  node : iterator.node = some leaf
  fence : ∃ fence, (fence, leaf) ∈ tree.flat ∧ fence ≤ iterator.key
  stored : (iterator.key, iterator.value) ∈ tree.contents
  bumps : ∃ bumps, (tree.leaves leaf).seq % wordBound = (iterator.seq + bumps) % wordBound ∧
    bumps < tree.contents.length ∧
    (bumps = 0 → 0 ≤ iterator.leafIndex ∧
      iterator.leafIndex.toNat < (tree.leaves leaf).numKeys ∧
      (tree.leaves leaf).entries iterator.leafIndex.toNat = (iterator.key, iterator.value))

namespace Tracks

variable {iterator : Iterator Key} {tree after : BPlusTree.Tree Key} {leaf : LeafId}

theorem later (tracks : Tracks iterator tree leaf) (later : tree.Later after) :
    Tracks iterator after leaf := by
  obtain ⟨fence, member, reached⟩ := tracks.fence
  obtain ⟨bumps, seq, few, index⟩ := tracks.bumps
  obtain ⟨inAfter, more, seq', count, same⟩ := later.leaves (fence, leaf) member
  refine ⟨tracks.node, ⟨fence, inAfter, reached⟩, later.entries _ tracks.stored,
    bumps + more, ?_, by omega, ?_⟩
  · rw [seq', Nat.add_mod, seq, ← Nat.add_mod, Nat.add_assoc]
  · intro none
    obtain ⟨link, isLeaf⟩ := same (by omega)
    rw [isLeaf]
    exact index (by omega)

/-- There are no more entries than keys. -/
theorem length_contents_le (wellFormed : tree.WellFormed) : tree.contents.length ≤ wordBound := by
  have distinct : (tree.contents.map Prod.fst).Nodup :=
    List.pairwise_map.mpr (wellFormed.contents_ascending.imp fun ordered => ordered.ne)
  simpa using distinct.length_le_card

/-- The `seq` of the leaf is the iterator's only if nothing was inserted there. -/
theorem on (tracks : Tracks iterator tree leaf) (wellFormed : tree.WellFormed) :
    iterator.On tree leaf := by
  refine ⟨tracks.node, tracks.fence, tracks.stored, fun same => ?_⟩
  obtain ⟨bumps, seq, few, index⟩ := tracks.bumps
  apply index
  have small : bumps < wordBound := few.trans_le (length_contents_le wellFormed)
  rw [same] at seq
  simp only [wordBound] at seq small
  omega

/-- An iterator that has just been put on an entry. -/
theorem of_on (on : iterator.On tree leaf) (same : iterator.seq = (tree.leaves leaf).seq) :
    Tracks iterator tree leaf := by
  refine ⟨on.node, on.fence, on.stored, 0, by rw [same]; rfl, ?_, fun _ => on.index same.symm⟩
  exact List.length_pos_of_mem on.stored

theorem valid (tracks : Tracks iterator tree leaf) (wellFormed : tree.WellFormed) :
    iterator.valid tree.leaves = true := (tracks.on wellFormed).valid wellFormed

end Tracks

/-! ## The invariant of a scan -/

/-- The keys stored at some time. -/
def Store.Stored (store : Store Thread) (key : Key) : Prop :=
  ∃ node, store.get key = some (some node)

/-- The scan has returned, in order, every key that it has passed. -/
structure Scan.Inv (scan : Scan Thread) (stored : Key → Prop) : Prop where
  store : scan.store.Inv
  iterator : scan.iterator.node = none ∨
    ∃ leaf, Tracks scan.iterator scan.store.tree leaf ∧
      scan.returned.head? = some scan.iterator.key
  descending : scan.returned.Pairwise (· > ·)
  present : ∀ key ∈ scan.returned, ∃ node, (key, node) ∈ scan.store.tree.contents
  kept : ∀ key, stored key → ∃ node, (key, node) ∈ scan.store.tree.contents
  complete : ∀ key, stored key →
    (scan.iterator.node = none ∨ key ≤ scan.iterator.key) → key ∈ scan.returned

namespace Store

variable {store : Store Thread}

omit [DecidableEq Thread] in
theorem Inv.stored_iff (inv : store.Inv) {key : Key} :
    store.Stored key ↔ ∃ node, (key, node) ∈ store.tree.contents := by
  obtain ⟨found, isGet, stored⟩ := inv.get key
  simp only [Stored, isGet, Option.some.injEq, stored]

omit [DecidableEq Thread] in
/-- `Seek` finds the first key that is not below the given one. -/
theorem Inv.seek (inv : store.Inv) (iterator : Iterator Key) (key : Key) :
    ∃ found, store.seek iterator key = some found ∧
      found.Reaches store.tree fun stored => key ≤ stored := by
  obtain ⟨before, fence, leaf, behind, descended, split, reached, ended⟩ :=
    @BPlusTree.Tree.WellFormed.findLeaf _ _ store.tree inv.wellFormed inv.rooted
      (fun separator => separator ≤ key)
      (fun fence => fence ≤ key) (fun fence => (key : WithBot Key) ≤ fence)
      (fun separator passed => WithBot.coe_le_coe.mpr (by simpa using passed))
      (fun separator failed => WithBot.coe_le_coe.mpr (le_of_lt (by simpa using failed)))
      (fun one two above less => above.trans less.le) bot_le
  simp only [Store.seek, descended, Option.map_some]
  refine ⟨_, rfl, ?_⟩
  rcases @BPlusTree.Tree.WellFormed.position_spec _ _ _ iterator inv.wellFormed _ _ _ _ split key
    reached ended with ⟨node, absent⟩ | ⟨next, node, reaches⟩
  · rw [node]
    exact .inl ⟨node, absent⟩
  · rw [node]
    exact reaches

omit [DecidableEq Thread] in
/-- A chain has no more leaves than were allocated. -/
theorem Inv.length_flat_le (inv : store.Inv) : store.tree.flat.length ≤ store.nextLeaf := by
  have distinct := inv.wellFormed.chained.chain.nodup
  have inside : store.tree.flat.map Prod.snd ⊆ List.range store.nextLeaf :=
    fun leaf member => List.mem_range.mpr (inv.leaves.used_lt leaf member)
  simpa using (distinct.subperm inside).length_le

end Store

namespace Scan

variable {scan : Scan Thread} {iterator : Iterator Key} {stored : Key → Prop}

omit [DecidableEq Thread] in
/-- An iterator that was put on an entry has moved the scan to it. -/
theorem moved_of_reaches (storeInv : scan.store.Inv) {qualifies : Key → Prop}
    (reaches : iterator.Reaches scan.store.tree qualifies) :
    (iterator.node = none ∧ (scan.moved iterator).returned = scan.returned ∧
        ∀ entry ∈ scan.store.tree.contents, ¬qualifies entry.1) ∨
      ∃ leaf, Tracks iterator scan.store.tree leaf ∧
        (scan.moved iterator).returned = iterator.key :: scan.returned ∧
        IsFirst scan.store.tree.contents qualifies (iterator.key, iterator.value) := by
  rcases reaches with ⟨node, absent⟩ | ⟨leaf, on, same, first⟩
  · refine .inl ⟨node, ?_, absent⟩
    simp [moved, Iterator.valid, node]
  · have tracks := Tracks.of_on on same
    refine .inr ⟨leaf, tracks, ?_, first⟩
    rw [moved, if_pos (tracks.valid storeInv.wellFormed)]

omit [DecidableEq Thread] in
theorem inv_start {store : Store Thread} (storeInv : store.Inv) {key : Key}
    (reaches : iterator.Reaches store.tree fun stored => key ≤ stored) :
    Inv (moved ⟨store, iterator, []⟩ iterator) fun other => key ≤ other ∧ store.Stored other := by
  have kept : ∀ other, key ≤ other ∧ store.Stored other →
      ∃ node, (other, node) ∈ store.tree.contents := fun other present =>
    storeInv.stored_iff.mp present.2
  rcases @moved_of_reaches _ ⟨store, iterator, []⟩ iterator storeInv _ reaches with
    ⟨node, returned, absent⟩ | ⟨leaf, tracks, returned, first⟩
  · refine ⟨storeInv, .inl node, ?_, ?_, kept, ?_⟩
    · rw [returned]
      exact List.Pairwise.nil
    · rw [returned]
      simp
    · intro other present _
      obtain ⟨node, member⟩ := kept other present
      exact absurd present.1 (absent _ member)
  · refine ⟨storeInv, .inr ⟨leaf, tracks, by rw [returned]; rfl⟩, ?_, ?_, kept, ?_⟩
    · rw [returned]
      exact List.pairwise_singleton ..
    · rw [returned]
      rintro other member
      obtain rfl := List.mem_singleton.mp member
      exact ⟨iterator.value, first.member⟩
    · rintro other present (none | below)
      · exact absurd (tracks.node.symm.trans none) (by simp)
      · obtain ⟨node, member⟩ := kept other present
        rw [returned, le_antisymm below (first.least _ member present.1)]
        exact List.mem_singleton_self _

omit [DecidableEq Thread] in
theorem Inv.moved (inv : scan.Inv stored)
    (head : scan.returned.head? = some scan.iterator.key)
    (reaches : iterator.Reaches scan.store.tree fun key => scan.iterator.key < key) :
    (scan.moved iterator).Inv stored := by
  rcases moved_of_reaches inv.store reaches with
    ⟨node, returned, absent⟩ | ⟨next, nextTracks, returned, first⟩
  · refine ⟨inv.store, .inl node, ?_, ?_, inv.kept, ?_⟩
    · rw [returned]
      exact inv.descending
    · rw [returned]
      exact inv.present
    · intro key present _
      obtain ⟨record, member⟩ := inv.kept key present
      rw [returned]
      exact inv.complete key present (.inr (not_lt.mp (absent _ member)))
  · have above : ∀ key ∈ scan.returned, key < iterator.key := by
      obtain ⟨rest, isReturned⟩ : ∃ rest, scan.returned = scan.iterator.key :: rest := by
        cases list : scan.returned with
        | nil => simp [list] at head
        | cons first rest =>
            rw [list, List.head?_cons, Option.some.injEq] at head
            exact ⟨rest, by rw [head]⟩
      have descending := inv.descending
      rw [isReturned] at descending ⊢
      intro key member
      rcases List.mem_cons.mp member with rfl | older
      · exact first.qualified
      · exact ((List.pairwise_cons.mp descending).1 key older).trans first.qualified
    refine ⟨inv.store, .inr ⟨next, nextTracks, by rw [returned]; rfl⟩, ?_, ?_, inv.kept, ?_⟩
    · rw [returned]
      exact List.pairwise_cons.mpr ⟨above, inv.descending⟩
    · rw [returned]
      intro key member
      rcases List.mem_cons.mp member with rfl | older
      · exact ⟨iterator.value, first.member⟩
      · exact inv.present key older
    · rintro key present (none | below)
      · exact absurd (nextTracks.node.symm.trans none) (by simp)
      · rw [returned]
        rcases le_or_gt key scan.iterator.key with passed | ahead
        · exact List.mem_cons_of_mem _ (inv.complete key present (.inr passed))
        · obtain ⟨record, member⟩ := inv.kept key present
          rw [le_antisymm below (first.least _ member ahead)]
          exact List.mem_cons_self

omit [DecidableEq Thread] in
/-- A valid iterator is on an entry. -/
theorem Inv.exists_tracks (inv : scan.Inv stored) (valid : scan.valid = true) :
    ∃ leaf, Tracks scan.iterator scan.store.tree leaf ∧
      scan.returned.head? = some scan.iterator.key := by
  rcases inv.iterator with none | on
  · simp [Scan.valid, Iterator.valid, none] at valid
  · exact on

omit [DecidableEq Thread] in
theorem Inv.node_eq_none (inv : scan.Inv stored) (invalid : scan.valid = false) :
    scan.iterator.node = none := by
  rcases inv.iterator with none | ⟨leaf, tracks, -⟩
  · exact none
  · rw [Scan.valid, tracks.valid inv.store.wellFormed] at invalid
    cases invalid

omit [DecidableEq Thread] in
theorem valid_of_none (none : scan.iterator.node = none) : scan.valid = false := by
  simp [Scan.valid, Iterator.valid, none]

/-- `Next` has a result. -/
theorem Inv.next (inv : scan.Inv stored) (valid : scan.valid = true) :
    ∃ after, scan.step .next = some after ∧ after.Inv stored := by
  obtain ⟨leaf, tracks, head⟩ := inv.exists_tracks valid
  obtain ⟨after, same, isNext, reaches⟩ :=
    inv.store.wellFormed.next_spec (tracks.on inv.store.wellFormed) inv.store.length_flat_le
  refine ⟨scan.moved after, ?_, inv.moved head reaches⟩
  rw [step, if_pos valid, Store.next, isNext, Option.map_some]

theorem Inv.step {after : Scan Thread} {action : Action Thread} (inv : scan.Inv stored)
    (stepped : scan.step action = some after) : after.Inv stored := by
  cases action with
  | insert call =>
      obtain rfl := Option.some.inj stepped
      have adds := inv.store.call call
      have still : ∀ key, (∃ node, (key, node) ∈ scan.store.tree.contents) →
          ∃ node, (key, node) ∈ (scan.store.call call).1.tree.contents :=
        fun key ⟨node, member⟩ => ⟨node, adds.later.entries _ member⟩
      refine ⟨adds.inv, ?_, inv.descending, fun key member => still key (inv.present key member),
        fun key present => still key (inv.kept key present), inv.complete⟩
      rcases inv.iterator with none | ⟨leaf, tracks, head⟩
      · exact .inl none
      · exact .inr ⟨leaf, tracks.later adds.later, head⟩
  | next =>
      have valid : scan.valid = true := by
        by_contra invalid
        rw [Scan.step, if_neg invalid] at stepped
        cases stepped
      obtain ⟨result, isNext, nextInv⟩ := inv.next valid
      rw [isNext, Option.some.injEq] at stepped
      exact stepped ▸ nextInv

end Scan

/-- Whatever is inserted while a scan goes on: `Seek` finds the first key that is not below
the given one; the keys returned increase and are stored; a valid iterator is on the last of
them, with its record; every key that was there at `Seek` has been returned once the iterator
has reached or passed it; and `Next` always has a result. -/
theorem scan_survives_insertions (calls : List (Call Thread)) (iterator : Iterator Key)
    (key : Key) :
    ∃ first, Scan.start (Store.init.run calls).1 iterator key = some first ∧
      ((first.valid = true ∧ key ≤ first.iterator.key ∧ first.store.Stored first.iterator.key ∧
          ∀ other, key ≤ other → first.store.Stored other → first.iterator.key ≤ other) ∨
        (first.valid = false ∧ ∀ other, key ≤ other → ¬first.store.Stored other)) ∧
      ∀ scan, Reachable Scan.step first scan →
        scan.returned.Pairwise (· > ·) ∧
        (∀ other ∈ scan.returned, scan.store.Stored other) ∧
        (scan.valid = true → scan.returned.head? = some scan.iterator.key ∧
          ∃ node, scan.iterator.curNode scan.store.tree.leaves = some node ∧
            scan.store.get scan.iterator.key = some (some node)) ∧
        (∀ other, key ≤ other → first.store.Stored other →
          (scan.valid = true → other ≤ scan.iterator.key) → other ∈ scan.returned) ∧
        (scan.valid = true → (scan.step .next).isSome = true) := by
  obtain ⟨storeInv, -⟩ := (@Store.inv_init Thread).run calls
  generalize (Store.init.run calls).1 = store at storeInv ⊢
  obtain ⟨found, isSeek, reaches⟩ := storeInv.seek iterator key
  have initially := Scan.inv_start storeInv reaches
  refine ⟨Scan.moved ⟨store, iterator, []⟩ found, by rw [Scan.start, isSeek]; rfl, ?_, ?_⟩
  · rcases reaches with ⟨node, absent⟩ | ⟨leaf, on, same, isFirst⟩
    · refine .inr ⟨Scan.valid_of_none node, fun other above isStored => ?_⟩
      obtain ⟨record, member⟩ := storeInv.stored_iff.mp isStored
      exact absent _ member above
    · refine .inl ⟨(Tracks.of_on on same).valid storeInv.wellFormed, isFirst.qualified,
        storeInv.stored_iff.mpr ⟨_, isFirst.member⟩, fun other above isStored => ?_⟩
      obtain ⟨record, member⟩ := storeInv.stored_iff.mp isStored
      exact isFirst.least _ member above
  · intro scan reach
    have inv := reach.invariant (fun scan => scan.Inv fun other => key ≤ other ∧ store.Stored other)
      initially fun before action after inv _ stepped => inv.step stepped
    refine ⟨inv.descending, fun other member => inv.store.stored_iff.mpr (inv.present other member),
      fun valid => ?_, fun other above isStored passed => ?_, fun valid => ?_⟩
    · obtain ⟨leaf, tracks, head⟩ := inv.exists_tracks valid
      refine ⟨head, scan.iterator.value, ?_, ?_⟩
      · rw [Iterator.curNode, if_pos (tracks.valid inv.store.wellFormed)]
      · obtain ⟨record, isGet, isRecord⟩ := inv.store.get scan.iterator.key
        rw [isGet, (isRecord _).mpr tracks.stored]
    · apply inv.complete other ⟨above, isStored⟩
      cases valid : scan.valid with
      | true => exact .inr (passed valid)
      | false => exact .inl (inv.node_eq_none valid)
    · obtain ⟨after, stepped, -⟩ := inv.next valid
      rw [stepped, Option.isSome_some]

end Rocc.Memstore.MemstoreBPlusTree
