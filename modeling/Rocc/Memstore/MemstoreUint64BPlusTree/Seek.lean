import Rocc.Memstore.BPlusTree.Iterator
import Rocc.Memstore.MemstoreUint64BPlusTree

/-!
# `Seek` in `MemstoreUint64BPlusTree`

`FindLeaf` goes to the left of a separator that equals the key, so the key may be the first
one of the next leaf; the step to the right finds it there.  Behind the last key there is no
leaf to step to, and `Seek` reads the one it has stepped to without a test.
-/

namespace Rocc.Memstore.MemstoreUint64BPlusTree

open BPlusTree Fences

variable {Thread : Type} {length : Nat}

/-- `Seek`, with the descent of `FindLeaf`. -/
def Store.seek (store : Store Thread length) (iterator : Iterator (Key length))
    (key : Key length) : Option (Iterator (Key length)) :=
  (store.tree.findLeaf fun separator => separator < key).bind fun leaf =>
    let found := iterator.position store.tree.leaves leaf key
    found.node.map fun node => found.load store.tree.leaves node

/-- The iterator is on the first stored key that is not below the given one, with its record,
or invalid if there is none. -/
def Store.Finds (store : Store Thread length) (found : Iterator (Key length))
    (key : Key length) : Prop :=
  (∃ leaf, found.node = some leaf ∧ found.valid store.tree.leaves = true ∧
      (store.tree.leaves leaf).entries found.leafIndex.toNat = (found.key, found.value) ∧
      key ≤ found.key ∧ store.get found.key = some (some found.value) ∧
      ∀ other node, key ≤ other → store.get other = some (some node) → found.key ≤ other) ∨
    found.valid store.tree.leaves = false ∧
      ∀ other node, key ≤ other → store.get other ≠ some (some node)

/-- `Seek` has a result, and it is on the entry that `Get` finds for a stored key. -/
def Store.Seeks (store : Store Thread length) (iterator : Iterator (Key length))
    (key : Key length) : Prop :=
  ∃ found, store.seek iterator key = some found ∧ store.Finds found key ∧
    ∀ node, store.get key = some (some node) →
      found.key = key ∧ found.curNode store.tree.leaves = some node

variable {store : Store Thread length}

/-- The two outcomes of the search. -/
theorem Store.Inv.seek (inv : store.Inv) (rooted : store.tree.root ≠ none)
    (iterator : Iterator (Key length)) (key : Key length) :
    (store.seek iterator key = none ∧ ∀ entry ∈ store.tree.contents, ¬key ≤ entry.1) ∨
      ∃ found leaf, store.seek iterator key = some found ∧ found.On store.tree leaf ∧
        found.seq = (store.tree.leaves leaf).seq ∧
        IsFirst store.tree.contents (fun stored => key ≤ stored) (found.key, found.value) := by
  obtain ⟨before, fence, leaf, behind, descended, split, reached, ended⟩ :=
    @BPlusTree.Tree.WellFormed.findLeaf _ _ store.tree inv.wellFormed rooted
      (fun separator => separator < key)
      (fun fence => fence ≤ key) (fun fence => (key : WithBot (Key length)) ≤ fence)
      (fun separator passed => WithBot.coe_le_coe.mpr (le_of_lt (by simpa using passed)))
      (fun separator failed => WithBot.coe_le_coe.mpr (by simpa using failed))
      (fun one two above less => above.trans less.le) bot_le
  rcases @BPlusTree.Tree.WellFormed.position_spec _ _ _ iterator inv.wellFormed _ _ _ _ split key
    reached ended with ⟨node, absent⟩ | ⟨next, node, reaches⟩
  · refine .inl ⟨?_, absent⟩
    simp only [Store.seek, descended, Option.bind_some, node, Option.map_none]
  · have seek : store.seek iterator key =
        some ((iterator.position store.tree.leaves leaf key).load store.tree.leaves next) := by
      simp only [Store.seek, descended, Option.bind_some, node, Option.map_some]
    rcases reaches with ⟨none, -⟩ | ⟨at', on, same, first⟩
    · exact absurd (node.symm.trans none) (by simp)
    · exact .inr ⟨_, at', seek, on, same, first⟩

section Insertions

variable [DecidableEq Thread]

/-- The calls that build a tree. -/
def Call.IsInsertion : Call Thread length → Prop
  | .getWithInsert _ _ => True
  | _ => False

instance : ∀ call : Call Thread length, Decidable call.IsInsertion
  | .getWithInsert _ _ => inferInstanceAs (Decidable True)
  | .get _ => inferInstanceAs (Decidable False)
  | .getWithDelete _ _ => inferInstanceAs (Decidable False)

/-- A tree built by insertions has a root. -/
theorem inv_of_insertions {system : System Thread length}
    (reach : Reach System.step (fun _ call => call.IsInsertion) .init system) :
    system.store.Inv ∧ system.store.tree.root ≠ none := by
  refine reach.invariant (fun system => system.store.Inv ∧ system.store.tree.root ≠ none)
    ⟨Store.inv_init, by simp [System.init, Store.init]⟩ ?_
  rintro before (key | ⟨thread, key⟩ | ⟨thread, key⟩) after ⟨inv, rooted⟩ allowed stepped
  · exact absurd allowed id
  · by_cases fits : length ≤ keyWords
    · obtain ⟨store, node, result, storeInv, entries, -⟩ :=
        @Store.Inv.getWithInsert _ _ _ before.store thread key inv fits
      simp only [System.step, Store.call, result, Option.map_some, Option.some.injEq] at stepped
      subst stepped
      exact ⟨storeInv, BPlusTree.Tree.rooted_of_mem ((entries (key, node)).mpr (.inr rfl))⟩
    · simp [System.step, Store.call, Store.getWithInsert, not_le.mp fits] at stepped
  · exact absurd allowed id

/-- `Seek` works exactly for the keys that some stored key reaches. -/
theorem seeks_iff {system : System Thread length}
    (reach : Reach System.step (fun _ call => call.IsInsertion) .init system)
    (iterator : Iterator (Key length)) (key : Key length) :
    system.store.Seeks iterator key ↔
      ∃ other node, key ≤ other ∧ system.store.get other = some (some node) := by
  obtain ⟨inv, rooted⟩ := inv_of_insertions reach
  have stored : ∀ other node, system.store.get other = some (some node) ↔
      (other, node) ∈ system.store.tree.contents := by
    intro other node
    obtain ⟨found, isGet, same⟩ := inv.get rooted other
    rw [isGet, Option.some.injEq, same]
  constructor
  · rintro ⟨found, isSeek, -⟩
    rcases inv.seek rooted iterator key with ⟨none, -⟩ | ⟨other, leaf, isOther, on, same, first⟩
    · exact absurd (none.symm.trans isSeek) (by simp)
    · exact ⟨_, _, first.qualified, (stored _ _).mpr first.member⟩
  · rintro ⟨other, node, above, present⟩
    rcases inv.seek rooted iterator key with ⟨-, absent⟩ | ⟨found, leaf, isSeek, on, same, first⟩
    · exact absurd above (absent _ ((stored other node).mp present))
    · have valid := on.valid inv.wellFormed
      obtain ⟨-, -, isEntry⟩ := on.index same.symm
      refine ⟨found, isSeek, .inl ⟨leaf, on.node, valid, isEntry, first.qualified,
        (stored _ _).mpr first.member, fun other node above present =>
          first.least _ ((stored other node).mp present) above⟩, fun node present => ?_⟩
      have inTree := (stored key node).mp present
      have isKey : found.key = key :=
        le_antisymm (first.least _ inTree le_rfl) first.qualified
      have sameEntry := inv.wellFormed.contents_ascending.value_unique first.member inTree isKey
      rw [Iterator.curNode, if_pos valid]
      exact ⟨isKey, congrArg (some ·.2) sameEntry⟩

/-- `Seek` of a stored key. -/
theorem seeks_iff_pair : ∃ system : System (Fin 1) 1, ∀ iterator,
    system.store.Seeks iterator (oneWord 1) := by
  obtain ⟨system, reach, present⟩ : ∃ system : System (Fin 1) 1,
      Reach System.step (fun _ call => call.IsInsertion) .init system ∧
        system.store.get (oneWord 2) = some (some 0) :=
    Reach.exists_of_exec [.getWithInsert 0 (oneWord 2), .getWithInsert 0 (oneWord 4)]
      (by decide +kernel)
  exact ⟨system, fun iterator =>
    (seeks_iff reach iterator (oneWord 1)).mpr ⟨oneWord 2, 0, by decide +kernel, present⟩⟩

/-- `Seek` does not survive a key behind the last one. -/
theorem not_seeks : ¬ ∀ (length : Nat) (system : System (Fin 1) length),
    Reach System.step (fun _ call => call.IsInsertion) .init system →
      ∀ iterator key, system.store.Seeks iterator key := by
  intro always
  obtain ⟨system, reach, none⟩ : ∃ system : System (Fin 1) 1,
      Reach System.step (fun _ call => call.IsInsertion) .init system ∧
        (system.store.seek ⟨none, 0, 0, none, 0, oneWord 0, 0⟩ (oneWord 3)).isNone = true :=
    Reach.exists_of_exec [.getWithInsert 0 (oneWord 2)] (by decide +kernel)
  obtain ⟨found, isSeek, -⟩ :=
    always 1 system reach ⟨.none, 0, 0, .none, 0, oneWord 0, 0⟩ (oneWord 3)
  rw [isSeek] at none
  cases none

end Insertions

end Rocc.Memstore.MemstoreUint64BPlusTree
