import Rocc.Memstore.MemstoreBPlusTree.Scan

/-!
# Range scans of transactions

`RTXIterator` runs an iterator of a table and stops at records that have a value; a record
without one was deleted.
-/

namespace Rocc.Rtx

open Memstore Memstore.BPlusTree Memstore.MemstoreBPlusTree Fences

variable {Thread : Type} [DecidableEq Thread]

/-- `RTXIterator`; `prev_link_` is the address of the `seq` of a leaf. -/
structure RTXIterator where
  iter : Iterator Key
  cur : Option NodeId
  val : Option Nat
  prevLink : Option LeafId

namespace RTXIterator

/-- `valid`. -/
def valid (iterator : RTXIterator) (store : Store Thread) : Bool :=
  iterator.cur.any fun node => (store.nodes node).value.isSome

/-- `value`. -/
def value (iterator : RTXIterator) (store : Store Thread) : Option Nat :=
  if iterator.valid store then iterator.val else none

/-- The loops that skip deleted records.  The one in `next` also keeps the link. -/
def skip (store : Store Thread) (linked : Bool) : Nat → RTXIterator → Option RTXIterator
  | 0, _ => none
  | fuel + 1, iterator =>
      if iterator.iter.valid store.tree.leaves then
        let cur := iterator.iter.curNode store.tree.leaves
        let iterator := { iterator with
          cur := cur
          val := cur.bind fun node => (store.nodes node).value
          prevLink := if linked then iterator.iter.link else iterator.prevLink }
        if iterator.val.isSome then
          some iterator
        else
          (store.next iterator.iter).bind fun moved =>
            skip store linked fuel { iterator with iter := moved.1 }
      else
        some { iterator with cur := none }

/-- `seek`.  No loop passes more records than were allocated. -/
def seek (iterator : RTXIterator) (store : Store Thread) (key : Key) : Option RTXIterator :=
  (store.seek iterator.iter key).bind fun iter =>
    let iterator := { iterator with iter := iter, cur := iter.curNode store.tree.leaves }
    if iter.valid store.tree.leaves then
      skip store false (store.nextNode + 1) iterator
    else
      some iterator

/-- `next`. -/
def next (iterator : RTXIterator) (store : Store Thread) : Option RTXIterator :=
  (store.next iterator.iter).bind fun moved =>
    skip store true (store.nextNode + 1) { iterator with iter := moved.1 }

/-- What a scan reads from here on: the key, `node()` and `value()` until `valid()` is false.
There is no result if it takes `fuel` steps or a step fails. -/
def collect (store : Store Thread) :
    Nat → RTXIterator → Option (List (Key × Option NodeId × Option Nat))
  | 0, _ => none
  | fuel + 1, iterator =>
      if iterator.valid store then
        (iterator.next store).bind fun moved => (collect store fuel moved).map fun records =>
          (iterator.iter.key, iterator.cur, iterator.value store) :: records
      else
        some []

/-! ## What the loops find -/

variable {store : Store Thread}

/-- The record of an entry, if it was not deleted. -/
def live (store : Store Thread) (entry : Key × NodeId) : Option (Key × NodeId × Nat) :=
  (store.nodes entry.2).value.map fun value => (entry.1, entry.2, value)

omit [DecidableEq Thread] in
theorem fst_of_live {entry : Key × NodeId} {record : Key × NodeId × Nat}
    (isLive : live store entry = some record) : record.1 = entry.1 := by
  obtain ⟨value, -, rfl⟩ := Option.map_eq_some_iff.mp isLive
  rfl

omit [DecidableEq Thread] in
theorem mem_live {entries : List (Key × NodeId)} {key : Key} {node : NodeId} {value : Nat} :
    (key, node, value) ∈ entries.filterMap (live store) ↔
      (key, node) ∈ entries ∧ (store.nodes node).value = some value := by
  rw [List.mem_filterMap]
  constructor
  · rintro ⟨entry, member, isLive⟩
    obtain ⟨read, isValue, same⟩ := Option.map_eq_some_iff.mp isLive
    obtain ⟨rfl, rfl, rfl⟩ := Prod.mk.injEq .. ▸ same
    exact ⟨member, isValue⟩
  · rintro ⟨member, isValue⟩
    exact ⟨(key, node), member, by rw [live, isValue, Option.map_some]⟩

/-- The iterator is on the first live record of the remaining entries. -/
structure Ahead (iterator : RTXIterator) (store : Store Thread)
    (passed rest : List (Key × NodeId)) : Prop where
  iter : iterator.iter.Ahead store.tree passed rest
  ended : rest = [] → iterator.cur = none
  on : ∀ entry others, rest = entry :: others →
    iterator.cur = some entry.2 ∧ iterator.val = (store.nodes entry.2).value ∧
      iterator.val.isSome = true

omit [DecidableEq Thread] in
theorem skip_spec (inv : store.Inv) (linked : Bool) {iterator : RTXIterator}
    {passed rest : List (Key × NodeId)} (ahead : iterator.iter.Ahead store.tree passed rest)
    {fuel : Nat} (enough : rest.length < fuel) :
    ∃ after skipped remaining, skip store linked fuel iterator = some after ∧
      rest = skipped ++ remaining ∧ (∀ entry ∈ skipped, live store entry = none) ∧
      after.Ahead store (passed ++ skipped) remaining := by
  induction fuel generalizing iterator passed rest with
  | zero => exact absurd enough (Nat.not_lt_zero _)
  | succ fuel ih =>
      cases rest with
      | nil =>
          have invalid : iterator.iter.valid store.tree.leaves = false := by
            rw [Iterator.valid, ahead.ended rfl, Option.any_none]
          refine ⟨{ iterator with cur := none }, [], [], ?_, rfl, by simp, ?_⟩
          · rw [skip, invalid, if_neg Bool.false_ne_true]
          · rw [List.append_nil]
            exact ⟨ahead, fun _ => rfl, by simp⟩
      | cons entry others =>
          obtain ⟨leaf, on, isEntry⟩ := ahead.on entry others rfl
          have valid := on.valid inv.wellFormed
          have record : iterator.iter.value = entry.2 := congrArg Prod.snd isEntry
          rw [skip, valid, if_pos rfl, Iterator.curNode, valid, if_pos rfl, record]
          cases found : (store.nodes entry.2).value with
          | some value =>
              refine ⟨{ iterator with
                cur := some entry.2
                val := some value
                prevLink := if linked then iterator.iter.link else iterator.prevLink },
                [], entry :: others, ?_, rfl, by simp, ?_⟩
              · simp only [Option.bind_some, found, Option.isSome_some, if_true]
              · rw [List.append_nil]
                refine ⟨ahead, by simp, fun other rest isRest => ?_⟩
                obtain ⟨rfl, -⟩ := List.cons.inj isRest
                exact ⟨rfl, found.symm, rfl⟩
          | none =>
              obtain ⟨moved, same, isNext, movedAhead⟩ :=
                inv.wellFormed.next_ahead ahead inv.length_flat_le
              obtain ⟨after, skipped, remaining, isSkip, split, dead, afterAhead⟩ :=
                @ih { iterator with
                  iter := moved, cur := some entry.2, val := none
                  prevLink := if linked then iterator.iter.link else iterator.prevLink }
                  _ _ movedAhead (Nat.lt_of_succ_lt_succ enough)
              refine ⟨after, entry :: skipped, remaining, ?_, by rw [split]; rfl, ?_, ?_⟩
              · simp only [Option.bind_some, found, Option.isSome_none, Bool.false_eq_true,
                  if_false, Store.next, isNext]
                exact isSkip
              · intro other member
                rcases List.mem_cons.mp member with rfl | later
                · rw [live, found, Option.map_none]
                · exact dead other later
              · rw [List.append_cons]
                exact afterAhead

omit [DecidableEq Thread] in
/-- There are no more entries than records. -/
theorem length_contents_le (inv : store.Inv) : store.tree.contents.length ≤ store.nextNode := by
  have inside : store.tree.contents.map Prod.snd ⊆ List.range store.nextNode :=
    fun node member => List.mem_range.mpr (inv.nodes.used_lt node member)
  simpa using (inv.distinct.subperm inside).length_le

omit [DecidableEq Thread] in
theorem length_rest_lt (inv : store.Inv) {iterator : Iterator Key}
    {passed rest : List (Key × NodeId)} (ahead : iterator.Ahead store.tree passed rest) :
    rest.length < store.nextNode + 1 := by
  have count := length_contents_le inv
  rw [ahead.split, List.length_append] at count
  omega

omit [DecidableEq Thread] in
/-- From here on a scan reads the live records that remain. -/
theorem collect_spec (inv : store.Inv) {iterator : RTXIterator} {passed rest : List (Key × NodeId)}
    (ahead : iterator.Ahead store passed rest) {fuel : Nat}
    (enough : (rest.filterMap (live store)).length < fuel) :
    iterator.collect store fuel = some ((rest.filterMap (live store)).map fun record =>
      (record.1, some record.2.1, some record.2.2)) := by
  induction fuel generalizing iterator passed rest with
  | zero => exact absurd enough (Nat.not_lt_zero _)
  | succ fuel ih =>
      cases rest with
      | nil => simp [collect, valid, ahead.ended rfl]
      | cons entry others =>
          obtain ⟨cur, val, present⟩ := ahead.on entry others rfl
          obtain ⟨value, isValue⟩ := Option.isSome_iff_exists.mp present
          have record : (store.nodes entry.2).value = some value := val.symm.trans isValue
          obtain ⟨leaf, -, isEntry⟩ := ahead.iter.on entry others rfl
          have key : iterator.iter.key = entry.1 := congrArg Prod.fst isEntry
          have valid : iterator.valid store = true := by
            rw [RTXIterator.valid, cur, Option.any_some, record, Option.isSome_some]
          obtain ⟨moved, same, isNext, movedAhead⟩ :=
            inv.wellFormed.next_ahead ahead.iter inv.length_flat_le
          obtain ⟨after, skipped, remaining, isSkip, split, dead, afterAhead⟩ :=
            @skip_spec _ store inv true { iterator with iter := moved } _ _ movedAhead _
                (length_rest_lt inv movedAhead)
          have isNext : iterator.next store = some after := by
            rw [next, Store.next, isNext, Option.bind_some, isSkip]
          have skippedDead : skipped.filterMap (live store) = [] :=
            List.filterMap_eq_nil_iff.mpr dead
          have rest : (entry :: others).filterMap (live store) =
              (entry.1, entry.2, value) :: remaining.filterMap (live store) := by
            rw [List.filterMap_cons_some (by rw [live, record, Option.map_some]), split,
              List.filterMap_append, skippedDead, List.nil_append]
          rw [rest] at enough ⊢
          rw [collect, if_pos valid, isNext, Option.bind_some,
            ih afterAhead (Nat.lt_of_succ_lt_succ enough), Option.map_some, List.map_cons, key, cur,
            RTXIterator.value, if_pos valid, isValue]

omit [DecidableEq Thread] in
/-- `seek` stops at the first live record that is not below the key. -/
theorem seek_spec (inv : store.Inv) (iterator : RTXIterator) (start : Key) :
    ∃ first passed skipped remaining, iterator.seek store start = some first ∧
      store.tree.contents = passed ++ (skipped ++ remaining) ∧
      (∀ entry ∈ passed, ¬start ≤ entry.1) ∧
      (∀ entry ∈ skipped ++ remaining, start ≤ entry.1) ∧
      (∀ entry ∈ skipped, live store entry = none) ∧
      first.Ahead store (passed ++ skipped) remaining := by
  obtain ⟨found, isSeek, reaches⟩ := inv.seek iterator.iter start
  obtain ⟨passed, rest, ahead, below, above⟩ :=
    reaches.ahead inv.wellFormed.contents_ascending fun less reached => reached.trans less.le
  have seek : iterator.seek store start =
      skip store false (store.nextNode + 1)
        { iterator with iter := found, cur := found.curNode store.tree.leaves } := by
    rw [RTXIterator.seek, isSeek, Option.bind_some]
    cases valid : found.valid store.tree.leaves with
    | true => rfl
    | false => simp [skip, valid, Iterator.curNode]
  obtain ⟨first, skipped, remaining, isSkip, split, dead, firstAhead⟩ :=
    @skip_spec _ store inv false
      { iterator with iter := found, cur := found.curNode store.tree.leaves } _ _ ahead _
      (length_rest_lt inv ahead)
  refine ⟨first, passed, skipped, remaining, seek.trans isSkip, ?_, below, ?_, dead, firstAhead⟩
  · rw [ahead.split, split]
  · rw [← split]
    exact above

end RTXIterator

/-- Whatever records have no value: `seek` and then `next` until the iterator is invalid read,
in increasing order, exactly the keys from `start` on whose record has a value, with the
record and the value; and behind the last key `seek` leaves the iterator invalid. -/
theorem seek_enumerates (calls : List (Call Thread)) (nodes : NodeId → MemstoreBPlusTree.MemNode)
    (iterator : RTXIterator) (start : Key) :
    let store := { (Store.init.run calls).1 with nodes := nodes }
    ∃ (first : RTXIterator) (records : List (Key × NodeId × Nat)),
      iterator.seek store start = some first ∧
      (∀ fuel, records.length < fuel → first.collect store fuel =
        some (records.map fun record => (record.1, some record.2.1, some record.2.2))) ∧
      records.Pairwise (fun one two => one.1 < two.1) ∧
      (∀ key node value, (key, node, value) ∈ records ↔
        start ≤ key ∧ store.get key = some (some node) ∧ (nodes node).value = some value) ∧
      ((∀ key, start ≤ key → ¬store.Stored key) → first.valid store = false) := by
  obtain ⟨loaded, -⟩ := (@Store.inv_init Thread).run calls
  have inv : Store.Inv { (Store.init.run calls).1 with nodes := nodes } :=
    ⟨loaded.wellFormed, loaded.rooted, loaded.distinct, loaded.nodes, loaded.leaves⟩
  intro store
  change store.Inv at inv
  obtain ⟨first, passed, skipped, remaining, isSeek, split, below, above, dead, ahead⟩ :=
    RTXIterator.seek_spec inv iterator start
  have sorted : Ascending (skipped ++ remaining) := by
    have ascending := inv.wellFormed.contents_ascending
    rw [split] at ascending
    exact (List.pairwise_append.mp ascending).2.1
  refine ⟨first, remaining.filterMap (RTXIterator.live store), isSeek, ?_, ?_, ?_, ?_⟩
  · intro fuel enough
    exact RTXIterator.collect_spec inv ahead enough
  · refine (List.pairwise_append.mp sorted).2.1.filterMap _ fun one two less record isOne other
      isTwo => ?_
    rwa [← RTXIterator.fst_of_live isOne, ← RTXIterator.fst_of_live isTwo] at less
  · intro key node value
    obtain ⟨found, isGet, isFound⟩ := inv.get key
    rw [isGet, Option.some.injEq, isFound node, split, RTXIterator.mem_live]
    constructor
    · rintro ⟨member, alive⟩
      exact ⟨above _ (List.mem_append_right _ member),
        List.mem_append_right _ (List.mem_append_right _ member), alive⟩
    · rintro ⟨reached, member, alive⟩
      refine ⟨?_, alive⟩
      rcases List.mem_append.mp member with before | inRest
      · exact absurd reached (below _ before)
      · rcases List.mem_append.mp inRest with wasDead | later
        · have none := dead _ wasDead
          rw [RTXIterator.live, alive] at none
          cases none
        · exact later
  · intro absent
    have none : remaining = [] := by
      refine List.eq_nil_iff_forall_not_mem.mpr fun entry member => ?_
      have inRest : entry ∈ skipped ++ remaining := List.mem_append_right _ member
      refine absent entry.1 (above _ inRest) (inv.stored_iff.mpr ⟨entry.2, ?_⟩)
      rw [split]
      exact List.mem_append_right _ inRest
    rw [RTXIterator.valid, ahead.ended none, Option.any_none]

end Rocc.Rtx
