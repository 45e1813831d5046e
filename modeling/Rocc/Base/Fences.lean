import Mathlib.Data.List.Nodup
import Mathlib.Data.List.TakeWhile
import Mathlib.Order.WithBot

/-!
# Sorted entries in blocks

The entries of a map, sorted by key, are kept in blocks.  Each block has a fence: no key of
the block is below it, and every key of the blocks before is.  The first fence may be
missing, which is `⊥`.  A search that ends in the last block whose fence is not above the
key finds the entry; blocks may be changed, split and dropped, and fences moved, as long as
they stay between the entries.
-/

namespace Rocc.Fences

universe u v w

variable {Key : Type u} {Value : Type v} {Block : Type w}

/-! ## Blocks -/

/-- All entries, block by block. -/
def contents (entriesOf : Block → List (Key × Value)) (blocks : List (WithBot Key × Block)) :
    List (Key × Value) :=
  blocks.flatMap fun block => entriesOf block.2

/-- Blocks whose first one has got another fence. -/
def refence (fence : WithBot Key) : List (WithBot Key × Block) → List (WithBot Key × Block)
  | [] => []
  | first :: rest => (fence, first.2) :: rest

section Contents

variable {entriesOf entriesOf' : Block → List (Key × Value)}
variable {blocks before behind : List (WithBot Key × Block)}

@[simp] theorem contents_nil : contents entriesOf ([] : List (WithBot Key × Block)) = [] := rfl

@[simp] theorem contents_cons {first : WithBot Key × Block} :
    contents entriesOf (first :: blocks) = entriesOf first.2 ++ contents entriesOf blocks := rfl

@[simp] theorem contents_append :
    contents entriesOf (before ++ behind) =
      contents entriesOf before ++ contents entriesOf behind := by
  simp [contents]

theorem mem_contents {entry : Key × Value} :
    entry ∈ contents entriesOf blocks ↔ ∃ block ∈ blocks, entry ∈ entriesOf block.2 := by
  simp [contents]

theorem contents_congr (same : ∀ block ∈ blocks, entriesOf' block.2 = entriesOf block.2) :
    contents entriesOf' blocks = contents entriesOf blocks := by
  rw [contents, contents, List.flatMap_def, List.flatMap_def, List.map_congr_left same]

variable {fence : WithBot Key}

@[simp] theorem refence_nil : refence fence ([] : List (WithBot Key × Block)) = [] := rfl

@[simp] theorem refence_cons {first : WithBot Key × Block} :
    refence fence (first :: blocks) = (fence, first.2) :: blocks := rfl

@[simp] theorem map_refence : (refence fence blocks).map Prod.snd = blocks.map Prod.snd := by
  cases blocks <;> rfl

@[simp] theorem contents_refence :
    contents entriesOf (refence fence blocks) = contents entriesOf blocks := by
  cases blocks <;> rfl

end Contents

variable [LinearOrder Key]

/-! ## Sorted entries -/

/-- Entries with strictly increasing keys. -/
abbrev Ascending (entries : List (Key × Value)) : Prop :=
  entries.Pairwise fun low high => low.1 < high.1

namespace Ascending

variable {entries front back : List (Key × Value)} {key : Key} {value : Value}

/-- A key has one value. -/
theorem value_unique (sorted : Ascending entries) {one two : Key × Value} (first : one ∈ entries)
    (second : two ∈ entries) (same : one.1 = two.1) : one = two := by
  have distinct : (entries.map Prod.fst).Nodup :=
    List.pairwise_map.mpr (sorted.imp fun ordered => ordered.ne)
  exact List.inj_on_of_nodup_map distinct first second same

/-- An entry is put between the smaller and the greater ones. -/
theorem insert (sorted : Ascending (front ++ back)) (low : ∀ entry ∈ front, entry.1 < key)
    (high : ∀ entry ∈ back, key < entry.1) : Ascending (front ++ (key, value) :: back) := by
  obtain ⟨frontSorted, backSorted, apart⟩ := List.pairwise_append.mp sorted
  refine List.pairwise_append.mpr ⟨frontSorted, List.pairwise_cons.mpr ⟨high, backSorted⟩, ?_⟩
  intro before member after behind
  rcases List.mem_cons.mp behind with rfl | later
  · exact low before member
  · exact apart before member after later

end Ascending

/-- The first of the entries whose keys qualify. -/
structure IsFirst (entries : List (Key × Value)) (qualifies : Key → Prop)
    (entry : Key × Value) : Prop where
  member : entry ∈ entries
  qualified : qualifies entry.1
  least : ∀ other ∈ entries, qualifies other.1 → entry.1 ≤ other.1

theorem IsFirst.of_split {entries front back : List (Key × Value)} {qualifies : Key → Prop}
    {entry : Key × Value} (sorted : Ascending entries) (split : entries = front ++ entry :: back)
    (before : ∀ other ∈ front, ¬qualifies other.1) (qualified : qualifies entry.1) :
    IsFirst entries qualifies entry := by
  subst split
  refine ⟨by simp, qualified, fun other member alsoQualified => ?_⟩
  rcases List.mem_append.mp member with inFront | inRest
  · exact absurd alsoQualified (before other inFront)
  · rcases List.mem_cons.mp inRest with rfl | behind
    · exact le_rfl
    · exact ((List.pairwise_cons.mp (List.pairwise_append.mp sorted).2.1).1 other behind).le

/-- The last of the entries with smaller keys. -/
structure IsLast (entries : List (Key × Value)) (key : Key) (entry : Key × Value) : Prop where
  member : entry ∈ entries
  below : entry.1 < key
  greatest : ∀ other ∈ entries, other.1 < key → other.1 ≤ entry.1

theorem IsLast.of_split {entries front back : List (Key × Value)} {key : Key}
    {entry : Key × Value} (sorted : Ascending entries) (split : entries = front ++ entry :: back)
    (below : entry.1 < key) (behind : ∀ other ∈ back, key ≤ other.1) :
    IsLast entries key entry := by
  subst split
  refine ⟨by simp, below, fun other member smaller => ?_⟩
  rcases List.mem_append.mp member with inFront | inRest
  · exact ((List.pairwise_append.mp sorted).2.2 other inFront entry List.mem_cons_self).le
  · rcases List.mem_cons.mp inRest with rfl | inBack
    · exact le_rfl
    · exact absurd smaller (behind other inBack).not_gt

theorem IsLast.unique {entries : List (Key × Value)} {key : Key} {one two : Key × Value}
    (first : IsLast entries key one) (sorted : Ascending entries)
    (second : IsLast entries key two) : one = two :=
  sorted.value_unique first.member second.member
    (le_antisymm (second.greatest one first.member first.below)
      (first.greatest two second.member second.below))

/-- Entries are cut in only one way into those up to a key and those above it. -/
theorem cut_unique {front back front' back' : List (Key × Value)} {key : Key}
    (same : front ++ back = front' ++ back') (low : ∀ entry ∈ front, ¬key < entry.1)
    (high : ∀ entry ∈ back, key < entry.1) (low' : ∀ entry ∈ front', ¬key < entry.1)
    (high' : ∀ entry ∈ back', key < entry.1) : front = front' ∧ back = back' := by
  have above : ∀ {one two : List (Key × Value)}, (∀ entry ∈ one, ¬key < entry.1) →
      (∀ entry ∈ two, key < entry.1) →
      (one ++ two).filter (fun entry => key < entry.1) = two := by
    intro one two lowOne highTwo
    rw [List.filter_append, List.filter_eq_nil_iff.mpr (by simpa using lowOne),
      List.filter_eq_self.mpr (by simpa using highTwo), List.nil_append]
  have backs : back = back' := by rw [← above low high, same, above low' high']
  subst backs
  exact ⟨List.append_cancel_right same, rfl⟩

/-- The entries below a key come first. -/
theorem lt_of_mem_takeWhile {entries : List (Key × Value)} {key : Key} {entry : Key × Value}
    (member : entry ∈ entries.takeWhile fun entry => entry.1 < key) : entry.1 < key := by
  simpa using List.mem_takeWhile_imp member

/-- The others come behind them. -/
theorem le_of_mem_dropWhile {entries : List (Key × Value)} (sorted : Ascending entries) {key : Key}
    {entry : Key × Value} (member : entry ∈ entries.dropWhile fun entry => entry.1 < key) :
    key ≤ entry.1 := by
  induction entries with
  | nil => simp at member
  | cons first rest ih =>
      obtain ⟨least, restSorted⟩ := List.pairwise_cons.mp sorted
      by_cases below : first.1 < key
      · rw [List.dropWhile_cons_of_pos (by simpa using below)] at member
        exact ih restSorted member
      · rw [List.dropWhile_cons_of_neg (by simpa using below)] at member
        have reached : key ≤ first.1 := not_lt.mp below
        rcases List.mem_cons.mp member with rfl | later
        · exact reached
        · exact reached.trans (least entry later).le

/-! ## Blocks under fences -/

/-- The entries are sorted, within the blocks and across the fences. -/
structure Fenced (entriesOf : Block → List (Key × Value)) (blocks : List (WithBot Key × Block)) :
    Prop where
  order : blocks.Pairwise fun low high =>
    low.1 < high.1 ∧ ∀ entry ∈ entriesOf low.2, (entry.1 : WithBot Key) < high.1
  above : ∀ block ∈ blocks, ∀ entry ∈ entriesOf block.2, block.1 ≤ entry.1
  ascending : ∀ block ∈ blocks, Ascending (entriesOf block.2)

variable {entriesOf entriesOf' : Block → List (Key × Value)}
variable {blocks before behind old new : List (WithBot Key × Block)}
variable {fence : WithBot Key} {block : Block} {key : Key} {value : Value}

namespace Fenced

theorem nil : Fenced entriesOf ([] : List (WithBot Key × Block)) :=
  ⟨List.Pairwise.nil, by simp, by simp⟩

theorem singleton (above : ∀ entry ∈ entriesOf block, fence ≤ entry.1)
    (ascending : Ascending (entriesOf block)) : Fenced entriesOf [(fence, block)] :=
  ⟨List.pairwise_singleton .., by simpa using above, by simpa using ascending⟩

theorem sublist (fenced : Fenced entriesOf blocks) (fewer : before.Sublist blocks) :
    Fenced entriesOf before :=
  ⟨fenced.order.sublist fewer, fun block member => fenced.above block (fewer.subset member),
    fun block member => fenced.ascending block (fewer.subset member)⟩

theorem congr (fenced : Fenced entriesOf blocks)
    (same : ∀ block ∈ blocks, entriesOf' block.2 = entriesOf block.2) :
    Fenced entriesOf' blocks := by
  refine ⟨fenced.order.imp_of_mem ?_, ?_, ?_⟩
  · intro low high inLow _ across
    rwa [same low inLow]
  · intro block member
    rw [same block member]
    exact fenced.above block member
  · intro block member
    rw [same block member]
    exact fenced.ascending block member

/-- All entries are sorted. -/
theorem contents_ascending (fenced : Fenced entriesOf blocks) :
    Ascending (contents entriesOf blocks) := by
  rw [Ascending, contents, List.pairwise_flatMap]
  refine ⟨fenced.ascending, ?_⟩
  apply fenced.order.imp_of_mem
  intro low high _ inHigh ordered one inLow two member
  have reached : high.1 ≤ two.1 := fenced.above high inHigh two member
  exact WithBot.coe_lt_coe.mp ((ordered.2 one inLow).trans_le reached)

/-- The blocks before have smaller keys. -/
theorem lt_of_mem_before (fenced : Fenced entriesOf (before ++ (fence, block) :: behind))
    (reached : fence ≤ key) {entry : Key × Value} (member : entry ∈ contents entriesOf before) :
    entry.1 < key := by
  obtain ⟨low, inBefore, inLow⟩ := mem_contents.mp member
  have ordered := (List.pairwise_append.mp fenced.order).2.2 low inBefore (fence, block)
    List.mem_cons_self
  exact WithBot.coe_lt_coe.mp ((ordered.2 entry inLow).trans_le reached)

/-- The blocks behind have no smaller keys than their fences. -/
theorem le_of_mem_behind (fenced : Fenced entriesOf (before ++ (fence, block) :: behind))
    (ended : ∀ next ∈ behind, (key : WithBot Key) ≤ next.1) {entry : Key × Value}
    (member : entry ∈ contents entriesOf behind) : key ≤ entry.1 := by
  obtain ⟨high, inBehind, inHigh⟩ := mem_contents.mp member
  have bound := fenced.above high (by simp [inBehind]) entry inHigh
  exact WithBot.coe_le_coe.mp ((ended high inBehind).trans bound)

/-- The blocks behind have greater keys than the block. -/
theorem lt_of_mem (fenced : Fenced entriesOf (before ++ (fence, block) :: behind))
    {low high : Key × Value} (here : low ∈ entriesOf block)
    (member : high ∈ contents entriesOf behind) : low.1 < high.1 := by
  obtain ⟨next, inBehind, inNext⟩ := mem_contents.mp member
  have order := (List.pairwise_append.mp fenced.order).2.1
  have below := ((List.pairwise_cons.mp order).1 next inBehind).2 low here
  exact WithBot.coe_lt_coe.mp (below.trans_le (fenced.above next (by simp [inBehind]) high inNext))

/-- A stretch of blocks is replaced by another one that keeps within the same fences. -/
theorem splice (fenced : Fenced entriesOf (before ++ old ++ behind))
    (same : ∀ block ∈ before ++ behind, entriesOf' block.2 = entriesOf block.2)
    (middle : Fenced entriesOf' new) (low : ∀ block ∈ new, ∃ first ∈ old, first.1 ≤ block.1)
    (high : ∀ block ∈ new, ∀ next ∈ behind,
      block.1 < next.1 ∧ ∀ entry ∈ entriesOf' block.2, (entry.1 : WithBot Key) < next.1) :
    Fenced entriesOf' (before ++ new ++ behind) := by
  have sameBefore : ∀ block ∈ before, entriesOf' block.2 = entriesOf block.2 :=
    fun block member => same block (List.mem_append_left _ member)
  have sameBehind : ∀ block ∈ behind, entriesOf' block.2 = entriesOf block.2 :=
    fun block member => same block (List.mem_append_right _ member)
  obtain ⟨firstOrder, behindOrder, across⟩ := List.pairwise_append.mp fenced.order
  obtain ⟨beforeOrder, -, toOld⟩ := List.pairwise_append.mp firstOrder
  constructor
  · refine List.pairwise_append.mpr ⟨List.pairwise_append.mpr ⟨?_, middle.order, ?_⟩, ?_, ?_⟩
    · apply beforeOrder.imp_of_mem
      intro one two inOne _ ordered
      rwa [sameBefore one inOne]
    · intro one inOne two inTwo
      obtain ⟨first, inOld, bound⟩ := low two inTwo
      obtain ⟨fences, entries⟩ := toOld one inOne first inOld
      rw [sameBefore one inOne]
      exact ⟨fences.trans_le bound, fun entry member => (entries entry member).trans_le bound⟩
    · apply behindOrder.imp_of_mem
      intro one two inOne _ ordered
      rwa [sameBehind one inOne]
    · intro one inOne two inTwo
      rcases List.mem_append.mp inOne with inBefore | inNew
      · rw [sameBefore one inBefore]
        exact across one (List.mem_append_left _ inBefore) two inTwo
      · exact high one inNew two inTwo
  · intro block member
    rcases List.mem_append.mp member with first | inBehind
    · rcases List.mem_append.mp first with inBefore | inNew
      · rw [sameBefore block inBefore]
        exact fenced.above block (by simp [inBefore])
      · exact middle.above block inNew
    · rw [sameBehind block inBehind]
      exact fenced.above block (by simp [inBehind])
  · intro block member
    rcases List.mem_append.mp member with first | inBehind
    · rcases List.mem_append.mp first with inBefore | inNew
      · rw [sameBefore block inBefore]
        exact fenced.ascending block (by simp [inBefore])
      · exact middle.ascending block inNew
    · rw [sameBehind block inBehind]
      exact fenced.ascending block (by simp [inBehind])

/-- A block keeps some of its entries, and its fence may move up to them. -/
theorem shrink (fenced : Fenced entriesOf (before ++ (fence, block) :: behind))
    (same : ∀ other ∈ before ++ behind, entriesOf' other.2 = entriesOf other.2)
    (fewer : (entriesOf' block).Sublist (entriesOf block)) (some : entriesOf' block ≠ [])
    {raised : WithBot Key} (low : fence ≤ raised)
    (above : ∀ entry ∈ entriesOf' block, raised ≤ entry.1) :
    Fenced entriesOf' (before ++ (raised, block) :: behind) := by
  have here : (fence, block) ∈ before ++ (fence, block) :: behind := by simp
  have behindOrder := (List.pairwise_append.mp fenced.order).2.1
  have below := (List.pairwise_cons.mp behindOrder).1
  obtain ⟨entry, member⟩ := List.exists_mem_of_ne_nil _ some
  have spliced := @splice _ _ _ _ entriesOf entriesOf' before behind [(fence, block)]
    [(raised, block)] (by simpa using fenced) same
    (singleton above ((fenced.ascending (fence, block) here).sublist fewer)) (by simpa using low) ?_
  · simpa using spliced
  · intro other isBlock next inBehind
    obtain rfl := List.mem_singleton.mp isBlock
    exact ⟨(above entry member).trans_lt ((below next inBehind).2 entry (fewer.subset member)),
      fun inside isInside => (below next inBehind).2 inside (fewer.subset isInside)⟩

/-- A block goes and leaves its fence to the next one. -/
theorem lower (fenced : Fenced entriesOf (before ++ (fence, block) :: behind)) :
    Fenced entriesOf (before ++ refence fence behind) := by
  cases behind with
  | nil => exact fenced.sublist (by simp)
  | cons next rest =>
      have order := (List.pairwise_append.mp fenced.order).2.1
      obtain ⟨low, fromNext⟩ := List.pairwise_cons.mp order
      have isNext := low next List.mem_cons_self
      have spliced := @splice _ _ _ _ entriesOf entriesOf before rest [(fence, block), next]
        [(fence, next.2)] (by simpa using fenced) (fun _ _ => rfl)
        (singleton
          (fun entry member => isNext.1.le.trans (fenced.above next (by simp) entry member))
          (fenced.ascending next (by simp))) (by simp) ?_
      · simpa using spliced
      · intro other isBlock last inRest
        obtain rfl := List.mem_singleton.mp isBlock
        have across := (List.pairwise_cons.mp fromNext).1 last inRest
        exact ⟨isNext.1.trans across.1, across.2⟩

end Fenced

end Rocc.Fences
