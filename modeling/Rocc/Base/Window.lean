import Mathlib.Data.Fintype.Card
import Mathlib.Data.List.Basic
import Mathlib.Data.List.Nodup
import Mathlib.Logic.Function.Basic
import Mathlib.Order.Nat

/-!
# Windows on a version history

A record keeps a fixed number of versions in slots; a slot with timestamp 0 is
empty.  `Window` says that the slots hold the newest versions of a history whose
timestamps grow, so that reading the largest timestamp below a bound from the
slots is reading it from the whole history, as long as the slots hold one at
all.  Overwriting the slot with the smallest timestamp keeps this.
-/

namespace Rocc

universe u v

variable {Slot : Type u} {Value : Type v}

/-- The version of a history with the largest timestamp below a bound. -/
def Selected (history : List (Nat × Value)) (bound version : Nat) (value : Value) :
    Prop :=
  (version, value) ∈ history ∧ version < bound ∧
    ∀ other ∈ history, other.1 < bound → other.1 ≤ version

/-- The slots hold the newest versions of the history. -/
structure Window (wts : Slot → Nat) (data : Slot → Value)
    (history : List (Nat × Value)) : Prop where
  growing : history.Pairwise fun earlier later => earlier.1 < later.1
  positive : ∀ version ∈ history, 0 < version.1
  stored : ∀ slot, wts slot ≠ 0 → (wts slot, data slot) ∈ history
  injective : ∀ left right, wts left = wts right → wts left ≠ 0 → left = right
  newest : ∀ version ∈ history,
    (∃ slot, wts slot = version.1) ∨ ∀ slot, version.1 < wts slot

/-- A bound selects one value. -/
theorem Selected.value_eq {history : List (Nat × Value)} {bound version other : Nat}
    {value otherValue : Value} (selected : Selected history bound version value)
    (growing : history.Pairwise fun earlier later => earlier.1 < later.1)
    (otherSelected : Selected history bound other otherValue) : value = otherValue := by
  have same : version = other :=
    le_antisymm (otherSelected.2.2 _ selected.1 selected.2.1)
      (selected.2.2 _ otherSelected.1 otherSelected.2.1)
  subst same
  have nodup : (history.map Prod.fst).Nodup :=
    List.pairwise_map.mpr (growing.imp fun before => before.ne)
  exact (Prod.mk.inj (List.inj_on_of_nodup_map nodup selected.1 otherSelected.1 rfl)).2

/-- A later version at or above the bound changes no selection. -/
theorem Selected.concat {history : List (Nat × Value)} {bound version : Nat}
    {value : Value} (selected : Selected history bound version value)
    {next : Nat × Value} (above : bound ≤ next.1) :
    Selected (history ++ [next]) bound version value := by
  refine ⟨List.mem_append_left _ selected.1, selected.2.1, ?_⟩
  intro other member below
  rcases List.mem_append.mp member with member | member
  · exact selected.2.2 other member below
  · rw [List.mem_singleton.mp member] at below
    exact absurd below (not_lt.mpr above)

namespace Window

variable {wts : Slot → Nat} {data : Slot → Value} {history : List (Nat × Value)}

/-- The slot with the largest timestamp below a bound holds the selected version. -/
theorem selected (window : Window wts data history) {slot : Slot} {bound : Nat}
    (nonzero : wts slot ≠ 0) (below : wts slot < bound)
    (largest : ∀ other, wts other < bound → wts other ≤ wts slot) :
    Selected history bound (wts slot) (data slot) := by
  refine ⟨window.stored slot nonzero, below, ?_⟩
  intro version member versionBelow
  rcases window.newest version member with ⟨other, same⟩ | evicted
  · rw [← same] at versionBelow ⊢
    exact largest other versionBelow
  · exact (evicted slot).le

/-- A bound on the slots bounds the history. -/
theorem le_of_slots_le (window : Window wts data history) {slot : Slot}
    (largest : ∀ other, wts other ≤ wts slot) :
    ∀ version ∈ history, version.1 ≤ wts slot := by
  intro version member
  rcases window.newest version member with ⟨other, same⟩ | evicted
  · rw [← same]
    exact largest other
  · exact (evicted slot).le

/-- Overwriting the slot with the smallest timestamp by a newer version. -/
theorem install [DecidableEq Slot] (window : Window wts data history) {slot : Slot}
    (smallest : ∀ other, wts slot ≤ wts other) {version : Nat} {value : Value}
    (above : ∀ old ∈ history, old.1 < version) (positive : 0 < version) :
    Window (Function.update wts slot version) (Function.update data slot value)
      (history ++ [(version, value)]) where
  growing := by
    rw [List.pairwise_append]
    refine ⟨window.growing, by simp, ?_⟩
    intro old member new newMember
    rw [List.mem_singleton.mp newMember]
    exact above old member
  positive := by
    intro other member
    rcases List.mem_append.mp member with member | member
    · exact window.positive other member
    · rw [List.mem_singleton.mp member]
      exact positive
  stored := by
    intro other nonzero
    rcases eq_or_ne other slot with rfl | different
    · simp
    · rw [Function.update_of_ne different] at nonzero ⊢
      rw [Function.update_of_ne different]
      exact List.mem_append_left _ (window.stored other nonzero)
  injective := by
    -- A slot that already carried the new timestamp would be in the history.
    have fresh : ∀ other, wts other ≠ 0 → wts other ≠ version := fun other nonzero =>
      ne_of_lt (above _ (window.stored other nonzero))
    intro left right same nonzero
    rcases eq_or_ne left slot with rfl | leftOther
    · rcases eq_or_ne right left with rfl | rightOther
      · rfl
      · rw [Function.update_self, Function.update_of_ne rightOther] at same
        rw [Function.update_self] at nonzero
        exact absurd same.symm (fresh right (same ▸ nonzero))
    · rw [Function.update_of_ne leftOther] at same nonzero
      rcases eq_or_ne right slot with rfl | rightOther
      · rw [Function.update_self] at same
        exact absurd same (fresh left nonzero)
      · rw [Function.update_of_ne rightOther] at same
        exact window.injective left right same nonzero
  newest := by
    intro other member
    rcases List.mem_append.mp member with member | member
    · have below := above other member
      rcases window.newest other member with ⟨holder, same⟩ | evicted
      · rcases eq_or_ne holder slot with rfl | different
        · -- The version just overwritten was the smallest one.
          right
          intro third
          rcases eq_or_ne third holder with rfl | another
          · simpa using below
          · rw [Function.update_of_ne another, ← same]
            refine lt_of_le_of_ne (smallest third) fun equal => another ?_
            have nonzero : wts holder ≠ 0 := by
              have := window.positive other member
              omega
            exact (window.injective holder third equal nonzero).symm
        · left
          exact ⟨holder, by rw [Function.update_of_ne different, same]⟩
      · right
        intro third
        rcases eq_or_ne third slot with rfl | another
        · simpa using below
        · rw [Function.update_of_ne another]
          exact evicted third
    · left
      rw [List.mem_singleton.mp member]
      exact ⟨slot, by simp⟩

end Window

/-! ## What the slots keep -/

/-- `kept` are the `count` largest elements of `all`. -/
structure Largest (kept all : Finset Nat) (count : Nat) : Prop where
  subset : kept ⊆ all
  card : kept.card = count
  above : ∀ new ∈ kept, ∀ old ∈ all, old ∉ kept → old < new

/-- Timestamps of the occupied slots. -/
def kept [Fintype Slot] (wts : Slot → Nat) : Finset Nat :=
  (Finset.univ.image wts).erase 0

/-- Timestamps of a history. -/
def timestamps (history : List (Nat × Value)) : Finset Nat :=
  (history.map Prod.fst).toFinset

@[simp] theorem mem_kept [Fintype Slot] {wts : Slot → Nat} {version : Nat} :
    version ∈ kept wts ↔ version ≠ 0 ∧ ∃ slot, wts slot = version := by
  simp [kept]

@[simp] theorem mem_timestamps {history : List (Nat × Value)} {version : Nat} :
    version ∈ timestamps history ↔ ∃ value, (version, value) ∈ history := by
  simp [timestamps]

namespace Window

variable {wts : Slot → Nat} {data : Slot → Value} {history : List (Nat × Value)}

/-- The timestamps of a history are distinct. -/
theorem card_timestamps (window : Window wts data history) :
    (timestamps history).card = history.length := by
  have distinct : (history.map Prod.fst).Nodup := by
    rw [List.nodup_iff_pairwise_ne, List.pairwise_map]
    exact window.growing.imp fun below => below.ne
  rw [timestamps, List.toFinset_card_of_nodup distinct, List.length_map]

theorem kept_subset [Fintype Slot] (window : Window wts data history) :
    kept wts ⊆ timestamps history := by
  intro version member
  obtain ⟨nonzero, slot, rfl⟩ := mem_kept.mp member
  exact mem_timestamps.mpr ⟨data slot, window.stored slot nonzero⟩

/-- As long as a slot is empty, every version is kept. -/
theorem kept_of_empty [Fintype Slot] (window : Window wts data history) {slot : Slot}
    (empty : wts slot = 0) : kept wts = timestamps history := by
  apply window.kept_subset.antisymm
  intro version member
  obtain ⟨value, member⟩ := mem_timestamps.mp member
  have positive : 0 < version := window.positive _ member
  rcases window.newest _ member with ⟨holder, same⟩ | evicted
  · exact mem_kept.mpr ⟨positive.ne', holder, same⟩
  · have below : version < wts slot := evicted slot
    omega

/-- With no slot empty, every slot keeps a version of its own. -/
theorem card_kept_of_full [Fintype Slot] (window : Window wts data history)
    (full : ∀ slot, wts slot ≠ 0) : (kept wts).card = Fintype.card Slot := by
  have injective : Function.Injective wts := fun left right same =>
    window.injective left right same (full left)
  have absent : 0 ∉ Finset.univ.image wts := by
    simpa using full
  rw [kept, Finset.erase_eq_of_notMem absent, Finset.card_image_of_injective _ injective,
    Finset.card_univ]

/-- Every slot keeps at most one version. -/
theorem card_kept_le [Fintype Slot] (wts : Slot → Nat) :
    (kept wts).card ≤ Fintype.card Slot := by
  refine (Finset.card_erase_le).trans ?_
  exact Finset.card_image_le.trans_eq Finset.card_univ

/-- The slots keep the newest versions, as many as there are slots. -/
theorem largest [Fintype Slot] (window : Window wts data history) :
    Largest (kept wts) (timestamps history) (min (Fintype.card Slot) history.length) where
  subset := window.kept_subset
  card := by
    by_cases full : ∀ slot, wts slot ≠ 0
    · have fits : (kept wts).card ≤ (timestamps history).card :=
        Finset.card_le_card window.kept_subset
      rw [window.card_timestamps, window.card_kept_of_full full] at fits
      rw [window.card_kept_of_full full, min_eq_left fits]
    · push Not at full
      obtain ⟨slot, empty⟩ := full
      have bound := card_kept_le wts
      rw [window.kept_of_empty empty, window.card_timestamps] at bound
      rw [window.kept_of_empty empty, window.card_timestamps, min_eq_right bound]
  above := by
    intro new newKept old oldMember evicted
    obtain ⟨value, oldMember⟩ := mem_timestamps.mp oldMember
    obtain ⟨_, slot, rfl⟩ := mem_kept.mp newKept
    rcases window.newest _ oldMember with ⟨holder, same⟩ | below
    · have positive : 0 < old := window.positive _ oldMember
      exact absurd (mem_kept.mpr ⟨positive.ne', holder, same⟩) evicted
    · exact below slot

end Window

end Rocc
