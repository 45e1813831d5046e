import Mathlib.Data.List.Nodup
import Mathlib.Data.List.Perm.Basic

/-!
# Batched messages

A client appends the items of several destinations to one message and broadcasts
it; the handler of each destination walks the whole message and skips the items
of the others.  What is left of a message is kept as the list of items that no
handler has reached yet, in message order.
-/

namespace Rocc

universe u

variable {Item : Type u}

/-- The next item of the message that concerns a handler, with the items left
after it. -/
def nextFor (concerns : Item → Bool) : List Item → Option (Item × List Item)
  | [] => none
  | item :: rest =>
      if concerns item then
        some (item, rest)
      else
        (nextFor concerns rest).map fun found => (found.1, item :: found.2)

/-- What is left of the message when a handler stops walking it. -/
def dropFor (concerns : Item → Bool) (items : List Item) : List Item :=
  items.filter fun item => !concerns item

theorem nextFor_perm {concerns : Item → Bool} {items rest : List Item}
    {item : Item} (found : nextFor concerns items = some (item, rest)) :
    items.Perm (item :: rest) := by
  induction items generalizing rest with
  | nil => simp [nextFor] at found
  | cons head tail ih =>
      simp only [nextFor] at found
      split at found
      · simp only [Option.some.injEq, Prod.mk.injEq] at found
        obtain ⟨rfl, rfl⟩ := found
        exact .refl _
      · simp only [Option.map_eq_some_iff, Prod.mk.injEq] at found
        obtain ⟨⟨other, left⟩, tailFound, rfl, rfl⟩ := found
        exact ((ih tailFound).cons head).trans (.swap other head left)

/-- Handling one item removes exactly that item. -/
theorem mem_of_nextFor {concerns : Item → Bool} {items rest : List Item}
    {item : Item} (found : nextFor concerns items = some (item, rest))
    {other : Item} : other ∈ items ↔ other = item ∨ other ∈ rest := by
  rw [(nextFor_perm found).mem_iff, List.mem_cons]

/-- The item found concerns the handler. -/
theorem of_nextFor {concerns : Item → Bool} {items rest : List Item} {item : Item}
    (found : nextFor concerns items = some (item, rest)) : concerns item = true := by
  induction items generalizing rest with
  | nil => simp [nextFor] at found
  | cons head tail ih =>
      simp only [nextFor] at found
      split at found
      · rename_i concerned
        simp only [Option.some.injEq, Prod.mk.injEq] at found
        exact found.1 ▸ concerned
      · simp only [Option.map_eq_some_iff, Prod.mk.injEq] at found
        obtain ⟨⟨other, left⟩, tailFound, rfl, -⟩ := found
        exact ih tailFound

/-- No item of an exhausted message concerns the handler. -/
theorem not_mem_of_nextFor {concerns : Item → Bool} {items : List Item}
    (missing : nextFor concerns items = none) {item : Item}
    (concerned : concerns item = true) : item ∉ items := by
  induction items with
  | nil => exact List.not_mem_nil
  | cons head tail ih =>
      simp only [nextFor] at missing
      split at missing
      · cases missing
      · rename_i unconcerned
        rw [Option.map_eq_none_iff] at missing
        rw [List.mem_cons]
        rintro (rfl | member)
        · exact unconcerned concerned
        · exact ih missing member

theorem nodup_of_nextFor {concerns : Item → Bool} {items rest : List Item}
    {item : Item} (found : nextFor concerns items = some (item, rest))
    (nodup : items.Nodup) : item ∉ rest ∧ rest.Nodup := by
  have split := (nextFor_perm found).nodup_iff.mp nodup
  exact List.nodup_cons.mp split

theorem mem_of_mem_dropFor {concerns : Item → Bool} {items : List Item}
    {item : Item} (member : item ∈ dropFor concerns items) : item ∈ items :=
  (List.mem_filter.mp member).1

theorem nodup_dropFor {concerns : Item → Bool} {items : List Item}
    (nodup : items.Nodup) : (dropFor concerns items).Nodup :=
  nodup.filter _

/-- An item of a list with distinct keys is found by its key. -/
theorem find?_of_nodup {Key : Type*} [DecidableEq Key] {key : Item → Key}
    {items : List Item} (nodup : (items.map key).Nodup) {item : Item}
    (member : item ∈ items) :
    items.find? (fun other => key other = key item) = some item := by
  cases found : items.find? (fun other => key other = key item) with
  | none =>
      have missing := List.find?_eq_none.mp found item member
      simp at missing
  | some other =>
      have sameKey : key other = key item := by simpa using List.find?_some found
      rw [List.inj_on_of_nodup_map nodup (List.mem_of_find?_eq_some found) member sameKey]

/-- Every item of a message is handled by the destination it is for. -/
theorem perm_flatMap_filter {Dest : Type*} [DecidableEq Dest] {dest : Item → Dest}
    {order : List Dest} {items : List Item} (nodup : order.Nodup)
    (covers : ∀ item ∈ items, dest item ∈ order) :
    (order.flatMap fun one => items.filter (dest · = one)).Perm items := by
  induction order generalizing items with
  | nil =>
      cases items with
      | nil => exact .refl _
      | cons item rest => exact absurd (covers item List.mem_cons_self) List.not_mem_nil
  | cons head order ih =>
      obtain ⟨absent, restNodup⟩ := List.nodup_cons.mp nodup
      have left : ∀ item ∈ items.filter fun item => !(decide (dest item = head)),
          dest item ∈ order := by
        intro item member
        rw [List.mem_filter] at member
        rcases List.mem_cons.mp (covers item member.1) with same | other
        · simp [same] at member
        · exact other
      have others := ih restNodup left
      have skipped : (order.flatMap fun one =>
          (items.filter fun item => !(decide (dest item = head))).filter (dest · = one)) =
          order.flatMap fun one => items.filter (dest · = one) := by
        apply List.flatMap_congr
        intro one member
        rw [List.filter_filter]
        apply List.filter_congr
        intro item _
        have different : one ≠ head := fun same => absent (same ▸ member)
        grind
      rw [skipped] at others
      rw [List.flatMap_cons]
      exact (others.append_left _).trans (List.filter_append_perm _ items)

end Rocc
