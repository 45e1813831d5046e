import Mathlib.Data.List.Nodup
import Mathlib.Data.List.Perm.Basic
import Mathlib.Logic.Function.Basic
import Rocc.Base.Run

/-!
# Who holds which lock

A lock is one word, 0 when free, and every client has a word which it uses for every
lock it takes.  `Holding` says that the lock words and the lists of locks the clients
hold agree and that no lock is on two lists.  A step of a client leaves the locks alone,
takes a free lock or gives one back; the three lemmas below say that each of these keeps
`Holding`.  Clients may share a word; where none do, a lock with the word of a client is
held by it.
-/

namespace Rocc

universe u v

variable {Tid : Type u} {Key : Type v}

/-! ## Lists of locks -/

section Lists

variable {Item : Type*} [DecidableEq Key] {key : Item → Key} {items rest : List Item}
variable {item : Item}

/-- Taking the item of one key out of a list with distinct keys. -/
theorem filter_key_perm (nodup : (items.map key).Nodup) (perm : items.Perm (item :: rest)) :
    (items.filter fun other => key other ≠ key item).Perm rest := by
  have split := (perm.map key).nodup_iff.mp nodup
  rw [List.map_cons, List.nodup_cons] at split
  refine (perm.filter _).trans ?_
  rw [List.filter_cons_of_neg (by simp), List.filter_eq_self.mpr]
  intro other member
  simp only [decide_eq_true_eq]
  intro same
  exact split.1 (List.mem_map.mpr ⟨other, member, same⟩)

/-- An item stands before the items with other keys. -/
theorem perm_cons_filter_key (nodup : (items.map key).Nodup) (member : item ∈ items) :
    items.Perm (item :: items.filter fun other => key other ≠ key item) := by
  obtain ⟨first, last, rfl⟩ := List.append_of_mem member
  have perm : (first ++ item :: last).Perm (item :: (first ++ last)) := List.perm_middle
  exact perm.trans ((filter_key_perm nodup perm).symm.cons item)

end Lists

/-! ## Words and holders -/

/-- Every client has a word of its own, and 0 is nobody's. -/
structure OwnWords (word : Tid → Nat) : Prop where
  ne_zero : ∀ tid, word tid ≠ 0
  injective : Function.Injective word

theorem pairWords : OwnWords fun tid : Bool => tid.toNat + 1 where
  ne_zero := pairWord_ne_zero
  injective := pairWord_injective

/-- The locks a client lists carry its word, a lock that is not free is listed, and no
lock is listed twice. -/
structure Holding (word : Tid → Nat) (lock : Key → Nat) (held : Tid → List Key) :
    Prop where
  nodup : ∀ tid, (held tid).Nodup
  locked : ∀ tid, ∀ key ∈ held tid, lock key = word tid
  owner : ∀ key, lock key ≠ 0 → ∃ tid, key ∈ held tid
  unique : ∀ key left right, key ∈ held left → key ∈ held right → left = right

namespace Holding

variable {word : Tid → Nat} {lock lock' : Key → Nat} {held held' : Tid → List Key}
variable {tid other : Tid} {key : Key}

/-- Nobody holds anything at the start. -/
theorem initial (free : ∀ key, lock key = 0) (nothing : ∀ tid, held tid = []) :
    Holding word lock held where
  nodup tid := by simp [nothing]
  locked tid key member := by simp [nothing] at member
  owner key taken := absurd (free key) taken
  unique key left right member := by simp [nothing] at member

/-- A free lock is not listed. -/
theorem not_mem_of_free (holding : Holding word lock held) (nonzero : ∀ tid, word tid ≠ 0)
    (free : lock key = 0) : key ∉ held tid := by
  intro member
  exact nonzero tid ((holding.locked tid key member).symm.trans free)

/-- A lock with the word of a client is held by it. -/
theorem mem_of_word (holding : Holding word lock held) (words : OwnWords word)
    (taken : lock key = word tid) : key ∈ held tid := by
  obtain ⟨holder, member⟩ := holding.owner key (taken ▸ words.ne_zero tid)
  have same : holder = tid :=
    words.injective ((holding.locked holder key member).symm.trans taken)
  exact same ▸ member

/-- A step that touches no lock may only rearrange the lists. -/
theorem frame (holding : Holding word lock held) (sameLock : ∀ key, lock' key = lock key)
    (sameHeld : ∀ tid, (held' tid).Perm (held tid)) : Holding word lock' held' where
  nodup tid := (sameHeld tid).nodup_iff.mpr (holding.nodup tid)
  locked tid key member := by
    rw [sameLock]
    exact holding.locked tid key ((sameHeld tid).mem_iff.mp member)
  owner key taken := by
    rw [sameLock] at taken
    obtain ⟨tid, member⟩ := holding.owner key taken
    exact ⟨tid, (sameHeld tid).mem_iff.mpr member⟩
  unique key left right leftMember rightMember :=
    holding.unique key left right ((sameHeld left).mem_iff.mp leftMember)
      ((sameHeld right).mem_iff.mp rightMember)

/-- A client takes a free lock. -/
theorem acquire (holding : Holding word lock held) (nonzero : ∀ tid, word tid ≠ 0)
    (tid : Tid) (free : lock key = 0) (taken : lock' key = word tid)
    (sameLock : ∀ other, other ≠ key → lock' other = lock other)
    (added : (held' tid).Perm (key :: held tid))
    (sameHeld : ∀ other, other ≠ tid → held' other = held other) :
    Holding word lock' held' := by
  have members : ∀ other otherKey, otherKey ∈ held' other ↔
      (other = tid ∧ otherKey = key) ∨ otherKey ∈ held other := by
    intro other otherKey
    rcases eq_or_ne other tid with rfl | different
    · rw [added.mem_iff, List.mem_cons]
      simp
    · rw [sameHeld other different]
      simp [different]
  constructor
  · intro other
    rcases eq_or_ne other tid with rfl | different
    · rw [added.nodup_iff, List.nodup_cons]
      exact ⟨holding.not_mem_of_free nonzero free, holding.nodup other⟩
    · rw [sameHeld other different]
      exact holding.nodup other
  · intro other otherKey member
    rcases (members other otherKey).mp member with ⟨rfl, rfl⟩ | member
    · exact taken
    · have different : otherKey ≠ key := by
        rintro rfl
        exact holding.not_mem_of_free nonzero free member
      rw [sameLock otherKey different]
      exact holding.locked other otherKey member
  · intro otherKey locked
    rcases eq_or_ne otherKey key with rfl | different
    · exact ⟨tid, (members tid _).mpr (.inl ⟨rfl, rfl⟩)⟩
    · rw [sameLock otherKey different] at locked
      obtain ⟨holder, member⟩ := holding.owner otherKey locked
      exact ⟨holder, (members holder _).mpr (.inr member)⟩
  · intro otherKey left right leftMember rightMember
    have fresh : ∀ holder, key ∉ held holder :=
      fun _ => holding.not_mem_of_free nonzero free
    rcases (members left otherKey).mp leftMember with ⟨rfl, rfl⟩ | leftMember
    · rcases (members right otherKey).mp rightMember with ⟨rfl, -⟩ | rightMember
      · rfl
      · exact absurd rightMember (fresh right)
    · rcases (members right otherKey).mp rightMember with ⟨rfl, rfl⟩ | rightMember
      · exact absurd leftMember (fresh left)
      · exact holding.unique otherKey left right leftMember rightMember

/-- A client gives a lock back. -/
theorem release (holding : Holding word lock held) (tid : Tid) (key : Key) (freed : lock' key = 0)
    (sameLock : ∀ other, other ≠ key → lock' other = lock other)
    (removed : (held tid).Perm (key :: held' tid))
    (sameHeld : ∀ other, other ≠ tid → held' other = held other) :
    Holding word lock' held' := by
  have mine : key ∈ held tid := removed.mem_iff.mpr (by simp)
  have split := holding.nodup tid
  rw [removed.nodup_iff, List.nodup_cons] at split
  have gone : ∀ other, key ∉ held' other := by
    intro other member
    rcases eq_or_ne other tid with rfl | different
    · exact split.1 member
    · rw [sameHeld other different] at member
      exact different (holding.unique key other tid member mine)
  constructor
  · intro other
    rcases eq_or_ne other tid with rfl | different
    · exact split.2
    · rw [sameHeld other different]
      exact holding.nodup other
  · intro other otherKey member
    have different : otherKey ≠ key := by
      rintro rfl
      exact gone other member
    rw [sameLock otherKey different]
    apply holding.locked other otherKey
    rcases eq_or_ne other tid with rfl | differentTid
    · exact removed.mem_iff.mpr (List.mem_cons_of_mem _ member)
    · rwa [← sameHeld other differentTid]
  · intro otherKey locked
    have different : otherKey ≠ key := by
      rintro rfl
      exact locked freed
    rw [sameLock otherKey different] at locked
    obtain ⟨holder, member⟩ := holding.owner otherKey locked
    refine ⟨holder, ?_⟩
    rcases eq_or_ne holder tid with rfl | differentTid
    · rcases List.mem_cons.mp (removed.mem_iff.mp member) with same | member
      · exact absurd same different
      · exact member
    · rwa [sameHeld holder differentTid]
  · have kept : ∀ holder otherKey, otherKey ∈ held' holder → otherKey ∈ held holder := by
      intro holder otherKey member
      rcases eq_or_ne holder tid with rfl | different
      · exact removed.mem_iff.mpr (List.mem_cons_of_mem _ member)
      · rwa [← sameHeld holder different]
    intro otherKey left right leftMember rightMember
    exact holding.unique otherKey left right (kept left _ leftMember)
      (kept right _ rightMember)

end Holding

end Rocc
