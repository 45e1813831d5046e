import Mathlib.Logic.Function.Basic
import Mathlib.Order.Basic

/-!
# Addresses held ready

Owners take new addresses one after the other and each holds one back, which comes into use
later.
-/

namespace Rocc

variable {Owner : Type} [DecidableEq Owner]

/-- Addresses in use and those that owners hold ready are different, and all are below the
next one. -/
structure Ready (used : Nat → Prop) (held : Owner → Option Nat) (next : Nat) : Prop where
  used_lt : ∀ address, used address → address < next
  held_lt : ∀ owner address, held owner = some address → address < next
  unused : ∀ owner address, held owner = some address → ¬used address
  apart : ∀ one other address, held one = some address → held other = some address → one = other

namespace Ready

variable {used used' : Nat → Prop} {held : Owner → Option Nat} {next : Nat} {owner : Owner}

omit [DecidableEq Owner] in
/-- Addresses go out of use. -/
theorem release (ready : Ready used held next) (fewer : ∀ address, used' address → used address) :
    Ready used' held next :=
  ⟨fun address isUsed => ready.used_lt address (fewer address isUsed), ready.held_lt,
    fun owner address isHeld isUsed => ready.unused owner address isHeld (fewer address isUsed),
    ready.apart⟩

omit [DecidableEq Owner] in
theorem congr (ready : Ready used held next) (same : ∀ address, used' address ↔ used address) :
    Ready used' held next :=
  ready.release fun address => (same address).mp

/-- An owner holds a new address. -/
theorem hold (ready : Ready used held next) (owner : Owner) :
    Ready used (Function.update held owner (some next)) (next + 1) := by
  have new : ∀ other address, Function.update held owner (some next) other = some address →
      (other = owner ∧ address = next) ∨ (other ≠ owner ∧ held other = some address) := by
    intro other address isHeld
    by_cases same : other = owner
    · subst same
      rw [Function.update_self] at isHeld
      exact .inl ⟨rfl, (Option.some.inj isHeld).symm⟩
    · rw [Function.update_of_ne same] at isHeld
      exact .inr ⟨same, isHeld⟩
  constructor
  · exact fun address isUsed => Nat.lt_succ_of_lt (ready.used_lt address isUsed)
  · intro other address isHeld
    rcases new other address isHeld with ⟨-, rfl⟩ | ⟨-, before⟩
    · exact Nat.lt_succ_self _
    · exact Nat.lt_succ_of_lt (ready.held_lt other address before)
  · intro other address isHeld
    rcases new other address isHeld with ⟨-, rfl⟩ | ⟨-, before⟩
    · exact fun isUsed => Nat.lt_irrefl _ (ready.used_lt _ isUsed)
    · exact ready.unused other address before
  · intro one other address first second
    rcases new one address first with ⟨rfl, rfl⟩ | ⟨-, before⟩
    · rcases new other _ second with ⟨rfl, -⟩ | ⟨-, older⟩
      · rfl
      · exact absurd (ready.held_lt other _ older) (Nat.lt_irrefl _)
    · rcases new other address second with ⟨rfl, rfl⟩ | ⟨-, older⟩
      · exact absurd (ready.held_lt one _ before) (Nat.lt_irrefl _)
      · exact ready.apart one other address before older

/-- The address that an owner holds comes into use, and the owner holds a new one. -/
theorem take (ready : Ready used held next) {address : Nat} (isHeld : held owner = some address)
    (same : ∀ other, used' other ↔ used other ∨ other = address) :
    Ready used' (Function.update held owner (some next)) (next + 1) := by
  have held := ready.hold owner
  refine ⟨?_, held.held_lt, ?_, held.apart⟩
  · intro other isUsed
    rcases (same other).mp isUsed with before | rfl
    · exact held.used_lt other before
    · exact Nat.lt_succ_of_lt (ready.held_lt owner _ isHeld)
  · intro one other isNext isUsed
    rcases (same other).mp isUsed with before | rfl
    · exact held.unused one other isNext before
    · by_cases mine : one = owner
      · subst mine
        rw [Function.update_self] at isNext
        exact Nat.lt_irrefl _ ((ready.held_lt one _ isHeld).trans_eq (Option.some.inj isNext))
      · rw [Function.update_of_ne mine] at isNext
        exact mine (ready.apart one owner _ isNext isHeld)

end Ready

end Rocc
