import Mathlib.Logic.Relation
import Mathlib.Order.Basic

/-!
# Runs of a step function

A system is given by a partial step function.  `Reach` collects the states of
all runs whose steps meet a side condition on the state they are taken from, so
one development serves both unconditional results and results about the runs in
which some branch of the program is not taken.
-/

namespace Rocc

universe u v

variable {State : Type u} {Action : Type v}

/-- States of the runs from `start` in which every action is allowed in the
state it is taken from. -/
inductive Reach (step : State → Action → Option State)
    (allowed : State → Action → Prop) (start : State) : State → Prop where
  | refl : Reach step allowed start start
  | tail {before after : State} {action : Action} :
      Reach step allowed start before → allowed before action →
      step before action = some after → Reach step allowed start after

/-- Every action is allowed. -/
def anyAction (_state : State) (_action : Action) : Prop := True

/-- States of all runs from `start`. -/
abbrev Reachable (step : State → Action → Option State) (start : State) :
    State → Prop :=
  Reach step anyAction start

namespace Reach

variable {step : State → Action → Option State}
variable {allowed : State → Action → Prop} {start state : State}

/-- The invariant rule: what holds at the start and survives every allowed step
holds in every state of every run. -/
theorem invariant (reach : Reach step allowed start state) (inv : State → Prop)
    (initially : inv start)
    (preserved : ∀ before action after, inv before → allowed before action →
      step before action = some after → inv after) : inv state := by
  induction reach with
  | refl => exact initially
  | tail _ permitted stepped ih => exact preserved _ _ _ ih permitted stepped

/-- A run whose steps meet a stronger condition meets the weaker one. -/
theorem mono (reach : Reach step allowed start state) {weaker : State → Action → Prop}
    (implied : ∀ before action, allowed before action → weaker before action) :
    Reach step weaker start state := by
  induction reach with
  | refl => exact .refl
  | tail _ permitted stepped ih => exact .tail ih (implied _ _ permitted) stepped

/-- Runs compose. -/
theorem trans {middle : State} (first : Reach step allowed start middle)
    (second : Reach step allowed middle state) : Reach step allowed start state := by
  induction second with
  | refl => exact first
  | tail _ permitted stepped ih => exact .tail ih permitted stepped

end Reach

/-- Execute a list of actions, stopping when one is refused by the step function
or by the side condition. -/
def exec (step : State → Action → Option State)
    (allowed : State → Action → Prop)
    [∀ state action, Decidable (allowed state action)] :
    State → List Action → Option State
  | state, [] => some state
  | state, action :: rest =>
      if allowed state action then
        (step state action).bind fun next => exec step allowed next rest
      else
        none

instance (state : State) (action : Action) :
    Decidable (anyAction state action) :=
  inferInstanceAs (Decidable True)

/-- A completed execution is a run. -/
theorem Reach.of_exec {step : State → Action → Option State}
    {allowed : State → Action → Prop}
    [∀ state action, Decidable (allowed state action)]
    {start before after : State} (reach : Reach step allowed start before)
    {actions : List Action}
    (executed : exec step allowed before actions = some after) :
    Reach step allowed start after := by
  induction actions generalizing before with
  | nil =>
      simp only [exec, Option.some.injEq] at executed
      exact executed ▸ reach
  | cons action rest ih =>
      simp only [exec] at executed
      split at executed
      · rename_i permitted
        obtain ⟨next, stepped, remaining⟩ := Option.bind_eq_some_iff.mp executed
        exact ih (.tail reach permitted stepped) remaining
      · cases executed

/-- A completed execution whose last state passes a check is a run to a state with
the property checked. -/
theorem Reach.exists_of_exec {step : State → Action → Option State}
    {allowed : State → Action → Prop}
    [∀ state action, Decidable (allowed state action)]
    {start : State} {property : State → Prop} [DecidablePred property]
    (actions : List Action)
    (checked : (exec step allowed start actions).any (fun state => property state) = true) :
    ∃ state, Reach step allowed start state ∧ property state := by
  cases executed : exec step allowed start actions with
  | none => simp [executed] at checked
  | some state =>
      refine ⟨state, Reach.refl.of_exec executed, ?_⟩
      simpa [executed] using checked

/-- A run can be continued to its goal while every state short of the goal has a step that
comes nearer to it. -/
theorem Reach.exists_of_rank {step : State → Action → Option State}
    {allowed : State → Action → Prop} (inv goal : State → Prop) (rank : State → Nat)
    (progress : ∀ state, inv state → ¬ goal state → ∃ action after,
      allowed state action ∧ step state action = some after ∧ inv after ∧
        (goal after ∨ rank after < rank state)) {state : State} (holds : inv state) :
    ∃ after, Reach step allowed state after ∧ goal after := by
  induction near : rank state using Nat.strongRecOn generalizing state with
  | ind distance ih =>
      by_cases done : goal state
      · exact ⟨state, .refl, done⟩
      · obtain ⟨action, after, permitted, stepped, stillHolds, arrived | nearer⟩ :=
          progress state holds done
        · exact ⟨after, .tail .refl permitted stepped, arrived⟩
        · obtain ⟨last, reach, arrived⟩ := ih (rank after) (near ▸ nearer) stillHolds rfl
          exact ⟨last, (Reach.refl.tail permitted stepped).trans reach, arrived⟩

/-! ## Small systems

Concrete runs have a few transactions, named by literals of a finite type; two of them may
also be told apart by a `Bool`, with the words 1 and 2. -/

instance neZeroTwo : @NeZero Nat Zero.ofOfNat0 2 := ⟨Nat.succ_ne_zero 1⟩

instance neZeroThree : @NeZero Nat Zero.ofOfNat0 3 := ⟨Nat.succ_ne_zero 2⟩

instance neZeroFour : @NeZero Nat Zero.ofOfNat0 4 := ⟨Nat.succ_ne_zero 3⟩

theorem pairWord_ne_zero (tid : Bool) : tid.toNat + 1 ≠ 0 := Nat.succ_ne_zero _

theorem pairWord_injective : Function.Injective fun tid : Bool => tid.toNat + 1 := by
  intro left right same
  cases left <;> cases right <;> simp_all

/-! ## Acyclicity by rank -/

/-- A relation whose edges strictly increase a rank has no cycle. -/
theorem not_transGen_self_of_rank {Vertex : Type u} {Rank : Type v}
    [Preorder Rank] {edge : Vertex → Vertex → Prop} (rank : Vertex → Rank)
    (increases : ∀ source target, edge source target → rank source < rank target)
    (vertex : Vertex) : ¬ Relation.TransGen edge vertex vertex := by
  have lifted : ∀ target, Relation.TransGen edge vertex target →
      rank vertex < rank target := by
    intro target path
    induction path with
    | single last => exact increases _ _ last
    | tail _ last ih => exact ih.trans (increases _ _ last)
  intro cycle
  exact lt_irrefl _ (lifted vertex cycle)

end Rocc
