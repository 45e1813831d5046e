import Rocc.Bank.Transactions
import Rocc.Occ.Programs

/-!
# SmallBank over optimistic concurrency control

Payments and amalgamations neither make nor lose money, and no transaction but a check overdraws
an account.
-/

set_option linter.unusedSectionVars false

namespace Rocc.Bank

open Occ

universe w x

variable {Tid : Type w} {Owner : Type x} {rounding : Rounding}

/-- The programs of the transactions. -/
def programs (rounding : Rounding) (input : Tid → Input) (tid : Tid) : Program RowKey ℚ :=
  (input tid).program rounding

/-- Transactions that move money between the accounts, one after another. -/
theorem sequential_settled {accounts : Finset UInt64} {amount : ℚ} {store : RowKey → ℚ}
    {input : Tid → Input} (transfers : ∀ tid, (input tid).Transfers accounts)
    (settled : Settled accounts amount store) (few : amount ≤ 2 ^ 24) (order : List Tid) :
    Settled accounts amount (Program.sequential (programs rounding input) store order) :=
  Program.sequential_invariant (Settled accounts amount) settled fun tid _ _ settled =>
    (transfers tid).settled settled few

variable [DecidableEq Tid] [DecidableEq Owner]

/-- In every run of payments, amalgamations and balance queries over optimistic concurrency
control, whatever of them commits runs one after another, each on balances that are whole, not
negative and add up to what was loaded, and so are the records once all have returned.  The sum is
at most the numbers that a `float` counts to. -/
theorem money_conserved (config : Occ.Config RowKey Tid Owner) (rounding : Rounding)
    (accounts : Finset UInt64) (amount : ℚ) (seq₀ : RowKey → Nat) (value₀ : RowKey → ℚ)
    (input : Tid → Input) (transfers : ∀ tid, (input tid).Transfers accounts)
    (settled : Settled accounts amount value₀) (few : amount ≤ 2 ^ 24)
    (state : Running RowKey ℚ Tid Owner)
    (reach : Reach (Running.step config) Running.NoWrap
      (Running.initial seq₀ value₀ (programs rounding input)) state) :
    ∃ order : List Tid,
      Running.IsSequential value₀ (programs rounding input) state order ∧
      Running.RealTime config seq₀ value₀ (programs rounding input) state order ∧
      (∀ first rest, order = first ++ rest → Settled accounts amount
        (Program.sequential (programs rounding input) value₀ first)) ∧
      ((∀ tid, (state.occ.txns tid).Decided → (state.occ.txns tid).Committed) →
        Settled accounts amount fun key => (state.occ.records key).value) := by
  have sequential := Running.isSequential_of_reach reach
  refine ⟨_, sequential, Running.realTime_of_reach,
    fun first _ _ => sequential_settled transfers settled few first, fun returned => ?_⟩
  have records : (fun key => (state.occ.records key).value) =
      Program.sequential (programs rounding input) value₀ state.occ.serialOrder :=
    funext (sequential.records returned)
  rw [records]
  exact sequential_settled transfers settled few _

/-- In every run of any transactions but checks over optimistic concurrency control no balance is
negative, in the records of every state and in all that any transaction has loaded, however the
sums are rounded. -/
theorem never_overdrawn (config : Occ.Config RowKey Tid Owner) (rounding : Rounding)
    (seq₀ : RowKey → Nat) (value₀ : RowKey → ℚ) (input : Tid → Input)
    (noChecks : ∀ tid id, input tid ≠ .writeCheck id) (loaded : ∀ key, 0 ≤ value₀ key)
    (state : Running RowKey ℚ Tid Owner)
    (reach : Reach (Running.step config) Running.NoWrap
      (Running.initial seq₀ value₀ (programs rounding input)) state) :
    (∀ key, 0 ≤ (state.occ.records key).value) ∧
      ∀ tid key balance, (state.occ.txns tid).footprint.reads key = some balance → 0 ≤ balance :=
  Running.keeps_of_reach reach loaded fun tid => (input tid).keeps (noChecks tid)

/-- Sums of few bits are not rounded. -/
def exact : Rounding where
  single := id
  double := id
  single_mono := monotone_id
  double_mono := monotone_id
  single_natCast _ _ := rfl
  double_natCast _ _ := rfl

/-- A check may overdraw an account: the savings count, but are not touched. -/
example :
    (txnWcNewApi exact 0).run (fun key => if key = (sav, 0) then 10 else 0) (check, 0) = -5 := by
  decide +kernel

/-- Two coroutines, and a machine for each account. -/
def twoMachines : Occ.Config RowKey Bool Bool where
  pid key := key.2.toNat
  owner tid := tid
  lockContent owner := owner.toNat + 1
  lockContent_ne_zero := pairWord_ne_zero
  lockContent_injective := pairWord_injective

/-- A payment, and an amalgamation of what it is paid to. -/
def payAndAmal : Bool → Input
  | false => .sendPayment 0 1 (by decide)
  | true => .amal 1 0 (by decide)

/-- The amalgamation begins while the payment is under way, and loads its checking account
when that is written back. -/
def payAndAmalRun : List (Running.Action RowKey Bool) :=
  [.begin false, .begin true, .call false, .call false, .call false, .call true, .call false,
    .call false, .lockItem false 0, .lockItem false 1, .resume false, .resume false,
    .commitItem false (check, 1), .call true, .commitItem false (check, 0), .call true,
    .resume false, .call true, .call true, .call true, .call true, .lockItem true 0,
    .lockItem true 1, .lockItem true 1, .resume true, .resume true, .commitItem true (sav, 1),
    .commitItem true (check, 1), .commitItem true (check, 0), .resume true]

/-- A thousand in every account. -/
def thousands (_ : RowKey) : ℚ := 1000

theorem exists_payAndAmal : ∃ state : Running RowKey ℚ Bool Bool,
    Reach (Running.step twoMachines) Running.NoWrap
        (Running.initial (fun _ => 0) thousands (programs exact payAndAmal)) state ∧
      (state.occ.txns false).Committed ∧ (state.occ.txns true).Committed :=
  Reach.exists_of_exec payAndAmalRun (by decide +kernel)

theorem thousands_settled : Settled {0, 1} 4000 thousands where
  whole _ _ := ⟨1000, rfl⟩
  total := by decide +kernel

theorem money_conserved_two : ∃ state : Running RowKey ℚ Bool Bool,
    ((state.occ.txns false).Committed ∧ (state.occ.txns true).Committed) ∧
      Settled {0, 1} 4000 fun key => (state.occ.records key).value := by
  obtain ⟨state, reach, committed⟩ := exists_payAndAmal
  have transfers : ∀ tid, (payAndAmal tid).Transfers {0, 1}
    | false => ⟨by decide, by decide⟩
    | true => ⟨by decide, by decide⟩
  obtain ⟨_, -, -, -, settled⟩ := money_conserved twoMachines exact {0, 1} 4000 (fun _ => 0)
    thousands payAndAmal transfers thousands_settled (by norm_num) state reach
  refine ⟨state, committed, settled ?_⟩
  rintro (_ | _) _
  · exact committed.1
  · exact committed.2

theorem never_overdrawn_two : ∃ state : Running RowKey ℚ Bool Bool,
    ((state.occ.txns false).Committed ∧ (state.occ.txns true).Committed) ∧
      ∀ key, 0 ≤ (state.occ.records key).value := by
  obtain ⟨state, reach, committed⟩ := exists_payAndAmal
  refine ⟨state, committed, (never_overdrawn twoMachines exact (fun _ => 0) thousands payAndAmal
    ?_ (fun _ => by norm_num [thousands]) state reach).1⟩
  rintro (_ | _) id <;> simp [payAndAmal]

end Rocc.Bank
