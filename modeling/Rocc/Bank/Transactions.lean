import Mathlib.Algebra.BigOperators.Group.Finset.Basic
import Mathlib.Algebra.Order.BigOperators.Group.Finset
import Mathlib.Data.Finset.Prod
import Mathlib.Data.Rat.Cast.Order
import Mathlib.Tactic.NormNum
import Mathlib.Tactic.Ring
import Rocc.Base.Program
import Rocc.Base.Run

/-!
# The transactions of SmallBank

The balances are floating point numbers.  How a sum is rounded is given: the rounding is monotone
and leaves alone the natural numbers of up to the bits of a significand.
-/

namespace Rocc.Bank

/-- `SAV`. -/
def sav : UInt32 := 1

/-- `CHECK`. -/
def check : UInt32 := 2

/-- A table and a key. -/
abbrev RowKey := UInt32 × UInt64

/-- Rounding to a `float` and to a `double`. -/
structure Rounding where
  single : ℚ → ℚ
  double : ℚ → ℚ
  single_mono : Monotone single
  double_mono : Monotone double
  single_natCast : ∀ number : ℕ, number ≤ 2 ^ 24 → single number = number
  double_natCast : ∀ number : ℕ, number ≤ 2 ^ 53 → double number = number

/-- A transaction with the accounts that it got from the random generator. -/
inductive Input where
  | sendPayment (id0 id1 : UInt64) (different : id1 ≠ id0)
  | depositChecking (id : UInt64)
  | balance (id : UInt64)
  | transactSavings (id : UInt64)
  | writeCheck (id : UInt64)
  | amal (id0 id1 : UInt64) (different : id1 ≠ id0)
  deriving DecidableEq, Repr

variable (rounding : Rounding)

/-- `txn_sp_new_api`. -/
def txnSpNewApi (id0 id1 : UInt64) : Program RowKey ℚ :=
  let amount : ℚ := 5
  .write (check, id0) fun c0 =>
    .write (check, id1) fun c1 =>
      if c0 < amount then .commit
      else
        .modify (check, id0) (rounding.single (c0 - amount))
          (.modify (check, id1) (rounding.single (c1 + amount)) .commit)

/-- `txn_wc_new_api`. -/
def txnWcNewApi (id : UInt64) : Program RowKey ℚ :=
  let amount : ℚ := 5
  .read (sav, id) fun sv =>
    .write (check, id) fun cv =>
      let total := rounding.single (sv + cv)
      if total < amount then
        .modify (check, id) (rounding.single (cv - rounding.single (amount - 1))) .commit
      else
        .modify (check, id) (rounding.single (cv - amount)) .commit

/-- `txn_dc_new_api`. -/
def txnDcNewApi (id : UInt64) : Program RowKey ℚ :=
  let amount := rounding.single (rounding.double (13 / 10))
  .update (check, id) (fun cv => rounding.single (cv + amount)) .commit

/-- `txn_ts_new_api`. -/
def txnTsNewApi (id : UInt64) : Program RowKey ℚ :=
  let amount := rounding.single (rounding.double (202 / 10))
  .update (sav, id) (fun sv => rounding.single (sv + amount)) .commit

/-- `txn_balance_new_api`. -/
def txnBalanceNewApi (id : UInt64) : Program RowKey ℚ :=
  .read (check, id) fun _ => .read (sav, id) fun _ => .commit

/-- `txn_amal_new_api`. -/
def txnAmalNewApi (id0 id1 : UInt64) : Program RowKey ℚ :=
  .write (sav, id0) fun s0 =>
    .write (check, id0) fun c0 =>
      .write (check, id1) fun c1 =>
        let total := rounding.single (s0 + c0)
        .modify (sav, id0) 0
          (.modify (check, id0) 0
            (.modify (check, id1) (rounding.single (rounding.double (c1 + total))) .commit))

/-- The program of a transaction. -/
def Input.program : Input → Program RowKey ℚ
  | .sendPayment id0 id1 _ => txnSpNewApi rounding id0 id1
  | .depositChecking id => txnDcNewApi rounding id
  | .balance id => txnBalanceNewApi id
  | .transactSavings id => txnTsNewApi rounding id
  | .writeCheck id => txnWcNewApi rounding id
  | .amal id0 id1 _ => txnAmalNewApi rounding id0 id1

/-! ## Running alone -/

variable {rounding} {store : RowKey → ℚ} {id id0 id1 : UInt64}

theorem ne_of_id (different : id1 ≠ id0) (left right : UInt32) : (left, id1) ≠ (right, id0) :=
  fun same => different (congrArg Prod.snd same)

theorem sav_ne_check (left right : UInt64) : (sav, left) ≠ (check, right) :=
  fun same => absurd (congrArg Prod.fst same) (by decide : sav ≠ check)

/-- A payment moves five from one account to the other if there are five. -/
theorem exec_txnSp (different : id1 ≠ id0) :
    (txnSpNewApi rounding id0 id1).exec store (fun _ => none) =
      if store (check, id0) < 5 then
        Function.update (Function.update (fun _ => none) (check, id0) (some (store (check, id0))))
          (check, id1) (some (store (check, id1)))
      else
        Function.update
          (Function.update (fun _ => none) (check, id0)
            (some (rounding.single (store (check, id0) - 5))))
          (check, id1) (some (rounding.single (store (check, id1) + 5))) := by
  have other := ne_of_id different check check
  simp only [txnSpNewApi, Program.exec]
  split
  · rfl
  · funext key
    simp only [Program.exec, Program.store_apply, Function.update_apply]
    by_cases first : key = (check, id0)
    · subst first
      simp [other.symm]
    · by_cases second : key = (check, id1)
      · subst second
        simp [different]
      · simp [first, second]

/-- An amalgamation moves all of one account to the other. -/
theorem exec_txnAmal (different : id1 ≠ id0) :
    (txnAmalNewApi rounding id0 id1).exec store (fun _ => none) =
      Function.update
        (Function.update (Function.update (fun _ => none) (sav, id0) (some 0)) (check, id0)
          (some 0))
        (check, id1) (some (rounding.single (rounding.double
          (store (check, id1) + rounding.single (store (sav, id0) + store (check, id0)))))) := by
  have other := ne_of_id different check check
  have table := sav_ne_check id0 id0
  have tableOther := sav_ne_check id0 id1
  simp only [txnAmalNewApi, Program.exec]
  funext key
  simp only [Program.store_apply, Function.update_apply]
  by_cases savings : key = (sav, id0)
  · subst savings
    simp [table, tableOther]
  · by_cases first : key = (check, id0)
    · subst first
      simp [table.symm, other.symm]
    · by_cases second : key = (check, id1)
      · subst second
        simp [different]
      · simp [savings, first, second]

theorem run_txnSp (different : id1 ≠ id0) (key : RowKey) :
    (txnSpNewApi rounding id0 id1).run store key =
      if store (check, id0) < 5 then store key
      else if key = (check, id1) then rounding.single (store key + 5)
      else if key = (check, id0) then rounding.single (store key - 5)
      else store key := by
  rw [Program.run, exec_txnSp different]
  split <;> simp only [Function.update_apply]
  · split
    · rename_i same
      rw [same, Option.getD_some]
    · split
      · rename_i same
        rw [same, Option.getD_some]
      · rfl
  · split
    · rename_i same
      rw [same, Option.getD_some]
    · split
      · rename_i same
        rw [same, Option.getD_some]
      · rfl

theorem run_txnAmal (different : id1 ≠ id0) (key : RowKey) :
    (txnAmalNewApi rounding id0 id1).run store key =
      if key = (check, id1) then
        rounding.single (rounding.double
          (store key + rounding.single (store (sav, id0) + store (check, id0))))
      else if key = (check, id0) ∨ key = (sav, id0) then 0
      else store key := by
  rw [Program.run, exec_txnAmal different]
  simp only [Function.update_apply]
  split
  · rename_i same
    rw [same, Option.getD_some]
  · by_cases first : key = (check, id0)
    · simp [first]
    · by_cases savings : key = (sav, id0) <;> simp [first, savings]

/-! ## No overdraft -/

theorem Rounding.single_nonneg {sum : ℚ} (nonneg : 0 ≤ sum) : 0 ≤ rounding.single sum := by
  have zero := rounding.single_natCast 0 (by omega)
  rw [Nat.cast_zero] at zero
  exact zero ▸ rounding.single_mono nonneg

theorem Rounding.double_nonneg {sum : ℚ} (nonneg : 0 ≤ sum) : 0 ≤ rounding.double sum := by
  have zero := rounding.double_natCast 0 (by omega)
  rw [Nat.cast_zero] at zero
  exact zero ▸ rounding.double_mono nonneg

/-- No record has a negative balance. -/
def InCredit (_ : RowKey) (balance : ℚ) : Prop := 0 ≤ balance

theorem txnSp_keeps (different : id1 ≠ id0) :
    (txnSpNewApi rounding id0 id1).Keeps InCredit := by
  intro store credit key value written
  rw [exec_txnSp different] at written
  have added := rounding.single_nonneg
    (add_nonneg (credit (check, id1)) (by norm_num : (0 : ℚ) ≤ 5))
  split at written
  · simp only [Function.update_apply] at written
    split at written
    · exact Option.some.inj written ▸ credit (check, id1)
    · split at written
      · exact Option.some.inj written ▸ credit (check, id0)
      · cases written
  · rename_i enough
    simp only [Function.update_apply] at written
    split at written
    · exact Option.some.inj written ▸ added
    · split at written
      · exact Option.some.inj written ▸ rounding.single_nonneg (sub_nonneg.mpr (not_lt.mp enough))
      · cases written

theorem txnAmal_keeps (different : id1 ≠ id0) :
    (txnAmalNewApi rounding id0 id1).Keeps InCredit := by
  intro store credit key value written
  rw [exec_txnAmal different] at written
  have total := rounding.single_nonneg (add_nonneg (credit (sav, id0)) (credit (check, id0)))
  simp only [Function.update_apply] at written
  split at written
  · exact Option.some.inj written ▸
      rounding.single_nonneg (rounding.double_nonneg (add_nonneg (credit (check, id1)) total))
  · split at written
    · exact Option.some.inj written ▸ le_rfl
    · split at written
      · exact Option.some.inj written ▸ le_rfl
      · cases written

/-- A deposit. -/
theorem update_keeps {key : RowKey} {amount : ℚ} (positive : 0 ≤ amount) :
    (Program.update key (fun balance => rounding.single (balance + amount)) .commit).Keeps
      InCredit := by
  intro store credit other value written
  rw [Program.exec_update, Program.exec, Function.update_apply] at written
  split at written
  · exact Option.some.inj written ▸ rounding.single_nonneg (add_nonneg (credit key) positive)
  · cases written

/-- All transactions but the one that writes a check. -/
theorem Input.keeps (input : Input) (noCheck : ∀ id, input ≠ .writeCheck id) :
    (input.program rounding).Keeps InCredit := by
  cases input with
  | sendPayment id0 id1 different => exact txnSp_keeps different
  | depositChecking id =>
      exact update_keeps (rounding.single_nonneg (rounding.double_nonneg (by norm_num)))
  | balance id =>
      intro store credit key value written
      cases written
  | transactSavings id =>
      exact update_keeps (rounding.single_nonneg (rounding.double_nonneg (by norm_num)))
  | writeCheck id => exact absurd rfl (noCheck id)
  | amal id0 id1 different => exact txnAmal_keeps different

/-! ## Money -/

/-- The records of the accounts. -/
def rows (accounts : Finset UInt64) : Finset RowKey := {sav, check} ×ˢ accounts

/-- Whole balances, none of them negative, that add up to the amount. -/
structure Settled (accounts : Finset UInt64) (amount : ℚ) (store : RowKey → ℚ) : Prop where
  whole : ∀ key ∈ rows accounts, ∃ number : ℕ, store key = number
  total : ∑ key ∈ rows accounts, store key = amount

namespace Settled

variable {accounts : Finset UInt64} {amount : ℚ} {after : RowKey → ℚ}

theorem nonneg (settled : Settled accounts amount store) {key : RowKey}
    (member : key ∈ rows accounts) : 0 ≤ store key := by
  obtain ⟨number, isNumber⟩ := settled.whole key member
  rw [isNumber]
  exact Nat.cast_nonneg number

/-- Some records hold no more than all of them. -/
theorem sum_le (settled : Settled accounts amount store) {touched : Finset RowKey}
    (sub : touched ⊆ rows accounts) : ∑ key ∈ touched, store key ≤ amount := by
  rw [← settled.total]
  exact Finset.sum_le_sum_of_subset_of_nonneg sub fun key member _ => settled.nonneg member

/-- Money that stays within some records. -/
theorem exchange (settled : Settled accounts amount store) (touched : Finset RowKey)
    (sub : touched ⊆ rows accounts) (others : ∀ key, key ∉ touched → after key = store key)
    (whole : ∀ key ∈ touched, ∃ number : ℕ, after key = number)
    (balanced : ∑ key ∈ touched, after key = ∑ key ∈ touched, store key) :
    Settled accounts amount after where
  whole key member := by
    by_cases here : key ∈ touched
    · exact whole key here
    · rw [others key here]
      exact settled.whole key member
  total := by
    rw [← settled.total, ← Finset.sum_sdiff sub, ← Finset.sum_sdiff sub, balanced]
    congr 1
    exact Finset.sum_congr rfl fun key member => others key (Finset.mem_sdiff.mp member).2

/-- What a payment takes from one account it gives to the other. -/
theorem txnSp (settled : Settled accounts amount store) (few : amount ≤ 2 ^ 24)
    (different : id1 ≠ id0) (member0 : id0 ∈ accounts) (member1 : id1 ∈ accounts) :
    Settled accounts amount ((txnSpNewApi rounding id0 id1).run store) := by
  have other := ne_of_id different check check
  have sub : {(check, id0), (check, id1)} ⊆ rows accounts := by
    simp [rows, Finset.insert_subset_iff, member0, member1]
  obtain ⟨first, isFirst⟩ := settled.whole (check, id0) (sub (by simp))
  obtain ⟨second, isSecond⟩ := settled.whole (check, id1) (sub (by simp))
  have bound := settled.sum_le sub
  rw [Finset.sum_pair other.symm, isFirst, isSecond] at bound
  have fits : first + second ≤ 2 ^ 24 := by exact_mod_cast bound.trans few
  by_cases short : store (check, id0) < 5
  · have same : (txnSpNewApi rounding id0 id1).run store = store := by
      funext key
      rw [run_txnSp different, if_pos short]
    rwa [same]
  · have enough : 5 ≤ first := by
      rw [isFirst] at short
      exact_mod_cast not_lt.mp short
    have taken : (txnSpNewApi rounding id0 id1).run store (check, id0) = ((first - 5 : ℕ) : ℚ) := by
      rw [run_txnSp different, if_neg short, if_neg other.symm, if_pos rfl, isFirst,
        ← rounding.single_natCast (first - 5) (by omega), Nat.cast_sub enough]
      rfl
    have given :
        (txnSpNewApi rounding id0 id1).run store (check, id1) = ((second + 5 : ℕ) : ℚ) := by
      rw [run_txnSp different, if_neg short, if_pos rfl, isSecond,
        ← rounding.single_natCast (second + 5) (by omega), Nat.cast_add]
      rfl
    refine settled.exchange {(check, id0), (check, id1)} sub ?_ ?_ ?_
    · intro key outside
      simp only [Finset.mem_insert, Finset.mem_singleton, not_or] at outside
      rw [run_txnSp different, if_neg short, if_neg outside.2, if_neg outside.1]
    · simp only [Finset.mem_insert, Finset.mem_singleton, forall_eq_or_imp, forall_eq]
      exact ⟨⟨_, taken⟩, ⟨_, given⟩⟩
    · rw [Finset.sum_pair other.symm, Finset.sum_pair other.symm, taken, given, isFirst, isSecond,
        ← Nat.cast_add, ← Nat.cast_add]
      congr 1
      omega

/-- The other account gets all that an amalgamation takes. -/
theorem txnAmal (settled : Settled accounts amount store) (few : amount ≤ 2 ^ 24)
    (different : id1 ≠ id0) (member0 : id0 ∈ accounts) (member1 : id1 ∈ accounts) :
    Settled accounts amount ((txnAmalNewApi rounding id0 id1).run store) := by
  have other := ne_of_id different check check
  have table := sav_ne_check id0 id0
  have tableOther := sav_ne_check id0 id1
  have sub : {(sav, id0), (check, id0), (check, id1)} ⊆ rows accounts := by
    simp [rows, Finset.insert_subset_iff, member0, member1]
  obtain ⟨savings, isSavings⟩ := settled.whole (sav, id0) (sub (by simp))
  obtain ⟨first, isFirst⟩ := settled.whole (check, id0) (sub (by simp))
  obtain ⟨second, isSecond⟩ := settled.whole (check, id1) (sub (by simp))
  have sum (one : RowKey → ℚ) : ∑ key ∈ {(sav, id0), (check, id0), (check, id1)}, one key =
      one (sav, id0) + (one (check, id0) + one (check, id1)) := by
    rw [Finset.sum_insert (by simp [table, tableOther]), Finset.sum_pair other.symm]
  have bound := settled.sum_le sub
  rw [sum, isSavings, isFirst, isSecond] at bound
  have fits : savings + (first + second) ≤ 2 ^ 24 := by exact_mod_cast bound.trans few
  have all : (txnAmalNewApi rounding id0 id1).run store (check, id1) =
      ((second + (savings + first) : ℕ) : ℚ) := by
    rw [run_txnAmal different, if_pos rfl, isSavings, isFirst, isSecond, ← Nat.cast_add,
      rounding.single_natCast (savings + first) (by omega), ← Nat.cast_add,
      rounding.double_natCast _ (by omega), rounding.single_natCast _ (by omega)]
  have noChecking : (txnAmalNewApi rounding id0 id1).run store (check, id0) = ((0 : ℕ) : ℚ) := by
    rw [run_txnAmal different, if_neg other.symm, if_pos (.inl rfl), Nat.cast_zero]
  have noSavings : (txnAmalNewApi rounding id0 id1).run store (sav, id0) = ((0 : ℕ) : ℚ) := by
    rw [run_txnAmal different, if_neg tableOther, if_pos (.inr rfl), Nat.cast_zero]
  refine settled.exchange {(sav, id0), (check, id0), (check, id1)} sub ?_ ?_ ?_
  · intro key outside
    simp only [Finset.mem_insert, Finset.mem_singleton, not_or] at outside
    rw [run_txnAmal different, if_neg outside.2.2, if_neg (not_or.mpr ⟨outside.2.1, outside.1⟩)]
  · simp only [Finset.mem_insert, Finset.mem_singleton, forall_eq_or_imp, forall_eq]
    exact ⟨⟨_, noSavings⟩, ⟨_, noChecking⟩, ⟨_, all⟩⟩
  · rw [sum, sum, noSavings, noChecking, all, isSavings, isFirst, isSecond]
    push_cast
    ring

end Settled

/-- The transaction moves money between these accounts, or none. -/
def Input.Transfers (accounts : Finset UInt64) : Input → Prop
  | .sendPayment id0 id1 _ | .amal id0 id1 _ => id0 ∈ accounts ∧ id1 ∈ accounts
  | .balance _ => True
  | _ => False

theorem Input.Transfers.settled {accounts : Finset UInt64} {amount : ℚ} {input : Input}
    (transfers : input.Transfers accounts) (settled : Settled accounts amount store)
    (few : amount ≤ 2 ^ 24) : Settled accounts amount ((input.program rounding).run store) := by
  cases input with
  | sendPayment id0 id1 different =>
      exact settled.txnSp few different transfers.1 transfers.2
  | amal id0 id1 different =>
      exact settled.txnAmal few different transfers.1 transfers.2
  | balance id => exact settled
  | _ => exact transfers.elim

end Rocc.Bank
