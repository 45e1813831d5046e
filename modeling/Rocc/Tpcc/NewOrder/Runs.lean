import Rocc.Occ.Programs
import Rocc.Tpcc.NewOrder.Program

/-!
# New orders over optimistic concurrency control

The orders of a district get consecutive ids, in an order that respects real time, and no stock
ever leaves its range.
-/

set_option linter.unusedSectionVars false

namespace Rocc.Tpcc.NewOrder

open Occ

universe u w x

variable {Amount : Type u} {Tid : Type w} {Owner : Type x}
variable {addYtd : Amount → UInt32 → Amount}

/-- How many orders of a district there are. -/
def ordersOf (input : Tid → Input) (district : RowKey) (order : List Tid) : Nat :=
  order.countP fun tid => (input tid).district = district

/-- The programs of the transactions. -/
def programs (addYtd : Amount → UInt32 → Amount) (input : Tid → Input) (tid : Tid) :
    Program RowKey (Row Amount) :=
  newOrder addYtd (input tid)

/-- Every order of the district has counted its next order id up. -/
theorem sequential_dNextOId (input : Tid → Input) (store : RowKey → Row Amount) (key : UInt64)
    (order : List Tid) :
    (Program.sequential (programs addYtd input) store order (dist, key)).dNextOId =
      (store (dist, key)).dNextOId + Int32.ofNat (ordersOf input (dist, key) order) := by
  induction order using List.reverseRecOn with
  | nil => simp [ordersOf, Program.sequential]
  | append_singleton order tid ih =>
      rw [Program.sequential_concat, programs, run_newOrder_dist, ordersOf, List.countP_append,
        List.countP_singleton]
      split
      · rename_i same
        rw [if_pos (by simpa using same.symm), Int32.ofNat_add, ← Int32.add_assoc, nextOrder, ih]
        rfl
      · rename_i different
        rw [if_neg (by simpa using fun same => different same.symm), Nat.add_zero, ih]
        rfl

/-- The order id that a transaction has loaded. -/
def orderId (input : Tid → Input) (txns : Tid → Txn RowKey (Row Amount)) (tid : Tid) :
    Option Int32 :=
  ((txns tid).footprint.reads (input tid).district).map Row.dNextOId

/-- A row that is written was loaded. -/
theorem exists_read {txn : Txn RowKey (Row Amount)} {key : RowKey} {row : Row Amount}
    (written : txn.footprint.writes key = some row) :
    ∃ loaded, txn.footprint.reads key = some loaded := by
  obtain ⟨item, found, _⟩ := Option.map_eq_some_iff.mp written
  have member := List.mem_of_find?_eq_some found
  have isKey : item.key = key := by simpa using List.find?_some found
  have some : ((txn.readSet ++ txn.writeSet).find? (·.key = key)).isSome := by
    rw [List.find?_isSome]
    exact ⟨item, by simp [member], by simpa using isKey⟩
  obtain ⟨other, isOther⟩ := Option.isSome_iff_exists.mp some
  exact ⟨other.value, congrArg (Option.map ReadSetItem.value) isOther⟩

/-! ## Runs -/

variable [DecidableEq Tid] [DecidableEq Owner] {config : Occ.Config RowKey Tid Owner}
variable {seq₀ : RowKey → Nat} {value₀ : RowKey → Row Amount} {input : Tid → Input}
variable {state : Running RowKey (Row Amount) Tid Owner} {order : List Tid}

/-- The id of an order is the first one of its district and the number of orders before it. -/
theorem orderId_eq
    (sequential : Running.IsSequential value₀ (programs addYtd input) state order)
    {first rest : List Tid} {tid : Tid} (split : order = first ++ tid :: rest) :
    orderId input state.occ.txns tid = some ((value₀ (input tid).district).dNextOId +
      Int32.ofNat (ordersOf input (input tid).district first)) := by
  have writes := congrFun (sequential.writes first tid rest split) (input tid).district
  have isOwn : (input tid).district = (dist, (input tid).district.2) := rfl
  rw [programs, isOwn, exec_newOrder_dist, if_pos isOwn.symm] at writes
  obtain ⟨row, read⟩ := exists_read writes
  have loaded := sequential.loads first tid rest split _ row read
  rw [orderId, isOwn, read, Option.map_some, ← loaded, sequential_dNextOId]

/-- Numbers below the range of an `int32_t` are different there. -/
theorem ofNat_injective {left right : Nat} (leftFits : left < 2 ^ 32) (rightFits : right < 2 ^ 32)
    (same : Int32.ofNat left = Int32.ofNat right) : left = right := by
  have words := congrArg (fun number => number.toUInt32.toNat) same
  simp only [Int32.toUInt32_ofNat', UInt32.toNat_ofNat'] at words
  rwa [Nat.mod_eq_of_lt leftFits, Nat.mod_eq_of_lt rightFits] at words

/-- Two orders of one district have different ids. -/
theorem orderId_ne
    (sequential : Running.IsSequential value₀ (programs addYtd input) state order)
    (few : order.length < 2 ^ 32) {first rest : List Tid} {earlier later : Tid}
    (split : order = first ++ earlier :: rest) (after : later ∈ rest)
    (same : (input earlier).district = (input later).district) :
    orderId input state.occ.txns earlier ≠ orderId input state.occ.txns later := by
  obtain ⟨middle, last, isRest⟩ := List.append_of_mem after
  have splitLater : order = (first ++ earlier :: middle) ++ later :: last := by
    rw [split, isRest]
    simp
  rw [orderId_eq sequential split, orderId_eq sequential splitLater, same]
  intro equal
  have counts := (Int32.add_right_inj _).mp (Option.some.inj equal)
  have more : ordersOf input (input later).district (first ++ earlier :: middle) =
      ordersOf input (input later).district first + 1 +
        ordersOf input (input later).district middle := by
    simp only [ordersOf, List.countP_append, List.countP_cons, same, decide_true, if_true]
    omega
  have bound : ordersOf input (input later).district (first ++ earlier :: middle) ≤
      (first ++ earlier :: middle).length := List.countP_le_length
  have shorter : (first ++ earlier :: middle).length ≤ order.length := by
    rw [splitLater]
    simp
  have numbers := ofNat_injective (by omega) (by omega) counts
  omega

/-- In every run of new orders over optimistic concurrency control the orders of a district get
consecutive ids, without gaps and, below `2 ^ 32` orders, without duplicates, in an order that
keeps real time; and once all have returned the district has the next one. -/
theorem order_ids_consecutive (config : Occ.Config RowKey Tid Owner)
    (addYtd : Amount → UInt32 → Amount) (seq₀ : RowKey → Nat) (value₀ : RowKey → Row Amount)
    (input : Tid → Input) (state : Running RowKey (Row Amount) Tid Owner)
    (reach : Reach (Running.step config) Running.NoWrap
      (Running.initial seq₀ value₀ (programs addYtd input)) state) :
    ∃ order : List Tid, order.Nodup ∧ (∀ tid, tid ∈ order ↔ (state.occ.txns tid).Decided) ∧
      Running.RealTime config seq₀ value₀ (programs addYtd input) state order ∧
      (∀ first tid rest, order = first ++ tid :: rest →
        orderId input state.occ.txns tid = some ((value₀ (input tid).district).dNextOId +
          Int32.ofNat (ordersOf input (input tid).district first))) ∧
      (order.length < 2 ^ 32 → ∀ left right, left ∈ order → right ∈ order → left ≠ right →
        (input left).district = (input right).district →
          orderId input state.occ.txns left ≠ orderId input state.occ.txns right) ∧
      ((∀ tid, (state.occ.txns tid).Decided → (state.occ.txns tid).Committed) →
        ∀ key, (state.occ.records (dist, key)).value.dNextOId =
          (value₀ (dist, key)).dNextOId + Int32.ofNat (ordersOf input (dist, key) order)) := by
  have sequential := Running.isSequential_of_reach reach
  refine ⟨_, sequential.nodup, sequential.mem, Running.realTime_of_reach,
    fun first tid rest split => orderId_eq sequential split, ?_, fun returned key => ?_⟩
  · intro few left right leftMember rightMember different same
    obtain ⟨first, rest, split⟩ := List.append_of_mem leftMember
    have rightIn := rightMember
    rw [split, List.mem_append] at rightIn
    rcases rightIn with before | after
    · obtain ⟨start, middle, isFirst⟩ := List.append_of_mem before
      rw [isFirst, List.append_assoc, List.cons_append] at split
      exact (orderId_ne sequential few split (by simp) same.symm).symm
    · exact orderId_ne sequential few split
        ((List.mem_cons.mp after).resolve_left different.symm) same
  · rw [sequential.records returned, sequential_dNextOId]

/-- In every run of new orders over optimistic concurrency control all stocks are between ten and a
hundred, in the records of every state and in all that any transaction has loaded, so that the
unsigned difference never wraps around. -/
theorem stocks_in_range (config : Occ.Config RowKey Tid Owner)
    (addYtd : Amount → UInt32 → Amount) (seq₀ : RowKey → Nat) (value₀ : RowKey → Row Amount)
    (input : Tid → Input) (loaded : ∀ key, InStock key (value₀ key))
    (state : Running RowKey (Row Amount) Tid Owner)
    (reach : Reach (Running.step config) Running.NoWrap
      (Running.initial seq₀ value₀ (programs addYtd input)) state) :
    (∀ key, InStock key (state.occ.records key).value) ∧
      ∀ tid key row, (state.occ.txns tid).footprint.reads key = some row →
        InStock key row ∧ (key.1 = stoc → ∀ quantity : UInt32, quantity.toNat ≤ 10 →
          quantity ≤ row.sQuantity.toInt32.toUInt32) := by
  obtain ⟨records, loads⟩ := Running.keeps_of_reach reach loaded fun tid =>
    newOrder_keeps_inStock (input tid)
  refine ⟨records, fun tid key row read => ⟨loads tid key row read, fun isStock quantity few => ?_⟩⟩
  have small : quantity ≤ 10 := UInt32.le_iff_toNat_le.mpr few
  exact UInt32.le_trans small (ten_le_of_inStock (loads tid key row read isStock))

/-- Two orders of one item each in one district. -/
def twoOrders (tid : Bool) : Input where
  warehouseId := 1
  districtId := 2
  localStocks :=
    [{ itemId := if tid then 7 else 8, supply := 1,
       sKey := stockKey 1 (if tid then 7 else 8), olQuantity := 5, ordered := by decide }]
  remoteStocks := []

/-- One machine and two coroutines. -/
def oneMachine : Occ.Config RowKey Bool Bool where
  pid _ := 0
  owner tid := tid
  lockContent owner := owner.toNat + 1
  lockContent_ne_zero := pairWord_ne_zero
  lockContent_injective := pairWord_injective

/-- A freshly loaded row. -/
def freshRow (_ : RowKey) : Row Unit where
  dNextOId := 3001
  sQuantity := 12
  sYtd := ()
  sRemoteCnt := 0

/-- One order after the other. -/
def orderRun (tid : Bool) : List (Running.Action RowKey Bool) :=
  [.begin tid, .call tid, .call tid, .call tid, .call tid, .call tid, .lockItem tid 0,
    .lockItem tid 0, .resume tid, .resume tid, .commitItem tid (twoOrders tid).district,
    .commitItem tid (stoc, (stockKey 1 (if tid then 7 else 8)).toUInt64), .resume tid]

theorem exists_twoOrders : ∃ state : Running RowKey (Row Unit) Bool Bool,
    Reach (Running.step oneMachine) Running.NoWrap
        (Running.initial (fun _ => 0) freshRow (programs (fun _ _ => ()) twoOrders)) state ∧
      (state.occ.txns false).Committed ∧ (state.occ.txns true).Committed :=
  Reach.exists_of_exec (orderRun false ++ orderRun true) (by decide +kernel)

theorem order_ids_consecutive_two : ∃ state : Running RowKey (Row Unit) Bool Bool,
    ((state.occ.txns false).Committed ∧ (state.occ.txns true).Committed) ∧
      orderId twoOrders state.occ.txns false ≠ orderId twoOrders state.occ.txns true := by
  obtain ⟨state, reach, committed⟩ := exists_twoOrders
  obtain ⟨order, nodup, mem, -, -, ids, -⟩ := order_ids_consecutive oneMachine (fun _ _ => ())
    (fun _ => 0) freshRow twoOrders state reach
  have member (tid : Bool) : tid ∈ order := by
    rw [mem]
    cases tid
    · simp [Txn.Decided, show (state.occ.txns false).stage = _ from committed.1]
    · simp [Txn.Decided, show (state.occ.txns true).stage = _ from committed.2]
  have few : order.length ≤ [false, true].length :=
    (List.subperm_of_subset nodup fun tid _ => by cases tid <;> simp).length_le
  exact ⟨state, committed, ids (by simpa using lt_of_le_of_lt few (by decide)) false true
    (member false) (member true) (by decide) rfl⟩

theorem stocks_in_range_two : ∃ state : Running RowKey (Row Unit) Bool Bool,
    ((state.occ.txns false).Committed ∧ (state.occ.txns true).Committed) ∧
      ∀ key, InStock key (state.occ.records key).value := by
  obtain ⟨state, reach, committed⟩ := exists_twoOrders
  exact ⟨state, committed, (stocks_in_range oneMachine (fun _ _ => ()) (fun _ => 0) freshRow
    twoOrders (fun _ _ => (by decide : 10 ≤ (12 : Int16).toInt ∧ (12 : Int16).toInt ≤ 100)) state
    reach).1⟩

end Rocc.Tpcc.NewOrder
