import Rocc.Base.Program
import Rocc.Tpcc.NewOrder.Items

/-!
# `txn_new_order_new_api`

The transaction takes the next order id of its district and takes its items out of stock.  Its
insertions do nothing: `OCC::insert` returns without one.  What a floating point sum adds to the
year-to-date of a stock is given.
-/

namespace Rocc.Tpcc.NewOrder

universe u

/-- A table and a key. -/
abbrev RowKey := UInt32 × UInt64

/-- What a new order uses of a row: of a district its next order id, of a stock the rest. -/
structure Row (Amount : Type u) where
  dNextOId : Int32
  sQuantity : Int16
  sYtd : Amount
  sRemoteCnt : Int32
  deriving DecidableEq, Repr

/-- An item with the quantity that is ordered. -/
structure Line extends Item where
  olQuantity : UInt32
  ordered : 1 ≤ olQuantity.toNat ∧ olQuantity.toNat ≤ 10

/-- The parameters of a transaction once the items are selected. -/
structure Input where
  warehouseId : UInt32
  districtId : UInt32
  localStocks : List Line
  remoteStocks : List Line

variable {Amount : Type u} (addYtd : Amount → UInt32 → Amount)

/-- The new `s_quantity`.  The difference is one of unsigned numbers. -/
def restock (sQuantity : Int16) (olQuantity : UInt32) : Int16 :=
  let rest := sQuantity.toInt32.toUInt32 - olQuantity
  if 10 ≤ rest then rest.toUInt16.toInt16
  else (sQuantity.toInt32 + (-olQuantity.toInt32 + 91)).toInt16

/-- What a line does to the row of its stock. -/
def takeOut (olQuantity : UInt32) (remote : Bool) (row : Row Amount) : Row Amount :=
  { row with
    sQuantity := restock row.sQuantity olQuantity
    sYtd := addYtd row.sYtd olQuantity
    sRemoteCnt := row.sRemoteCnt + if remote then 1 else 0 }

/-- The next order of a district. -/
def nextOrder (row : Row Amount) : Row Amount := { row with dNextOId := row.dNextOId + 1 }

/-- The row of the district. -/
def Input.district (input : Input) : RowKey :=
  (dist, (makeDistrictKey input.warehouseId.toInt32 input.districtId.toInt32).toUInt64)

/-- The row of the stock. -/
def Line.stock (line : Line) : RowKey := (stoc, line.sKey.toUInt64)

/-- One of the loops over the lines. -/
def takeOutLines (remote : Line → Bool) (lines : List Line)
    (rest : Program RowKey (Row Amount)) : Program RowKey (Row Amount) :=
  lines.foldr
    (fun line rest => .update line.stock (takeOut addYtd line.olQuantity (remote line)) rest) rest

/-- `txn_new_order_new_api`. -/
def newOrder (input : Input) : Program RowKey (Row Amount) :=
  .update input.district nextOrder
    (takeOutLines addYtd (fun line => line.supply ≠ input.warehouseId) input.localStocks
      (takeOutLines addYtd (fun _ => true) input.remoteStocks .commit))

/-! ## Running alone -/

variable {addYtd}

/-- The lines leave alone the buffers of other rows. -/
theorem takeOutLines_of_ne {remote : Line → Bool} {lines : List Line}
    {rest : Program RowKey (Row Amount)} {key : RowKey} {store : RowKey → Row Amount}
    (others : ∀ line ∈ lines, line.stock ≠ key)
    (kept : ∀ buffers, rest.exec store buffers key = buffers key)
    (buffers : RowKey → Option (Row Amount)) :
    (takeOutLines addYtd remote lines rest).exec store buffers key = buffers key := by
  induction lines generalizing buffers with
  | nil => exact kept buffers
  | cons line lines ih =>
      rw [takeOutLines, List.foldr_cons, Program.exec_update, ← takeOutLines,
        ih fun other member => others other (List.mem_cons_of_mem _ member)]
      exact Function.update_of_ne (others line List.mem_cons_self).symm _ _

/-- The row of a district differs from that of every stock. -/
theorem Line.stock_ne_dist (line : Line) (key : UInt64) : line.stock ≠ (dist, key) := by
  intro same
  exact absurd (congrArg Prod.fst same) (by decide : stoc ≠ dist)

/-- The lines are the items that the loop has selected. -/
structure Input.IsOf (input : Input) (selected : Loop) : Prop where
  localStocks : input.localStocks.map Line.toItem = selected.localStocks
  remoteStocks : input.remoteStocks.map Line.toItem = selected.remoteStocks

/-- A new order loads no row twice. -/
theorem Input.IsOf.nodup {config : Config} {input : Input} {selected : Loop}
    (isOf : input.IsOf selected) (all : Selected config selected) :
    (input.district :: (input.localStocks ++ input.remoteStocks).map Line.stock).Nodup := by
  have keys := all.keys
  rw [Loop.items, ← isOf.localStocks, ← isOf.remoteStocks, ← List.map_append, List.map_map] at keys
  refine List.nodup_cons.mpr ⟨fun member => ?_, ?_⟩
  · obtain ⟨line, _, same⟩ := List.mem_map.mp member
    exact line.stock_ne_dist _ same
  · rw [List.nodup_map_iff_inj_on keys.of_map]
    intro first member second otherMember same
    refine List.inj_on_of_nodup_map keys member otherMember ?_
    simpa [Line.stock] using congrArg (fun key : RowKey => key.2.toInt64) same

/-- Of the districts, a new order changes its own. -/
theorem exec_newOrder_dist (input : Input) (store : RowKey → Row Amount) (key : UInt64) :
    (newOrder addYtd input).exec store (fun _ => none) (dist, key) =
      if (dist, key) = input.district then some (nextOrder (store input.district)) else none := by
  rw [newOrder, Program.exec_update, takeOutLines_of_ne (fun line _ => line.stock_ne_dist key)
    (takeOutLines_of_ne (fun line _ => line.stock_ne_dist key) fun _ => rfl),
    Function.update_apply]

theorem run_newOrder_dist (input : Input) (store : RowKey → Row Amount) (key : UInt64) :
    (newOrder addYtd input).run store (dist, key) =
      if (dist, key) = input.district then nextOrder (store (dist, key))
      else store (dist, key) := by
  rw [Program.run, exec_newOrder_dist]
  split
  · rename_i same
    rw [same]
    rfl
  · rfl

/-! ## Stocks -/

/-- A stock is never below ten and never above a hundred. -/
def InStock (key : RowKey) (row : Row Amount) : Prop :=
  key.1 = stoc → 10 ≤ row.sQuantity.toInt ∧ row.sQuantity.toInt ≤ 100

theorem restock_range : ∀ quantity : Fin 101, ∀ ordered : Fin 11, 10 ≤ quantity.val →
    1 ≤ ordered.val →
      10 ≤ (restock (Int16.ofNat quantity) (UInt32.ofNat ordered)).toInt ∧
        (restock (Int16.ofNat quantity) (UInt32.ofNat ordered)).toInt ≤ 100 := by
  decide +kernel

theorem ofNat_toInt {sQuantity : Int16} (inStock : 10 ≤ sQuantity.toInt) :
    Int16.ofNat sQuantity.toInt.toNat = sQuantity := by
  rw [← Int16.ofInt_eq_ofNat, Int.toNat_of_nonneg (by omega), Int16.ofInt_toInt]

theorem ten_le_ofNat : ∀ quantity : Fin 101, 10 ≤ quantity.val →
    10 ≤ (Int16.ofNat quantity).toInt32.toUInt32 := by
  decide +kernel

/-- The unsigned difference does not wrap around. -/
theorem ten_le_of_inStock {sQuantity : Int16}
    (inStock : 10 ≤ sQuantity.toInt ∧ sQuantity.toInt ≤ 100) :
    10 ≤ sQuantity.toInt32.toUInt32 := by
  have bound := ten_le_ofNat ⟨sQuantity.toInt.toNat, by omega⟩ (by simp only; omega)
  rwa [ofNat_toInt inStock.1] at bound

/-- What is taken out is replaced in time. -/
theorem restock_inStock {sQuantity : Int16} {olQuantity : UInt32}
    (inStock : 10 ≤ sQuantity.toInt ∧ sQuantity.toInt ≤ 100)
    (ordered : 1 ≤ olQuantity.toNat ∧ olQuantity.toNat ≤ 10) :
    10 ≤ (restock sQuantity olQuantity).toInt ∧ (restock sQuantity olQuantity).toInt ≤ 100 := by
  have range := restock_range ⟨sQuantity.toInt.toNat, by omega⟩ ⟨olQuantity.toNat, by omega⟩
    (by simp only; omega) ordered.1
  rw [ofNat_toInt inStock.1, UInt32.ofNat_toNat] at range
  exact range

/-- The lines keep stocks in stock. -/
theorem takeOutLines_inStock {remote : Line → Bool} {lines : List Line}
    {rest : Program RowKey (Row Amount)} {store : RowKey → Row Amount}
    (inStock : ∀ key, InStock key (store key))
    (kept : ∀ buffers, (∀ key row, buffers key = some row → InStock key row) →
      ∀ key row, rest.exec store buffers key = some row → InStock key row)
    (buffers : RowKey → Option (Row Amount))
    (buffered : ∀ key row, buffers key = some row → InStock key row) :
    ∀ key row, (takeOutLines addYtd remote lines rest).exec store buffers key = some row →
      InStock key row := by
  induction lines generalizing buffers with
  | nil => exact kept buffers buffered
  | cons line lines ih =>
      rw [takeOutLines, List.foldr_cons, Program.exec_update, ← takeOutLines]
      refine ih _ fun key row found => ?_
      rw [Function.update_apply] at found
      split at found
      · rename_i isStock
        obtain rfl := Option.some.inj found
        intro _
        exact restock_inStock (inStock line.stock rfl) line.ordered
      · exact buffered key row found

theorem newOrder_keeps_inStock (input : Input) :
    (newOrder addYtd input).Keeps (@InStock Amount) := by
  intro store inStock
  rw [newOrder, Program.exec_update]
  refine takeOutLines_inStock inStock ?_ _ ?_
  · exact takeOutLines_inStock inStock fun buffers buffered => buffered
  · intro key row found
    rw [Function.update_apply] at found
    split at found
    · rename_i isDistrict
      obtain rfl := Option.some.inj found
      rw [isDistrict]
      exact inStock input.district
    · cases found

end Rocc.Tpcc.NewOrder
