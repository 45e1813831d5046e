import Rocc.Tpcc.Keys
import Rocc.Tpcc.Tables

/-!
# The items of a new order

The loop draws an item and its supplier until it has enough different stocks.  A draw that is in
conflict with an earlier one costs a round: `i` is counted down and up again.  What the random
number generator returns is given.
-/

namespace Rocc.Tpcc.NewOrder

/-- What one round draws.  In the remote case `suppliers` are the warehouses that the inner loop
draws. -/
structure Draw where
  itemId : Int32
  percent : Nat
  suppliers : List UInt32

/-- Where a new order is made, and what it is made of. -/
structure Config where
  warehouseId : UInt32
  numWarehouses : Nat
  remoteItemPct : Nat
  scaleFactor : UInt64
  currentPartition : Int32

/-- An item with its supplier. -/
structure Item where
  itemId : Int32
  supply : UInt32
  sKey : Int64
  deriving DecidableEq, Repr

/-- The local variables of the loop. -/
structure Loop where
  i : UInt32
  stockSet : List Int64
  allLocal : Bool
  localStocks : List Item
  remoteStocks : List Item
  deriving DecidableEq, Repr

/-- Before the loop. -/
def Loop.initial : Loop where
  i := 0
  stockSet := []
  allLocal := true
  localStocks := []
  remoteStocks := []

variable (config : Config)

/-- `makeStockKey` of a warehouse. -/
def stockKey (warehouse : UInt32) (itemId : Int32) : Int64 :=
  makeStockKey warehouse.toInt32 itemId

/-- The inner loop: the warehouse it ends with, the stocks seen, and whether one of them had been
seen before. -/
def drawSupplier (itemId : Int32) :
    List UInt32 → List Int64 → Bool → Option (UInt32 × List Int64 × Bool)
  | [], _, _ => none
  | supplier :: rest, stockSet, conflict =>
      let sKey := stockKey supplier itemId
      let seen := sKey ∈ stockSet
      let stockSet := if seen then stockSet else sKey :: stockSet
      let conflict := conflict || decide seen
      if supplier = config.warehouseId then drawSupplier itemId rest stockSet conflict
      else some (supplier, stockSet, conflict)

/-- The round is repeated. -/
def Loop.again (loop : Loop) : Loop := { loop with i := loop.i - 1 + 1 }

/-- A local stock; `local_stocks` is an array of `int`. -/
def Loop.addLocal (loop : Loop) (item : Item) : Loop :=
  { loop with
    i := loop.i + 1
    localStocks := loop.localStocks ++ [{ item with sKey := item.sKey.toInt32.toInt64 }] }

/-- A stock of another machine. -/
def Loop.addRemote (loop : Loop) (item : Item) : Loop :=
  { loop with i := loop.i + 1, remoteStocks := loop.remoteStocks ++ [item] }

/-- One round of the loop. -/
def round (loop : Loop) (draw : Draw) : Option Loop :=
  if config.numWarehouses = 1 ∨ config.remoteItemPct < draw.percent then
    let sKey := stockKey config.warehouseId draw.itemId
    if sKey ∈ loop.stockSet then some loop.again
    else
      some ({ loop with stockSet := sKey :: loop.stockSet }.addLocal
        { itemId := draw.itemId, supply := config.warehouseId, sKey })
  else
    (drawSupplier config draw.itemId draw.suppliers loop.stockSet false).map
      fun (supplier, stockSet, conflict) =>
        let loop := { loop with stockSet, allLocal := false }
        let item := { itemId := draw.itemId, supply := supplier,
                      sKey := stockKey supplier draw.itemId }
        if conflict then loop.again
        else if warehouseToPartition config.scaleFactor supplier.toInt32 ≠
            config.currentPartition then
          loop.addRemote item
        else loop.addLocal item

/-- The whole loop; it has no result if the draws do not suffice. -/
def select (numItems : UInt32) : List Draw → Loop → Option Loop
  | draws, loop =>
      if loop.i < numItems then
        match draws with
        | [] => none
        | draw :: rest => (round config loop draw).bind (select numItems rest)
      else some loop

/-! ## What the loop keeps -/

variable {config : Config} {numItems : UInt32} {loop after : Loop}

/-- A stock key fits in an `int`. -/
theorem stockKey_narrow (warehouse : UInt32) (itemId : Int32) :
    (stockKey warehouse itemId).toInt32.toInt64 = stockKey warehouse itemId := by
  rw [stockKey, makeStockKey, Int32.toInt32_toInt64]

theorem Loop.again_eq (loop : Loop) : loop.again = loop := by
  rw [Loop.again, UInt32.sub_add_cancel]

/-- The items that were selected. -/
def Loop.items (loop : Loop) : List Item := loop.localStocks ++ loop.remoteStocks

/-- The supplier is the home warehouse or one of this machine. -/
def Near (config : Config) (supply : UInt32) : Prop :=
  supply = config.warehouseId ∨
    warehouseToPartition config.scaleFactor supply.toInt32 = config.currentPartition

/-- The supplier is a warehouse of another machine. -/
def Far (config : Config) (supply : UInt32) : Prop :=
  supply ≠ config.warehouseId ∧
    warehouseToPartition config.scaleFactor supply.toInt32 ≠ config.currentPartition

/-- What holds of the items in every round. -/
structure Selected (config : Config) (loop : Loop) : Prop where
  count : loop.items.length = loop.i.toNat
  keys : (loop.items.map Item.sKey).Nodup
  seen : ∀ item ∈ loop.items, item.sKey ∈ loop.stockSet
  sKey : ∀ item ∈ loop.items, item.sKey = stockKey item.supply item.itemId
  near : ∀ item ∈ loop.localStocks, Near config item.supply
  far : ∀ item ∈ loop.remoteStocks, Far config item.supply
  allLocal : loop.allLocal → ∀ item ∈ loop.items, item.supply = config.warehouseId

theorem selected_initial : Selected config .initial := by
  constructor <;> simp [Loop.initial, Loop.items]

/-- What the inner loop ends with. -/
theorem drawSupplier_spec {itemId : Int32} {suppliers : List UInt32} {stockSet : List Int64}
    {conflict : Bool} {supplier : UInt32} {seen : List Int64} {conflicts : Bool}
    (drawn : drawSupplier config itemId suppliers stockSet conflict =
      some (supplier, seen, conflicts)) :
    supplier ≠ config.warehouseId ∧ (∀ sKey ∈ stockSet, sKey ∈ seen) ∧
      stockKey supplier itemId ∈ seen ∧
      (conflicts = false → stockKey supplier itemId ∉ stockSet) := by
  induction suppliers generalizing stockSet conflict with
  | nil => cases drawn
  | cons first rest ih =>
      have grows : ∀ sKey ∈ stockSet, sKey ∈
          if stockKey first itemId ∈ stockSet then stockSet
          else stockKey first itemId :: stockSet := by
        intro sKey member
        split
        · exact member
        · exact List.mem_cons_of_mem _ member
      rw [drawSupplier] at drawn
      split at drawn
      · obtain ⟨different, kept, found, fresh⟩ := ih drawn
        exact ⟨different, fun sKey member => kept sKey (grows sKey member), found,
          fun none member => fresh none (grows _ member)⟩
      · rename_i different
        cases drawn
        refine ⟨different, grows, ?_, fun none member => ?_⟩
        · split
          · assumption
          · exact List.mem_cons_self
        · simp [member] at none

/-- An item of a stock that was not seen before. -/
structure Fresh (config : Config) (numItems : UInt32) (loop : Loop) (stockSet : List Int64)
    (allLocal : Bool) (item : Item) : Prop where
  room : loop.i < numItems
  grows : ∀ sKey ∈ loop.stockSet, sKey ∈ stockSet
  found : item.sKey ∈ stockSet
  fresh : item.sKey ∉ loop.stockSet
  isKey : item.sKey = stockKey item.supply item.itemId
  home : allLocal → loop.allLocal ∧ item.supply = config.warehouseId

namespace Selected

/-- A round that is repeated only sees more stocks. -/
theorem again (selected : Selected config loop) {stockSet : List Int64} {allLocal : Bool}
    (grows : ∀ sKey ∈ loop.stockSet, sKey ∈ stockSet) (fewer : allLocal → loop.allLocal) :
    Selected config { loop with stockSet, allLocal }.again := by
  rw [Loop.again_eq]
  exact { selected with
    seen := fun item member => grows _ (selected.seen item member)
    allLocal := fun all => selected.allLocal (fewer all) }

variable {stockSet : List Int64} {allLocal : Bool} {item : Item}

/-- An item of a fresh stock is added at the end of one of the arrays. -/
theorem add (selected : Selected config loop)
    (drawn : Fresh config numItems loop stockSet allLocal item) (after : Loop)
    (i : after.i = loop.i + 1) (seen : after.stockSet = stockSet)
    (all : after.allLocal = allLocal) (items : after.items.Perm (item :: loop.items))
    (near : ∀ one ∈ after.localStocks, one ∈ loop.localStocks ∨
      one = item ∧ Near config item.supply)
    (far : ∀ one ∈ after.remoteStocks, one ∈ loop.remoteStocks ∨
      one = item ∧ Far config item.supply) : Selected config after where
  count := by
    have less := UInt32.lt_iff_toNat_lt.mp drawn.room
    have bound := numItems.toNat_lt
    have step : (loop.i + 1).toNat = loop.i.toNat + 1 := by
      rw [UInt32.toNat_add]
      exact Nat.mod_eq_of_lt (by simp only [UInt32.toNat_one]; omega)
    rw [items.length_eq, List.length_cons, selected.count, i, step]
  keys := by
    refine (items.map Item.sKey).nodup_iff.mpr (List.nodup_cons.mpr ⟨fun member => ?_,
      selected.keys⟩)
    obtain ⟨other, isOther, same⟩ := List.mem_map.mp member
    exact drawn.fresh (same ▸ selected.seen other isOther)
  seen one member := by
    rw [seen]
    rcases List.mem_cons.mp (items.mem_iff.mp member) with rfl | old
    · exact drawn.found
    · exact drawn.grows _ (selected.seen one old)
  sKey one member := by
    rcases List.mem_cons.mp (items.mem_iff.mp member) with rfl | old
    · exact drawn.isKey
    · exact selected.sKey one old
  near one member := by
    rcases near one member with old | ⟨rfl, isNear⟩
    · exact selected.near one old
    · exact isNear
  far one member := by
    rcases far one member with old | ⟨rfl, isFar⟩
    · exact selected.far one old
    · exact isFar
  allLocal local_ one member := by
    rw [all] at local_
    rcases List.mem_cons.mp (items.mem_iff.mp member) with rfl | old
    · exact (drawn.home local_).2
    · exact selected.allLocal (drawn.home local_).1 one old

theorem addLocal (selected : Selected config loop)
    (drawn : Fresh config numItems loop stockSet allLocal item) (near : Near config item.supply) :
    Selected config ({ loop with stockSet, allLocal }.addLocal item) := by
  have narrow : ({ item with sKey := item.sKey.toInt32.toInt64 } : Item) = item := by
    rw [drawn.isKey, stockKey_narrow, ← drawn.isKey]
  have items : ({ loop with stockSet, allLocal }.addLocal item).localStocks =
      loop.localStocks ++ [item] := by
    rw [Loop.addLocal, narrow]
  refine selected.add drawn _ rfl rfl rfl ?_ ?_ fun one member => .inl member
  · rw [Loop.items, items, List.append_assoc]
    exact List.perm_middle
  · intro one member
    rw [items] at member
    exact (List.mem_append.mp member).imp_right fun last => ⟨List.mem_singleton.mp last, near⟩

theorem addRemote (selected : Selected config loop)
    (drawn : Fresh config numItems loop stockSet allLocal item) (far : Far config item.supply) :
    Selected config ({ loop with stockSet, allLocal }.addRemote item) := by
  refine selected.add drawn _ rfl rfl rfl ?_ (fun one member => .inl member) ?_
  · rw [Loop.items, Loop.addRemote, ← List.append_assoc]
    exact List.perm_append_singleton _ _
  · intro one member
    rw [Loop.addRemote] at member
    exact (List.mem_append.mp member).imp_right fun last => ⟨List.mem_singleton.mp last, far⟩

/-- A round counts its item. -/
theorem round_i {draw : Draw} (stepped : NewOrder.round config loop draw = some after) :
    after.i = loop.i ∨ after.i = loop.i + 1 := by
  rw [NewOrder.round] at stepped
  split at stepped
  · dsimp only at stepped
    split at stepped
    · obtain rfl := Option.some.inj stepped
      exact .inl (congrArg Loop.i loop.again_eq)
    · obtain rfl := Option.some.inj stepped
      exact .inr rfl
  · obtain ⟨_, _, rfl⟩ := Option.map_eq_some_iff.mp stepped
    dsimp only
    split
    · exact .inl (UInt32.sub_add_cancel _ _)
    · split <;> exact .inr rfl

/-- A round keeps what holds of the items. -/
theorem round (selected : Selected config loop) {draw : Draw} (room : loop.i < numItems)
    (stepped : NewOrder.round config loop draw = some after) : Selected config after := by
  rw [NewOrder.round] at stepped
  split at stepped
  · dsimp only at stepped
    split at stepped
    · obtain rfl := Option.some.inj stepped
      exact selected.again (fun _ member => member) id
    · rename_i fresh
      obtain rfl := Option.some.inj stepped
      exact selected.addLocal ⟨room, fun _ => List.mem_cons_of_mem _, List.mem_cons_self, fresh,
        rfl, fun all => ⟨all, rfl⟩⟩ (.inl rfl)
  · obtain ⟨⟨supplier, stockSet, conflict⟩, drawn, result⟩ := Option.map_eq_some_iff.mp stepped
    obtain ⟨different, grows, found, fresh⟩ := drawSupplier_spec drawn
    dsimp only at result
    split at result
    · obtain rfl := result
      exact selected.again grows (by simp)
    · rename_i none
      have isFresh : Fresh config numItems loop stockSet false
          { itemId := draw.itemId, supply := supplier, sKey := stockKey supplier draw.itemId } :=
        ⟨room, grows, found, fresh (by simpa using none), rfl, by simp⟩
      split at result
      · rename_i elsewhere
        obtain rfl := result
        exact selected.addRemote isFresh ⟨different, elsewhere⟩
      · rename_i here
        obtain rfl := result
        exact selected.addLocal isFresh (.inr (by simpa using here))

/-- The loop keeps what holds of the items, and ends with as many as there are to be. -/
theorem select {draws : List Draw} (selected : Selected config loop)
    (few : loop.i.toNat ≤ numItems.toNat)
    (ended : NewOrder.select config numItems draws loop = some after) :
    Selected config after ∧ after.i = numItems := by
  have last (enough : ¬ loop.i < numItems) : loop.i = numItems :=
    UInt32.toNat_inj.mp (le_antisymm few (UInt32.le_iff_toNat_le.mp (UInt32.not_lt.mp enough)))
  induction draws generalizing loop with
  | nil =>
      rw [NewOrder.select] at ended
      split at ended
      · cases ended
      · rename_i enough
        obtain rfl := Option.some.inj ended
        exact ⟨selected, last enough⟩
  | cons draw rest ih =>
      rw [NewOrder.select] at ended
      split at ended
      · rename_i room
        obtain ⟨next, stepped, others⟩ := Option.bind_eq_some_iff.mp ended
        have less := UInt32.lt_iff_toNat_lt.mp room
        have bound := numItems.toNat_lt
        have fewNext : next.i.toNat ≤ numItems.toNat := by
          rcases round_i stepped with same | one
          · rwa [same]
          · rw [one, UInt32.toNat_add, UInt32.toNat_one, Nat.mod_eq_of_lt (by omega)]
            exact less
        refine ih (selected.round room stepped) fewNext others fun enough => ?_
        exact UInt32.toNat_inj.mp
          (le_antisymm fewNext (UInt32.le_iff_toNat_le.mp (UInt32.not_lt.mp enough)))
      · rename_i enough
        obtain rfl := Option.some.inj ended
        exact ⟨selected, last enough⟩

end Selected

/-- When the loop ends, it has as many items as it was to draw, all of different stocks and each
with the key of its stock; the remote ones belong to other machines, the local ones to this machine
or to the home warehouse; and an order that is marked as local has only items of the home
warehouse. -/
theorem items_selected (config : Config) (numItems : UInt32) (draws : List Draw) (selected : Loop)
    (ended : select config numItems draws .initial = some selected) :
    selected.items.length = numItems.toNat ∧ (selected.items.map Item.sKey).Nodup ∧
      (∀ item ∈ selected.items, item.sKey = stockKey item.supply item.itemId) ∧
      (∀ item ∈ selected.localStocks, Near config item.supply) ∧
      (∀ item ∈ selected.remoteStocks, Far config item.supply) ∧
      (selected.allLocal → ∀ item ∈ selected.items, item.supply = config.warehouseId) := by
  obtain ⟨all, count⟩ := selected_initial.select (Nat.zero_le _) ended
  exact ⟨by rw [all.count, count], all.keys, all.sKey, all.near, all.far, all.allLocal⟩

/-- Two local items and a remote one; a stock that was drawn before costs a round, and so does the
home warehouse when the inner loop draws it twice. -/
theorem items_selected_three : ∃ selected : Loop,
    (selected.localStocks.length = 2 ∧ selected.remoteStocks.length = 1) ∧
      (selected.items.map Item.sKey).Nodup := by
  have ended : ∃ selected, select
      { warehouseId := 1, numWarehouses := 2, remoteItemPct := 1, scaleFactor := 1,
        currentPartition := 0 } 3
      [⟨7, 50, []⟩, ⟨7, 60, []⟩, ⟨8, 1, [1, 1, 2]⟩, ⟨9, 1, [2]⟩, ⟨10, 90, []⟩] .initial =
        some selected ∧ selected.localStocks.length = 2 ∧ selected.remoteStocks.length = 1 :=
    ⟨_, rfl, by decide, by decide⟩
  obtain ⟨selected, isSelected, lengths⟩ := ended
  exact ⟨selected, lengths, (items_selected _ 3 _ selected isSelected).2.1⟩

end Rocc.Tpcc.NewOrder
