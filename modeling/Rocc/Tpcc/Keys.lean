import Mathlib.Logic.Function.Basic
import Rocc.Base.Digits

/-!
# Keys of the TPC-C tables

A key is a number in a mixed radix whose digits are the ids of a row.  Most ids start at one,
so a digit may be as large as its radix, and the functions that find the warehouse of a key
have a case for that.
-/

namespace Rocc.Tpcc

/-! ## Making keys -/

/-- `makeDistrictKey`. -/
def makeDistrictKey (wId dId : Int32) : Int64 :=
  let did := dId + wId * 10
  did.toInt64

/-- `makeCustomerKey`. -/
def makeCustomerKey (wId dId cId : Int32) : Int64 :=
  let upperId := wId * 10 + dId
  upperId.toInt64 <<< 32 ||| cId.toInt64

/-- `makeHistoryKey`. -/
def makeHistoryKey (hCId hCDId hCWId hDId hWId : Int32) : Int64 :=
  let cid := (hCWId * 10 + hCDId) * 3000 + hCId
  let did := hDId + hWId * 10
  cid.toInt64 <<< 20 ||| did.toInt64

/-- `makeOrderKey`. -/
def makeOrderKey (wId dId oId : Int32) : Int64 :=
  let upperId := wId * 10 + dId
  upperId.toInt64 <<< 32 ||| oId.toInt64

/-- `makeOrderIndex`. -/
def makeOrderIndex (wId dId cId oId : Int32) : Int64 :=
  let upperId := (wId * 10 + dId) * 3000 + cId
  upperId.toInt64 <<< 32 ||| oId.toInt64

/-- `makeOrderLineKey`. -/
def makeOrderLineKey (wId dId oId number : Int32) : Int64 :=
  let upperId := wId * 10 + dId
  let oid := upperId.toInt64 * 10000000 + oId.toInt64
  oid * 15 + number.toInt64

/-- `makeStockKey`. -/
def makeStockKey (wId sId : Int32) : Int64 :=
  let sid := sId + wId * 100000
  sid.toInt64

/-- `makeNewOrderKey`. -/
def makeNewOrderKey (wId dId oId : Int32) : Int64 :=
  let upperId := wId * 10 + dId
  upperId.toInt64 <<< 32 ||| oId.toInt64

/-! ## The warehouse of a key -/

/-- `MASK_UPPER`. -/
def maskUpper : Int64 := (0xffffffff : Int64) <<< 32

/-- `districtKeyToWare`. -/
def districtKeyToWare (dKey : Int64) : Int32 :=
  let did := (dKey % 10).toInt32
  if did = 0 then (dKey / 10 - 1).toInt32 else (dKey / 10).toInt32

/-- `customerKeyToWare`. -/
def customerKeyToWare (cKey : Int64) : Int32 :=
  let upper := ((maskUpper &&& cKey) >>> 32).toInt32
  let did := upper % 10
  if did = 0 then upper / 10 - 1 else upper / 10

/-- `stockKeyToWare`. -/
def stockKeyToWare (sKey : Int64) : Int32 :=
  let sid := (sKey % 100000).toInt32
  if sid = 0 then (sKey / 100000 - 1).toInt32 else (sKey / 100000).toInt32

/-- `orderKeyToWare`. -/
def orderKeyToWare (oKey : Int64) : Int32 := customerKeyToWare oKey

/-- `orderLineKeyToWare`, up to its first `return`. -/
def orderLineKeyToWare (olKey : Int64) : Int32 :=
  let oid := olKey / 15
  let upper := (oid / 10000000).toInt32
  let did := upper % 10
  if did = 0 then upper / 10 - 1 else upper / 10

/-- `newOrderKeyToWare`. -/
def newOrderKeyToWare (noKey : Int64) : Int32 := customerKeyToWare noKey

/-! ## Rows

The ids for which the `int32_t` numbers of the keys do not overflow. -/

/-- The ids of a district. -/
@[ext] structure District where
  wId : Int32
  dId : Int32
  ware : 0 ≤ wId.toInt
  district : 1 ≤ dId.toInt ∧ dId.toInt ≤ 10
  fits : wId.toInt * 10 + dId.toInt < 2 ^ 31

/-- The ids of a customer. -/
@[ext] structure Customer extends District where
  cId : Int32
  customer : 1 ≤ cId.toInt ∧ cId.toInt ≤ 3000

/-- A customer whose number, counted over all districts, is an `int32_t`. -/
@[ext] structure CountedCustomer extends Customer where
  counts : (wId.toInt * 10 + dId.toInt) * 3000 + cId.toInt < 2 ^ 31

/-- The ids of a payment: its customer and the district where it is made. -/
@[ext] structure History where
  customer : CountedCustomer
  home : District
  short : home.wId.toInt * 10 + 10 < 2 ^ 20

/-- The ids of an order. -/
@[ext] structure Order extends District where
  oId : Int32
  order : 0 ≤ oId.toInt ∧ oId.toInt < 9999999

/-- The ids of an order and of its customer. -/
@[ext] structure CustomerOrder where
  customer : CountedCustomer
  oId : Int32
  order : 0 ≤ oId.toInt ∧ oId.toInt < 9999999

/-- The ids of a line of an order. -/
@[ext] structure OrderLine extends Order where
  number : Int32
  line : 1 ≤ number.toInt ∧ number.toInt ≤ 15

/-- The ids of the stock of an item. -/
@[ext] structure Stock where
  wId : Int32
  sId : Int32
  ware : 0 ≤ wId.toInt
  stock : 1 ≤ sId.toInt ∧ sId.toInt ≤ 100000
  fits : wId.toInt * 100000 + sId.toInt < 2 ^ 31

/-! ## What the keys are -/

theorem District.toInt_upper (row : District) :
    (row.wId * 10 + row.dId).toInt = row.wId.toInt * 10 + row.dId.toInt := by
  have ware := row.ware
  have district := row.district
  have fits := row.fits
  have scaled : (row.wId * 10).toInt = row.wId.toInt * 10 :=
    toInt_mul32 rfl (by omega) (by omega)
  rw [toInt_add32, scaled] <;> omega

/-- No two districts have the same number. -/
theorem District.upper_injective {row row' : District}
    (same : (row.wId * 10 + row.dId).toInt = (row'.wId * 10 + row'.dId).toInt) : row = row' := by
  rw [row.toInt_upper, row'.toInt_upper] at same
  obtain ⟨ware, district⟩ := digits_unique row.district.1 row.district.2 row'.district.1
    row'.district.2 same
  exact District.ext (Int32.toInt_inj.mp ware) (Int32.toInt_inj.mp district)

theorem CountedCustomer.toInt_count (row : CountedCustomer) :
    ((row.wId * 10 + row.dId) * 3000 + row.cId).toInt =
      (row.wId * 10 + row.dId).toInt * 3000 + row.cId.toInt := by
  have upper := row.toInt_upper
  have ware := row.ware
  have district := row.district
  have customer := row.customer
  have counts := row.counts
  have scaled : ((row.wId * 10 + row.dId) * 3000).toInt =
      (row.wId * 10 + row.dId).toInt * 3000 := toInt_mul32 rfl (by omega) (by omega)
  rw [toInt_add32, scaled] <;> omega

/-- Nor have two customers. -/
theorem CountedCustomer.count_injective {row row' : CountedCustomer}
    (same : ((row.wId * 10 + row.dId) * 3000 + row.cId).toInt =
      ((row'.wId * 10 + row'.dId) * 3000 + row'.cId).toInt) : row = row' := by
  rw [row.toInt_count, row'.toInt_count] at same
  obtain ⟨upper, customer⟩ := digits_unique row.customer.1 row.customer.2 row'.customer.1
    row'.customer.2 same
  have district : row.toDistrict = row'.toDistrict := District.upper_injective upper
  exact CountedCustomer.ext (congrArg District.wId district) (congrArg District.dId district)
    (Int32.toInt_inj.mp customer)

theorem District.toInt_makeDistrictKey (row : District) :
    (makeDistrictKey row.wId row.dId).toInt = (row.wId * 10 + row.dId).toInt := by
  rw [makeDistrictKey, Int32.toInt_toInt64, Int32.add_comm]

/-- Two numbers in the halves of a word. -/
theorem toInt_halves {upper low : Int32} (upper_nonneg : 0 ≤ upper.toInt)
    (low_nonneg : 0 ≤ low.toInt) :
    (upper.toInt64 <<< 32 ||| low.toInt64).toInt = upper.toInt * 2 ^ 32 + low.toInt := by
  have upper_lt := upper.toInt_lt
  have low_lt := low.toInt_lt
  rw [toInt_join (show ((32 : Int64).toBitVec.smod 64).toNat = 32 by decide)] <;>
    simp only [Int32.toInt_toInt64] <;> omega

theorem halves_injective {upper low upper' low' : Int32} (upper_nonneg : 0 ≤ upper.toInt)
    (low_nonneg : 0 ≤ low.toInt) (upper_nonneg' : 0 ≤ upper'.toInt) (low_nonneg' : 0 ≤ low'.toInt)
    (same : upper.toInt64 <<< 32 ||| low.toInt64 = upper'.toInt64 <<< 32 ||| low'.toInt64) :
    upper.toInt = upper'.toInt ∧ low = low' := by
  have numbers := congrArg Int64.toInt same
  rw [toInt_halves upper_nonneg low_nonneg, toInt_halves upper_nonneg' low_nonneg'] at numbers
  have low_lt := low.toInt_lt
  have low_lt' := low'.toInt_lt
  exact ⟨by omega, Int32.toInt_inj.mp (by omega)⟩

theorem District.upper_nonneg (row : District) : 0 ≤ (row.wId * 10 + row.dId).toInt := by
  have ware := row.ware
  have district := row.district
  rw [row.toInt_upper]
  omega

theorem CountedCustomer.count_nonneg (row : CountedCustomer) :
    0 ≤ ((row.wId * 10 + row.dId) * 3000 + row.cId).toInt := by
  have upper := row.upper_nonneg
  have customer := row.customer
  rw [row.toInt_count]
  omega

theorem History.toInt_makeHistoryKey (row : History) :
    (makeHistoryKey row.customer.cId row.customer.dId row.customer.wId row.home.dId
      row.home.wId).toInt =
      ((row.customer.wId * 10 + row.customer.dId) * 3000 + row.customer.cId).toInt * 2 ^ 20 +
        (row.home.wId * 10 + row.home.dId).toInt := by
  have count := row.customer.count_nonneg
  have count_lt := ((row.customer.wId * 10 + row.customer.dId) * 3000 + row.customer.cId).toInt_lt
  have upper := row.home.upper_nonneg
  have isUpper := row.home.toInt_upper
  have district := row.home.district
  have short := row.short
  rw [makeHistoryKey, Int32.add_comm row.home.dId,
    toInt_join (show ((20 : Int64).toBitVec.smod 64).toNat = 20 by decide)] <;>
    simp only [Int32.toInt_toInt64] <;> omega

theorem OrderLine.toInt_makeOrderLineKey (row : OrderLine) :
    (makeOrderLineKey row.wId row.dId row.oId row.number).toInt =
      ((row.wId * 10 + row.dId).toInt * 10000000 + row.oId.toInt) * 15 + row.number.toInt := by
  have upper := row.upper_nonneg
  have upper_lt := (row.wId * 10 + row.dId).toInt_lt
  have order := row.order
  have line := row.line
  have isOrder : row.oId.toInt64.toInt = row.oId.toInt := Int32.toInt_toInt64 _
  have isLine : row.number.toInt64.toInt = row.number.toInt := Int32.toInt_toInt64 _
  have isUpper : (row.wId * 10 + row.dId).toInt64.toInt = (row.wId * 10 + row.dId).toInt :=
    Int32.toInt_toInt64 _
  have shifted : ((row.wId * 10 + row.dId).toInt64 * 10000000).toInt =
      (row.wId * 10 + row.dId).toInt64.toInt * 10000000 := toInt_mul64 rfl (by omega) (by omega)
  have oid : ((row.wId * 10 + row.dId).toInt64 * 10000000 + row.oId.toInt64).toInt =
      (row.wId * 10 + row.dId).toInt * 10000000 + row.oId.toInt := by
    rw [toInt_add64, shifted, isUpper, isOrder] <;> omega
  have scaled : (((row.wId * 10 + row.dId).toInt64 * 10000000 + row.oId.toInt64) * 15).toInt =
      ((row.wId * 10 + row.dId).toInt64 * 10000000 + row.oId.toInt64).toInt * 15 :=
    toInt_mul64 rfl (by omega) (by omega)
  rw [makeOrderLineKey, toInt_add64, scaled, oid, isLine] <;> omega

theorem Stock.toInt_makeStockKey (row : Stock) :
    (makeStockKey row.wId row.sId).toInt = row.wId.toInt * 100000 + row.sId.toInt := by
  have ware := row.ware
  have stock := row.stock
  have fits := row.fits
  have scaled : (row.wId * 100000).toInt = row.wId.toInt * 100000 :=
    toInt_mul32 rfl (by omega) (by omega)
  rw [makeStockKey, Int32.toInt_toInt64, toInt_add32, scaled] <;> omega

/-! ## Uniqueness -/

theorem makeDistrictKey_injective :
    Function.Injective fun row : District => makeDistrictKey row.wId row.dId := by
  intro row row' same
  have numbers := congrArg Int64.toInt same
  rw [row.toInt_makeDistrictKey, row'.toInt_makeDistrictKey] at numbers
  exact District.upper_injective numbers

theorem makeCustomerKey_injective :
    Function.Injective fun row : Customer => makeCustomerKey row.wId row.dId row.cId := by
  intro row row' same
  have customer := row.customer
  have customer' := row'.customer
  obtain ⟨upper, low⟩ := halves_injective row.upper_nonneg (by omega) row'.upper_nonneg
    (by omega) same
  have district : row.toDistrict = row'.toDistrict := District.upper_injective upper
  exact Customer.ext (congrArg District.wId district) (congrArg District.dId district) low

theorem makeHistoryKey_injective :
    Function.Injective fun row : History => makeHistoryKey row.customer.cId row.customer.dId
      row.customer.wId row.home.dId row.home.wId := by
  intro row row' same
  have numbers := congrArg Int64.toInt same
  rw [row.toInt_makeHistoryKey, row'.toInt_makeHistoryKey] at numbers
  have bounds : ∀ row : History, 0 ≤ (row.home.wId * 10 + row.home.dId).toInt ∧
      (row.home.wId * 10 + row.home.dId).toInt < 2 ^ 20 := by
    intro row
    have isUpper := row.home.toInt_upper
    have district := row.home.district
    have short := row.short
    exact ⟨row.home.upper_nonneg, by omega⟩
  have low := bounds row
  have low' := bounds row'
  exact History.ext (CountedCustomer.count_injective (by omega))
    (District.upper_injective (by omega))

theorem makeOrderKey_injective :
    Function.Injective fun row : Order => makeOrderKey row.wId row.dId row.oId := by
  intro row row' same
  obtain ⟨upper, low⟩ := halves_injective row.upper_nonneg row.order.1 row'.upper_nonneg
    row'.order.1 same
  have district : row.toDistrict = row'.toDistrict := District.upper_injective upper
  exact Order.ext (congrArg District.wId district) (congrArg District.dId district) low

theorem makeNewOrderKey_injective :
    Function.Injective fun row : Order => makeNewOrderKey row.wId row.dId row.oId :=
  makeOrderKey_injective

theorem makeOrderIndex_injective :
    Function.Injective fun row : CustomerOrder =>
      makeOrderIndex row.customer.wId row.customer.dId row.customer.cId row.oId := by
  intro row row' same
  obtain ⟨count, low⟩ := halves_injective row.customer.count_nonneg row.order.1
    row'.customer.count_nonneg row'.order.1 same
  exact CustomerOrder.ext (CountedCustomer.count_injective count) low

theorem makeOrderLineKey_injective :
    Function.Injective fun row : OrderLine =>
      makeOrderLineKey row.wId row.dId row.oId row.number := by
  intro row row' same
  have numbers := congrArg Int64.toInt same
  rw [row.toInt_makeOrderLineKey, row'.toInt_makeOrderLineKey] at numbers
  obtain ⟨oid, line⟩ := digits_unique row.line.1 row.line.2 row'.line.1 row'.line.2 numbers
  have order := row.order
  have order' := row'.order
  have district : row.toDistrict = row'.toDistrict := District.upper_injective (by omega)
  exact OrderLine.ext (congrArg District.wId district) (congrArg District.dId district)
    (Int32.toInt_inj.mp (by omega)) (Int32.toInt_inj.mp line)

theorem makeStockKey_injective :
    Function.Injective fun row : Stock => makeStockKey row.wId row.sId := by
  intro row row' same
  have numbers := congrArg Int64.toInt same
  rw [row.toInt_makeStockKey, row'.toInt_makeStockKey] at numbers
  obtain ⟨ware, stock⟩ := digits_unique row.stock.1 row.stock.2 row'.stock.1 row'.stock.2 numbers
  exact Stock.ext (Int32.toInt_inj.mp ware) (Int32.toInt_inj.mp stock)

/-! ## Routing -/

/-- The upper half of a word. -/
theorem toInt_upperHalf (key : Int64) :
    ((maskUpper &&& key) >>> 32).toInt = key.toInt / 2 ^ 32 := by
  have isShift : (32 : Int64).toBitVec.smod 64 = 32#64 := by decide
  have isMask : maskUpper.toBitVec = BitVec.allOnes 64 <<< 32 := by decide
  have shifted : (maskUpper &&& key) >>> 32 = key >>> 32 := by
    apply Int64.toBitVec_inj.mp
    simp only [Int64.toBitVec_shiftRight, Int64.toBitVec_and, isShift, BitVec.sshiftRight_eq',
      isMask]
    apply BitVec.eq_of_getLsbD_eq
    intro i inside
    have top : (BitVec.allOnes 64 <<< 32).msb = true := by decide
    simp only [BitVec.getLsbD_sshiftRight, BitVec.getLsbD_and, BitVec.getLsbD_shiftLeft,
      BitVec.getLsbD_allOnes, BitVec.msb_and, top, Bool.true_and]
    by_cases upper : 32 + i < 64
    · have lower : ¬32 + i < 32 := by omega
      simp [upper, lower, inside]
    · simp [upper]
  rw [shifted, ← Int64.toInt_toBitVec, Int64.toBitVec_shiftRight, isShift,
    BitVec.sshiftRight_eq', BitVec.toInt_sshiftRight, Int.shiftRight_eq_div_pow]
  rfl

theorem District.leading_upper (row : District) :
    leading (row.wId * 10 + row.dId).toInt 10 = row.wId.toInt := by
  rw [row.toInt_upper, leading_eq row.district.1 row.district.2]

theorem District.districtKeyToWare_eq (row : District) :
    districtKeyToWare (makeDistrictKey row.wId row.dId) = row.wId := by
  have nonneg := row.upper_nonneg
  have below := (row.wId * 10 + row.dId).toInt_lt
  rw [← row.toInt_makeDistrictKey] at nonneg below
  apply Int32.toInt_inj.mp
  rw [districtKeyToWare, toInt_leading64 rfl (by decide) (by decide) nonneg below,
    row.toInt_makeDistrictKey]
  exact row.leading_upper

/-- What is in the lower half of a key does not matter. -/
theorem District.customerKeyToWare_eq (row : District) {low : Int32} (nonneg : 0 ≤ low.toInt) :
    customerKeyToWare ((row.wId * 10 + row.dId).toInt64 <<< 32 ||| low.toInt64) = row.wId := by
  have upper_nonneg := row.upper_nonneg
  have upper_lt := (row.wId * 10 + row.dId).toInt_lt
  have low_lt := low.toInt_lt
  have isUpper : ((maskUpper &&& ((row.wId * 10 + row.dId).toInt64 <<< 32 ||| low.toInt64)) >>>
      32).toInt32.toInt = (row.wId * 10 + row.dId).toInt := by
    rw [Int64.toInt_toInt32, toInt_upperHalf, toInt_halves row.upper_nonneg nonneg,
      Int.bmod_eq_of_le] <;> omega
  apply Int32.toInt_inj.mp
  rw [customerKeyToWare, toInt_leading32 rfl (by decide) (by rwa [isUpper]), isUpper]
  exact row.leading_upper

theorem Stock.stockKeyToWare_eq (row : Stock) :
    stockKeyToWare (makeStockKey row.wId row.sId) = row.wId := by
  have isKey := row.toInt_makeStockKey
  have ware := row.ware
  have stock := row.stock
  have fits := row.fits
  apply Int32.toInt_inj.mp
  rw [stockKeyToWare, toInt_leading64 rfl (by decide) (by decide) (by omega) (by omega), isKey]
  exact leading_eq row.stock.1 row.stock.2

theorem OrderLine.orderLineKeyToWare_eq (row : OrderLine) :
    orderLineKeyToWare (makeOrderLineKey row.wId row.dId row.oId row.number) = row.wId := by
  have isKey := row.toInt_makeOrderLineKey
  have upper_nonneg := row.upper_nonneg
  have upper_lt := (row.wId * 10 + row.dId).toInt_lt
  have order := row.order
  have line := row.line
  -- Line 15 has the number of the next order, which is in the same district.
  have oid : (makeOrderLineKey row.wId row.dId row.oId row.number / 15).toInt =
      (makeOrderLineKey row.wId row.dId row.oId row.number).toInt / 15 :=
    toInt_div64 rfl (by decide) (by omega)
  have upper : (makeOrderLineKey row.wId row.dId row.oId row.number / 15 / 10000000).toInt =
      (makeOrderLineKey row.wId row.dId row.oId row.number / 15).toInt / 10000000 :=
    toInt_div64 rfl (by decide) (by omega)
  have isUpper : (makeOrderLineKey row.wId row.dId row.oId row.number / 15 /
      10000000).toInt32.toInt = (row.wId * 10 + row.dId).toInt := by
    rw [Int64.toInt_toInt32, Int.bmod_eq_of_le] <;> omega
  apply Int32.toInt_inj.mp
  rw [orderLineKeyToWare, toInt_leading32 rfl (by decide) (by rwa [isUpper]), isUpper]
  exact row.leading_upper

/-- The keys of the rows of a table are different, and each leads to the warehouse of its row. -/
theorem keys_unique_and_routed :
    (Function.Injective fun row : District => makeDistrictKey row.wId row.dId) ∧
    (Function.Injective fun row : Customer => makeCustomerKey row.wId row.dId row.cId) ∧
    (Function.Injective fun row : History => makeHistoryKey row.customer.cId row.customer.dId
      row.customer.wId row.home.dId row.home.wId) ∧
    (Function.Injective fun row : Order => makeOrderKey row.wId row.dId row.oId) ∧
    (Function.Injective fun row : CustomerOrder =>
      makeOrderIndex row.customer.wId row.customer.dId row.customer.cId row.oId) ∧
    (Function.Injective fun row : OrderLine =>
      makeOrderLineKey row.wId row.dId row.oId row.number) ∧
    (Function.Injective fun row : Stock => makeStockKey row.wId row.sId) ∧
    (Function.Injective fun row : Order => makeNewOrderKey row.wId row.dId row.oId) ∧
    (∀ row : District, districtKeyToWare (makeDistrictKey row.wId row.dId) = row.wId) ∧
    (∀ row : Customer, customerKeyToWare (makeCustomerKey row.wId row.dId row.cId) = row.wId) ∧
    (∀ row : Stock, stockKeyToWare (makeStockKey row.wId row.sId) = row.wId) ∧
    (∀ row : Order, orderKeyToWare (makeOrderKey row.wId row.dId row.oId) = row.wId) ∧
    (∀ row : Order, newOrderKeyToWare (makeNewOrderKey row.wId row.dId row.oId) = row.wId) ∧
    ∀ row : OrderLine,
      orderLineKeyToWare (makeOrderLineKey row.wId row.dId row.oId row.number) = row.wId := by
  refine ⟨makeDistrictKey_injective, makeCustomerKey_injective, makeHistoryKey_injective,
    makeOrderKey_injective, makeOrderIndex_injective, makeOrderLineKey_injective,
    makeStockKey_injective, makeNewOrderKey_injective, District.districtKeyToWare_eq, ?_,
    Stock.stockKeyToWare_eq, ?_, ?_, OrderLine.orderLineKeyToWare_eq⟩
  · intro row
    have customer := row.customer
    exact row.customerKeyToWare_eq (by omega)
  · intro row
    exact row.customerKeyToWare_eq row.order.1
  · intro row
    exact row.customerKeyToWare_eq row.order.1

/-- The last line of an order and the last district of a warehouse. -/
example : orderLineKeyToWare (makeOrderLineKey 3 10 9999998 15) = 3 := by decide

end Rocc.Tpcc
