import Mathlib.Algebra.Ring.Nat

/-!
# The tables of TPC-C
-/

namespace Rocc.Tpcc

/-- `WARE`. -/
def ware : UInt32 := 0

/-- `DIST`. -/
def dist : UInt32 := 1

/-- `CUST`. -/
def cust : UInt32 := 2

/-- `HIST`. -/
def hist : UInt32 := 3

/-- `NEWO`. -/
def newo : UInt32 := 4

/-- `ORDE`. -/
def orde : UInt32 := 5

/-- `ORLI`. -/
def orli : UInt32 := 6

/-- `STOC`. -/
def stoc : UInt32 := 8

/-- `CUST_INDEX`. -/
def custIndex : UInt32 := 9

/-- `ORDER_INDEX`. -/
def orderIndex : UInt32 := 10

/-- `WarehouseToPartition`. -/
def warehouseToPartition (scaleFactor : UInt64) (wId : Int32) : Int32 :=
  ((wId - 1).toInt64.toUInt64 / scaleFactor).toUInt32.toInt32

end Rocc.Tpcc
