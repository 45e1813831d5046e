import Rocc.Base.Digits
import Rocc.Base.Lex
import Rocc.Memstore.MemstoreUint64BPlusTree

/-!
# The customer name index

The key of a customer has the number of its district, its last and its first name.  The bytes of
a name are packed in two words so that the order of the words is the one of the names.  But as
many bytes of the first name are packed as the last name has: a longer first name is cut, and
behind a shorter one comes what is in memory there.
-/

namespace Rocc.Tpcc

open Memstore Rtx

/-- A `std::string` of at most 16 bytes without `NUL`, and what is in memory behind it. -/
structure Name where
  chars : List UInt8
  behind : Nat → UInt8
  short : chars.length ≤ 16
  nonzero : 0 ∉ chars

/-- `data()`. -/
def Name.data (name : Name) : Nat → UInt8 := Lex.terminated name.chars name.behind

/-- `size()`. -/
def Name.size (name : Name) : Nat := name.chars.length

theorem Name.size_le (name : Name) : name.size ≤ 16 := name.short

/-- `convertString`. -/
def convertString (oldstring : Nat → UInt8) (size : Nat) : Memory := fun position =>
  let i := if position < 8 then 7 - position else 23 - position
  if i < size then oldstring i else 0

theorem readWord_lt (memory : Memory) (offset : Nat) : memory.readWord offset < wordBound := by
  rw [Memory.readWord, ← List.reverse_reverse (memory.read offset 8), Lex.ofBytes_reverse]
  have bound := Lex.bigEndian_lt (memory.read offset 8).reverse
  rwa [List.length_reverse, Memory.length_read] at bound

/-- A word of the array `seckey`. -/
def wordOf (memory : Memory) (offset : Nat) : Fin wordBound :=
  ⟨memory.readWord offset, readWord_lt memory offset⟩

/-- `makeCustomerIndex`. -/
def makeCustomerIndex (wId dId : Int32) (sLast sFirst : Name) :
    MemstoreUint64BPlusTree.Key 5 :=
  let did := dId + wId * 10
  let last := convertString sLast.data sLast.size
  let first := convertString sFirst.data sLast.size
  ⟨[⟨did.toInt64.toUInt64.toNat, UInt64.toNat_lt _⟩, wordOf last 0, wordOf last 8,
    wordOf first 0, wordOf first 8], rfl⟩

/-- The loop of `compareCustomerIndex`. -/
def compareIndexFrom : List (Fin wordBound) → List (Fin wordBound) → Bool
  | k :: rest, b :: rest' =>
      if b < k then false else if k < b then true else compareIndexFrom rest rest'
  | _, _ => true

/-- `compareCustomerIndex`. -/
def compareCustomerIndex (key bound : MemstoreUint64BPlusTree.Key 5) : Bool :=
  compareIndexFrom key.1 bound.1

/-- A customer whose district has a number that is not negative. -/
structure IndexedCustomer where
  wId : Int32
  dId : Int32
  last : Name
  first : Name
  nonneg : 0 ≤ wId.toInt * 10 + dId.toInt
  fits : wId.toInt * 10 + dId.toInt < 2 ^ 31

namespace IndexedCustomer

/-- The number of the district. -/
def district (customer : IndexedCustomer) : Int := customer.wId.toInt * 10 + customer.dId.toInt

/-- The key. -/
def index (customer : IndexedCustomer) : MemstoreUint64BPlusTree.Key 5 :=
  makeCustomerIndex customer.wId customer.dId customer.last customer.first

/-- The order of the district, the last and the first name. -/
def Precedes (customer other : IndexedCustomer) : Prop :=
  customer.district < other.district ∨ customer.district = other.district ∧
    (customer.last.chars < other.last.chars ∨ customer.last.chars = other.last.chars ∧
      customer.first.chars < other.first.chars)

/-- The keys of two customers are ordered as their names. -/
structure Sorts (customer other : IndexedCustomer) : Prop where
  compare_lt : MemstoreUint64BPlusTree.compare customer.index other.index = -1 ↔
    customer.Precedes other
  compare_gt : MemstoreUint64BPlusTree.compare customer.index other.index = 1 ↔
    other.Precedes customer
  compareCustomerIndex : compareCustomerIndex customer.index other.index = true ↔
    ¬other.Precedes customer
  eq_iff : customer.index = other.index ↔
    customer.district = other.district ∧ customer.last.chars = other.last.chars ∧
      customer.first.chars = other.first.chars

/-- For customers of a district with the same last name: their first names differ in as many
bytes as the last name has, or are the same and so is what is in memory behind them, up to this
length. -/
def Distinguished (customer other : IndexedCustomer) : Prop :=
  customer.district ≠ other.district ∨ customer.last.chars ≠ other.last.chars ∨
    if customer.first.chars = other.first.chars then
      ∀ i < customer.last.size, customer.first.data i = other.first.data i
    else customer.first.chars.take customer.last.size ≠ other.first.chars.take customer.last.size

end IndexedCustomer

/-! ## The words of a name -/

/-- The 16 bytes that are packed. -/
def shown (oldstring : Nat → UInt8) (size : Nat) : List UInt8 :=
  (List.range 16).map fun i => if i < size then oldstring i else 0

@[simp] theorem length_shown (oldstring : Nat → UInt8) (size : Nat) :
    (shown oldstring size).length = 16 := by
  simp [shown]

theorem wordOf_convertString (oldstring : Nat → UInt8) (size : Nat) :
    (wordOf (convertString oldstring size) 0).1 =
        Lex.bigEndian ((shown oldstring size).take 8) ∧
      (wordOf (convertString oldstring size) 8).1 =
        Lex.bigEndian ((shown oldstring size).drop 8) := by
  constructor
  · rw [← Lex.ofBytes_reverse]
    rfl
  · rw [← Lex.ofBytes_reverse]
    rfl

theorem shown_terminated {chars : List UInt8} {behind : Nat → UInt8} {size : Nat}
    (short : size ≤ 16) : shown (Lex.terminated chars behind) size =
      Lex.firstBytes chars behind size ++ List.replicate (16 - size) 0 := by
  obtain ⟨rest, isRest⟩ := Nat.exists_eq_add_of_le short
  rw [shown, isRest, Nat.add_sub_cancel_left, List.range_add, List.map_append, Lex.firstBytes]
  congr 1
  · apply List.map_congr_left
    intro index inside
    rw [if_pos (List.mem_range.mp inside)]
  · rw [List.map_map, List.eq_replicate_iff]
    refine ⟨by simp, ?_⟩
    intro byte member
    obtain ⟨index, -, rfl⟩ := List.mem_map.mp member
    exact if_neg (by simp)

/-- The words of a name in front of others are ordered as its bytes. -/
theorem words_order (oldstring oldstring' : Nat → UInt8) (size size' : Nat)
    (rest rest' : List (Fin wordBound)) :
    (wordOf (convertString oldstring size) 0 :: wordOf (convertString oldstring size) 8 :: rest <
          wordOf (convertString oldstring' size') 0 ::
            wordOf (convertString oldstring' size') 8 :: rest' ↔
        shown oldstring size < shown oldstring' size' ∨
          shown oldstring size = shown oldstring' size' ∧ rest < rest') ∧
      (wordOf (convertString oldstring size) 0 :: wordOf (convertString oldstring size) 8 :: rest =
          wordOf (convertString oldstring' size') 0 ::
            wordOf (convertString oldstring' size') 8 :: rest' ↔
        shown oldstring size = shown oldstring' size' ∧ rest = rest') := by
  obtain ⟨isHigh, isLow⟩ := wordOf_convertString oldstring size
  obtain ⟨isHigh', isLow'⟩ := wordOf_convertString oldstring' size'
  generalize wordOf (convertString oldstring size) 0 = high at *
  generalize wordOf (convertString oldstring size) 8 = low at *
  generalize wordOf (convertString oldstring' size') 0 = high' at *
  generalize wordOf (convertString oldstring' size') 8 = low' at *
  have length := length_shown oldstring size
  have length' := length_shown oldstring' size'
  generalize shown oldstring size = bytes at *
  generalize shown oldstring' size' = bytes' at *
  have upper : (bytes.take 8).length = (bytes'.take 8).length := by simp [length, length']
  have lower : (bytes.drop 8).length = (bytes'.drop 8).length := by simp [length, length']
  have parts : bytes = bytes' ↔
      bytes.take 8 = bytes'.take 8 ∧ bytes.drop 8 = bytes'.drop 8 := by
    constructor
    · rintro rfl
      exact ⟨rfl, rfl⟩
    · rintro ⟨front, back⟩
      rw [← List.take_append_drop 8 bytes, front, back, List.take_append_drop]
  have less := @Lex.append_lt_append _ _ _ _ _ (bytes.drop 8) (bytes'.drop 8) upper
  rw [List.take_append_drop, List.take_append_drop] at less
  have high_lt : high < high' ↔ bytes.take 8 < bytes'.take 8 := by
    rw [Fin.lt_def, isHigh, isHigh', Lex.bigEndian_lt_bigEndian upper]
  have low_lt : low < low' ↔ bytes.drop 8 < bytes'.drop 8 := by
    rw [Fin.lt_def, isLow, isLow', Lex.bigEndian_lt_bigEndian lower]
  have high_eq : high = high' ↔ bytes.take 8 = bytes'.take 8 := by
    rw [Fin.ext_iff, isHigh, isHigh', Lex.bigEndian_inj upper]
  have low_eq : low = low' ↔ bytes.drop 8 = bytes'.drop 8 := by
    rw [Fin.ext_iff, isLow, isLow', Lex.bigEndian_inj lower]
  constructor
  · rw [List.cons_lt_cons_iff, List.cons_lt_cons_iff, less, parts, high_lt, low_lt, high_eq,
      low_eq, or_assoc, and_assoc, ← and_or_left]
  · rw [List.cons_eq_cons, List.cons_eq_cons, high_eq, low_eq, parts, and_assoc]

/-! ## The order of the keys -/

namespace IndexedCustomer

variable (customer other : IndexedCustomer)

theorem district_word :
    ((customer.dId + customer.wId * 10).toInt64.toUInt64.toNat : Int) = customer.district := by
  have nonneg := customer.nonneg
  have fits := customer.fits
  have number : (customer.dId + customer.wId * 10).toInt = customer.district := by
    have ten : (10 : Int32).toInt = 10 := rfl
    rw [Int32.toInt_add, Int32.toInt_mul, ten, Int.add_bmod_bmod, district, Int.add_comm]
    exact Int.bmod_eq_of_le (by omega) (by omega)
  have long : 0 ≤ (customer.dId + customer.wId * 10).toInt64.toInt := by
    rwa [Int32.toInt_toInt64, number]
  rw [← number, ← Int32.toInt_toInt64, ← toNat_toBitVec long]
  rfl

/-- The bytes of the two names in the key. -/
def lastBytes : List UInt8 := shown customer.last.data customer.last.size

def firstBytes : List UInt8 := shown customer.first.data customer.last.size

theorem index_order :
    (customer.index < other.index ↔
        customer.district < other.district ∨ customer.district = other.district ∧
          (customer.lastBytes < other.lastBytes ∨ customer.lastBytes = other.lastBytes ∧
            customer.firstBytes < other.firstBytes)) ∧
      (customer.index = other.index ↔
        customer.district = other.district ∧ customer.lastBytes = other.lastBytes ∧
          customer.firstBytes = other.firstBytes) := by
  have number := customer.district_word
  have number' := other.district_word
  have less : (customer.dId + customer.wId * 10).toInt64.toUInt64.toNat <
      (other.dId + other.wId * 10).toInt64.toUInt64.toNat ↔
        customer.district < other.district := by omega
  have same : (customer.dId + customer.wId * 10).toInt64.toUInt64.toNat =
      (other.dId + other.wId * 10).toInt64.toUInt64.toNat ↔
        customer.district = other.district := by omega
  constructor
  · rw [← Subtype.coe_lt_coe, index, index, makeCustomerIndex, makeCustomerIndex,
      List.cons_lt_cons_iff, (words_order _ _ _ _ _ _).1, (words_order _ _ _ _ _ _).1, Fin.lt_def,
      Fin.ext_iff, less, same]
    simp [lastBytes, firstBytes]
  · rw [Subtype.ext_iff, index, index, makeCustomerIndex, makeCustomerIndex, List.cons_eq_cons,
      (words_order _ _ _ _ _ _).2, (words_order _ _ _ _ _ _).2, Fin.ext_iff, same]
    simp [lastBytes, firstBytes]

variable {customer other}

/-- The last names are packed whole. -/
theorem lastBytes_order :
    (customer.lastBytes < other.lastBytes ↔ customer.last.chars < other.last.chars) ∧
      (customer.lastBytes = other.lastBytes ↔ customer.last.chars = other.last.chars) := by
  have padded : ∀ customer : IndexedCustomer, customer.lastBytes =
      Lex.firstBytes customer.last.chars (fun _ => 0) 16 := by
    intro customer
    apply List.map_congr_left
    intro index _
    by_cases inside : index < customer.last.size
    · rw [if_pos inside, Name.data, Lex.terminated_of_lt inside, Lex.terminated_of_lt inside]
    · rw [if_neg inside]
      rcases Nat.lt_or_eq_of_le (Nat.le_of_not_lt inside) with further | rfl
      · have outside : (customer.last.chars ++ [0]).length ≤ index := by
          rw [List.length_append]
          exact further
        rw [Lex.terminated, List.getElem?_eq_none outside]
        rfl
      · simp [Lex.terminated, Name.size]
  rw [padded, padded]
  by_cases same : customer.last.chars = other.last.chars
  · rw [same]
    exact ⟨iff_of_false (Std.Irrefl.irrefl _) (Std.Irrefl.irrefl _), by simp⟩
  · have whole : ∀ customer : IndexedCustomer,
        customer.last.chars.take 16 = customer.last.chars :=
      fun customer => List.take_of_length_le customer.last.short
    have differ : customer.last.chars.take 16 ≠ other.last.chars.take 16 := by
      rwa [whole, whole]
    refine ⟨Lex.firstBytes_lt customer.last.nonzero other.last.nonzero differ, ?_⟩
    exact iff_of_false
      (Lex.firstBytes_inj customer.last.nonzero other.last.nonzero differ) same

/-- Of the first names as many bytes are packed as the last name has. -/
theorem firstBytes_order (same : customer.last.chars = other.last.chars) :
    (customer.firstBytes < other.firstBytes ↔
        Lex.firstBytes customer.first.chars customer.first.behind customer.last.size <
          Lex.firstBytes other.first.chars other.first.behind customer.last.size) ∧
      (customer.firstBytes = other.firstBytes ↔
        Lex.firstBytes customer.first.chars customer.first.behind customer.last.size =
          Lex.firstBytes other.first.chars other.first.behind customer.last.size) := by
  have size : other.last.size = customer.last.size := by rw [Name.size, Name.size, same]
  rw [firstBytes, firstBytes, Name.data, Name.data, size,
    shown_terminated customer.last.size_le, shown_terminated customer.last.size_le]
  constructor
  · rw [Lex.append_lt_append (by simp)]
    simp
  · simp

theorem compareIndexFrom_eq {a b : List (Fin wordBound)} (same : a.length = b.length) :
    compareIndexFrom a b = true ↔ ¬b < a := by
  induction a generalizing b with
  | nil =>
      obtain rfl := List.eq_nil_of_length_eq_zero same.symm
      simp [compareIndexFrom]
  | cons word rest ih =>
      cases b with
      | nil => simp at same
      | cons word' rest' =>
          rw [compareIndexFrom, List.cons_lt_cons_iff]
          rcases lt_trichotomy word word' with below | rfl | above
          · simp [below, below.not_gt, below.ne']
          · simp [ih (Nat.succ_inj.mp same)]
          · simp [above]

/-- All comparisons are those of the keys. -/
theorem sorts_iff_order : customer.Sorts other ↔
    (customer.index < other.index ↔ customer.Precedes other) ∧
      (other.index < customer.index ↔ other.Precedes customer) ∧
        (customer.index = other.index ↔ customer.district = other.district ∧
          customer.last.chars = other.last.chars ∧ customer.first.chars = other.first.chars) := by
  have less : MemstoreUint64BPlusTree.compare customer.index other.index = -1 ↔
      customer.index < other.index := by
    rw [MemstoreUint64BPlusTree.compare_eq]
    rcases lt_trichotomy customer.index other.index with below | equal | above
    · simp [below, below.not_gt]
    · simp [equal]
    · simp [above, above.not_gt]
  have greater : MemstoreUint64BPlusTree.compare customer.index other.index = 1 ↔
      other.index < customer.index := by
    rw [MemstoreUint64BPlusTree.compare_eq]
    rcases lt_trichotomy customer.index other.index with below | equal | above
    · simp [below, below.not_gt]
    · simp [equal]
    · simp [above]
  have atMost : Tpcc.compareCustomerIndex customer.index other.index = true ↔
      ¬other.index < customer.index :=
    compareIndexFrom_eq (customer.index.2.trans other.index.2.symm)
  constructor
  · intro sorts
    exact ⟨less.symm.trans sorts.compare_lt, greater.symm.trans sorts.compare_gt, sorts.eq_iff⟩
  · rintro ⟨before, behind, same⟩
    exact ⟨less.trans before, greater.trans behind, atMost.trans (not_congr behind), same⟩

/-- The first bytes of two first names are ordered as the names exactly if they tell them apart. -/
theorem firstBytes_iff (name name' : Name) (count : Nat) :
    ((Lex.firstBytes name.chars name.behind count < Lex.firstBytes name'.chars name'.behind count ↔
        name.chars < name'.chars) ∧
      (Lex.firstBytes name'.chars name'.behind count < Lex.firstBytes name.chars name.behind count ↔
        name'.chars < name.chars) ∧
      (Lex.firstBytes name.chars name.behind count =
          Lex.firstBytes name'.chars name'.behind count ↔ name.chars = name'.chars)) ↔
      if name.chars = name'.chars then ∀ i < count, name.data i = name'.data i
      else name.chars.take count ≠ name'.chars.take count := by
  by_cases same : name.chars = name'.chars
  · have irrefl : ¬name'.chars < name'.chars := Std.Irrefl.irrefl _
    have pointwise : Lex.firstBytes name.chars name.behind count =
        Lex.firstBytes name'.chars name'.behind count ↔
          ∀ i < count, name.data i = name'.data i := by
      rw [Lex.firstBytes, Lex.firstBytes, List.map_inj_left]
      simp only [List.mem_range]
      rfl
    rw [if_pos same, ← pointwise, same]
    constructor
    · intro order
      exact order.2.2.mpr rfl
    · intro equal
      rw [equal]
      exact ⟨iff_of_false (Std.Irrefl.irrefl _) irrefl, iff_of_false (Std.Irrefl.irrefl _) irrefl,
        iff_of_true rfl rfl⟩
  · rw [if_neg same]
    constructor
    · intro order equal
      exact same (order.2.2.mp (Lex.firstBytes_congr same equal))
    · intro differ
      exact ⟨Lex.firstBytes_lt name.nonzero name'.nonzero differ,
        Lex.firstBytes_lt name'.nonzero name.nonzero differ.symm,
        iff_of_false (Lex.firstBytes_inj name.nonzero name'.nonzero differ) same⟩

/-- The keys of two customers are ordered as their names exactly if the part of their first names
that is packed tells them apart. -/
theorem sorts_iff (customer other : IndexedCustomer) :
    customer.Sorts other ↔ customer.Distinguished other := by
  rw [sorts_iff_order, (index_order customer other).1, (index_order other customer).1,
    (index_order customer other).2, lastBytes_order.1, lastBytes_order.2, lastBytes_order.1,
    lastBytes_order.2, Distinguished, Precedes, Precedes]
  by_cases sameDistrict : customer.district = other.district
  · by_cases sameLast : customer.last.chars = other.last.chars
    · have size : other.last.size = customer.last.size := by rw [Name.size, Name.size, sameLast]
      rw [(firstBytes_order sameLast).1, (firstBytes_order sameLast).2,
        (firstBytes_order sameLast.symm).1, size, ← firstBytes_iff]
      have irrefl : ¬other.last.chars < other.last.chars := Std.Irrefl.irrefl _
      simp [sameDistrict, sameLast, irrefl]
    · simp [sameDistrict, sameLast, Ne.symm sameLast]
  · simp [sameDistrict, Ne.symm sameDistrict]

end IndexedCustomer

/-- A name with nothing but zeros behind it. -/
def shortName (chars : List UInt8) (short : chars.length ≤ 16) (nonzero : 0 ∉ chars) : Name :=
  ⟨chars, fun _ => 0, short, nonzero⟩

/-- Customers of the last name `BAR`. -/
def namedBar (first : Name) : IndexedCustomer where
  wId := 1
  dId := 1
  last := shortName [66, 65, 82] (by decide) (by decide)
  first := first
  nonneg := by decide
  fits := by decide

/-- `ANNA` and `ANNE` get the same key. -/
theorem not_sorts : ¬∀ customer other : IndexedCustomer, customer.Sorts other := by
  intro sorts
  have same := (sorts (namedBar (shortName [65, 78, 78, 65] (by decide) (by decide)))
    (namedBar (shortName [65, 78, 78, 69] (by decide) (by decide)))).eq_iff.mp (by decide +kernel)
  exact absurd same.2.2 (by decide)

end Rocc.Tpcc
