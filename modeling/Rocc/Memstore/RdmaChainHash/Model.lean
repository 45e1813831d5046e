import Mathlib.Data.Finset.Card
import Mathlib.Data.List.Infix
import Rocc.Base.Clusters

/-!
# `RdmaChainHash`

The first quarter of an array has a node for each bucket.  A key whose bucket is taken goes into
the next free node, which is linked behind the last node of the bucket.  The search for the key
that goes before leaves the loop at the last node without looking at its key.

`Concurrent_insert` and `Concurrent_get` have the bodies of `Insert` and `Get` inside a
transaction.
-/

namespace Rocc.Memstore.RdmaChainHash

universe u

/-- What a table is made with, and the function in place of `GetHash`. -/
structure Config where
  length : Nat
  getHash : Nat → Nat
  getHash_lt : ∀ key, getHash key < length / 4

/-- `header_length`. -/
def Config.headerLength (config : Config) : Nat := config.length * 1 / 4

/-- `RdmaArrayNode`, with the entry behind it. -/
structure RdmaArrayNode (Val : Type u) where
  key : Nat
  next : Nat
  valid : Bool
  data : Val

/-- The nodes of the array, and the next one that is handed out. -/
structure Table (Val : Type u) where
  array : Nat → RdmaArrayNode Val
  freePointer : Nat

namespace Table

variable {Val : Type u}

/-- The constructor, over memory that may hold anything. -/
def init (config : Config) (memory : Nat → RdmaArrayNode Val) : Table Val where
  array i :=
    if i < config.headerLength then { memory i with valid := false, next := 0 }
    else if i < config.length then
      { memory i with next := if i = config.length - 1 then 0 else i + 1 }
    else memory i
  freePointer := config.headerLength

variable (config : Config) (table : Table Val)

/-- The node that is read after another one. -/
def next (i : Nat) : Option Nat :=
  if (table.array i).next ≠ 0 then some (table.array i).next else none

/-- The loop of `Insert`: nothing if a node that is not the last one has the key, and else the
last node.  No result if it goes on after more nodes than there are. -/
def search (key : Nat) : Option (Option Nat) :=
  walk table.next
    (fun i => if (table.next i).isSome ∧ (table.array i).key = key then some none else none)
    some config.length (config.getHash key)

/-- The next free node is linked behind the last one of a chain. -/
def link (last key : Nat) (val : Val) : Table Val :=
  let linked := Function.update table.array last
    { table.array last with next := table.freePointer }
  { array := Function.update linked table.freePointer
      { linked table.freePointer with next := 0, key, data := val }
    freePointer := table.freePointer + 1 }

/-- `Insert`; it fails when a node is needed and none is left. -/
def insert (key : Nat) (val : Val) : Option (Table Val) :=
  let hash := config.getHash key
  let node := table.array hash
  if node.valid = false then
    some { table with
      array := Function.update table.array hash { node with key, valid := true, data := val } }
  else
    (table.search config key).bind fun
      | none => some table
      | some last =>
          if table.freePointer = config.length then none else some (table.link last key val)

/-- `Get`: the entry that the returned address points to, or `NULL`. -/
def get (key : Nat) : Option (Option Val) :=
  let hash := config.getHash key
  if (table.array hash).valid = false then some none
  else
    walk table.next
      (fun i => if (table.array i).key = key then some (some (table.array i).data) else none)
      (fun _ => none) config.length hash

/-- Calls of `Insert`, one after the other. -/
def run (calls : List (Nat × Val)) : Option (Table Val) :=
  calls.foldlM (fun table call => table.insert config call.1 call.2) table

end Table

/-! ## What the table is for -/

variable {Val : Type u}

/-- The calls with a key that was not there before. -/
def firsts (calls : List (Nat × Val)) : List (Nat × Val) :=
  calls.foldl (fun firsts call =>
    if call.1 ∈ firsts.map Prod.fst then firsts else firsts ++ [call]) []

/-- The key that came last into a bucket as a new one. -/
def lastNew (config : Config) (calls : List (Nat × Val)) (bucket : Nat) : Option Nat :=
  (((firsts calls).filter fun call => config.getHash call.1 = bucket).getLast?).map Prod.fst

/-- A table stores each key once, with the value of the first call. -/
structure Stores (config : Config) (calls : List (Nat × Val)) (table : Table Val) : Prop where
  get : ∀ key, table.get config key =
    some ((calls.find? fun call => call.1 = key).map Prod.snd)
  finite : ∀ bucket < config.headerLength,
    ∃ tail, Leads table.next (bucket :: tail) none ∧ (bucket :: tail).Nodup

/-- After every part of a sequence of calls the table stores each key once; up to as many keys as
there are nodes behind the headers no call fails, and a call with a key that is there leaves the
table as it is. -/
structure StoresOnce (config : Config) (memory : Nat → RdmaArrayNode Val)
    (calls : List (Nat × Val)) : Prop where
  stores : ∀ done, done <+: calls → ∀ table,
    (Table.init config memory).run config done = some table → Stores config done table
  succeeds : ∀ done, done <+: calls →
    (done.map Prod.fst).toFinset.card ≤ config.length - config.headerLength →
      ((Table.init config memory).run config done).isSome
  unchanged : ∀ done call, done ++ [call] <+: calls → ∀ table,
    (Table.init config memory).run config done = some table → call.1 ∈ done.map Prod.fst →
      table.insert config call.1 call.2 = some table

/-- No call inserts the key that came last into its bucket as a new one. -/
def NeverLast (config : Config) (calls : List (Nat × Val)) : Prop :=
  ∀ done call, done ++ [call] <+: calls →
    lastNew config done (config.getHash call.1) ≠ some call.1

end Rocc.Memstore.RdmaChainHash
