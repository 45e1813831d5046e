import Mathlib.Data.List.Forall2
import Rocc.Base.Memory

/-!
# Structures in memory

A structure is laid out as a list of fields, each with its offset and its width in bytes;
the bytes between the fields are left as they are.  Of an argument only so many bytes
reach a field as the parameter and the field have.  Loading a structure that was just stored gives
back the arguments, cut down to the widths of their parameters.
-/

namespace Rocc

open Memory

/-- A field of a structure; `param` is the number of bytes of an argument that reach it. -/
structure Field where
  offset : Nat
  width : Nat
  param : Nat
  deriving DecidableEq, Repr

/-- Two fields do not overlap. -/
def Field.Apart (left right : Field) : Prop :=
  left.offset + left.width ≤ right.offset ∨ right.offset + right.width ≤ left.offset

instance (left right : Field) : Decidable (left.Apart right) :=
  inferInstanceAs (Decidable (_ ∨ _))

/-- An argument as its parameter receives it. -/
def Field.cut (field : Field) (arg : Nat) : Nat := arg % 256 ^ field.param

/-- The layout of a structure. -/
structure Layout where
  size : Nat
  fields : List Field
  inside : ∀ field ∈ fields, field.offset + field.width ≤ size
  apart : fields.Pairwise Field.Apart
  param_le : ∀ field ∈ fields, field.param ≤ field.width

namespace Layout

/-- Store arguments into fields, one after the other. -/
def storeFields (memory : Memory) (place : Nat) : List Field → List Nat → Memory
  | field :: fields, arg :: args =>
      storeFields (memory.write (place + field.offset) (toBytes field.width (field.cut arg)))
        place fields args
  | _, _ => memory

/-- Store a structure. -/
def store (layout : Layout) (memory : Memory) (place : Nat) (args : List Nat) : Memory :=
  storeFields memory place layout.fields args

/-- The value of a field of the structure at a place. -/
def loadField (memory : Memory) (place : Nat) (field : Field) : Nat :=
  ofBytes (memory.read (place + field.offset) field.width)

/-- The values of all fields. -/
def load (layout : Layout) (memory : Memory) (place : Nat) : List Nat :=
  layout.fields.map (loadField memory place)

/-- Storing fields does not touch what lies outside of them. -/
theorem storeFields_outside (memory : Memory) (place : Nat) (fields : List Field)
    (args : List Nat) {address : Nat}
    (outside : ∀ field ∈ fields,
      address < place + field.offset ∨ place + field.offset + field.width ≤ address) :
    storeFields memory place fields args address = memory address := by
  induction fields generalizing memory args with
  | nil => rfl
  | cons field rest ih =>
      cases args with
      | nil => rfl
      | cons arg args =>
          rw [storeFields, ih _ _ fun other member => outside other (List.mem_cons_of_mem _ member)]
          apply write_outside
          rw [length_toBytes]
          exact outside field List.mem_cons_self

/-- What the fields held before does not matter. -/
theorem storeFields_congr {memory other : Memory} {place : Nat} {fields : List Field}
    {args : List Nat} (arity : args.length = fields.length)
    (same : ∀ address, (∀ field ∈ fields,
      address < place + field.offset ∨ place + field.offset + field.width ≤ address) →
      memory address = other address) :
    storeFields memory place fields args = storeFields other place fields args := by
  induction fields generalizing memory other args with
  | nil => exact funext fun address => same address (by simp)
  | cons field rest ih =>
      cases args with
      | nil => simp at arity
      | cons arg args =>
          refine ih (by simpa using arity) fun address outside => ?_
          have sized : (toBytes field.width (field.cut arg)).length = field.width :=
            length_toBytes _ _
          by_cases inside : place + field.offset ≤ address ∧
              address < place + field.offset + field.width
          · exact write_inside _ _ inside.1 (by omega)
          · rw [write_outside _ (by omega), write_outside _ (by omega)]
            exact same address (List.forall_mem_cons.mpr ⟨by omega, outside⟩)

/-- A structure is stored inside its block. -/
theorem store_outside (layout : Layout) (memory : Memory) (place : Nat) (args : List Nat)
    {address : Nat} (outside : address < place ∨ place + layout.size ≤ address) :
    layout.store memory place args address = memory address := by
  apply storeFields_outside
  intro field member
  have inside := layout.inside field member
  omega

/-- A field reads the same from memories that agree on it. -/
theorem loadField_congr {memory other : Memory} {place : Nat} {field : Field}
    (same : ∀ address, place + field.offset ≤ address →
      address < place + field.offset + field.width → memory address = other address) :
    loadField memory place field = loadField other place field := by
  rw [loadField, read_congr same, ← loadField]

/-- A structure reads the same from memories that agree on its block. -/
theorem load_congr (layout : Layout) {memory other : Memory} {place : Nat}
    (same : ∀ address, place ≤ address → address < place + layout.size →
      memory address = other address) :
    layout.load memory place = layout.load other place := by
  apply List.map_congr_left
  intro field member
  have inside := layout.inside field member
  exact loadField_congr fun address behind before => same address (by omega) (by omega)

theorem loadField_write (memory : Memory) (place : Nat) (field : Field) (arg : Nat)
    (narrow : field.param ≤ field.width) :
    loadField (memory.write (place + field.offset) (toBytes field.width (field.cut arg))) place
      field = field.cut arg := by
  rw [loadField, read_write_of_length _ (length_toBytes _ _), ofBytes_toBytes]
  apply Nat.mod_eq_of_lt
  exact (Nat.mod_lt _ (Nat.pow_pos (by decide))).trans_le (Nat.pow_le_pow_right (by decide) narrow)

theorem loadFields_storeFields (memory : Memory) (place : Nat) (fields : List Field)
    (args : List Nat) (arity : args.length = fields.length)
    (apart : fields.Pairwise Field.Apart)
    (narrow : ∀ field ∈ fields, field.param ≤ field.width) :
    fields.map (loadField (storeFields memory place fields args) place) =
      List.zipWith Field.cut fields args := by
  induction fields generalizing memory args with
  | nil => rfl
  | cons field rest ih =>
      cases args with
      | nil => simp at arity
      | cons arg args =>
          obtain ⟨alone, restApart⟩ := List.pairwise_cons.mp apart
          rw [storeFields, List.map_cons, List.zipWith_cons_cons,
            ih _ args (by simpa using arity) restApart
              fun other member => narrow other (List.mem_cons_of_mem _ member)]
          congr 1
          refine Eq.trans (loadField_congr ?_)
            (loadField_write memory place field arg (narrow field List.mem_cons_self))
          intro address behind before
          apply storeFields_outside
          intro other member
          rcases alone other member with left | right
          · exact .inl (by omega)
          · exact .inr (by omega)

/-- A structure is loaded as it was stored, with its arguments cut down. -/
theorem load_store (layout : Layout) (memory : Memory) (place : Nat) (args : List Nat)
    (arity : args.length = layout.fields.length) :
    layout.load (layout.store memory place args) place =
      List.zipWith Field.cut layout.fields args :=
  loadFields_storeFields memory place layout.fields args arity layout.apart layout.param_le

/-- Every argument fits its parameter. -/
def Fits (layout : Layout) (args : List Nat) : Prop :=
  List.Forall₂ (fun field arg => arg < 256 ^ field.param) layout.fields args

/-- Arguments survive exactly when they fit. -/
theorem zipWith_cut_eq_iff {fields : List Field} {args : List Nat}
    (arity : args.length = fields.length) :
    List.zipWith Field.cut fields args = args ↔
      List.Forall₂ (fun field arg => arg < 256 ^ field.param) fields args := by
  induction fields generalizing args with
  | nil =>
      rw [List.length_nil, List.length_eq_zero_iff] at arity
      simp [arity]
  | cons field rest ih =>
      cases args with
      | nil => simp at arity
      | cons arg args =>
          have kept : field.cut arg = arg ↔ arg < 256 ^ field.param := by
            constructor
            · intro same
              rw [← same]
              exact Nat.mod_lt _ (Nat.pow_pos (by decide))
            · exact Nat.mod_eq_of_lt
          rw [List.zipWith_cons_cons, List.cons.injEq, List.forall₂_cons, kept,
            ih (by simpa using arity)]

theorem load_store_eq_iff (layout : Layout) (memory : Memory) (place : Nat) (args : List Nat)
    (arity : args.length = layout.fields.length) :
    layout.load (layout.store memory place args) place = args ↔ layout.Fits args := by
  rw [layout.load_store memory place args arity, zipWith_cut_eq_iff arity, Fits]

end Layout

end Rocc
