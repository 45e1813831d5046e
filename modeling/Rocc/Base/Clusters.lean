import Mathlib.Algebra.BigOperators.Group.Finset.Piecewise
import Mathlib.Algebra.Order.BigOperators.Group.Finset
import Mathlib.Data.List.FinRange
import Mathlib.Data.List.ProdSigma
import Mathlib.Data.Nat.ModEq

/-!
# Chains of clusters

A hash table with a node of `width` entries for each bucket.  When all nodes of a bucket
are full, one more node is taken from a pool that all buckets share and linked behind the
last one, so that a bucket is a chain of nodes with increasing positions.

The first part is about a loop along such a chain, the second one about what the chains of
all buckets have in common and how an entry is added, and the last one about how many
nodes of the pool a number of entries can need.
-/

namespace Rocc

universe u v w

section Walk

variable {Node : Type u} {Result : Type v}

/-- The links lead through the nodes in this order and from the last one to `behind`. -/
def Leads (link : Node → Option Node) : List Node → Option Node → Prop
  | [], _ => True
  | node :: rest, behind => link node = rest.head?.or behind ∧ Leads link rest behind

/-- The loop along a chain: a node with a result ends it, and so does the last node.  No
result when `fuel` does not suffice. -/
def walk (link : Node → Option Node) (visit : Node → Option Result) (finish : Node → Result) :
    Nat → Node → Option Result
  | 0, _ => none
  | fuel + 1, node =>
      match visit node with
      | some result => some result
      | none =>
          match link node with
          | some next => walk link visit finish fuel next
          | none => some (finish node)

/-- The nodes that the loop reads. -/
def visited (link : Node → Option Node) (visit : Node → Option Result) :
    Nat → Node → List Node
  | 0, _ => []
  | fuel + 1, node =>
      node :: match visit node with
        | some _ => []
        | none =>
            match link node with
            | some next => visited link visit fuel next
            | none => []

variable {link link' : Node → Option Node} {visit : Node → Option Result}
variable {finish : Node → Result} {front back rest : List Node} {behind : Option Node}
variable {node : Node} {fuel : Nat}

namespace Leads

theorem append :
    Leads link (front ++ back) behind ↔
      Leads link front (back.head?.or behind) ∧ Leads link back behind := by
  induction front with
  | nil => simp [Leads]
  | cons first rest ih =>
      have headOf : (rest ++ back).head?.or behind = rest.head?.or (back.head?.or behind) := by
        cases rest <;> simp
      rw [List.cons_append, Leads, Leads, ih, headOf, and_assoc]

/-- Only the links of the nodes themselves matter. -/
theorem congr (leads : Leads link front behind)
    (same : ∀ other ∈ front, link' other = link other) : Leads link' front behind := by
  induction front with
  | nil => trivial
  | cons first rest ih =>
      refine ⟨?_, ih leads.2 fun other member => same other (List.mem_cons_of_mem _ member)⟩
      rw [same first List.mem_cons_self]
      exact leads.1

/-- A new node behind the last one. -/
theorem concat [DecidableEq Node] {last fresh : Node} (leads : Leads link (front ++ [last]) none)
    (distinct : last ∉ front) (new : fresh ∉ front ++ [last]) (ended : link fresh = none) :
    Leads (Function.update link last (some fresh)) (front ++ [last] ++ [fresh]) none := by
  have notLast : fresh ≠ last := fun same => new (by simp [same])
  refine append.mpr ⟨append.mpr ⟨?_, ?_⟩, ?_⟩
  · apply (append.mp leads).1.congr
    intro other member
    exact Function.update_of_ne (ne_of_mem_of_not_mem member distinct) _ _
  · exact ⟨Function.update_self .., trivial⟩
  · exact ⟨by rw [Function.update_of_ne notLast, ended]; rfl, trivial⟩

/-- All nodes but the last one have a successor. -/
theorem isSome_iff_mem {last : Node} (leads : Leads link (front ++ [last]) none)
    (distinct : last ∉ front) {other : Node} (member : other ∈ front ++ [last]) :
    (link other).isSome ↔ other ∈ front := by
  obtain ⟨before, after⟩ := append.mp leads
  constructor
  · intro continued
    rcases List.mem_append.mp member with inFront | isLast
    · exact inFront
    · have ended : link last = none := after.1
      rw [List.mem_singleton.mp isLast, ended] at continued
      cases continued
  · intro inFront
    obtain ⟨early, late, rfl⟩ := List.append_of_mem inFront
    have here := (append.mp before).2.1
    rw [here]
    cases late <;> simp

end Leads

/-- Where the loop ends. -/
theorem walk_eq (leads : Leads link (node :: rest) none) (enough : rest.length < fuel) :
    walk link visit finish fuel node = some (((node :: rest).findSome? visit).getD
      (finish ((node :: rest).getLast (List.cons_ne_nil _ _)))) := by
  induction rest generalizing node fuel with
  | nil =>
      obtain ⟨fuel, rfl⟩ := Nat.exists_eq_add_of_lt enough
      have ended : link node = none := leads.1
      rw [List.length_nil, Nat.zero_add, walk]
      cases found : visit node with
      | some result => simp [found]
      | none => simp [found, ended]
  | cons next rest ih =>
      obtain ⟨fuel, rfl⟩ := Nat.exists_eq_succ_of_ne_zero (Nat.ne_zero_of_lt enough)
      have onward : link node = some next := leads.1
      rw [walk]
      cases found : visit node with
      | some result => simp [found]
      | none =>
          have skipped : (node :: next :: rest).findSome? visit = (next :: rest).findSome? visit :=
            List.findSome?_cons_of_isNone (by simp [found])
          simp only [onward]
          rw [ih leads.2 (Nat.lt_of_succ_lt_succ enough), List.getLast_cons_cons, skipped]

/-- The same loop over other names of the nodes. -/
theorem walk_map {Other : Type w} {other : Other → Option Other} {look : Other → Option Result}
    {stop : Other → Result} {name : Node → Other} (leads : Leads link (node :: rest) none)
    (links : ∀ node, other (name node) = (link node).map name)
    (looks : ∀ other ∈ node :: rest, look (name other) = visit other)
    (stops : ∀ node, stop (name node) = finish node) :
    walk other look stop fuel (name node) = walk link visit finish fuel node := by
  induction fuel generalizing node rest with
  | zero => rfl
  | succ fuel ih =>
      rw [walk, walk, looks node List.mem_cons_self, links, stops]
      cases found : visit node with
      | some result => rfl
      | none =>
          cases rest with
          | nil =>
              have ended : link node = none := leads.1
              simp only [ended]
              rfl
          | cons next rest =>
              have onward : link node = some next := leads.1
              simp only [onward, Option.map_some]
              exact ih leads.2 fun other member => looks other (List.mem_cons_of_mem _ member)

/-- The loop stays on the chain. -/
theorem mem_of_mem_visited (leads : Leads link (node :: rest) none) {other : Node}
    (member : other ∈ visited link visit fuel node) : other ∈ node :: rest := by
  induction fuel generalizing node rest with
  | zero => cases member
  | succ fuel ih =>
      rw [visited] at member
      rcases List.mem_cons.mp member with rfl | later
      · exact List.mem_cons_self
      · cases found : visit node with
        | some result => simp [found] at later
        | none =>
            simp only [found] at later
            cases rest with
            | nil =>
                have ended : link node = none := leads.1
                simp [ended] at later
            | cons next rest =>
                have onward : link node = some next := leads.1
                simp only [onward] at later
                exact List.mem_cons_of_mem _ (ih leads.2 later)

end Walk

/-! ## Entries -/

section Clusters

/-- The entries of the nodes, by position, and the next node of each. -/
structure Clusters (Entry : Type u) (width : Nat) where
  entry : Nat → Fin width → Option Entry
  link : Nat → Option Nat

variable {Entry : Type u} {width : Nat}

/-- The places of a chain. -/
def slots (width : Nat) (path : List Nat) : List (Nat × Fin width) :=
  path ×ˢ List.finRange width

@[simp] theorem mem_slots {path : List Nat} {slot : Nat × Fin width} :
    slot ∈ slots width path ↔ slot.1 ∈ path := by
  obtain ⟨node, index⟩ := slot
  simp [slots, List.mem_product]

@[simp] theorem length_slots {path : List Nat} :
    (slots width path).length = path.length * width := by
  simp [slots, List.length_product]

theorem nodup_slots {path : List Nat} (distinct : path.Nodup) : (slots width path).Nodup :=
  distinct.product (List.nodup_finRange width)

theorem slots_append (front back : List Nat) :
    slots width (front ++ back) = slots width front ++ slots width back :=
  List.flatMap_append

/-- The first entry of a node that passes the test. -/
def firstIn (test : Nat → Fin width → Bool) (node : Nat) : Option (Nat × Fin width) :=
  ((List.finRange width).find? (test node)).map (Prod.mk node)

/-- Node after node and entry after entry is one pass over the places. -/
theorem findSome?_firstIn (test : Nat → Fin width → Bool) (path : List Nat) :
    path.findSome? (firstIn test) = (slots width path).find? fun slot => test slot.1 slot.2 := by
  change _ = (path.flatMap fun node => (List.finRange width).map (Prod.mk node)).find? _
  rw [List.find?_flatMap]
  congr 1
  funext node
  rw [List.find?_map]
  rfl

namespace Clusters

variable {clusters : Clusters Entry width}

/-- An entry is set. -/
def fill (clusters : Clusters Entry width) (slot : Nat × Fin width) (added : Entry) :
    Clusters Entry width where
  entry := Function.update clusters.entry slot.1
    (Function.update (clusters.entry slot.1) slot.2 (some added))
  link := clusters.link

/-- A new node behind `last`, with one entry. -/
def grow [NeZero width] (clusters : Clusters Entry width) (last fresh : Nat) (added : Entry) :
    Clusters Entry width where
  entry := Function.update clusters.entry fresh (Function.update (fun _ => none) 0 (some added))
  link := Function.update clusters.link last (some fresh)

@[simp] theorem entry_fill (slot : Nat × Fin width) (added : Entry) :
    (clusters.fill slot added).entry slot.1 slot.2 = some added := by
  simp [fill]

theorem entry_fill_of_ne {slot other : Nat × Fin width} (different : other ≠ slot)
    (added : Entry) :
    (clusters.fill slot added).entry other.1 other.2 = clusters.entry other.1 other.2 := by
  simp only [fill]
  by_cases same : other.1 = slot.1
  · have elsewhere : other.2 ≠ slot.2 := fun sameIndex => different (Prod.ext same sameIndex)
    rw [same, Function.update_self, Function.update_of_ne elsewhere]
  · rw [Function.update_of_ne same]

@[simp] theorem entry_grow [NeZero width] (last fresh : Nat) (added : Entry) :
    (clusters.grow last fresh added).entry fresh 0 = some added := by
  simp [grow]

theorem entry_grow_of_ne [NeZero width] {last fresh : Nat} {other : Nat × Fin width}
    (empty : ∀ index, clusters.entry fresh index = none) (different : other ≠ (fresh, 0))
    (added : Entry) :
    (clusters.grow last fresh added).entry other.1 other.2 = clusters.entry other.1 other.2 := by
  simp only [grow]
  by_cases same : other.1 = fresh
  · have elsewhere : other.2 ≠ 0 := fun sameIndex => different (Prod.ext same sameIndex)
    rw [same, Function.update_self, Function.update_of_ne elsewhere, empty]
  · rw [Function.update_of_ne same]

/-- A new node without entries can be linked first and filled then. -/
theorem grow_eq_fill [NeZero width] {last fresh : Nat}
    (empty : ∀ index, clusters.entry fresh index = none) (added : Entry) :
    clusters.grow last fresh added =
      { clusters with link := Function.update clusters.link last (some fresh) }.fill (fresh, 0)
        added := by
  have same : clusters.entry fresh = fun _ => none := funext empty
  rw [grow, fill, same]

/-- The number of entries of a chain. -/
def held (clusters : Clusters Entry width) (path : List Nat) : Nat :=
  (slots width path).countP fun slot => (clusters.entry slot.1 slot.2).isSome

/-- One more entry is present. -/
theorem countP_succ {Place : Type v} {places : List Place} {place : Place}
    {before after : Place → Bool} (distinct : places.Nodup) (member : place ∈ places)
    (absent : before place = false) (present : after place = true)
    (same : ∀ other ∈ places, other ≠ place → after other = before other) :
    places.countP after = places.countP before + 1 := by
  obtain ⟨front, back, rfl⟩ := List.append_of_mem member
  have elsewhere : ∀ part : List Place, part ⊆ front ++ place :: back → place ∉ part →
      part.countP after = part.countP before := by
    intro part within outside
    apply List.countP_congr
    intro other inPart
    rw [same other (within inPart) (ne_of_mem_of_not_mem inPart outside)]
  rw [List.nodup_middle, List.nodup_cons, List.mem_append, not_or] at distinct
  rw [List.countP_append, List.countP_append, List.countP_cons_of_pos present,
    List.countP_cons_of_neg (by simp [absent]), elsewhere front (by simp) distinct.1.1,
    elsewhere back (by simp) distinct.1.2]
  omega

theorem held_le (path : List Nat) : clusters.held path ≤ path.length * width := by
  rw [← length_slots]
  exact List.countP_le_length

theorem held_append (front back : List Nat) :
    clusters.held (front ++ back) = clusters.held front + clusters.held back := by
  rw [held, slots_append, List.countP_append]
  rfl

/-- A chain without a free entry. -/
theorem held_of_full {path : List Nat}
    (full : ∀ node ∈ path, ∀ index, (clusters.entry node index).isSome) :
    clusters.held path = path.length * width := by
  rw [held, List.countP_eq_length.mpr, length_slots]
  intro slot member
  exact full slot.1 (mem_slots.mp member) slot.2

theorem held_congr {other : Clusters Entry width} {path : List Nat}
    (same : ∀ node ∈ path, ∀ index, other.entry node index = clusters.entry node index) :
    other.held path = clusters.held path := by
  apply List.countP_congr
  intro slot member
  rw [same slot.1 (mem_slots.mp member) slot.2]

theorem held_fill {path : List Nat} {slot : Nat × Fin width} (distinct : path.Nodup)
    (member : slot.1 ∈ path) (free : clusters.entry slot.1 slot.2 = none) (added : Entry) :
    (clusters.fill slot added).held path = clusters.held path + 1 := by
  apply countP_succ (nodup_slots distinct) (mem_slots.mpr member)
  · simp [free]
  · simp
  · intro other _ different
    rw [entry_fill_of_ne different]

/-- An entry that is added to a chain by a new node. -/
theorem held_grow [NeZero width] {path : List Nat} {last fresh : Nat} (new : fresh ∉ path)
    (added : Entry) :
    (clusters.grow last fresh added).held (path ++ [fresh]) = clusters.held path + 1 := by
  have kept : (clusters.grow last fresh added).held path = clusters.held path := by
    apply held_congr
    intro node member index
    exact congrFun (Function.update_of_ne (ne_of_mem_of_not_mem member new) _ _) index
  have one : (clusters.grow last fresh added).held [fresh] = 1 := by
    have none : (slots width [fresh]).countP (fun _ => false) = 0 := by simp
    rw [held, ← Nat.zero_add 1, ← none]
    apply countP_succ (nodup_slots (List.nodup_singleton fresh))
      (mem_slots.mpr (List.mem_singleton_self fresh) : (fresh, (0 : Fin width)) ∈ _)
    · rfl
    · simp
    · intro other inside different
      have same : other.1 = fresh := List.mem_singleton.mp (mem_slots.mp inside)
      have elsewhere : other.2 ≠ 0 := fun sameIndex => different (Prod.ext same sameIndex)
      simp [grow, same, Function.update_of_ne elsewhere]
  rw [held_append, kept, one]

end Clusters

/-! ## All buckets -/

/-- The chain of a bucket. -/
def path (tails : Nat → List Nat) (bucket : Nat) : List Nat :=
  bucket :: tails bucket

section Extended

variable (tails : Nat → List Nat) (bucket fresh : Nat)

/-- A chain that has got one more node. -/
theorem path_extended :
    path (Function.update tails bucket (tails bucket ++ [fresh])) bucket =
      path tails bucket ++ [fresh] := by
  rw [path, Function.update_self]
  rfl

theorem path_extended_of_ne {other : Nat} (different : other ≠ bucket) :
    path (Function.update tails bucket (tails bucket ++ [fresh])) other = path tails other := by
  rw [path, Function.update_of_ne different]
  rfl

theorem mem_path_extended :
    fresh ∈ path (Function.update tails bucket (tails bucket ++ [fresh])) bucket := by
  rw [path_extended]
  exact List.mem_append_right _ (List.mem_singleton_self _)

theorem path_subset_extended (other : Nat) :
    path tails other ⊆
      path (Function.update tails bucket (tails bucket ++ [fresh])) other := by
  by_cases same : other = bucket
  · rw [same, path_extended]
    exact List.subset_append_left _ _
  · rw [path_extended_of_ne tails bucket fresh same]
    exact List.Subset.refl _

end Extended

/-- The nodes below `buckets` are the first ones of their chains, and those from `first` up
to `free` have been handed out.  A node has a successor only when it is full, so that the
number of entries determines the length of a chain. -/
structure Chains (buckets first free : Nat) (clusters : Clusters Entry width)
    (tails : Nat → List Nat) : Prop where
  buckets_le : buckets ≤ first
  first_le : first ≤ free
  linked : ∀ bucket < buckets, Leads clusters.link (path tails bucket) none
  sorted : ∀ bucket < buckets, (tails bucket).Pairwise (· < ·)
  inside : ∀ bucket < buckets, ∀ node ∈ tails bucket, first ≤ node ∧ node < free
  disjoint : ∀ bucket < buckets, ∀ other < buckets, ∀ node ∈ tails bucket,
    node ∈ tails other → bucket = other
  outside : ∀ node, (∀ bucket < buckets, node ∉ path tails bucket) →
    clusters.link node = none ∧ ∀ index, clusters.entry node index = none
  full : ∀ bucket < buckets, ∀ node ∈ (path tails bucket).dropLast,
    ∀ index, (clusters.entry node index).isSome
  lengths : ∀ bucket < buckets,
    (tails bucket).length = (clusters.held (path tails bucket) - 1) / width
  handed : ∑ bucket ∈ Finset.range buckets, (tails bucket).length = free - first

/-- One bucket has one more. -/
theorem sum_succ {buckets bucket : Nat} (isBucket : bucket < buckets) {before after : Nat → Nat}
    (same : ∀ other < buckets, after other = before other + if other = bucket then 1 else 0) :
    ∑ other ∈ Finset.range buckets, after other =
      ∑ other ∈ Finset.range buckets, before other + 1 := by
  rw [Finset.sum_congr rfl fun other member => same other (Finset.mem_range.mp member),
    Finset.sum_add_distrib, Finset.sum_ite_eq', if_pos (Finset.mem_range.mpr isBucket)]

namespace Chains

variable {buckets first free : Nat} {clusters : Clusters Entry width}
variable {tails : Nat → List Nat} {bucket : Nat}

/-- All nodes of the pool are free and there are no entries. -/
theorem empty (bound : buckets ≤ first) (unlinked : ∀ node, clusters.link node = none)
    (empty : ∀ node index, clusters.entry node index = none) :
    Chains buckets first first clusters fun _ => [] := by
  have nothing : ∀ nodes, clusters.held nodes = 0 := by
    intro nodes
    rw [Clusters.held, List.countP_eq_zero]
    intro slot _
    simp [empty]
  constructor
  case buckets_le => exact bound
  case first_le => exact le_rfl
  case linked => exact fun bucket _ => ⟨unlinked bucket, trivial⟩
  case outside => exact fun node _ => ⟨unlinked node, empty node⟩
  case lengths =>
    intro bucket _
    rw [nothing, Nat.zero_sub, Nat.zero_div]
    rfl
  all_goals simp [path]

theorem mem_path (chains : Chains buckets first free clusters tails) (isBucket : bucket < buckets)
    {node : Nat} (member : node ∈ path tails bucket) : node < free := by
  rcases List.mem_cons.mp member with rfl | later
  · exact isBucket.trans_le (chains.buckets_le.trans chains.first_le)
  · exact (chains.inside bucket isBucket node later).2

theorem nodup_path (chains : Chains buckets first free clusters tails)
    (isBucket : bucket < buckets) : (path tails bucket).Nodup := by
  refine List.nodup_cons.mpr ⟨?_, (chains.sorted bucket isBucket).imp ne_of_lt⟩
  intro member
  exact absurd isBucket
    (not_lt.mpr (chains.buckets_le.trans (chains.inside bucket isBucket bucket member).1))

/-- A node is on one chain only. -/
theorem path_disjoint (chains : Chains buckets first free clusters tails)
    (isBucket : bucket < buckets) {other : Nat} (isOther : other < buckets) {node : Nat}
    (member : node ∈ path tails bucket) (also : node ∈ path tails other) : bucket = other := by
  have heads : ∀ bucket < buckets, ∀ node < buckets, node ∉ tails bucket := by
    intro bucket isBucket node isHead inTail
    exact absurd isHead
      (not_lt.mpr (chains.buckets_le.trans (chains.inside bucket isBucket node inTail).1))
  rcases List.mem_cons.mp member with rfl | later
  · rcases List.mem_cons.mp also with same | alsoLater
    · exact same
    · exact absurd alsoLater (heads other isOther node isBucket)
  · rcases List.mem_cons.mp also with rfl | alsoLater
    · exact absurd later (heads bucket isBucket node isOther)
    · exact chains.disjoint bucket isBucket other isOther node later alsoLater

/-- An entry is on a chain. -/
theorem exists_path (chains : Chains buckets first free clusters tails) {node : Nat}
    {index : Fin width} {found : Entry} (present : clusters.entry node index = some found) :
    ∃ bucket < buckets, node ∈ path tails bucket := by
  by_contra! none
  rw [(chains.outside node none).2 index] at present
  cases present

/-- A chain is no longer than the part of the pool that has been handed out. -/
theorem length_tail_le (chains : Chains buckets first free clusters tails)
    (isBucket : bucket < buckets) : (tails bucket).length ≤ free - first := by
  rw [← chains.handed]
  exact Finset.single_le_sum (f := fun bucket => (tails bucket).length) (fun _ _ => Nat.zero_le _)
    (Finset.mem_range.mpr isBucket)

/-- The last node of a chain. -/
def last (tails : Nat → List Nat) (bucket : Nat) : Nat :=
  (path tails bucket).getLast (List.cons_ne_nil _ _)

theorem last_mem : last tails bucket ∈ path tails bucket :=
  List.getLast_mem _

theorem path_eq : (path tails bucket).dropLast ++ [last tails bucket] = path tails bucket :=
  List.dropLast_append_getLast _

/-- The loop along a chain, with a test for the entries. -/
theorem walk (chains : Chains buckets first free clusters tails) (isBucket : bucket < buckets)
    {Result : Type v} {visit : Nat → Option Result} {finish : Nat → Result} {fuel : Nat}
    (enough : free - first < fuel) :
    walk clusters.link visit finish fuel bucket =
      some (((path tails bucket).findSome? visit).getD (finish (last tails bucket))) :=
  walk_eq (chains.linked bucket isBucket) ((chains.length_tail_le isBucket).trans_lt enough)

/-- The loop along a chain that looks for an entry finds the first one of its places. -/
theorem walk_firstIn (chains : Chains buckets first free clusters tails)
    (isBucket : bucket < buckets) {Result : Type v} (test : Nat → Fin width → Bool)
    (found : Nat × Fin width → Result) (finish : Nat → Result) {fuel : Nat}
    (enough : free - first < fuel) :
    Rocc.walk clusters.link (fun node => (firstIn test node).map found) finish fuel bucket =
      some (((slots width (path tails bucket)).find? fun slot => test slot.1 slot.2).elim
        (finish (last tails bucket)) found) := by
  have mapped : (path tails bucket).findSome? (fun node => (firstIn test node).map found) =
      ((path tails bucket).findSome? (firstIn test)).map found := List.map_findSome?.symm
  rw [chains.walk isBucket enough, mapped, findSome?_firstIn]
  cases (slots width (path tails bucket)).find? fun slot => test slot.1 slot.2 <;> rfl

/-- An entry is set in a free place of a chain. -/
theorem fill (chains : Chains buckets first free clusters tails) (isBucket : bucket < buckets)
    {slot : Nat × Fin width} (member : slot.1 ∈ path tails bucket)
    (isFree : clusters.entry slot.1 slot.2 = none) (added : Entry) :
    Chains buckets first free (clusters.fill slot added) tails ∧
      ∀ other < buckets, (clusters.fill slot added).held (path tails other) =
        clusters.held (path tails other) + if other = bucket then 1 else 0 := by
  have kept : ∀ node, node ≠ slot.1 → ∀ index,
      (clusters.fill slot added).entry node index = clusters.entry node index := by
    intro node different index
    have elsewhere : (node, index) ≠ slot := fun same => different (congrArg Prod.fst same)
    exact Clusters.entry_fill_of_ne elsewhere added
  have held : ∀ other < buckets, (clusters.fill slot added).held (path tails other) =
      clusters.held (path tails other) + if other = bucket then 1 else 0 := by
    intro other isOther
    by_cases same : other = bucket
    · subst same
      rw [if_pos rfl]
      exact Clusters.held_fill (chains.nodup_path isOther) member isFree added
    · rw [if_neg same]
      apply Clusters.held_congr
      rintro node inOther
      apply kept
      rintro rfl
      exact same (chains.path_disjoint isOther isBucket inOther member)
  refine ⟨?_, held⟩
  constructor
  case buckets_le => exact chains.buckets_le
  case first_le => exact chains.first_le
  case linked => exact chains.linked
  case sorted => exact chains.sorted
  case inside => exact chains.inside
  case disjoint => exact chains.disjoint
  case handed => exact chains.handed
  case outside =>
    intro node outside
    refine ⟨(chains.outside node outside).1, ?_⟩
    intro index
    rw [kept node (fun same => outside bucket isBucket (same ▸ member)) index]
    exact (chains.outside node outside).2 index
  case full =>
    intro other isOther node inFront index
    by_cases same : (node, index) = slot
    · subst same
      exact Option.isSome_iff_exists.mpr ⟨added, Clusters.entry_fill (node, index) added⟩
    · rw [Clusters.entry_fill_of_ne same]
      exact chains.full other isOther node inFront index
  case lengths =>
    intro other isOther
    have before := chains.lengths other isOther
    rw [held other isOther, before]
    by_cases same : other = bucket
    · subst same
      have room : clusters.held (path tails other) < (path tails other).length * width := by
        rw [← length_slots]
        apply lt_of_le_of_ne List.countP_le_length
        intro all
        have present := List.countP_eq_length.mp all slot (mem_slots.mpr member)
        rw [isFree] at present
        cases present
      rw [path, List.length_cons, before] at room
      rw [if_pos rfl, Nat.add_sub_cancel]
      refine (Nat.div_eq_of_lt_le ?_ room).symm
      exact (Nat.div_mul_le_self _ _).trans (Nat.sub_le _ _)
    · rw [if_neg same, Nat.add_zero]

/-- A full chain gets the next node of the pool. -/
theorem grow [NeZero width] (chains : Chains buckets first free clusters tails)
    (isBucket : bucket < buckets)
    (all : ∀ node ∈ path tails bucket, ∀ index, (clusters.entry node index).isSome)
    (added : Entry) :
    Chains buckets first (free + 1) (clusters.grow (last tails bucket) free added)
        (Function.update tails bucket (tails bucket ++ [free])) ∧
      ∀ other < buckets, (clusters.grow (last tails bucket) free added).held
          (path (Function.update tails bucket (tails bucket ++ [free])) other) =
        clusters.held (path tails other) + if other = bucket then 1 else 0 := by
  have new : ∀ other < buckets, free ∉ path tails other := fun other isOther member =>
    lt_irrefl _ (chains.mem_path isOther member)
  have extended := path_extended tails bucket free
  have kept : ∀ node, node ≠ free → ∀ index,
      (clusters.grow (last tails bucket) free added).entry node index =
        clusters.entry node index :=
    fun node different index => congrFun (Function.update_of_ne different _ _) index
  have held : ∀ other < buckets, (clusters.grow (last tails bucket) free added).held
      (path (Function.update tails bucket (tails bucket ++ [free])) other) =
        clusters.held (path tails other) + if other = bucket then 1 else 0 := by
    intro other isOther
    by_cases same : other = bucket
    · subst same
      rw [if_pos rfl, extended]
      exact Clusters.held_grow (new other isOther) added
    · rw [if_neg same, path_extended_of_ne tails bucket free same]
      apply Clusters.held_congr
      intro node inOther
      exact kept node (ne_of_mem_of_not_mem inOther (new other isOther))
  have members : ∀ other node,
      node ∈ Function.update tails bucket (tails bucket ++ [free]) other ↔
        node ∈ tails other ∨ other = bucket ∧ node = free := by
    intro other node
    by_cases same : other = bucket
    · subst same
      simp
    · simp [same]
  refine ⟨?_, held⟩
  constructor
  case buckets_le => exact chains.buckets_le
  case first_le => exact chains.first_le.trans (Nat.le_succ _)
  case linked =>
    intro other isOther
    have linked := chains.linked other isOther
    by_cases same : other = bucket
    · subst same
      have distinct := chains.nodup_path isOther
      rw [← path_eq] at linked distinct
      rw [extended, ← path_eq]
      apply linked.concat
      · intro member
        rw [List.nodup_append] at distinct
        exact distinct.2.2 _ member _ (List.mem_singleton_self _) rfl
      · rw [path_eq]
        exact new other isOther
      · exact (chains.outside free new).1
    · rw [path_extended_of_ne tails bucket free same]
      apply linked.congr
      intro node member
      apply Function.update_of_ne
      rintro rfl
      exact same (chains.path_disjoint isOther isBucket member last_mem)
  case sorted =>
    intro other isOther
    have sorted := chains.sorted other isOther
    by_cases same : other = bucket
    · subst same
      rw [Function.update_self, List.pairwise_append]
      refine ⟨sorted, List.pairwise_singleton _ _, ?_⟩
      intro node member last isLast
      rw [List.mem_singleton.mp isLast]
      exact (chains.inside other isOther node member).2
    · rwa [Function.update_of_ne same]
  case inside =>
    intro other isOther node member
    rcases (members other node).mp member with old | ⟨-, rfl⟩
    · exact (chains.inside other isOther node old).imp_right Nat.lt_succ_of_lt
    · exact ⟨chains.first_le, Nat.lt_succ_self _⟩
  case disjoint =>
    intro one isOne two isTwo node inOne inTwo
    rcases (members one node).mp inOne with oldOne | ⟨rfl, rfl⟩
    · rcases (members two node).mp inTwo with oldTwo | ⟨rfl, rfl⟩
      · exact chains.disjoint one isOne two isTwo node oldOne oldTwo
      · exact absurd (List.mem_cons_of_mem _ oldOne) (new one isOne)
    · rcases (members two node).mp inTwo with oldTwo | ⟨rfl, -⟩
      · exact absurd (List.mem_cons_of_mem _ oldTwo) (new two isTwo)
      · rfl
  case outside =>
    intro node outside
    have notFree : node ≠ free := by
      rintro rfl
      exact outside bucket isBucket (mem_path_extended tails bucket node)
    have before : ∀ other < buckets, node ∉ path tails other := by
      intro other isOther member
      exact outside other isOther (path_subset_extended tails bucket free other member)
    have notLast : node ≠ last tails bucket := by
      rintro rfl
      exact before bucket isBucket last_mem
    refine ⟨?_, ?_⟩
    · exact (Function.update_of_ne notLast _ _).trans (chains.outside node before).1
    · intro index
      rw [kept node notFree]
      exact (chains.outside node before).2 index
  case full =>
    intro other isOther node member index
    by_cases same : other = bucket
    · subst same
      rw [extended, List.dropLast_concat] at member
      rw [kept node (ne_of_mem_of_not_mem member (new other isOther))]
      exact all node member index
    · rw [path_extended_of_ne tails bucket free same] at member
      rw [kept node (ne_of_mem_of_not_mem (List.mem_of_mem_dropLast member) (new other isOther))]
      exact chains.full other isOther node member index
  case lengths =>
    intro other isOther
    rw [held other isOther]
    by_cases same : other = bucket
    · subst same
      rw [if_pos rfl, Function.update_self, Nat.add_sub_cancel, Clusters.held_of_full all,
        Nat.mul_div_cancel _ (NeZero.pos width), List.length_append]
      rfl
    · rw [if_neg same, Function.update_of_ne same]
      exact chains.lengths other isOther
  case handed =>
    rw [Nat.succ_sub chains.first_le, ← chains.handed]
    apply sum_succ isBucket
    intro other _
    by_cases same : other = bucket
    · subst same
      rw [if_pos rfl, Function.update_self, List.length_append]
      rfl
    · rw [if_neg same, Function.update_of_ne same]
      rfl

end Chains

/-! ## Keys -/

variable {Key : Type v} [DecidableEq Key]

/-- The place has an entry with this key. -/
def Clusters.holds (clusters : Clusters Entry width) (keyOf : Entry → Key) (key : Key)
    (node : Nat) (index : Fin width) : Bool :=
  (clusters.entry node index).any fun found => keyOf found == key

/-- An entry is on the chain of its key, and no key has two. -/
structure Keyed (buckets : Nat) (clusters : Clusters Entry width) (tails : Nat → List Nat)
    (keyOf : Entry → Key) (hash : Key → Nat) : Prop where
  home : ∀ bucket < buckets, ∀ node ∈ path tails bucket, ∀ index found,
    clusters.entry node index = some found → hash (keyOf found) = bucket
  single : ∀ slot other : Nat × Fin width, ∀ found also,
    clusters.entry slot.1 slot.2 = some found → clusters.entry other.1 other.2 = some also →
      keyOf found = keyOf also → slot = other

variable {buckets first free : Nat} {clusters after : Clusters Entry width}
variable {tails longer : Nat → List Nat} {keyOf : Entry → Key} {hash : Key → Nat}
variable {key : Key} {slot other : Nat × Fin width} {found added : Entry}

theorem Clusters.holds_iff {node : Nat} {index : Fin width} :
    clusters.holds keyOf key node index = true ↔
      ∃ found, clusters.entry node index = some found ∧ keyOf found = key := by
  simp [Clusters.holds, Option.any_eq_true]

namespace Keyed

theorem holds_unique (keyed : Keyed buckets clusters tails keyOf hash)
    (here : clusters.holds keyOf key slot.1 slot.2 = true)
    (there : clusters.holds keyOf key other.1 other.2 = true) : slot = other := by
  obtain ⟨found, isFound, isKey⟩ := Clusters.holds_iff.mp here
  obtain ⟨also, isAlso, alsoKey⟩ := Clusters.holds_iff.mp there
  exact keyed.single slot other found also isFound isAlso (isKey.trans alsoKey.symm)

/-- The search of a key on its chain finds its place. -/
theorem find_of_holds (keyed : Keyed buckets clusters tails keyOf hash)
    (chains : Chains buckets first free clusters tails)
    (here : clusters.holds keyOf key slot.1 slot.2 = true) :
    ((slots width (path tails (hash key))).find? fun place =>
      clusters.holds keyOf key place.1 place.2) = some slot := by
  obtain ⟨found, present, isKey⟩ := Clusters.holds_iff.mp here
  obtain ⟨bucket, isBucket, member⟩ := chains.exists_path present
  have isHome := keyed.home bucket isBucket slot.1 member slot.2 found present
  rw [isKey] at isHome
  rw [isHome]
  cases result : (slots width (path tails bucket)).find? fun place =>
      clusters.holds keyOf key place.1 place.2 with
  | none => exact absurd here (List.find?_eq_none.mp result slot (mem_slots.mpr member))
  | some other =>
      have passed := List.find?_some result
      exact congrArg some (keyed.holds_unique passed here)

omit [DecidableEq Key] in
/-- A key that was not there comes into a place of its chain. -/
theorem add (keyed : Keyed buckets clusters tails keyOf hash)
    (chains : Chains buckets first free clusters tails) {behind : Nat}
    (grown : Chains buckets first behind after longer)
    (sub : ∀ bucket < buckets, path tails bucket ⊆ path longer bucket)
    (isBucket : hash (keyOf added) < buckets)
    (member : slot.1 ∈ path longer (hash (keyOf added)))
    (set : after.entry slot.1 slot.2 = some added)
    (kept : ∀ other, other ≠ slot → after.entry other.1 other.2 = clusters.entry other.1 other.2)
    (new : ∀ node index found, clusters.entry node index = some found →
      keyOf found ≠ keyOf added) :
    Keyed buckets after longer keyOf hash := by
  constructor
  case home =>
    intro bucket isBucket' node inPath index found present
    by_cases same : (node, index) = slot
    · subst same
      obtain rfl : added = found := Option.some.inj (set.symm.trans present)
      exact grown.path_disjoint isBucket isBucket' member inPath
    · rw [kept (node, index) same] at present
      obtain ⟨old, isOld, inOld⟩ := chains.exists_path present
      rw [← grown.path_disjoint isOld isBucket' (sub old isOld inOld) inPath]
      exact keyed.home old isOld node inOld index found present
  case single =>
    intro one two found also isFound isAlso sameKey
    by_cases first : one = slot
    · by_cases second : two = slot
      · rw [first, second]
      · rw [kept two second] at isAlso
        rw [first, set, Option.some.injEq] at isFound
        exact absurd (sameKey.symm.trans (congrArg keyOf isFound.symm)) (new _ _ also isAlso)
    · rw [kept one first] at isFound
      by_cases second : two = slot
      · rw [second, set, Option.some.injEq] at isAlso
        exact absurd (sameKey.trans (congrArg keyOf isAlso.symm)) (new _ _ found isFound)
      · rw [kept two second] at isAlso
        exact keyed.single one two found also isFound isAlso sameKey

end Keyed

/-! ## Capacity -/

/-- Chains of full nodes with one that is not: together they need no more nodes than one
chain with all entries. -/
theorem sum_pred_div_le (buckets : Finset Nat) (count : Nat → Nat) (width : Nat) :
    ∑ bucket ∈ buckets, (count bucket - 1) / width ≤
      (∑ bucket ∈ buckets, count bucket - 1) / width := by
  induction buckets using Finset.induction_on with
  | empty => simp
  | insert bucket rest outside ih =>
      rw [Finset.sum_insert outside, Finset.sum_insert outside]
      calc (count bucket - 1) / width + ∑ bucket ∈ rest, (count bucket - 1) / width
          ≤ (count bucket - 1) / width + (∑ bucket ∈ rest, count bucket - 1) / width :=
            Nat.add_le_add_left ih _
        _ ≤ (count bucket - 1 + (∑ bucket ∈ rest, count bucket - 1)) / width :=
            Nat.div_add_div_le_add_div
        _ ≤ (count bucket + ∑ bucket ∈ rest, count bucket - 1) / width :=
            Nat.div_le_div_right (by omega)

/-- What has been taken from the pool, by the number of all entries. -/
theorem Chains.handed_le {total : Nat} (chains : Chains buckets first free clusters tails)
    (count : ∑ bucket ∈ Finset.range buckets, clusters.held (path tails bucket) = total) :
    free - first ≤ (total - 1) / width := by
  rw [← chains.handed, ← count,
    Finset.sum_congr rfl fun bucket member => chains.lengths bucket (Finset.mem_range.mp member)]
  exact sum_pred_div_le _ _ _

end Clusters

end Rocc
