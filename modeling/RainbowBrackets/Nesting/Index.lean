import RainbowBrackets.NatMap
import RainbowBrackets.Nesting.Entry

/-!
# The index of one kind

The opening brackets of one kind, keyed by position.  The order pass goes through them from left
to right with a stack of the pairs it has entered, each with its end and its order: it leaves
those that end before the next opening bracket, gives that one the order after the order on top,
and enters it.  Only the top of the stack is looked at, so a pair below one that ends farther
right stays until that one goes.

* `Index.update`: records the length of a bracket and leaves its order as it is;
* `orderPass`: the pass over a list of entries, from a given stack;
* `Index.reorder`: the pass over an index, giving the index with fresh orders and the set of the
  brackets whose order changed;
* `map_fst_orderPass`, `map_length_orderPass`: the pass changes no key and no length.
-/

namespace RainbowBrackets

/-- The opening brackets of one kind, by position. -/
abbrev Index := NatMap Entry

/-- The order of a pair on top of a stack of ends and orders. -/
def nextOrder : List (Nat × Nat) → Nat
  | [] => 0
  | (_, order) :: _ => order + 1

/-- Gives every entry its order, on top of the entered pairs that do not end before it, and lists
the keys of the brackets whose order was a different one.  A bracket without partner has no order,
is not entered, and is not listed. -/
def orderPass : List (Nat × Nat) → List (Nat × Entry) → List (Nat × Entry) × List Nat
  | _, [] => ([], [])
  | entered, (start, e) :: rest =>
    match e.length with
    | none =>
      let (done, changed) := orderPass entered rest
      ((start, { e with order := none }) :: done, changed)
    | some n =>
      let around := entered.dropWhile (·.1 < start)
      let order := nextOrder around
      let (done, changed) := orderPass ((start + n, order) :: around) rest
      ((start, { e with order := some order }) :: done,
        if e.order = some order then changed else start :: changed)

/-- The pass keeps the keys. -/
theorem map_fst_orderPass (entered : List (Nat × Nat)) (l : List (Nat × Entry)) :
    (orderPass entered l).1.map Prod.fst = l.map Prod.fst := by
  induction l generalizing entered with
  | nil => rfl
  | cons p r ih =>
    obtain ⟨start, e⟩ := p
    rw [orderPass]
    split <;> simp [ih]

/-- The pass keeps the lengths. -/
theorem map_length_orderPass (entered : List (Nat × Nat)) (l : List (Nat × Entry)) :
    ((orderPass entered l).1.map fun p => (p.1, p.2.length))
      = l.map fun p => (p.1, p.2.length) := by
  induction l generalizing entered with
  | nil => rfl
  | cons p r ih =>
    obtain ⟨start, e⟩ := p
    rw [orderPass]
    split <;> simp_all

namespace Index

/-- Records the length of the bracket at `start`.  A bracket that was there keeps its order until
the next order pass; a new one has none. -/
def update (idx : Index) (start : Nat) (length : Option Nat) : Index :=
  idx.insert start ⟨length, (idx.get? start).bind Entry.order⟩

/-- The index with fresh orders, and the brackets whose order changed. -/
def reorder (idx : Index) : Index × NatSet :=
  (⟨(orderPass [] idx.entries).1, by rw [map_fst_orderPass]; exact idx.ascending⟩,
    .ofList (orderPass [] idx.entries).2)

/-- The positions whose bracket closes at `position`. -/
def closingAt (idx : Index) (position : Nat) : NatSet :=
  idx.keysWhere fun start e => e.end? start = some position

theorem get?_update (idx : Index) (start k : Nat) (length : Option Nat) :
    (idx.update start length).get? k =
      if k = start then some ⟨length, (idx.get? start).bind Entry.order⟩ else idx.get? k :=
  NatMap.get?_insert ..

theorem mem_closingAt {idx : Index} {position k : Nat} :
    k ∈ idx.closingAt position ↔ ∃ e, idx.get? k = some e ∧ e.end? k = some position := by
  simp [closingAt]

end Index

end RainbowBrackets
