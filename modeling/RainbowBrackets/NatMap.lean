import RainbowBrackets.NatSet

/-!
# Finite maps from naturals

A map keyed by document positions (or by document ids), kept as its pairs in strictly ascending
order of the key, so that equal maps are equal values and listing goes by key.

* `NatMap.get?` is the view: every operation is pinned down by what it does to it (`get?_insert`,
  `get?_erase`, `get?_rekey`), and `NatMap.ext_get?` says that it determines the map;
* `NatMap.mem_entries` ties the listing to the view;
* `NatMap.keysWhere` is the set of the keys whose pair passes a test.
-/

namespace RainbowBrackets

/-- A finite map from naturals to `α`. -/
structure NatMap (α : Type) where
  entries : List (Nat × α)
  ascending : (entries.map Prod.fst).Pairwise (· < ·)

namespace NatMap

variable {α : Type}

instance [DecidableEq α] : DecidableEq (NatMap α) := fun m n =>
  match m, n with
  | ⟨l, _⟩, ⟨k, _⟩ => decidable_of_iff (l = k) (by simp)

/-! ### Lists of pairs with ascending keys -/

/-- Puts the pair in its place, over an older pair with the same key. -/
def place (k : Nat) (a : α) : List (Nat × α) → List (Nat × α)
  | [] => [(k, a)]
  | (j, b) :: r =>
    if k < j then (k, a) :: (j, b) :: r
    else if k = j then (k, a) :: r
    else (j, b) :: place k a r

theorem map_fst_place (k : Nat) (a : α) (l : List (Nat × α)) :
    (place k a l).map Prod.fst = NatSet.place k (l.map Prod.fst) := by
  induction l with
  | nil => rfl
  | cons p r ih =>
    obtain ⟨i, b⟩ := p
    rw [place, List.map_cons, NatSet.place]
    split
    · rfl
    · split
      · rename_i hki
        rw [List.map_cons, hki]
      · rw [List.map_cons, ih]

theorem lookup_cons_ite (k i : Nat) (a : α) (l : List (Nat × α)) :
    ((i, a) :: l).lookup k = if k = i then some a else l.lookup k := by
  rw [List.lookup_cons]
  by_cases h : k = i
  · simp [h]
  · simp [h, beq_false_of_ne h]

theorem lookup_place (k j : Nat) (a : α) (l : List (Nat × α)) :
    (place k a l).lookup j = if j = k then some a else l.lookup j := by
  induction l with
  | nil => exact lookup_cons_ite ..
  | cons p r ih =>
    obtain ⟨i, b⟩ := p
    rw [place]
    split
    · exact lookup_cons_ite ..
    · split
      · rename_i hki
        subst hki
        rw [lookup_cons_ite, lookup_cons_ite]
        split <;> rfl
      · rename_i hki
        rw [lookup_cons_ite, lookup_cons_ite, ih]
        by_cases hji : j = i
        · rw [if_pos hji, if_pos hji, if_neg (hji ▸ Ne.symm hki)]
        · rw [if_neg hji, if_neg hji]

theorem lookup_filter_ne (k j : Nat) (l : List (Nat × α)) :
    (l.filter (·.1 ≠ k)).lookup j = if j = k then none else l.lookup j := by
  induction l with
  | nil => simp
  | cons p r ih =>
    obtain ⟨i, b⟩ := p
    by_cases hi : i = k
    · rw [List.filter_cons_of_neg (by simpa using hi), ih, lookup_cons_ite, hi]
      split <;> rfl
    · rw [List.filter_cons_of_pos (by simpa using hi), lookup_cons_ite, lookup_cons_ite, ih]
      by_cases hji : j = i
      · rw [if_pos hji, if_pos hji, if_neg (hji ▸ hi)]
      · rw [if_neg hji, if_neg hji]

theorem mem_iff_lookup {l : List (Nat × α)} (h : (l.map Prod.fst).Pairwise (· < ·)) (k : Nat)
    (a : α) : (k, a) ∈ l ↔ l.lookup k = some a := by
  induction l with
  | nil => simp
  | cons p r ih =>
    obtain ⟨j, b⟩ := p
    have hr := List.pairwise_cons.1 h
    have hnot : k = j → (k, a) ∉ r := by
      rintro rfl hmem
      exact Nat.lt_irrefl _ (hr.1 k (List.mem_map_of_mem (f := Prod.fst) hmem))
    have := ih hr.2
    by_cases hk : k = j
    · subst hk
      simp [hnot rfl, eq_comm]
    · have hb : (k == j) = false := beq_false_of_ne hk
      simp [List.lookup_cons, hk, hb, this]

/-- Two lists with ascending keys that look up alike are equal. -/
theorem eq_of_lookup_eq {l m : List (Nat × α)} (hl : (l.map Prod.fst).Pairwise (· < ·))
    (hm : (m.map Prod.fst).Pairwise (· < ·)) (h : ∀ k, l.lookup k = m.lookup k) : l = m := by
  refine NatSet.eq_of_mem_iff Prod.fst (List.pairwise_map.1 hl) (List.pairwise_map.1 hm) ?_
  rintro ⟨k, a⟩
  rw [mem_iff_lookup hl, mem_iff_lookup hm, h k]

/-! ### Operations -/

/-- The map without pairs. -/
def empty : NatMap α := ⟨[], NatSet.pairwise_nil⟩

instance : EmptyCollection (NatMap α) := ⟨empty⟩
instance : Inhabited (NatMap α) := ⟨∅⟩

/-- The value at key `k`. -/
def get? (m : NatMap α) (k : Nat) : Option α := m.entries.lookup k

/-- The map has a value at key `k`. -/
def contains (m : NatMap α) (k : Nat) : Bool := (m.get? k).isSome

/-- The map with the value at `k` replaced or added. -/
def insert (m : NatMap α) (k : Nat) (a : α) : NatMap α :=
  ⟨place k a m.entries, by rw [map_fst_place]; exact NatSet.pairwise_place m.ascending⟩

/-- The map without key `k`. -/
def erase (m : NatMap α) (k : Nat) : NatMap α :=
  ⟨m.entries.filter (·.1 ≠ k), m.ascending.sublist (List.filter_sublist.map Prod.fst)⟩

/-- Moves the value at key `i` to key `j`, over a value that was there. -/
def rekey (m : NatMap α) (i j : Nat) : NatMap α :=
  match m.get? i with
  | none => m
  | some a => (m.erase i).insert j a

/-- Applies `f` to every value. -/
def map {β : Type} (m : NatMap α) (f : α → β) : NatMap β :=
  ⟨m.entries.map fun (k, a) => (k, f a), by
    have : (Prod.fst ∘ fun (p : Nat × α) => (p.1, f p.2)) = Prod.fst := rfl
    simpa [List.map_map, this] using m.ascending⟩

/-- The keys in ascending order. -/
def keys (m : NatMap α) : List Nat := m.entries.map Prod.fst

/-- The set of the keys whose pair passes the test. -/
def keysWhere (m : NatMap α) (p : Nat → α → Bool) : NatSet :=
  ⟨(m.entries.filter fun (k, a) => p k a).map Prod.fst,
    m.ascending.sublist (List.filter_sublist.map Prod.fst)⟩

/-- The number of pairs. -/
def size (m : NatMap α) : Nat := m.entries.length

/-- The map has no pairs. -/
def isEmpty (m : NatMap α) : Bool := m.entries.isEmpty

/-! ### The view -/

/-- A map is determined by its values. -/
theorem ext_get? {m n : NatMap α} (h : ∀ k, m.get? k = n.get? k) : m = n := by
  cases m with
  | mk l hl => cases n with
    | mk k hk =>
      have : l = k := eq_of_lookup_eq hl hk h
      subst this
      rfl

@[simp] theorem get?_empty (k : Nat) : (∅ : NatMap α).get? k = none := rfl

@[simp] theorem get?_insert (m : NatMap α) (k j : Nat) (a : α) :
    (m.insert k a).get? j = if j = k then some a else m.get? j := lookup_place k j a m.entries

@[simp] theorem get?_erase (m : NatMap α) (k j : Nat) :
    (m.erase k).get? j = if j = k then none else m.get? j := lookup_filter_ne k j m.entries

theorem get?_rekey (m : NatMap α) (i j k : Nat) :
    (m.rekey i j).get? k =
      match m.get? i with
      | none => m.get? k
      | some a => if k = j then some a else if k = i then none else m.get? k := by
  unfold rekey
  split <;> simp_all

theorem mem_entries {m : NatMap α} {k : Nat} {a : α} :
    (k, a) ∈ m.entries ↔ m.get? k = some a := mem_iff_lookup m.ascending k a

@[simp] theorem get?_map {β : Type} (m : NatMap α) (f : α → β) (k : Nat) :
    (m.map f).get? k = (m.get? k).map f := by
  obtain ⟨l, h⟩ := m
  simp only [get?, map]
  clear h
  induction l with
  | nil => rfl
  | cons p r ih =>
    obtain ⟨i, b⟩ := p
    rw [List.map_cons, lookup_cons_ite, lookup_cons_ite, ih]
    split <;> rfl

theorem mem_keys {m : NatMap α} {k : Nat} : k ∈ m.keys ↔ ∃ a, m.get? k = some a := by
  simp [keys, ← mem_entries]

@[simp] theorem mem_keysWhere {m : NatMap α} {p : Nat → α → Bool} {k : Nat} :
    k ∈ m.keysWhere p ↔ ∃ a, m.get? k = some a ∧ p k a = true := by
  simp [keysWhere, ← mem_entries]

theorem contains_iff {m : NatMap α} {k : Nat} : m.contains k = true ↔ ∃ a, m.get? k = some a := by
  simp [contains, Option.isSome_iff_exists]

end NatMap

end RainbowBrackets
