/-!
# Finite sets of naturals

A set of document positions, kept as its elements in strictly ascending order, so that equal
sets are equal values and taking elements off the front gives the smallest first.

* `NatSet.insert`, `erase`, `union`, `filterMap`, `popFirst?`, each pinned down by what it does to
  membership (`mem_insert`, `mem_erase`, `mem_union`, `mem_filterMap`, `popFirst?_eq_some_iff`);
* `NatSet.ext_mem`: a set is determined by its elements;
* `NatSet.weight`: the number whose binary digits are the elements.  Replacing an element by any
  set of smaller ones makes it smaller (`weight_union_lt`), which is why a worklist that only
  ever queues below the position just taken runs dry.
-/

namespace RainbowBrackets

/-- A finite set of naturals. -/
structure NatSet where
  toList : List Nat
  ascending : toList.Pairwise (· < ·)
  deriving DecidableEq

namespace NatSet

/-! ### Ascending lists -/

theorem pairwise_nil : ([] : List Nat).Pairwise (· < ·) := List.Pairwise.nil

/-- Puts `x` in its place in an ascending list, unless it is there already. -/
def place (x : Nat) : List Nat → List Nat
  | [] => [x]
  | y :: ys => if x < y then x :: y :: ys else if x = y then y :: ys else y :: place x ys

theorem mem_place {x y : Nat} {l : List Nat} : y ∈ place x l ↔ y = x ∨ y ∈ l := by
  induction l with
  | nil => simp [place]
  | cons z zs ih =>
    rw [place]
    split
    · exact List.mem_cons
    · split
      · rename_i hxz
        rw [hxz]
        exact (or_iff_right_of_imp fun h => List.mem_cons.2 (.inl h)).symm
      · rw [List.mem_cons, ih, List.mem_cons, or_left_comm]

theorem pairwise_place {x : Nat} {l : List Nat} (h : l.Pairwise (· < ·)) :
    (place x l).Pairwise (· < ·) := by
  induction l with
  | nil => simp [place]
  | cons z zs ih =>
    have hz := List.pairwise_cons.1 h
    rw [place]
    split
    · rename_i hxz
      refine List.pairwise_cons.2 ⟨fun y hy => ?_, h⟩
      rcases List.mem_cons.1 hy with rfl | hy
      · exact hxz
      · exact Nat.lt_trans hxz (hz.1 y hy)
    · split
      · exact h
      · refine List.pairwise_cons.2 ⟨fun y hy => ?_, ih hz.2⟩
        rcases mem_place.1 hy with rfl | hy
        · omega
        · exact hz.1 y hy

/-- Puts the elements of one ascending list among those of another. -/
def merge : List Nat → List Nat → List Nat
  | [], l => l
  | x :: xs, l => l.takeWhile (· < x) ++ x :: merge xs (l.dropWhile (· ≤ x))

theorem mem_takeWhile_lt {x y : Nat} {l : List Nat} (h : l.Pairwise (· < ·)) :
    y ∈ l.takeWhile (· < x) ↔ y ∈ l ∧ y < x := by
  induction l with
  | nil => simp
  | cons z zs ih =>
    have hz := List.pairwise_cons.1 h
    by_cases hzx : z < x
    · rw [List.takeWhile_cons_of_pos (by simpa using hzx), List.mem_cons, List.mem_cons, ih hz.2,
        or_and_right]
      exact or_congr_left ⟨fun hy => ⟨hy, hy ▸ hzx⟩, And.left⟩
    · -- all elements are at least `z`, which is not below `x`
      rw [List.takeWhile_cons_of_neg (by simpa using hzx)]
      refine ⟨fun hy => absurd hy List.not_mem_nil, fun ⟨hy, hyx⟩ => ?_⟩
      rcases List.mem_cons.1 hy with rfl | hy
      · exact absurd hyx hzx
      · exact absurd (Nat.lt_trans (hz.1 y hy) hyx) hzx

theorem mem_dropWhile_le {x y : Nat} {l : List Nat} (h : l.Pairwise (· < ·)) :
    y ∈ l.dropWhile (· ≤ x) ↔ y ∈ l ∧ x < y := by
  induction l with
  | nil => simp
  | cons z zs ih =>
    have hz := List.pairwise_cons.1 h
    by_cases hzx : z ≤ x
    · rw [List.dropWhile_cons_of_pos (by simpa using hzx), ih hz.2, List.mem_cons]
      refine and_congr_left fun hxy => (or_iff_right ?_).symm
      omega
    · rw [List.dropWhile_cons_of_neg (by simpa using hzx)]
      refine ⟨fun hy => ⟨hy, ?_⟩, And.left⟩
      rcases List.mem_cons.1 hy with rfl | hy
      · exact Nat.lt_of_not_le hzx
      · exact Nat.lt_trans (Nat.lt_of_not_le hzx) (hz.1 y hy)

theorem mem_merge {y : Nat} {k l : List Nat} (hk : k.Pairwise (· < ·))
    (hl : l.Pairwise (· < ·)) : y ∈ merge k l ↔ y ∈ k ∨ y ∈ l := by
  induction k generalizing l with
  | nil => simp [merge]
  | cons x xs ih =>
    have hx := List.pairwise_cons.1 hk
    rw [merge, List.mem_append, List.mem_cons, List.mem_cons, mem_takeWhile_lt hl,
      ih hx.2 (hl.sublist (List.dropWhile_sublist _)), mem_dropWhile_le hl]
    constructor
    · rintro (⟨hy, -⟩ | rfl | hy | ⟨hy, -⟩)
      · exact .inr hy
      · exact .inl (.inl rfl)
      · exact .inl (.inr hy)
      · exact .inr hy
    · rintro ((rfl | hy) | hy)
      · exact .inr (.inl rfl)
      · exact .inr (.inr (.inl hy))
      · rcases Nat.lt_trichotomy y x with h | h | h
        · exact .inl ⟨hy, h⟩
        · exact .inr (.inl h)
        · exact .inr (.inr (.inr ⟨hy, h⟩))

theorem pairwise_merge {k l : List Nat} (hk : k.Pairwise (· < ·)) (hl : l.Pairwise (· < ·)) :
    (merge k l).Pairwise (· < ·) := by
  induction k generalizing l with
  | nil => exact hl
  | cons x xs ih =>
    have hx := List.pairwise_cons.1 hk
    have hd : (l.dropWhile (· ≤ x)).Pairwise (· < ·) := hl.sublist (List.dropWhile_sublist _)
    have hbehind : ∀ y ∈ merge xs (l.dropWhile (· ≤ x)), x < y := by
      intro y hy
      rcases (mem_merge hx.2 hd).1 hy with h | h
      · exact hx.1 y h
      · exact ((mem_dropWhile_le hl).1 h).2
    refine List.pairwise_append.2 ⟨hl.sublist (List.takeWhile_sublist _),
      List.pairwise_cons.2 ⟨hbehind, ih hx.2 hd⟩, ?_⟩
    intro a ha b hb
    have h1 := ((mem_takeWhile_lt hl).1 ha).2
    rcases List.mem_cons.1 hb with rfl | hb
    · exact h1
    · have := hbehind b hb
      omega

/-- Two lists that ascend by a key and have the same elements are equal. -/
theorem eq_of_mem_iff {α : Type} (key : α → Nat) {l m : List α}
    (hl : l.Pairwise fun x y => key x < key y) (hm : m.Pairwise fun x y => key x < key y)
    (h : ∀ x, x ∈ l ↔ x ∈ m) : l = m := by
  have hne : ∀ {x y : α}, key x < key y → x ≠ y := fun hlt heq => Nat.ne_of_lt hlt (heq ▸ rfl)
  have hperm : l.Perm m := (List.perm_ext_iff_of_nodup (hl.imp hne) (hm.imp hne)).2 h
  exact hperm.eq_of_pairwise (fun _ _ _ _ hxy hyx => absurd hxy (Nat.lt_asymm hyx)) hl hm

/-! ### Operations -/

/-- The set without elements. -/
def empty : NatSet := ⟨[], pairwise_nil⟩

instance : EmptyCollection NatSet := ⟨empty⟩
instance : Inhabited NatSet := ⟨∅⟩
instance : Membership Nat NatSet := ⟨fun s x => x ∈ s.toList⟩

instance (x : Nat) (s : NatSet) : Decidable (x ∈ s) :=
  inferInstanceAs (Decidable (x ∈ s.toList))

/-- The set with `x` added. -/
def insert (s : NatSet) (x : Nat) : NatSet := ⟨place x s.toList, pairwise_place s.ascending⟩

/-- The set with `x` taken out. -/
def erase (s : NatSet) (x : Nat) : NatSet :=
  ⟨s.toList.filter (· ≠ x), s.ascending.filter _⟩

/-- The elements of a list, as a set. -/
def ofList (l : List Nat) : NatSet := l.foldr (fun x s => s.insert x) ∅

/-- The elements of either set. -/
def union (s t : NatSet) : NatSet :=
  ⟨merge t.toList s.toList, pairwise_merge t.ascending s.ascending⟩

instance : Union NatSet := ⟨union⟩

/-- The elements that `p` accepts. -/
def filter (s : NatSet) (p : Nat → Bool) : NatSet := ⟨s.toList.filter p, s.ascending.filter p⟩

/-- Sends every element through `f`, dropping those that `f` sends nowhere. -/
def filterMap (s : NatSet) (f : Nat → Option Nat) : NatSet := ofList (s.toList.filterMap f)

/-- The number of elements. -/
def size (s : NatSet) : Nat := s.toList.length

/-- The set has no elements. -/
def isEmpty (s : NatSet) : Bool := s.toList.isEmpty

/-- The smallest element and the set of the others. -/
def popFirst? (s : NatSet) : Option (Nat × NatSet) :=
  match s with
  | ⟨[], _⟩ => none
  | ⟨x :: xs, h⟩ => some (x, ⟨xs, (List.pairwise_cons.1 h).2⟩)

/-- The positions of `[start, start + length)` that `p` accepts. -/
def range (start length : Nat) (p : Nat → Bool) : NatSet :=
  ⟨(List.range' start length).filter p, (List.pairwise_lt_range').filter p⟩

/-! ### Membership -/

@[simp] theorem mem_toList {x : Nat} {s : NatSet} : x ∈ s.toList ↔ x ∈ s := Iff.rfl

@[simp] theorem mem_mk {x : Nat} {l : List Nat} (h : l.Pairwise (· < ·)) :
    x ∈ (⟨l, h⟩ : NatSet) ↔ x ∈ l := Iff.rfl

/-- A set is determined by its elements. -/
theorem ext_mem {s t : NatSet} (h : ∀ x, x ∈ s ↔ x ∈ t) : s = t := by
  cases s with
  | mk l hl => cases t with
    | mk m hm =>
      have : l = m := eq_of_mem_iff id hl hm h
      subst this
      rfl

@[simp] theorem not_mem_empty (x : Nat) : ¬ x ∈ (∅ : NatSet) := List.not_mem_nil

@[simp] theorem mem_insert {x y : Nat} {s : NatSet} : y ∈ s.insert x ↔ y = x ∨ y ∈ s := mem_place

@[simp] theorem mem_erase {x y : Nat} {s : NatSet} : y ∈ s.erase x ↔ y ≠ x ∧ y ∈ s := by
  simp [erase, and_comm]

@[simp] theorem mem_ofList {y : Nat} {l : List Nat} : y ∈ ofList l ↔ y ∈ l := by
  unfold ofList
  induction l with
  | nil => simp
  | cons x xs ih => simp [ih]

@[simp] theorem mem_union {y : Nat} {s t : NatSet} : y ∈ s ∪ t ↔ y ∈ s ∨ y ∈ t :=
  (mem_merge t.ascending s.ascending).trans or_comm

@[simp] theorem union_empty (s : NatSet) : s ∪ ∅ = s := rfl

@[simp] theorem empty_union (s : NatSet) : ∅ ∪ s = s := ext_mem fun x => by simp

@[simp] theorem mem_filter {y : Nat} {s : NatSet} {p : Nat → Bool} :
    y ∈ s.filter p ↔ y ∈ s ∧ p y = true := List.mem_filter

@[simp] theorem mem_filterMap {y : Nat} {s : NatSet} {f : Nat → Option Nat} :
    y ∈ s.filterMap f ↔ ∃ x, x ∈ s ∧ f x = some y := by
  simp [filterMap]

@[simp] theorem mem_range {y start length : Nat} {p : Nat → Bool} :
    y ∈ range start length p ↔ start ≤ y ∧ y < start + length ∧ p y = true := by
  simp [range, List.mem_range'_1, and_assoc]

theorem isEmpty_iff {s : NatSet} : s.isEmpty = true ↔ s = ∅ := by
  constructor
  · intro h
    exact ext_mem fun x => by rw [← mem_toList, List.isEmpty_iff.1 h]; simp
  · rintro rfl
    rfl

theorem popFirst?_eq_none_iff {s : NatSet} : s.popFirst? = none ↔ s = ∅ := by
  constructor
  · intro h
    match s, h with
    | ⟨[], _⟩, _ => rfl
  · rintro rfl
    rfl

/-- What is popped is an element, no other is smaller, and the others stay. -/
theorem popFirst?_eq_some_iff {s t : NatSet} {x : Nat} :
    s.popFirst? = some (x, t) ↔ x ∈ s ∧ (∀ y ∈ s, x ≤ y) ∧ t = s.erase x := by
  match s with
  | ⟨[], _⟩ => simp [popFirst?]
  | ⟨z :: zs, h⟩ =>
    have hz := List.pairwise_cons.1 h
    have hfirst : ∀ y ∈ (⟨z :: zs, h⟩ : NatSet), z ≤ y := by
      intro y hy
      rcases List.mem_cons.1 hy with rfl | hy
      · exact Nat.le_refl y
      · exact Nat.le_of_lt (hz.1 y hy)
    have herase : (⟨zs, hz.2⟩ : NatSet) = NatSet.erase ⟨z :: zs, h⟩ z := by
      refine ext_mem fun y => ?_
      rw [mem_erase, mem_mk, mem_mk, List.mem_cons]
      constructor
      · exact fun hy => ⟨(Nat.ne_of_lt (hz.1 y hy)).symm, .inr hy⟩
      · exact fun ⟨hne, hy⟩ => hy.resolve_left hne
    simp only [popFirst?, Option.some.injEq, Prod.mk.injEq]
    constructor
    · rintro ⟨rfl, rfl⟩
      exact ⟨List.mem_cons_self, hfirst, herase⟩
    · rintro ⟨hx, hmin, rfl⟩
      obtain rfl : z = x := Nat.le_antisymm (hfirst x hx) (hmin z List.mem_cons_self)
      exact ⟨rfl, herase⟩

/-! ### Weight -/

/-- The number whose only binary digit is the one at place `x`. -/
def bit : Nat → Nat
  | 0 => 1
  | x + 1 => 2 * bit x

/-- The sum of the digits of a list of places. -/
def bitSum : List Nat → Nat
  | [] => 0
  | x :: xs => bit x + bitSum xs

theorem bitSum_cons (x : Nat) (l : List Nat) : bitSum (x :: l) = bit x + bitSum l := rfl

theorem bitSum_append (k l : List Nat) : bitSum (k ++ l) = bitSum k + bitSum l := by
  induction k with
  | nil => simp [bitSum]
  | cons x xs ih => rw [List.cons_append, bitSum_cons, bitSum_cons, ih, Nat.add_assoc]

theorem bitSum_split_le (x : Nat) (l : List Nat) :
    bitSum (l.takeWhile (· < x)) + bitSum (l.dropWhile (· ≤ x)) ≤ bitSum l := by
  induction l with
  | nil => simp [bitSum]
  | cons z zs ih =>
    by_cases hzx : z < x
    · have hle : z ≤ x := Nat.le_of_lt hzx
      rw [List.takeWhile_cons_of_pos (by simpa using hzx),
        List.dropWhile_cons_of_pos (by simpa using hle), bitSum_cons, bitSum_cons]
      omega
    · rw [List.takeWhile_cons_of_neg (by simpa using hzx)]
      have hsub : ∀ m : List Nat, bitSum (m.dropWhile (· ≤ x)) ≤ bitSum m := by
        intro m
        induction m with
        | nil => simp [bitSum]
        | cons w ws ihw =>
          rw [List.dropWhile_cons]
          split
          · rw [bitSum_cons]
            exact Nat.le_trans ihw (Nat.le_add_left _ _)
          · exact Nat.le_refl _
      simpa [bitSum] using hsub (z :: zs)

theorem bitSum_merge_le (k l : List Nat) : bitSum (merge k l) ≤ bitSum k + bitSum l := by
  induction k generalizing l with
  | nil => simp [merge, bitSum]
  | cons x xs ih =>
    have h1 := ih (l.dropWhile (· ≤ x))
    have h2 := bitSum_split_le x l
    simp only [merge, bitSum_append, bitSum_cons]
    omega

theorem bitSum_filter_ne (l : List Nat) (x : Nat) (h : l.Nodup) :
    bitSum l = bitSum (l.filter (· ≠ x)) + if x ∈ l then bit x else 0 := by
  induction l with
  | nil => simp [bitSum]
  | cons z zs ih =>
    have hz := List.nodup_cons.1 h
    have := ih hz.2
    by_cases hzx : z = x
    · subst hzx
      simp [bitSum_cons, hz.1] at this ⊢
      omega
    · have hxz : x ≠ z := fun h => hzx h.symm
      simp [bitSum_cons, hzx, hxz] at this ⊢
      omega

/-- The digits of distinct places below `n` sum to less than the digit of place `n`. -/
theorem bitSum_lt (n : Nat) : ∀ (l : List Nat), l.Nodup → (∀ x ∈ l, x < n) → bitSum l < bit n := by
  induction n with
  | zero =>
    intro l _ h
    cases l with
    | nil => simp [bitSum, bit]
    | cons x xs => exact absurd (h x List.mem_cons_self) (Nat.not_lt_zero x)
  | succ n ih =>
    intro l hl h
    have hrest := ih (l.filter (· ≠ n)) (hl.filter _) (by
      intro x hx
      have hx' := List.mem_filter.1 hx
      have h1 := h x hx'.1
      have h2 : x ≠ n := by simpa using hx'.2
      omega)
    rw [bitSum_filter_ne l n hl, bit]
    split <;> omega

/-- The number whose binary digits are the elements of the set. -/
def weight (s : NatSet) : Nat := bitSum s.toList

theorem nodup_toList (s : NatSet) : s.toList.Nodup := s.ascending.imp Nat.ne_of_lt

theorem weight_union_le (s t : NatSet) : (s ∪ t).weight ≤ s.weight + t.weight := by
  have := bitSum_merge_le t.toList s.toList
  rw [Nat.add_comm]
  exact this

theorem weight_lt_bit {s : NatSet} {n : Nat} (h : ∀ x ∈ s, x < n) : s.weight < bit n :=
  bitSum_lt n s.toList s.nodup_toList h

theorem weight_erase {s : NatSet} {x : Nat} (h : x ∈ s) :
    s.weight = (s.erase x).weight + bit x := by
  have := bitSum_filter_ne s.toList x s.nodup_toList
  rwa [if_pos (mem_toList.2 h)] at this

/-- Trading an element for any set of smaller ones makes the weight smaller. -/
theorem weight_union_lt {s t : NatSet} {x : Nat} (hx : x ∈ s) (ht : ∀ y ∈ t, y < x) :
    (s.erase x ∪ t).weight < s.weight := by
  have h1 := weight_union_le (s.erase x) t
  have h2 := weight_lt_bit ht
  have h3 := weight_erase hx
  omega

end NatSet

end RainbowBrackets
