import Mathlib.Order.Interval.Finset.Nat
import RainbowBrackets.Proofs.Nesting.Order

/-!
Orders as nesting depths.

The order pass looks at the end on top of its stack and at nothing else.  Where any two spans are
disjoint or one of them lies strictly inside the other, what comes of it is how deep a pair is
nested.  A pair may end where a pair around it ends; it then still counts as nested in that one,
which is why the pass leaves a pair only when its end is strictly before the next bracket.

* `Entry.span?`: the positions from a bracket to its partner;
* `DisjointOrNested`, `Index.Nested`: any two spans are disjoint or strictly nested, so no two
  pairs cross (`Index.Nested.pairwise_laminar`);
* `Index.depth`: the number of spans strictly around a set of positions; around a span, these are
  the entries that enclose its first position (`Index.Nested.depth_span`);
* `Index.entry_reorder_of_nested` (**depth**): the pass gives every pair its depth.
-/

namespace RainbowBrackets

variable {idx : Index} {p q : ℕ} {x y : Entry}

/-- The positions from the bracket at `start` to its partner. -/
def Entry.span? (e : Entry) (start : ℕ) : Option (Finset ℕ) :=
  (e.end? start).map (Finset.Icc start)

/-- The spans of two entries have no position in common, or one of them lies strictly inside the
other. -/
def DisjointOrNested (x y : ℕ × Entry) : Prop :=
  ∀ s ∈ x.2.span? x.1, ∀ r ∈ y.2.span? y.1, Disjoint s r ∨ s ⊂ r ∨ r ⊂ s

instance : DecidableRel DisjointOrNested := fun x y =>
  inferInstanceAs (Decidable (∀ s ∈ x.2.span? x.1, ∀ r ∈ y.2.span? y.1,
    Disjoint s r ∨ s ⊂ r ∨ r ⊂ s))

instance : Std.Symm DisjointOrNested where
  symm x y h r hr s hs := by
    rcases h s hs r hr with h1 | h1 | h1
    · exact .inl h1.symm
    · exact .inr (.inr h1)
    · exact .inr (.inl h1)

namespace Index

/-- Any two spans are disjoint or strictly nested. -/
def Nested (idx : Index) : Prop := idx.entries.Pairwise DisjointOrNested

instance : Decidable idx.Nested := inferInstanceAs (Decidable (idx.entries.Pairwise _))

/-- The number of entries whose span strictly contains `s`. -/
def depth (idx : Index) (s : Finset ℕ) : ℕ :=
  idx.entries.countP fun x => (x.2.span? x.1).any (s ⊂ ·)

/-- A pair that starts inside another ends inside it. -/
lemma Nested.le_of_lt (h : idx.Nested) (hx : idx.get? p = some x) (hy : idx.get? q = some y)
    (hpq : p < q) {a b : ℕ} (ha : x.end? p = some a) (hb : y.end? q = some b) (hqa : q ≤ a) :
    b ≤ a := by
  have hqb := Entry.le_of_end?_eq_some hb
  have hs : x.span? p = some (Finset.Icc p a) := by rw [Entry.span?, ha]; rfl
  have hr : y.span? q = some (Finset.Icc q b) := by rw [Entry.span?, hb]; rfl
  have hxy : DisjointOrNested (p, x) (q, y) :=
    List.Pairwise.forall h (NatMap.mem_entries.mpr hx) (NatMap.mem_entries.mpr hy)
      fun heq => hpq.ne (congrArg Prod.fst heq)
  rcases hxy _ hs _ hr with hdis | hsub | hsub
  · exact absurd (Finset.left_mem_Icc.mpr hqb)
      (Finset.disjoint_left.mp hdis (Finset.mem_Icc.mpr ⟨hpq.le, hqa⟩))
  · have hp := hsub.subset (Finset.left_mem_Icc.mpr (hpq.le.trans hqa))
    exact absurd (Finset.mem_Icc.mp hp).1 (Nat.not_le.mpr hpq)
  · exact (Finset.mem_Icc.mp (hsub.subset (Finset.right_mem_Icc.mpr hqb))).2

/-- Where spans are disjoint or nested, no two pairs cross. -/
lemma Nested.pairwise_laminar (h : idx.Nested) : idx.entries.Pairwise Laminar := by
  refine (List.pairwise_map.mp idx.ascending).imp_of_mem fun {x y} hx hy hlt a b ha hb => ?_
  rcases Nat.lt_or_ge a y.1 with hay | hya
  · exact .inl hay
  · exact .inr (h.le_of_lt (NatMap.mem_entries.mp hx) (NatMap.mem_entries.mp hy) hlt ha hb hya)

/-- The spans strictly around a span are those of the entries that enclose its first position. -/
lemma Nested.depth_span (h : idx.Nested) (hy : idx.get? q = some y) {b : ℕ}
    (hb : y.end? q = some b) : idx.depth (Finset.Icc q b) = idx.entries.countP (encloses q) := by
  refine List.countP_congr fun z hz => ?_
  obtain ⟨p, x⟩ := z
  have hx := NatMap.mem_entries.mp hz
  have hqb := Entry.le_of_end?_eq_some hb
  cases ha : x.end? p with
  | none => simp [Entry.span?, encloses, ha]
  | some a =>
      simp only [Entry.span?, encloses, ha, Option.map_some, Option.any_some, Bool.and_eq_true,
        decide_eq_true_eq]
      constructor
      · intro hsub
        have hq := Finset.mem_Icc.mp (hsub.subset (Finset.left_mem_Icc.mpr hqb))
        refine ⟨lt_of_le_of_ne hq.1 ?_, hq.2⟩
        -- an entry at the same place is the same entry, and no span is strictly inside itself
        rintro rfl
        obtain rfl := Option.some_inj.mp (hx.symm.trans hy)
        obtain rfl := Option.some_inj.mp (ha.symm.trans hb)
        exact hsub.ne rfl
      · -- a pair that reaches `q` from before it ends behind the span, which starts and ends inside
        rintro ⟨hpq, hqa⟩
        have hba := h.le_of_lt hx hy hpq ha hb hqa
        refine (Finset.ssubset_iff_of_subset (Finset.Icc_subset_Icc hpq.le hba)).mpr ⟨p, ?_, ?_⟩
        · exact Finset.left_mem_Icc.mpr (hpq.le.trans hqa)
        · exact fun hp => Nat.not_le.mpr hpq (Finset.mem_Icc.mp hp).1

/-- **Depth.**  Where any two spans are disjoint or strictly nested, the order pass leaves every
key and every length as it is, gives every pair the number of spans strictly around its own, and
leaves no order to a bracket without partner. -/
theorem entry_reorder_of_nested (h : idx.Nested) (p : ℕ) :
    idx.reorder.1.get? p
      = (idx.get? p).map fun e => { e with order := (e.span? p).map idx.depth } := by
  have hlen := length_get?_reorder idx p
  cases he : idx.get? p with
  | none =>
      rw [he, Option.map_none, Option.map_eq_none_iff] at hlen
      rw [hlen, Option.map_none]
  | some e =>
      rw [he, Option.map_some, Option.map_eq_some_iff] at hlen
      obtain ⟨e', he', hlen⟩ := hlen
      have horder : e'.order = (e.span? p).map idx.depth := by
        rw [order_reorder h.pairwise_laminar he', hlen]
        cases hn : e.length with
        | none => rw [Entry.span?, Entry.end?, hn]; rfl
        | some n =>
            have hend : e.end? p = some (p + n) := Entry.end?_eq_some_iff.mpr ⟨n, hn, rfl⟩
            rw [Entry.span?, hend, Option.map_some, Option.map_some, Option.map_some,
              h.depth_span he hend]
      rw [he', Option.map_some, ← hlen, ← horder]

/-- Three pairs that end at the same place and one beside them, all inside a fifth, with a bracket
that has no partner among them and with orders that are out of date. -/
theorem entry_reorder_sharedEnd :
    let idx : Index := ⟨[(0, ⟨some 9, some 7⟩), (2, ⟨some 4, none⟩), (3, ⟨none, some 5⟩),
      (4, ⟨some 2, some 0⟩), (6, ⟨some 0, none⟩), (8, ⟨some 1, some 4⟩)], by decide⟩
    idx.Nested ∧ idx.reorder.1.get? 6 = some ⟨some 0, some 3⟩
      ∧ idx.reorder.1.get? 8 = some ⟨some 1, some 1⟩
      ∧ idx.reorder.1.get? 3 = some ⟨none, none⟩ := by
  intro idx
  have h : idx.Nested := by decide
  exact ⟨h, (entry_reorder_of_nested h 6).trans (by decide),
    (entry_reorder_of_nested h 8).trans (by decide),
    (entry_reorder_of_nested h 3).trans (by decide)⟩

end Index

end RainbowBrackets
