import RainbowBrackets.Proofs.Nesting.Follow
import RainbowBrackets.Proofs.Nesting.Order

/-!
Orders up to a bracket.

The order pass goes from left to right, so what it gives to a bracket depends on the brackets up
to it, and on these only through the order of their positions and ends.  An edit keeps that order
where it moves every bracket together with its end.

* `Index.upTo`: the entries up to a position; `filter_orderPass`: the pass over these is the first
  part of the whole pass;
* `Index.OrderedTo`: another pass would change nothing up to a position;
* `Carried`: an entry whose bracket and end have both moved along with an edit;
  `forall₂_carried_orderPass`: the pass goes alike over entries that were carried;
* `Index.OrderedTo.carried` (**orders move along**): orders that are up to date up to a bracket
  stay so if every entry up to it is carried.
-/

namespace RainbowBrackets

variable {entered entered' : List (ℕ × ℕ)} {l l' : List (ℕ × Entry)} {p p' : ℕ} {x : Entry}

/-! ### The first part of the pass -/

lemma filter_eq_nil_of_keys (h : ∀ q ∈ l.map Prod.fst, p < q) : l.filter (·.1 ≤ p) = [] := by
  rw [List.filter_eq_nil_iff]
  intro y hy
  rw [decide_eq_true_eq]
  exact Nat.not_le.mpr (h y.1 (List.mem_map_of_mem hy))

/-- The pass over the entries up to a position is the first part of the whole pass. -/
lemma filter_orderPass (hl : l.Pairwise fun x y => x.1 < y.1) (p : ℕ) :
    (orderPass entered l).1.filter (·.1 ≤ p) = (orderPass entered (l.filter (·.1 ≤ p))).1 := by
  induction l generalizing entered with
  | nil => rfl
  | cons y l ih =>
      obtain ⟨start, e⟩ := y
      obtain ⟨hhead, htail⟩ := List.pairwise_cons.mp hl
      by_cases hp : start ≤ p
      · rw [List.filter_cons_of_pos (by simpa using hp)]
        cases hn : e.length with
        | none =>
            rw [orderPass_cons_none hn, orderPass_cons_none hn,
              List.filter_cons_of_pos (by simpa using hp), ih htail]
        | some n =>
            rw [orderPass_cons_some hn, orderPass_cons_some hn,
              List.filter_cons_of_pos (by simpa using hp), ih htail]
      · -- nothing from here on is kept on either side, whatever is on the stack
        have hkeys : ∀ q ∈ ((start, e) :: l).map Prod.fst, p < q := by
          intro q hq
          rcases List.mem_cons.mp hq with rfl | hq
          · exact Nat.not_le.mp hp
          · obtain ⟨y, hy, rfl⟩ := List.mem_map.mp hq
            exact (Nat.not_le.mp hp).trans (hhead y hy)
        have hpass : ∀ q ∈ (orderPass entered ((start, e) :: l)).1.map Prod.fst, p < q := by
          rw [map_fst_orderPass]
          exact hkeys
        rw [filter_eq_nil_of_keys hkeys, filter_eq_nil_of_keys hpass]
        rfl

namespace Index

variable {idx idx' : Index}

/-- The entries up to a position. -/
def upTo (idx : Index) (p : ℕ) : List (ℕ × Entry) := idx.entries.filter (·.1 ≤ p)

lemma mem_upTo {y : ℕ × Entry} : y ∈ idx.upTo p ↔ idx.get? y.1 = some y.2 ∧ y.1 ≤ p := by
  rw [upTo, List.mem_filter, decide_eq_true_eq]
  exact and_congr_left' NatMap.mem_entries

lemma pairwise_upTo (idx : Index) (p : ℕ) : (idx.upTo p).Pairwise fun x y => x.1 < y.1 :=
  (List.pairwise_map.mp idx.ascending).filter _

/-- Another order pass would change nothing up to `p`. -/
def OrderedTo (idx : Index) (p : ℕ) : Prop := (orderPass [] (idx.upTo p)).1 = idx.upTo p

lemma upTo_reorder (idx : Index) (p : ℕ) : idx.reorder.1.upTo p = (orderPass [] (idx.upTo p)).1 :=
  filter_orderPass (List.pairwise_map.mp idx.ascending) p

lemma Ordered.orderedTo (h : idx.Ordered) (p : ℕ) : idx.OrderedTo p := by
  rw [OrderedTo, ← upTo_reorder, h]

/-- Where the orders are up to date, the pass reports nothing. -/
lemma OrderedTo.not_mem_reorder (h : idx.OrderedTo p) : p ∉ idx.reorder.2 := by
  intro hp
  obtain ⟨x, y, hx, hy, -, hne⟩ := of_mem_reorder hp
  have hmem : (p, y) ∈ idx.reorder.1.upTo p := mem_upTo.mpr ⟨hy, le_rfl⟩
  rw [upTo_reorder, h] at hmem
  obtain rfl := Option.some_inj.mp (hx.symm.trans (mem_upTo.mp hmem).1)
  exact hne rfl

end Index

/-! ### Entries that move along with an edit -/

section Carry

variable {e : Edit}

/-- The entry is the same, and its bracket and its end have both moved along with the edit. -/
structure Carried (e : Edit) (y y' : ℕ × Entry) : Prop where
  key : e.move? y.1 = some y'.1
  entry : y'.2 = y.2
  ending : ∀ n, y.2.length = some n → e.move? (y.1 + n) = some (y'.1 + n)

/-- The end of an entered pair has moved along with the edit. -/
def CarriedEnd (e : Edit) (y y' : ℕ × ℕ) : Prop := e.move? y.1 = some y'.1 ∧ y'.2 = y.2

lemma Edit.move?_lt_iff {e : Edit} {q r q' r' : ℕ} (hq : e.move? q = some q')
    (hr : e.move? r = some r') : q' < r' ↔ q < r := by
  refine ⟨fun h => ?_, move?_lt hq hr⟩
  by_contra hle
  rcases Nat.eq_or_lt_of_le (Nat.not_lt.mp hle) with rfl | hlt
  · exact absurd h (Option.some_inj.mp (hq.symm.trans hr) ▸ lt_irrefl _)
  · exact absurd (move?_lt hr hq hlt) (Nat.lt_asymm h)

lemma Edit.move?_le {e : Edit} {q r q' r' : ℕ} (hq : e.move? q = some q') (hr : e.move? r = some r')
    (h : q ≤ r) : q' ≤ r' := by
  by_contra hlt
  exact absurd ((Edit.move?_lt_iff hr hq).mp (Nat.not_le.mp hlt)) (Nat.not_lt.mpr h)

lemma forall₂_carriedEnd_dropWhile (hs : List.Forall₂ (CarriedEnd e) entered entered')
    {start start' : ℕ} (hstart : e.move? start = some start') :
    List.Forall₂ (CarriedEnd e) (entered.dropWhile (·.1 < start))
      (entered'.dropWhile (·.1 < start')) := by
  induction hs with
  | nil => exact .nil
  | @cons y y' s s' hy hs ih =>
      have hlt : decide (y'.1 < start') = decide (y.1 < start) :=
        decide_eq_decide.mpr (Edit.move?_lt_iff hy.1 hstart)
      rw [List.dropWhile_cons, List.dropWhile_cons, hlt]
      split
      · exact ih
      · exact .cons hy hs

lemma nextOrder_eq_of_carriedEnd (hs : List.Forall₂ (CarriedEnd e) entered entered') :
    nextOrder entered' = nextOrder entered := by
  cases hs with
  | nil => rfl
  | cons hy hs => exact congrArg (· + 1) hy.2

/-- The pass goes alike over entries that were carried. -/
lemma forall₂_carried_orderPass (hl : List.Forall₂ (Carried e) l l')
    (hs : List.Forall₂ (CarriedEnd e) entered entered') :
    List.Forall₂ (Carried e) (orderPass entered l).1 (orderPass entered' l').1 := by
  induction hl generalizing entered entered' with
  | nil => exact .nil
  | @cons y y' l l' hy hl ih =>
      obtain ⟨start, x⟩ := y
      obtain ⟨start', x'⟩ := y'
      obtain ⟨hkey, rfl, hend⟩ := hy
      dsimp only at hkey hend
      cases hn : x'.length with
      | none =>
          rw [orderPass_cons_none hn, orderPass_cons_none hn]
          exact .cons ⟨hkey, rfl, hend⟩ (ih hs)
      | some n =>
          have haround := forall₂_carriedEnd_dropWhile hs hkey
          -- the stacks hold the same orders beside carried ends, so they give the same next order
          rw [orderPass_cons_some hn, orderPass_cons_some hn, nextOrder_eq_of_carriedEnd haround]
          exact .cons ⟨hkey, rfl, hend⟩ (ih (.cons ⟨hend n hn, rfl⟩ haround))

/-- There is one way to carry an entry. -/
lemma rightUnique_carried (e : Edit) : Relator.RightUnique (Carried e) := by
  rintro y ⟨q, x⟩ ⟨q', x'⟩ h h'
  exact Prod.ext (Option.some_inj.mp (h.key.symm.trans h'.key)) (h.entry.trans h'.entry.symm)

variable {idx idx' : Index}

/-- **Orders move along** with the entries up to a bracket. -/
lemma Index.OrderedTo.carried (h : idx.OrderedTo p)
    (hl : List.Forall₂ (Carried e) (idx.upTo p) (idx'.upTo p')) : idx'.OrderedTo p' := by
  have hpass := forall₂_carried_orderPass hl (.nil : List.Forall₂ (CarriedEnd e) [] [])
  rw [h] at hpass
  exact (rightUnique_carried e).forall₂ hpass hl

/-- If an edit moves all entries up to a bracket, each with its end, then it carries them. -/
lemma NatMap.MovedBy.forall₂_carried (h : idx.MovedBy e.move? idx') (hp : e.move? p = some p')
    (hup : ∀ q x, idx.get? q = some x → q ≤ p → ∃ q', e.move? q = some q' ∧
      ∀ n, x.length = some n → e.move? (q + n) = some (q' + n)) :
    List.Forall₂ (Carried e) (idx.upTo p) (idx'.upTo p') := by
  have hcarried : ∀ y ∈ idx.upTo p, Carried e y ((e.move? y.1).getD 0, y.2) := by
    intro y hy
    obtain ⟨hget, hle⟩ := Index.mem_upTo.mp hy
    obtain ⟨q', hq', hend⟩ := hup y.1 y.2 hget hle
    rw [hq']
    exact ⟨hq', rfl, hend⟩
  have hlist : (idx.upTo p).map (fun y => ((e.move? y.1).getD 0, y.2)) = idx'.upTo p' := by
    refine NatSet.eq_of_mem_iff Prod.fst ?_ (idx'.pairwise_upTo p') fun y => ?_
    · refine List.pairwise_map.mpr ((idx.pairwise_upTo p).imp_of_mem fun hy hz hlt => ?_)
      exact Edit.move?_lt (hcarried _ hy).key (hcarried _ hz).key hlt
    · rw [List.mem_map, Index.mem_upTo, h]
      constructor
      · rintro ⟨z, hz, rfl⟩
        obtain ⟨hget, hle⟩ := Index.mem_upTo.mp hz
        exact ⟨⟨z.1, (hcarried z hz).key, hget⟩, Edit.move?_le (hcarried z hz).key hp hle⟩
      · rintro ⟨⟨q, hq, hget⟩, hle⟩
        have hqp : q ≤ p := by
          by_contra hlt
          exact absurd (Edit.move?_lt hp hq (Nat.not_le.mp hlt)) (Nat.not_lt.mpr hle)
        refine ⟨(q, y.2), Index.mem_upTo.mpr ⟨hget, hqp⟩, ?_⟩
        rw [hq]
        rfl
  rw [← hlist]
  exact List.forall₂_map_right_iff.mpr (List.forall₂_same.mpr hcarried)

end Carry

end RainbowBrackets
