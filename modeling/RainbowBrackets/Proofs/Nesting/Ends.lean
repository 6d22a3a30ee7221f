import RainbowBrackets.Proofs.Nesting.Order

/-!
Orders as heights of a stack of ends.

Pairs that cross are not refused by the order pass, and what it gives them is no depth.  It is
still a height: go through the pairs from left to right with a stack of their ends, at each pair
take away the ends that are before it, from the top and as long as there are any, and put its own
end on.  An end that is before a pair stays where it is if an end that is not lies on it.

* `Index.endsAt`: the stack at a position, after every pair before it;
* `Index.length?`, `Index.order?`: what an index has of a position, nothing standing for a bracket
  that is not there as well as for one without partner; `Index.order?_reorder`: the orders after a
  pass in these terms;
* `Index.endsAt_congr`: the stack at a position is a matter of the pairs before it;
  `Index.endsAt_of_adjacent`: from one pair to the next it grows by one end at most;
* `Index.mem_reorder_iff`: a bracket is reported if it has a partner and its order is a new one;
* `Index.reorder_exact` (**the order pass**): all of this, of any index.
-/

namespace RainbowBrackets

variable {p q : ℕ}

namespace Index

variable {idx idx' : Index}

/-! ### Lengths and orders -/

/-- The length of the bracket at `p`, if it has a partner. -/
def length? (idx : Index) (p : ℕ) : Option ℕ := (idx.get? p).bind Entry.length

/-- The order of the bracket at `p`, if it has one. -/
def order? (idx : Index) (p : ℕ) : Option ℕ := (idx.get? p).bind Entry.order

lemma length?_reorder (idx : Index) (p : ℕ) : idx.reorder.1.length? p = idx.length? p := by
  have hmap : ∀ o : Option Entry, o.bind Entry.length = (o.map Entry.length).join := by
    rintro (_ | e) <;> rfl
  rw [length?, length?, hmap, hmap, length_get?_reorder]

/-- The pairs, by start and end. -/
def pairs (idx : Index) : List (ℕ × ℕ) := idx.entries.filterMap pair?

/-- The pairs that start before `p`. -/
def pairsBefore (idx : Index) (p : ℕ) : List (ℕ × ℕ) := idx.pairs.filter (·.1 < p)

/-- The ends that are left at `p` of the pairs before it. -/
def endsAt (idx : Index) (p : ℕ) : List ℕ :=
  ((idx.pairsBefore p).foldl enterPair []).dropWhile (· < p)

lemma mem_pairsBefore {x : ℕ × ℕ} :
    x ∈ idx.pairsBefore p ↔ (∃ n, idx.length? x.1 = some n ∧ x.1 + n = x.2) ∧ x.1 < p := by
  obtain ⟨s, r⟩ := x
  rw [pairsBefore, List.mem_filter, decide_eq_true_eq, pairs, List.mem_filterMap]
  refine and_congr_left' ⟨?_, ?_⟩
  · rintro ⟨⟨s', e⟩, hmem, hpair⟩
    obtain ⟨r', hend, heq⟩ := Option.map_eq_some_iff.mp hpair
    obtain ⟨rfl, rfl⟩ := Prod.mk.inj heq
    obtain ⟨n, hn, hr⟩ := Entry.end?_eq_some_iff.mp hend
    exact ⟨n, Option.bind_eq_some_iff.mpr ⟨e, NatMap.mem_entries.mp hmem, hn⟩, hr⟩
  · rintro ⟨n, hn, hr⟩
    dsimp only at hn hr
    subst hr
    obtain ⟨e, hget, hlen⟩ := Option.bind_eq_some_iff.mp hn
    exact ⟨(s, e), NatMap.mem_entries.mpr hget, by simp [pair?, Entry.end?, hlen]⟩

/-- Pairs are listed from left to right. -/
lemma pairwise_pairsBefore (idx : Index) (p : ℕ) :
    (idx.pairsBefore p).Pairwise (Order.Preimage Prod.fst (· < ·)) := by
  have hpairs : idx.pairs.Pairwise (Order.Preimage Prod.fst (· < ·)) := by
    refine (List.pairwise_map.mp idx.ascending).filterMap pair? fun x y hxy a ha b hb => ?_
    obtain ⟨r, -, rfl⟩ := Option.map_eq_some_iff.mp ha
    obtain ⟨s, -, rfl⟩ := Option.map_eq_some_iff.mp hb
    exact hxy
  exact hpairs.filter _

/-- After a pass, the order of a pair is the number of ends that are left where it starts, and a
bracket without partner has none. -/
lemma order?_reorder (idx : Index) (p : ℕ) :
    idx.reorder.1.order? p = (idx.length? p).map fun _ => (idx.endsAt p).length := by
  have hlen := length?_reorder idx p
  rw [← hlen, order?, length?]
  cases he : idx.reorder.1.get? p with
  | none => rfl
  | some e =>
      exact order_orderPass_eq_length .nil (List.pairwise_map.mp idx.ascending) (p, e)
        (NatMap.mem_entries.mpr he)

/-! ### What the stack depends on -/

/-- The stack at a position is a matter of the pairs before it. -/
lemma endsAt_congr (h : ∀ q < p, idx'.length? q = idx.length? q) :
    idx'.endsAt p = idx.endsAt p := by
  have hpairs : idx'.pairsBefore p = idx.pairsBefore p := by
    refine (pairwise_pairsBefore idx' p).eq_of_mem_iff (pairwise_pairsBefore idx p) fun x => ?_
    rw [mem_pairsBefore, mem_pairsBefore]
    exact and_congr_left fun hx => by rw [h x.1 hx]
  rw [endsAt, endsAt, hpairs]

/-- The order of a bracket is a matter of the pairs up to it. -/
lemma order?_reorder_congr (h : ∀ q ≤ p, idx'.length? q = idx.length? q) :
    idx'.reorder.1.order? p = idx.reorder.1.order? p := by
  rw [order?_reorder, order?_reorder, h p le_rfl, endsAt_congr fun q hq => h q hq.le]

/-- Before the first pair the stack is empty. -/
lemma endsAt_of_first (h : ∀ q < p, idx.length? q = none) : idx.endsAt p = [] := by
  have hpairs : idx.pairsBefore p = [] := by
    refine List.eq_nil_iff_forall_not_mem.mpr fun x hx => ?_
    obtain ⟨⟨n, hn, -⟩, hlt⟩ := mem_pairsBefore.mp hx
    rw [h x.1 hlt] at hn
    cases hn
  rw [endsAt, hpairs]
  rfl

/-- From a pair to the next one the end of the first comes onto the stack. -/
lemma endsAt_of_adjacent {n : ℕ} (hpq : p < q) (hp : idx.length? p = some n)
    (hnone : ∀ r, p < r → r < q → idx.length? r = none) :
    idx.endsAt q = ((p + n) :: idx.endsAt p).dropWhile (· < q) := by
  have hpairs : idx.pairsBefore q = idx.pairsBefore p ++ [(p, p + n)] := by
    refine (pairwise_pairsBefore idx q).eq_of_mem_iff ?_ fun x => ?_
    · refine List.pairwise_append.mpr ⟨pairwise_pairsBefore idx p, List.pairwise_singleton _ _,
        fun x hx y hy => ?_⟩
      obtain rfl := List.mem_singleton.mp hy
      exact (mem_pairsBefore.mp hx).2
    · rw [List.mem_append, List.mem_singleton, mem_pairsBefore, mem_pairsBefore]
      constructor
      · rintro ⟨⟨m, hm, hx⟩, hlt⟩
        rcases Nat.lt_trichotomy x.1 p with hxp | hxp | hxp
        · exact .inl ⟨⟨m, hm, hx⟩, hxp⟩
        · rw [hxp, hp, Option.some_inj] at hm
          exact .inr (Prod.ext hxp (by rw [← hx, hxp, hm]))
        · rw [hnone x.1 hxp hlt] at hm
          cases hm
      · rintro (⟨h, hlt⟩ | rfl)
        · exact ⟨h, hlt.trans hpq⟩
        · exact ⟨⟨n, hp, rfl⟩, hpq⟩
  rw [endsAt, hpairs, List.foldl_append, List.foldl_cons, List.foldl_nil, enterPair, endsAt]

/-! ### What is reported -/

/-- A bracket is reported if it has a partner and its order is a new one. -/
lemma mem_reorder_iff : p ∈ idx.reorder.2
    ↔ idx.length? p ≠ none ∧ idx.reorder.1.order? p ≠ idx.order? p := by
  constructor
  · intro h
    obtain ⟨x, y, hx, hy, hlen, hne⟩ := of_mem_reorder h
    rw [← length?_reorder, length?, order?, order?, hx, hy]
    exact ⟨hlen, hne.symm⟩
  · rintro ⟨hlen, hne⟩
    rw [← length?_reorder] at hlen
    obtain ⟨e, he⟩ : ∃ e, idx.reorder.1.get? p = some e := by
      refine Option.ne_none_iff_exists'.mp fun hnone => hlen ?_
      rw [length?, hnone]
      rfl
    rw [length?, he] at hlen
    rcases reorder_cases he with h | h | h
    · exact h
    · exact absurd h hlen
    · rw [order?, order?, he, h] at hne
      exact absurd rfl hne

/-- A pass over orders that are up to date reports nothing. -/
lemma Ordered.reorder_snd (h : idx.Ordered) : idx.reorder.2 = ∅ := by
  refine NatSet.ext_mem fun p => iff_of_false (fun hp => ?_) (NatSet.not_mem_empty p)
  refine (mem_reorder_iff.mp hp).2 ?_
  rw [h]

/-- Two indices that differ in brackets without partner agree on lengths. -/
lemma length?_eq_of_matched
    (h : ∀ p e, e.length ≠ none → (idx'.get? p = some e ↔ idx.get? p = some e)) (p : ℕ) :
    idx'.length? p = idx.length? p := by
  refine Option.ext fun n => ?_
  rw [length?, length?, Option.bind_eq_some_iff, Option.bind_eq_some_iff]
  refine exists_congr fun e => and_congr_left fun hn => h p e ?_
  rw [hn]
  exact Option.some_ne_none n

/-- Two indices that differ in brackets without partner agree on the orders of all others. -/
lemma order?_eq_of_matched
    (h : ∀ p e, e.length ≠ none → (idx'.get? p = some e ↔ idx.get? p = some e))
    (hp : idx.length? p ≠ none) : idx'.order? p = idx.order? p := by
  obtain ⟨n, hn⟩ := Option.ne_none_iff_exists'.mp hp
  obtain ⟨e, he, hlen⟩ := Option.bind_eq_some_iff.mp hn
  rw [order?, order?, he, (h p e (by simp [hlen])).mpr he]

/-- **The order pass** over any index, whether or not its pairs cross.  It changes no key and no
length.  The order of a pair becomes the number of ends that are left where it starts, and a
bracket without partner has none.  It reports the brackets that have a partner and whose order is
a new one, and a second pass changes nothing and reports nothing.  The orders are a matter of keys
and lengths, and that of one bracket is a matter of the pairs up to it.  Brackets without partner,
added or taken away, change neither the order of another one nor what is reported.  The first pair
has order zero, and the order rises by one at most from a pair to the next. -/
theorem reorder_exact (idx : Index) :
    idx.reorder.1.map Entry.length = idx.map Entry.length
    ∧ (∀ p, idx.reorder.1.order? p = (idx.length? p).map fun _ => (idx.endsAt p).length)
    ∧ (∀ p, p ∈ idx.reorder.2 ↔ idx.length? p ≠ none ∧ idx.reorder.1.order? p ≠ idx.order? p)
    ∧ idx.reorder.1.reorder = (idx.reorder.1, ∅)
    ∧ (∀ idx' : Index, idx'.map Entry.length = idx.map Entry.length →
        idx'.reorder.1 = idx.reorder.1)
    ∧ (∀ (idx' : Index) p, (∀ q ≤ p, idx'.length? q = idx.length? q) →
        idx'.reorder.1.order? p = idx.reorder.1.order? p)
    ∧ (∀ idx' : Index,
        (∀ p e, e.length ≠ none → (idx'.get? p = some e ↔ idx.get? p = some e)) →
          idx'.reorder.2 = idx.reorder.2
          ∧ ∀ p, idx'.reorder.1.order? p = idx.reorder.1.order? p)
    ∧ (∀ p, idx.length? p ≠ none → (∀ q < p, idx.length? q = none) →
        idx.reorder.1.order? p = some 0)
    ∧ ∀ p q, p < q → idx.length? p ≠ none → idx.length? q ≠ none →
        (∀ r, p < r → r < q → idx.length? r = none) →
          ∃ m n, idx.reorder.1.order? p = some m ∧ idx.reorder.1.order? q = some n ∧ n ≤ m + 1 := by
  refine ⟨map_length_reorder idx, order?_reorder idx, fun p => mem_reorder_iff,
    Prod.ext (ordered_reorder idx) (ordered_reorder idx).reorder_snd,
    fun idx' => reorder_eq_of_lengths, fun idx' p => order?_reorder_congr, fun idx' h => ?_,
    fun p hp hfirst => ?_, fun p q hpq hp hq hnone => ?_⟩
  · have hlen := length?_eq_of_matched h
    have horder : ∀ p, idx'.reorder.1.order? p = idx.reorder.1.order? p := fun p =>
      order?_reorder_congr fun q _ => hlen q
    refine ⟨NatSet.ext_mem fun p => ?_, horder⟩
    rw [mem_reorder_iff, mem_reorder_iff, hlen, horder]
    exact and_congr_right fun hp => by rw [order?_eq_of_matched h hp]
  · obtain ⟨n, hn⟩ := Option.ne_none_iff_exists'.mp hp
    rw [order?_reorder, hn, endsAt_of_first hfirst]
    rfl
  · obtain ⟨n, hn⟩ := Option.ne_none_iff_exists'.mp hp
    obtain ⟨m, hm⟩ := Option.ne_none_iff_exists'.mp hq
    refine ⟨(idx.endsAt p).length, (idx.endsAt q).length, ?_, ?_, ?_⟩
    · rw [order?_reorder, hn, Option.map_some]
    · rw [order?_reorder, hm, Option.map_some]
    rw [endsAt_of_adjacent hpq hn hnone]
    exact (List.dropWhile_sublist _).length_le

/-- Three pairs, each of which crosses the one before it, with orders that are out of date. -/
def crossing : Index :=
  ⟨[(0, ⟨some 4, some 9⟩), (2, ⟨some 4, none⟩), (5, ⟨some 3, some 2⟩)], by decide⟩

/-- The first of the crossing pairs ends before the third starts and stays below the second, so the
orders go up to two.  They are the same without any stored order, those of the first two pairs are
the same without the third, and all of them are the same with a bracket that has no partner. -/
theorem reorder_exact_crossing :
    let unordered : Index := crossing.map fun e => .ofLength e.length
    let shorter : Index := crossing.erase 5
    let longer : Index := crossing.insert 1 ⟨none, some 5⟩
    unordered.reorder.1 = crossing.reorder.1
    ∧ shorter.reorder.1.order? 2 = crossing.reorder.1.order? 2
    ∧ longer.reorder.2 = crossing.reorder.2
    ∧ crossing.reorder.1.order? 0 = some 0
    ∧ (∃ m n, crossing.reorder.1.order? 2 = some m ∧ crossing.reorder.1.order? 5 = some n
      ∧ n ≤ m + 1)
    ∧ crossing.reorder.1.order? 5 = some 2 ∧ crossing.reorder.2 = .ofList [0, 2] := by
  intro unordered shorter longer
  have hmatched : ∀ p e, e.length ≠ none →
      (longer.get? p = some e ↔ crossing.get? p = some e) := by
    intro p e he
    rw [NatMap.get?_insert]
    split_ifs with hp
    · subst hp
      have hnone : crossing.get? 1 = none := by decide
      rw [hnone]
      refine iff_of_false (fun h => he ?_) (Option.some_ne_none e).symm
      rw [← Option.some_inj.mp h]
    · rfl
  obtain ⟨-, -, -, -, hlengths, hbefore, hunmatched, hfirst, hnext⟩ := reorder_exact crossing
  refine ⟨hlengths unordered (by decide), hbefore shorter 2 (by decide),
    (hunmatched longer hmatched).1, hfirst 0 (by decide) (by decide),
    hnext 2 5 (by decide) (by decide) (by decide) fun r h2 h5 => ?_, by decide, by decide⟩
  interval_cases r <;> rfl

end Index

end RainbowBrackets
