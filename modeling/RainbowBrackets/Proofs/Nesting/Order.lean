import Mathlib.Tactic
import RainbowBrackets.Nesting.Index

/-!
What the order pass computes.

* `fst_orderPass_congr`, `Index.reorder_eq_of_lengths`: the orders depend on keys and lengths
  alone, so that an index is determined by its lengths once it is `Index.Ordered`, that is,
  once another pass would change nothing (`Index.eq_of_lengths`);
* `Index.reorder_cases`, `Index.of_mem_reorder`: an entry that the pass changes is reported,
  unless it has no partner, and no other one is;
* `enterPair`: the stack of the pass with its ends alone; `order_orderPass_eq_length`
  (**heights**): the order that a pair is given is the number of ends that are left where it
  starts.  The invariant is that the order the pass keeps beside an end is the number of ends
  below that one (`Numbered`), and `Numbered.fst_orderPass_cons` is one step of the pass under it;
* `Index.order_reorder` (**nesting**): where no two pairs cross (`Laminar`), that is the number of
  pairs that start before it and end behind its start.  There the ends rise from top to bottom
  (`rising_foldl_enterPair`), so taking them away at the top takes away all that are passed.
-/

namespace RainbowBrackets

variable {entered : List (ℕ × ℕ)} {start : ℕ} {e : Entry} {l : List (ℕ × Entry)}

lemma orderPass_cons_none (h : e.length = none) : orderPass entered ((start, e) :: l)
    = ((start, { e with order := none }) :: (orderPass entered l).1, (orderPass entered l).2) := by
  rw [orderPass, h]

lemma orderPass_cons_some {n : ℕ} (h : e.length = some n) :
    orderPass entered ((start, e) :: l)
      = ((start, { e with order := some (nextOrder (entered.dropWhile (·.1 < start))) })
          :: (orderPass ((start + n, nextOrder (entered.dropWhile (·.1 < start)))
            :: entered.dropWhile (·.1 < start)) l).1,
        if e.order = some (nextOrder (entered.dropWhile (·.1 < start)))
        then (orderPass ((start + n, nextOrder (entered.dropWhile (·.1 < start)))
            :: entered.dropWhile (·.1 < start)) l).2
        else start :: (orderPass ((start + n, nextOrder (entered.dropWhile (·.1 < start)))
            :: entered.dropWhile (·.1 < start)) l).2) := by
  rw [orderPass, h]

/-! ### Orders depend on lengths -/

/-- The pass reads nothing but keys and lengths. -/
lemma fst_orderPass_congr {m : List (ℕ × Entry)}
    (h : l.map (fun x => (x.1, x.2.length)) = m.map fun x => (x.1, x.2.length)) :
    (orderPass entered l).1 = (orderPass entered m).1 := by
  induction l generalizing entered m with
  | nil => rw [List.map_eq_nil_iff.mp h.symm]
  | cons x l ih =>
      obtain ⟨start, e⟩ := x
      cases m with
      | nil => simp at h
      | cons y m =>
          obtain ⟨start', e'⟩ := y
          rw [List.map_cons, List.map_cons, List.cons.injEq, Prod.mk.injEq] at h
          obtain ⟨⟨rfl, hlen⟩, hrest⟩ := h
          change e.length = e'.length at hlen
          cases hn : e.length with
          | none =>
              rw [orderPass_cons_none hn, orderPass_cons_none (hlen.symm.trans hn), ih hrest]
              simp only [hn, ← hlen]
          | some n =>
              rw [orderPass_cons_some hn, orderPass_cons_some (hlen.symm.trans hn), ih hrest]
              simp only [hn, ← hlen]

/-- An entry that comes out of the pass is reported, has no partner, or went in as it is. -/
lemma mem_orderPass_cases {x : ℕ × Entry} (h : x ∈ (orderPass entered l).1) :
    x.1 ∈ (orderPass entered l).2 ∨ x.2.length = none ∨ x ∈ l := by
  induction l generalizing entered with
  | nil => simp [orderPass] at h
  | cons y l ih =>
      obtain ⟨start, e⟩ := y
      cases hn : e.length with
      | none =>
          rw [orderPass_cons_none hn] at h ⊢
          rcases List.mem_cons.mp h with rfl | h
          · exact .inr (.inl hn)
          · rcases ih h with h1 | h1 | h1
            · exact .inl h1
            · exact .inr (.inl h1)
            · exact .inr (.inr (List.mem_cons_of_mem _ h1))
      | some n =>
          rw [orderPass_cons_some hn] at h ⊢
          rcases List.mem_cons.mp h with rfl | h
          · by_cases ho : e.order = some (nextOrder (entered.dropWhile (·.1 < start)))
            · refine .inr (.inr (List.mem_cons.mpr (.inl ?_)))
              rw [← ho]
            · refine .inl ?_
              rw [if_neg ho]
              exact List.mem_cons_self
          · rcases ih h with h1 | h1 | h1
            · refine .inl ?_
              split
              · exact h1
              · exact List.mem_cons_of_mem _ h1
            · exact .inr (.inl h1)
            · exact .inr (.inr (List.mem_cons_of_mem _ h1))

/-- A bracket is reported for an order that the pass gave it and that it did not have. -/
lemma of_mem_orderPass {p : ℕ} (h : p ∈ (orderPass entered l).2) :
    ∃ x y : Entry, (p, x) ∈ l ∧ (p, y) ∈ (orderPass entered l).1 ∧ y.length ≠ none
      ∧ x.order ≠ y.order := by
  induction l generalizing entered with
  | nil => simp [orderPass] at h
  | cons z l ih =>
      obtain ⟨start, e⟩ := z
      cases hn : e.length with
      | none =>
          rw [orderPass_cons_none hn] at h ⊢
          obtain ⟨x, y, hx, hy, hxy⟩ := ih h
          exact ⟨x, y, List.mem_cons_of_mem _ hx, List.mem_cons_of_mem _ hy, hxy⟩
      | some n =>
          rw [orderPass_cons_some hn] at h ⊢
          by_cases hp : p = start ∧ e.order ≠ some (nextOrder (entered.dropWhile (·.1 < start)))
          · obtain ⟨rfl, ho⟩ := hp
            exact ⟨e, _, List.mem_cons_self, List.mem_cons_self, by simp [hn], ho⟩
          · have hrest : p ∈ (orderPass ((start + n, nextOrder (entered.dropWhile (·.1 < start)))
                :: entered.dropWhile (·.1 < start)) l).2 := by
              dsimp only at h
              split at h
              · exact h
              · rename_i ho
                exact (List.mem_cons.mp h).resolve_left fun hps => hp ⟨hps, ho⟩
            obtain ⟨x, y, hx, hy, hxy⟩ := ih hrest
            exact ⟨x, y, List.mem_cons_of_mem _ hx, List.mem_cons_of_mem _ hy, hxy⟩

namespace Index

variable {idx idx' : Index}

/-- Another order pass would change no order. -/
def Ordered (idx : Index) : Prop := idx.reorder.1 = idx

lemma ordered_empty : Ordered ∅ := rfl

/-- The order pass keeps the lengths. -/
lemma map_length_reorder (idx : Index) : idx.reorder.1.map Entry.length = idx.map Entry.length := by
  have h := map_length_orderPass [] idx.entries
  unfold NatMap.map
  congr 1

lemma map_length_update (idx : Index) (start : ℕ) (length : Option ℕ) :
    (idx.update start length).map Entry.length = (idx.map Entry.length).insert start length :=
  NatMap.ext_get? fun k => by
    rw [NatMap.get?_map, get?_update, NatMap.get?_insert, NatMap.get?_map]
    split <;> rfl

lemma map_length_erase (idx : Index) (p : ℕ) :
    NatMap.map (idx.erase p) Entry.length = (idx.map Entry.length).erase p :=
  NatMap.ext_get? fun k => by
    rw [NatMap.get?_map, NatMap.get?_erase, NatMap.get?_erase, NatMap.get?_map]
    split <;> rfl

/-- Which entries end at a position is a matter of lengths. -/
lemma closingAt_eq_of_lengths (h : idx.map Entry.length = idx'.map Entry.length) (p : ℕ) :
    idx.closingAt p = idx'.closingAt p := by
  have hmem : ∀ (idx : Index) (q : ℕ), q ∈ idx.closingAt p
      ↔ ∃ n, (idx.map Entry.length).get? q = some (some n) ∧ q + n = p := by
    intro idx q
    simp only [mem_closingAt, NatMap.get?_map, Option.map_eq_some_iff, Entry.end?_eq_some_iff]
    constructor
    · rintro ⟨e, he, n, hn, hp⟩
      exact ⟨n, ⟨e, he, hn⟩, hp⟩
    · rintro ⟨n, ⟨e, he, hn⟩, hp⟩
      exact ⟨e, he, n, hn, hp⟩
  exact NatSet.ext_mem fun q => by rw [hmem, hmem, h]

/-- The order pass keeps the length at a key. -/
lemma length_get?_reorder (idx : Index) (p : ℕ) :
    (idx.reorder.1.get? p).map Entry.length = (idx.get? p).map Entry.length := by
  calc (idx.reorder.1.get? p).map Entry.length
      = (idx.reorder.1.map Entry.length).get? p := (NatMap.get?_map ..).symm
    _ = (idx.map Entry.length).get? p := by rw [map_length_reorder]
    _ = (idx.get? p).map Entry.length := NatMap.get?_map ..

/-- The order pass keeps the end at a key. -/
lemma end?_get?_reorder (idx : Index) (p : ℕ) :
    (idx.reorder.1.get? p).map (Entry.end? · p) = (idx.get? p).map (Entry.end? · p) := by
  calc (idx.reorder.1.get? p).map (Entry.end? · p)
      = ((idx.reorder.1.get? p).map Entry.length).map (Option.map (p + ·)) :=
          (Option.map_map ..).symm
    _ = ((idx.get? p).map Entry.length).map (Option.map (p + ·)) := by rw [length_get?_reorder]
    _ = (idx.get? p).map (Entry.end? · p) := Option.map_map ..

/-- Indices with the same keys and lengths come out of the order pass alike. -/
lemma reorder_eq_of_lengths (h : idx.map Entry.length = idx'.map Entry.length) :
    idx.reorder.1 = idx'.reorder.1 := by
  have hent : idx.entries.map (fun x => (x.1, x.2.length))
      = idx'.entries.map fun x => (x.1, x.2.length) := congrArg NatMap.entries h
  have hpass : idx.reorder.1.entries = idx'.reorder.1.entries := fst_orderPass_congr hent
  exact NatMap.ext_get? fun p => by rw [NatMap.get?, NatMap.get?, hpass]

/-- After the order pass, another one would change nothing. -/
lemma ordered_reorder (idx : Index) : idx.reorder.1.Ordered :=
  reorder_eq_of_lengths (map_length_reorder idx)

/-- An index is determined by its lengths once the orders are up to date. -/
lemma eq_of_lengths (h : idx.Ordered) (h' : idx'.Ordered)
    (hlen : ∀ p, (idx.get? p).map Entry.length = (idx'.get? p).map Entry.length) : idx = idx' := by
  have hmap : idx.map Entry.length = idx'.map Entry.length :=
    NatMap.ext_get? fun p => by rw [NatMap.get?_map, NatMap.get?_map, hlen p]
  calc idx = idx.reorder.1 := h.symm
    _ = idx'.reorder.1 := reorder_eq_of_lengths hmap
    _ = idx' := h'

/-- An entry that comes out of the order pass is reported, has no partner, or went in as it
is. -/
lemma reorder_cases {p : ℕ} {e : Entry} (h : idx.reorder.1.get? p = some e) :
    p ∈ idx.reorder.2 ∨ e.length = none ∨ idx.get? p = some e := by
  have hmem : (p, e) ∈ (orderPass [] idx.entries).1 := NatMap.mem_entries.mpr h
  rcases mem_orderPass_cases hmem with h1 | h1 | h1
  · exact .inl (NatSet.mem_ofList.mpr h1)
  · exact .inr (.inl h1)
  · exact .inr (.inr (NatMap.mem_entries.mp h1))

/-- An entry is reported for an order that the pass gave it and that it did not have. -/
lemma of_mem_reorder {p : ℕ} (h : p ∈ idx.reorder.2) :
    ∃ x y : Entry, idx.get? p = some x ∧ idx.reorder.1.get? p = some y ∧ y.length ≠ none
      ∧ x.order ≠ y.order := by
  obtain ⟨x, y, hx, hy, hxy⟩ := of_mem_orderPass (NatSet.mem_ofList.mp h)
  exact ⟨x, y, NatMap.mem_entries.mp hx, NatMap.mem_entries.mp hy, hxy⟩

end Index

/-! ### Orders are heights -/

/-- The ends that are left where a pair starts, with the end of the pair on top of them. -/
def enterPair (ends : List ℕ) (x : ℕ × ℕ) : List ℕ := x.2 :: ends.dropWhile (· < x.1)

/-- The start and the end of the pair at a bracket that has a partner. -/
def pair? (x : ℕ × Entry) : Option (ℕ × ℕ) := (x.2.end? x.1).map (x.1, ·)

/-- The order beside every end is the number of ends below it. -/
inductive Numbered : List (ℕ × ℕ) → Prop
  | nil : Numbered []
  | cons {q : ℕ} {below : List (ℕ × ℕ)} (h : Numbered below) : Numbered ((q, below.length) :: below)

lemma Numbered.nextOrder_eq (h : Numbered entered) : nextOrder entered = entered.length := by
  cases h <;> rfl

lemma Numbered.dropWhile (h : Numbered entered) (s : ℕ) :
    Numbered (entered.dropWhile (·.1 < s)) := by
  induction h with
  | nil => exact .nil
  | @cons q below h ih =>
      rw [List.dropWhile_cons]
      split
      · exact ih
      · exact .cons h

/-- **One step of the pass.**  A pair is given the number of ends that are left where it starts,
and puts its own end on them with that number. -/
lemma Numbered.fst_orderPass_cons (h : Numbered entered) {n : ℕ} (hn : e.length = some n) :
    (orderPass entered ((start, e) :: l)).1 =
      (start, { e with order := some (entered.dropWhile (·.1 < start)).length }) ::
        (orderPass ((start + n, (entered.dropWhile (·.1 < start)).length) ::
          entered.dropWhile (·.1 < start)) l).1 := by
  rw [orderPass_cons_some hn, (h.dropWhile start).nextOrder_eq]

lemma map_fst_dropWhile (entered : List (ℕ × ℕ)) (s : ℕ) :
    (entered.dropWhile (·.1 < s)).map Prod.fst = (entered.map Prod.fst).dropWhile (· < s) := by
  rw [List.dropWhile_map]
  rfl

/-- What comes out of the pass starts where what went in does. -/
lemma lt_of_mem_orderPass (h : ∀ y ∈ l, start < y.1) {x : ℕ × Entry}
    (hx : x ∈ (orderPass entered l).1) : start < x.1 := by
  have hmem : x.1 ∈ l.map Prod.fst := by
    rw [← map_fst_orderPass entered l]
    exact List.mem_map_of_mem hx
  obtain ⟨y, hy, hyx⟩ := List.mem_map.mp hmem
  exact hyx ▸ h y hy

/-- No pair of a list starts before all of its brackets. -/
lemma filter_pairs_eq_nil {p : ℕ} (h : ∀ x ∈ l, p ≤ x.1) :
    (l.filterMap pair?).filter (·.1 < p) = [] := by
  rw [List.filter_eq_nil_iff]
  intro y hy
  obtain ⟨x, hx, hxy⟩ := List.mem_filterMap.mp hy
  obtain ⟨q, -, rfl⟩ := Option.map_eq_some_iff.mp hxy
  simpa using h x hx

/-- **Heights.**  The order that a pair is given is the number of ends that are left where it
starts. -/
lemma order_orderPass_eq_length (hs : Numbered entered) (hl : l.Pairwise fun x y => x.1 < y.1) :
    ∀ x ∈ (orderPass entered l).1, x.2.order = x.2.length.map fun _ =>
      ((((l.filterMap pair?).filter (·.1 < x.1)).foldl enterPair (entered.map Prod.fst)).dropWhile
        (· < x.1)).length := by
  induction l generalizing entered with
  | nil => simp [orderPass]
  | cons y l ih =>
      obtain ⟨start, e⟩ := y
      obtain ⟨hhead, htail⟩ := List.pairwise_cons.mp hl
      intro x hx
      cases hn : e.length with
      | none =>
          -- a bracket without partner leaves the stack alone and is no pair of the list
          have hpair : pair? (start, e) = none := by simp [pair?, Entry.end?, hn]
          rw [orderPass_cons_none hn] at hx
          rcases List.mem_cons.mp hx with rfl | hx
          · rw [hn]
            rfl
          · rw [List.filterMap_cons_none hpair]
            exact ih hs htail x hx
      | some n =>
          have hpair : pair? (start, e) = some (start, start + n) := by
            simp [pair?, Entry.end?, hn]
          rw [hs.fst_orderPass_cons hn] at hx
          rcases List.mem_cons.mp hx with rfl | hx
          · have hfirst : (((start, e) :: l).filterMap pair?).filter (·.1 < start) = [] :=
              filter_pairs_eq_nil (List.forall_mem_cons.mpr ⟨le_rfl, fun x hx => (hhead x hx).le⟩)
            rw [hfirst, List.foldl_nil, ← map_fst_dropWhile, List.length_map, hn]
            rfl
          · have hlt := lt_of_mem_orderPass hhead hx
            rw [ih (.cons (hs.dropWhile start)) htail x hx, List.filterMap_cons_some hpair,
              List.filter_cons_of_pos (by simpa using hlt), List.foldl_cons, enterPair,
              List.map_cons, map_fst_dropWhile]

/-! ### Orders count enclosing pairs -/

/-- The pair starts before `s` and does not end before it. -/
def encloses (s : ℕ) (x : ℕ × Entry) : Bool := x.1 < s && (x.2.end? x.1).any (s ≤ ·)

/-- The second pair, starting later, starts behind the first or ends inside it. -/
def Laminar (x y : ℕ × Entry) : Prop :=
  ∀ q r, x.2.end? x.1 = some q → y.2.end? y.1 = some r → q < y.1 ∨ r ≤ q

section Rising

variable {ends : List ℕ} {pairs : List (ℕ × ℕ)} {q s t : ℕ}

/-- Of ends that rise from top to bottom, none that is passed is left. -/
lemma le_of_mem_dropWhile (h : ends.Pairwise (· ≤ ·)) (hq : q ∈ ends.dropWhile (· < s)) :
    s ≤ q := by
  induction ends with
  | nil => simp at hq
  | cons r below ih =>
      obtain ⟨htop, hbelow⟩ := List.pairwise_cons.mp h
      rw [List.dropWhile_cons] at hq
      split at hq
      · exact ih hbelow hq
      · rename_i hr
        have hsr : s ≤ r := by simpa using hr
        rcases List.mem_cons.mp hq with rfl | hq
        · exact hsr
        · exact hsr.trans (htop q hq)

/-- Taking away ends before `s` does not change how many reach behind `s`. -/
lemma countP_dropWhile (hst : s ≤ t) :
    (ends.dropWhile (· < s)).countP (t ≤ ·) = ends.countP (t ≤ ·) := by
  induction ends with
  | nil => rfl
  | cons r below ih =>
      rw [List.dropWhile_cons]
      split
      · rename_i hr
        have hrs : r < s := by simpa using hr
        rw [ih, List.countP_cons_of_neg (by simpa using lt_of_lt_of_le hrs hst)]
      · rfl

/-- Where the ends rise, as many are left at `s` as reach it. -/
lemma length_dropWhile_of_rising (h : ends.Pairwise (· ≤ ·)) (s : ℕ) :
    (ends.dropWhile (· < s)).length = ends.countP (s ≤ ·) := by
  have hall : ∀ q ∈ ends.dropWhile (· < s), decide (s ≤ q) = true := fun q hq =>
    decide_eq_true (le_of_mem_dropWhile h hq)
  calc (ends.dropWhile (· < s)).length
      = (ends.dropWhile (· < s)).countP (s ≤ ·) := (List.countP_eq_length.mpr hall).symm
    _ = ends.countP (s ≤ ·) := countP_dropWhile le_rfl

/-- Of the pairs that start before `s`, all that reach it are on the stack. -/
lemma countP_foldl_enterPair (h : ∀ x ∈ pairs, x.1 ≤ s) :
    (pairs.foldl enterPair ends).countP (s ≤ ·) =
      ends.countP (s ≤ ·) + pairs.countP (s ≤ ·.2) := by
  induction pairs generalizing ends with
  | nil => rfl
  | cons x pairs ih =>
      obtain ⟨hx, hpairs⟩ := List.forall_mem_cons.mp h
      rw [List.foldl_cons, ih hpairs, enterPair, List.countP_cons, List.countP_cons,
        countP_dropWhile hx]
      ring

/-- Where no two pairs cross, the ends on the stack rise. -/
lemma rising_foldl_enterPair (hends : ends.Pairwise (· ≤ ·))
    (hpairs : pairs.Pairwise fun x y => x.2 < y.1 ∨ y.2 ≤ x.2)
    (hin : ∀ q ∈ ends, ∀ y ∈ pairs, q < y.1 ∨ y.2 ≤ q) :
    (pairs.foldl enterPair ends).Pairwise (· ≤ ·) := by
  induction pairs generalizing ends with
  | nil => exact hends
  | cons x pairs ih =>
      obtain ⟨hhead, htail⟩ := List.pairwise_cons.mp hpairs
      have hsub : ends.dropWhile (· < x.1) ⊆ ends := (List.dropWhile_sublist _).subset
      refine ih (List.pairwise_cons.mpr ⟨fun q hq => ?_, ?_⟩) htail ?_
      · -- an end that is left is not passed, so the new pair ends inside
        have hxq := le_of_mem_dropWhile hends hq
        exact (hin q (hsub hq) x List.mem_cons_self).resolve_left (Nat.not_lt.mpr hxq)
      · exact hends.sublist (List.dropWhile_sublist _)
      · exact List.forall_mem_cons.mpr
          ⟨hhead, fun q hq y hy => hin q (hsub hq) y (List.mem_cons_of_mem _ hy)⟩

end Rising

/-- Pairs that do not cross are so by their starts and ends. -/
lemma pairwise_filterMap_pair? (h : l.Pairwise Laminar) :
    (l.filterMap pair?).Pairwise fun x y => x.2 < y.1 ∨ y.2 ≤ x.2 := by
  refine h.filterMap pair? fun x y hxy a ha b hb => ?_
  obtain ⟨q, hq, rfl⟩ := Option.map_eq_some_iff.mp ha
  obtain ⟨r, hr, rfl⟩ := Option.map_eq_some_iff.mp hb
  exact hxy q r hq hr

/-- The brackets that enclose a position are the pairs before it that reach it. -/
lemma countP_encloses (l : List (ℕ × Entry)) (s : ℕ) :
    ((l.filterMap pair?).filter (·.1 < s)).countP (s ≤ ·.2) = l.countP (encloses s) := by
  rw [List.countP_filter, List.countP_filterMap]
  refine List.countP_congr fun x _ => ?_
  rw [encloses, pair?]
  cases x.2.end? x.1 with
  | none => simp
  | some q => simp [and_comm]

/-- **Nesting.**  Where no two pairs of an index cross, the orders count the enclosing pairs. -/
lemma Index.order_reorder {idx : Index} (hl : idx.entries.Pairwise Laminar) {p : ℕ} {e : Entry}
    (h : idx.reorder.1.get? p = some e) :
    e.order = e.length.map fun _ => idx.entries.countP (encloses p) := by
  have horder := order_orderPass_eq_length .nil (List.pairwise_map.mp idx.ascending) (p, e)
    (NatMap.mem_entries.mpr h)
  have hpairs := (pairwise_filterMap_pair? hl).filter (·.1 < p)
  have hrising := rising_foldl_enterPair .nil hpairs fun q hq => absurd hq List.not_mem_nil
  have hbefore : ∀ x ∈ (idx.entries.filterMap pair?).filter (·.1 < p), x.1 ≤ p := fun x hx =>
    (of_decide_eq_true (List.mem_filter.mp hx).2).le
  rw [horder, List.map_nil, length_dropWhile_of_rising hrising, countP_foldl_enterPair hbefore,
    countP_encloses, List.countP_nil, Nat.zero_add]

end RainbowBrackets
