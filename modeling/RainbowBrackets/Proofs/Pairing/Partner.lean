import RainbowBrackets.Proofs.Document.Truth
import RainbowBrackets.Proofs.Pairing.Stack

/-!
Partners.

A partner is searched for by counting, from an opening bracket to the right and from a closing one
to the left, and the two searches never see the same text.  They agree all the same, since both find
the pairs of the one pass with a stack.

* `IsPair.right_unique`, `IsPair.disjoint_or_nested`: a bracket is in one pair at most, and two
  pairs of one kind lie side by side or one strictly inside the other;
* `partner_eq_some_iff_isPair`: the partner of a bracket, whichever end of a pair it is;
* `seek`: the search with a signed counter that starts at the bracket itself; the counter never
  falls below zero, and the search finds the partner (`Document.seekFrom_eq`);
* `Document.PairedByStack`, `Document.pairedByStack` (**partners**): all of this, of the pairs that
  the pass with a stack finds.
-/

namespace RainbowBrackets

variable {k : Kind} {cells : List (Char × Bool)} {d : Document} {a b p q : ℕ}

/-! ### Pairs of one kind -/

namespace IsPair

/-- A bracket that opens a pair is closed by no other bracket than its partner. -/
lemma right_unique (h : IsPair k cells a b) (h' : IsPair k cells a q) : b = q :=
  Option.some_inj.mp (((partnerIn_opener_iff h.opener).mpr h).symm.trans
    ((partnerIn_opener_iff h.opener).mpr h'))

/-- Two pairs lie side by side, or one strictly inside the other. -/
lemma disjoint_or_nested (h : IsPair k cells a b) (h' : IsPair k cells p q)
    (hne : (a, b) ≠ (p, q)) : b < p ∨ q < a ∨ (a < p ∧ q < b) ∨ (p < a ∧ b < q) := by
  rcases Nat.lt_trichotomy a p with hap | rfl | hpa
  · exact (h.lt_or_nested h' hap).imp_right fun hqb => .inr (.inl ⟨hap, hqb⟩)
  · exact absurd (by rw [h.right_unique h']) hne
  · exact .inr ((h'.lt_or_nested h hpa).imp_right fun hbq => .inr ⟨hpa, hbq⟩)

end IsPair

/-- A partner is the other end of a pair. -/
lemma partner_eq_some_iff_isPair :
    d.partner p = some q ↔ ∃ k, IsPair k d.cells p q ∨ IsPair k d.cells q p := by
  constructor
  · intro h
    have hp := h
    rw [Document.partner, partnerIn] at hp
    split at hp
    · rename_i c hcell
      split at hp
      · cases hp
      · rename_i k hk
        refine ⟨k, ?_⟩
        rcases Kind.ofChar?_eq_some_iff.mp hk with rfl | rfl
        · exact .inl ((partnerIn_opener_iff hcell).mp h)
        · exact .inr ((partnerIn_closer_iff hcell).mp h)
    · cases hp
  · rintro ⟨k, h | h⟩
    · exact (partnerIn_opener_iff h.opener).mpr h
    · exact (partnerIn_closer_iff h.closer).mpr h

/-! ### The search with a counter -/

/-- The search for a partner with a signed counter, from the bracket itself on: the values that the
counter takes, and the number of characters before the one at which it is back at zero.  `same`
counts up and `mate` counts down; only program text counts. -/
def seek (same mate : Char) : ℤ → ℕ → List (Char × Bool) → List ℤ × Option ℕ
  | _, _, [] => ([], none)
  | depth, steps, x :: rest =>
      if x = (same, true) then
        let found := seek same mate (depth + 1) (steps + 1) rest
        ((depth + 1) :: found.1, found.2)
      else if x = (mate, true) then
        if depth - 1 = 0 then ([0], some steps)
        else
          let found := seek same mate (depth - 1) (steps + 1) rest
          ((depth - 1) :: found.1, found.2)
      else seek same mate depth (steps + 1) rest

section Seek

variable {same mate : Char}

/-- Behind the first bracket the counter is one ahead of the number of brackets that wait for
their partner, so it reaches zero where that number would fall below zero, and not before. -/
lemma seek_succ (hne : mate ≠ same) (depth steps : ℕ) (rest : List (Char × Bool)) :
    (seek same mate (depth + 1) steps rest).2 = stepsToMate same mate depth steps rest ∧
      ∀ z ∈ (seek same mate (depth + 1) steps rest).1, 0 ≤ z := by
  induction rest generalizing depth steps with
  | nil => simp [seek, stepsToMate]
  | cons x rest ih =>
      -- the three kinds of step are those of the search without a sign, with the counter one ahead
      by_cases hs : x = (same, true)
      · obtain ⟨hfound, hpos⟩ := ih (depth + 1) (steps + 1)
        push_cast at hfound hpos
        rw [seek, if_pos hs, hs, stepsToMate_cons_same]
        refine ⟨hfound, List.forall_mem_cons.mpr ⟨by omega, hpos⟩⟩
      by_cases hm : x = (mate, true)
      · rw [seek, if_neg hs, if_pos hm, hm]
        cases depth with
        | zero => simp [stepsToMate_cons_mate_zero hne]
        | succ depth =>
            obtain ⟨hfound, hpos⟩ := ih depth (steps + 1)
            have hdepth : ((depth + 1 : ℕ) : ℤ) + 1 - 1 = depth + 1 := by push_cast; ring
            rw [hdepth, if_neg (by omega), stepsToMate_cons_mate_succ hne]
            exact ⟨hfound, List.forall_mem_cons.mpr ⟨by omega, hpos⟩⟩
      · rw [seek, if_neg hs, if_neg hm, stepsToMate_cons_other hs hm]
        exact ih depth (steps + 1)

lemma stepsToMate_succ_steps (depth steps : ℕ) (rest : List (Char × Bool)) :
    stepsToMate same mate depth (steps + 1) rest
      = (stepsToMate same mate depth steps rest).map (· + 1) := by
  induction rest generalizing depth steps with
  | nil => rfl
  | cons x rest ih =>
      obtain ⟨c, code⟩ := x
      cases depth <;> simp only [stepsToMate, ih] <;> split_ifs <;> rfl

/-- The search from a bracket on finds its partner one character after the search from behind
it. -/
lemma seek_self (hne : mate ≠ same) (rest : List (Char × Bool)) :
    (seek same mate 0 0 ((same, true) :: rest)).2
        = (stepsToMate same mate 0 0 rest).map (· + 1) ∧
      ∀ z ∈ (seek same mate 0 0 ((same, true) :: rest)).1, 0 ≤ z := by
  obtain ⟨hfound, hpos⟩ := seek_succ hne 0 1 rest
  rw [seek, if_pos rfl]
  refine ⟨?_, List.forall_mem_cons.mpr ⟨by omega, by simpa using hpos⟩⟩
  simpa [stepsToMate_succ_steps] using hfound

end Seek

/-- The search for the partner of the bracket at `p` with a signed counter: to the right from an
opening bracket, and to the left from a closing one. -/
def Document.seekFrom (d : Document) (p : ℕ) : List ℤ × Option ℕ :=
  match d.cells[p]? with
  | some (c, true) =>
    match Kind.ofChar? c with
    | none => ([], none)
    | some k =>
      if c = k.opener then
        let found := seek k.opener k.closer 0 0 (d.cells.drop p)
        (found.1, found.2.map (p + ·))
      else
        let found := seek k.closer k.opener 0 0 (d.cells.take (p + 1)).reverse
        (found.1, found.2.map (p - ·))
  | _ => ([], none)

namespace Document

/-- The search to the right, from an opening bracket. -/
lemma seekFrom_opener (h : d.cells[p]? = some (k.opener, true)) :
    (d.seekFrom p).2 = d.partner p ∧ ∀ z ∈ (d.seekFrom p).1, 0 ≤ z := by
  have hdrop : d.cells.drop p = (k.opener, true) :: d.cells.drop (p + 1) := by
    obtain ⟨hp, hx⟩ := List.getElem?_eq_some_iff.mp h
    rw [List.drop_eq_getElem_cons hp, hx]
  obtain ⟨hfound, hpos⟩ := seek_self (Kind.opener_ne_closer k k).symm (d.cells.drop (p + 1))
  simp only [seekFrom, h, Kind.ofChar?_opener, if_true, hdrop]
  refine ⟨?_, hpos⟩
  rw [hfound, Option.map_map, partner_of_opener h]
  exact congrArg (Option.map · _) (funext fun n => by simp only [Function.comp_apply]; omega)

/-- The search to the left, from a closing bracket. -/
lemma seekFrom_closer (h : d.cells[p]? = some (k.closer, true)) :
    (d.seekFrom p).2 = d.partner p ∧ ∀ z ∈ (d.seekFrom p).1, 0 ≤ z := by
  have hne := Kind.opener_ne_closer k k
  have htake : (d.cells.take (p + 1)).reverse = (k.closer, true) :: (d.cells.take p).reverse := by
    rw [List.take_add_one, h, Option.toList_some, List.reverse_append]
    rfl
  obtain ⟨hfound, hpos⟩ := seek_self hne (d.cells.take p).reverse
  -- `partnerIn` counts from behind the bracket to the left
  have hpartner : d.partner p
      = (stepsToMate k.closer k.opener 0 0 (d.cells.take p).reverse).map fun n => p - 1 - n := by
    rw [partner, partnerIn, h]
    simp only [Kind.ofChar?_closer, if_neg hne.symm]
  simp only [seekFrom, h, Kind.ofChar?_closer, if_neg hne.symm, htake]
  refine ⟨?_, hpos⟩
  rw [hfound, Option.map_map, hpartner]
  exact congrArg (Option.map · _) (funext fun n => by simp only [Function.comp_apply]; omega)

/-- The search with a counter finds the partner, and its counter never falls below zero. -/
lemma seekFrom_eq (d : Document) (p : ℕ) :
    (d.seekFrom p).2 = d.partner p ∧ ∀ z ∈ (d.seekFrom p).1, 0 ≤ z := by
  rcases hcell : d.cells[p]? with _ | ⟨c, _ | _⟩
  · simp [seekFrom, partner, partnerIn, hcell]
  · simp [seekFrom, partner, partnerIn, hcell]
  · cases hk : Kind.ofChar? c with
    | none => simp [seekFrom, partner, partnerIn, hcell, hk]
    | some k =>
        rcases Kind.ofChar?_eq_some_iff.mp hk with rfl | rfl
        · exact seekFrom_opener hcell
        · exact seekFrom_closer hcell

end Document

/-! ### Partners and the pass with a stack -/

/-- Partners are what the pass with a stack pairs. -/
structure Document.PairedByStack (d : Document) : Prop where
  /-- The partner of a position is what the pass over the brackets of its kind pairs it with. -/
  partner_eq_some_iff : ∀ p q, d.partner p = some q ↔
    ∃ k, d.text[p]?.bind Kind.ofChar? = some k ∧ ((p, q) ∈ d.pairs k ∨ (q, p) ∈ d.pairs k)
  /-- There is none past the end, of a character that is no bracket, outside program text, or of a
  bracket that the pass leaves alone. -/
  partner_eq_none_iff : ∀ p, d.partner p = none ↔ d.length ≤ p ∨
    (∃ c, d.text[p]? = some c ∧ Kind.isBracket c = false) ∨ d.host.isCode p = false ∨
    ∀ k q, (p, q) ∉ d.pairs k ∧ (q, p) ∉ d.pairs k
  /-- A bracket is the partner of its partner. -/
  symm : ∀ p q, d.partner p = some q ↔ d.partner q = some p
  /-- In program text, an opening bracket pairs with a closing one of its kind that is strictly
  behind it. -/
  ends : ∀ k a b, (a, b) ∈ d.pairs k →
    a < b ∧ d.cells[a]? = some (k.opener, true) ∧ d.cells[b]? = some (k.closer, true)
  /-- Two pairs of one kind lie side by side, or one strictly inside the other. -/
  disjoint_or_nested : ∀ k, ∀ x ∈ d.pairs k, ∀ y ∈ d.pairs k, x ≠ y →
    x.2 < y.1 ∨ y.2 < x.1 ∨ (x.1 < y.1 ∧ y.2 < x.2) ∨ (y.1 < x.1 ∧ x.2 < y.2)
  /-- The counter of the search from any position never falls below zero. -/
  counter : ∀ p, (d.seekFrom p).2 = d.partner p ∧ ∀ z ∈ (d.seekFrom p).1, 0 ≤ z

namespace Document

lemma partner_eq_some_iff_pairs :
    d.partner p = some q ↔ ∃ k, (p, q) ∈ d.pairs k ∨ (q, p) ∈ d.pairs k := by
  simp only [partner_eq_some_iff_isPair, mem_pairs_iff]

/-- Both ends of a pair hold a bracket of its kind, in program text. -/
lemma ofChar?_of_mem_pairs (h : (p, q) ∈ d.pairs k ∨ (q, p) ∈ d.pairs k) :
    ∃ c, d.cells[p]? = some (c, true) ∧ Kind.ofChar? c = some k := by
  rcases h with h | h
  · exact ⟨k.opener, (mem_pairs_iff.mp h).opener, Kind.ofChar?_opener k⟩
  · exact ⟨k.closer, (mem_pairs_iff.mp h).closer, Kind.ofChar?_closer k⟩

/-- **Partners.**  In every document, whatever its text and its flags, the searches for a partner
find the pairs of one pass from left to right with a stack. -/
theorem pairedByStack (d : Document) : d.PairedByStack where
  partner_eq_some_iff p q := by
    rw [partner_eq_some_iff_pairs]
    refine exists_congr fun k => (and_iff_right_of_imp fun h => ?_).symm
    obtain ⟨c, hcell, hk⟩ := ofChar?_of_mem_pairs h
    rw [(getElem?_cells_eq_some_iff.mp hcell).1]
    exact hk
  partner_eq_none_iff p := by
    constructor
    · intro h
      refine .inr (.inr (.inr fun k q => not_or.mp fun hpq => ?_))
      rw [partner_eq_some_iff_pairs.mpr ⟨k, hpq⟩] at h
      cases h
    · intro h
      rw [Option.eq_none_iff_forall_not_mem]
      intro q hq
      obtain ⟨k, hpq⟩ := partner_eq_some_iff_pairs.mp hq
      obtain ⟨c, hcell, hk⟩ := ofChar?_of_mem_pairs hpq
      obtain ⟨htext, hmask⟩ := getElem?_cells_eq_some_iff.mp hcell
      rcases h with h | ⟨c', hc', h⟩ | h | h
      · exact Nat.not_lt.mpr h (List.getElem?_eq_some_iff.mp htext).1
      · obtain rfl := Option.some_inj.mp (htext.symm.trans hc')
        rw [Kind.isBracket, hk] at h
        cases h
      · rw [host_isCode, hmask] at h
        cases h
      · exact not_or.mpr (h k q) hpq
  symm p q := by
    rw [partner_eq_some_iff_pairs, partner_eq_some_iff_pairs]
    exact exists_congr fun k => or_comm
  ends k a b h :=
    have hab := mem_pairs_iff.mp h
    ⟨hab.lt, hab.opener, hab.closer⟩
  disjoint_or_nested k x hx y hy hne :=
    (mem_pairs_iff.mp hx).disjoint_or_nested (mem_pairs_iff.mp hy) hne
  counter := d.seekFrom_eq

end Document

end RainbowBrackets
