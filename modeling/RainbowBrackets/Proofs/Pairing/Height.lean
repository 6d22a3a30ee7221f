import Mathlib.Tactic
import RainbowBrackets.Document

/-!
Pairing by height.

The height of a position is the number of brackets of one kind that were opened in program
text before it, minus those that were closed.  Two brackets pair if the height comes back to
where it was before the first of them, and stays above in between.  The condition reads the
same from either end, which is what the two counting searches have in common.

* `height`: the height before a position;
* `IsPair`: the brackets at two positions pair; `IsPair.lt_or_nested`: pairs do not cross;
* `stepsToMate_eq_some_iff` (**one search**): with cells in any order and a count that they raise
  and lower, the search stops where the count first comes down to zero (`Meets`);
* `heightBehind`, `heightBefore`: the counts of the search to the right and of that to the left,
  which are heights;
* `partnerIn_opener_iff`, `partnerIn_closer_iff`: the partner of a bracket, from either end;
  with the latter the right end of a pair determines the left one (`IsPair.left_unique`).
-/

namespace RainbowBrackets

/-- What a character does to the number of open brackets of kind `k`. -/
def Kind.rise (k : Kind) (x : Char × Bool) : ℤ :=
  if x = (k.opener, true) then 1 else if x = (k.closer, true) then -1 else 0

/-- The brackets of kind `k` opened before a position, minus those closed before it. -/
def height (k : Kind) (cells : List (Char × Bool)) : ℕ → ℤ
  | 0 => 0
  | p + 1 => height k cells p + (cells[p]?.map k.rise).getD 0

/-- The bracket at `p` opens, the one at `q` closes, and they pair. -/
structure IsPair (k : Kind) (cells : List (Char × Bool)) (p q : ℕ) : Prop where
  opener : cells[p]? = some (k.opener, true)
  closer : cells[q]? = some (k.closer, true)
  lt : p < q
  height_eq : height k cells (q + 1) = height k cells p
  above : ∀ i, p < i → i ≤ q → height k cells p < height k cells i

variable {k : Kind} {cells : List (Char × Bool)}

/-! ### Heights -/

lemma opener_pair_ne_closer (k : Kind) : (k.opener, true) ≠ (k.closer, true) := fun h =>
  Kind.opener_ne_closer k k (congrArg Prod.fst h)

/-- An opening and a closing bracket stand at different positions. -/
lemma ne_of_opener_of_closer {p q : ℕ} (hp : cells[p]? = some (k.opener, true))
    (hq : cells[q]? = some (k.closer, true)) : p ≠ q := by
  rintro rfl
  exact opener_pair_ne_closer k (Option.some_inj.mp (hp.symm.trans hq))

lemma height_succ {p : ℕ} {x : Char × Bool} (h : cells[p]? = some x) :
    height k cells (p + 1) = height k cells p + k.rise x := by
  rw [height, h]
  rfl

lemma height_succ_of_opener {p : ℕ} (h : cells[p]? = some (k.opener, true)) :
    height k cells (p + 1) = height k cells p + 1 := by
  rw [height_succ h, Kind.rise, if_pos rfl]

lemma height_succ_of_closer {p : ℕ} (h : cells[p]? = some (k.closer, true)) :
    height k cells (p + 1) = height k cells p - 1 := by
  rw [height_succ h, Kind.rise, if_neg (opener_pair_ne_closer k).symm, if_pos rfl]
  ring

lemma height_succ_of_other {p : ℕ} {x : Char × Bool} (h : cells[p]? = some x)
    (ho : x ≠ (k.opener, true)) (hc : x ≠ (k.closer, true)) :
    height k cells (p + 1) = height k cells p := by
  rw [height_succ h, Kind.rise, if_neg ho, if_neg hc, add_zero]

/-- Pairs of one kind do not cross: the one that opens inside another closes inside it. -/
lemma IsPair.lt_of_lt {a b p q : ℕ} (h : IsPair k cells a b) (h' : IsPair k cells p q)
    (hap : a < p) (hpb : p < b) : q < b := by
  -- where the second pair starts the height is above the first, and it ends at that height
  by_contra hbq
  have h1 := h.above p hap (by omega)
  have h2 := h.height_eq
  rcases Nat.lt_or_ge b q with hlt | hge
  · have h3 := h'.above (b + 1) (by omega) (by omega)
    omega
  · obtain rfl : b = q := by omega
    have h3 := h'.height_eq
    omega

/-- Of two pairs, the one that starts later lies behind the other or strictly inside it. -/
lemma IsPair.lt_or_nested {a b p q : ℕ} (h : IsPair k cells a b) (h' : IsPair k cells p q)
    (hap : a < p) : b < p ∨ q < b := by
  rcases Nat.lt_trichotomy b p with hbp | rfl | hpb
  · exact .inl hbp
  · exact absurd rfl (ne_of_opener_of_closer h'.opener h.closer)
  · exact .inr (h.lt_of_lt h' hap hpb)

/-! ### One step of a search -/

section Step

variable {same mate : Char} {depth steps : ℕ} {rest : List (Char × Bool)}

lemma stepsToMate_cons_same : stepsToMate same mate depth steps ((same, true) :: rest)
    = stepsToMate same mate (depth + 1) (steps + 1) rest := by
  cases depth <;> simp [stepsToMate]

lemma stepsToMate_cons_mate_zero (h : mate ≠ same) :
    stepsToMate same mate 0 steps ((mate, true) :: rest) = some steps := by
  simp [stepsToMate, h]

lemma stepsToMate_cons_mate_succ (h : mate ≠ same) :
    stepsToMate same mate (depth + 1) steps ((mate, true) :: rest)
      = stepsToMate same mate depth (steps + 1) rest := by
  simp [stepsToMate, h]

lemma stepsToMate_cons_other {x : Char × Bool} (hs : x ≠ (same, true)) (hm : x ≠ (mate, true)) :
    stepsToMate same mate depth steps (x :: rest)
      = stepsToMate same mate depth (steps + 1) rest := by
  obtain ⟨c, code⟩ := x
  have h1 : (code && decide (c = same)) = false := by
    simpa using fun h h' => hs (by rw [h, h'])
  have h2 : (code && decide (c = mate)) = false := by
    simpa using fun h h' => hm (by rw [h, h'])
  cases depth <;> rw [stepsToMate, h1, h2] <;> rfl

end Step

/-! ### The search -/

/-- What a character does to a count that `same` raises and `mate` lowers. -/
def swing (same mate : Char) (x : Char × Bool) : ℤ :=
  if x = (same, true) then 1 else if x = (mate, true) then -1 else 0

/-- At `i` the count `h`, taken before each character, first comes down to zero. -/
structure Meets (mate : Char) (l : List (Char × Bool)) (h : ℕ → ℤ) (i : ℕ) : Prop where
  mate : l[i]? = some (mate, true)
  zero : h (i + 1) = 0
  above : ∀ j ≤ i, 0 < h j

section Search

variable {same mate : Char} {l rest : List (Char × Bool)} {x : Char × Bool} {h : ℕ → ℤ}
  {depth steps n i : ℕ}

/-- A first character that leaves the count above zero can be skipped. -/
lemma exists_meets_cons_iff (h0 : 0 < h 0) (h1 : 0 < h 1) :
    (∃ i, Meets mate (x :: rest) h i ∧ n = steps + i) ↔
      ∃ i, Meets mate rest (fun j => h (j + 1)) i ∧ n = steps + 1 + i := by
  constructor
  · rintro ⟨i, hi, rfl⟩
    cases i with
    | zero => exact absurd hi.zero h1.ne'
    | succ i => exact ⟨i, ⟨hi.mate, hi.zero, fun j hj => hi.above (j + 1) (by omega)⟩, by omega⟩
  · rintro ⟨i, hi, rfl⟩
    refine ⟨i + 1, ⟨hi.mate, hi.zero, fun j hj => ?_⟩, by omega⟩
    cases j with
    | zero => exact h0
    | succ j => exact hi.above j (by omega)

/-- A first character that brings the count down to zero is where it does. -/
lemma meets_cons_iff_of_zero (h0 : 0 < h 0) (h1 : h 1 = 0) :
    Meets mate ((mate, true) :: rest) h i ↔ i = 0 := by
  constructor
  · intro hi
    by_contra hne
    exact absurd (hi.above 1 (by omega)) (by omega)
  · rintro rfl
    refine ⟨rfl, h1, fun j hj => ?_⟩
    obtain rfl : j = 0 := by omega
    exact h0

/-- **One search.**  With as many brackets open as the count says, the search stops where the count
first comes down to zero. -/
lemma stepsToMate_eq_some_iff (hne : mate ≠ same)
    (hcount : ∀ i x, l[i]? = some x → h (i + 1) = h i + swing same mate x)
    (hstart : h 0 = depth + 1) :
    stepsToMate same mate depth steps l = some n ↔ ∃ i, Meets mate l h i ∧ n = steps + i := by
  induction l generalizing h depth steps with
  | nil =>
      refine ⟨fun hn => by simp [stepsToMate] at hn, ?_⟩
      rintro ⟨i, hi, -⟩
      exact absurd hi.mate (by simp)
  | cons x rest ih =>
      have hfirst : h 1 = h 0 + swing same mate x := hcount 0 x rfl
      have hrest : ∀ i y, rest[i]? = some y → h (i + 1 + 1) = h (i + 1) + swing same mate y :=
        fun i y hy => hcount (i + 1) y hy
      -- unless the first character is the one that is searched for, it changes the depth at most
      have skip : ∀ d : ℕ, h 1 = d + 1 →
          (stepsToMate same mate d (steps + 1) rest = some n ↔
            ∃ i, Meets mate (x :: rest) h i ∧ n = steps + i) := by
        intro d hd
        rw [exists_meets_cons_iff (by omega) (by omega)]
        exact ih hrest hd
      by_cases hs : x = (same, true)
      · rw [hs, swing, if_pos rfl] at hfirst
        rw [← skip (depth + 1) (by push_cast; omega), hs, stepsToMate_cons_same]
      by_cases hm : x = (mate, true)
      · rw [swing, if_neg hs, if_pos hm] at hfirst
        subst hm
        cases depth with
        | zero =>
            have hmeets : ∀ i, Meets mate ((mate, true) :: rest) h i ↔ i = 0 := fun i =>
              meets_cons_iff_of_zero (by omega) (by push_cast at hstart; omega)
            simp only [stepsToMate_cons_mate_zero hne, Option.some_inj, hmeets, exists_eq_left,
              Nat.add_zero, eq_comm]
        | succ depth =>
            rw [← skip depth (by push_cast at hstart; omega), stepsToMate_cons_mate_succ hne]
      · rw [swing, if_neg hs, if_neg hm] at hfirst
        rw [← skip depth (by omega), stepsToMate_cons_other hs hm]

end Search

/-! ### The partner of a bracket -/

/-- The heights behind the bracket at `p` from left to right, over the one before it. -/
def heightBehind (k : Kind) (cells : List (Char × Bool)) (p i : ℕ) : ℤ :=
  height k cells (p + 1 + i) - height k cells p

/-- The heights before the bracket at `q` from right to left, over the one behind it. -/
def heightBefore (k : Kind) (cells : List (Char × Bool)) (q i : ℕ) : ℤ :=
  height k cells (q - i) - height k cells (q + 1)

lemma heightBehind_succ {p i : ℕ} {x : Char × Bool} (hx : (cells.drop (p + 1))[i]? = some x) :
    heightBehind k cells p (i + 1) = heightBehind k cells p i + swing k.opener k.closer x := by
  rw [List.getElem?_drop] at hx
  rw [heightBehind, ← Nat.add_assoc, height_succ hx, heightBehind, Kind.rise, swing]
  ring

/-- Reading a text from a position back to its start. -/
lemma getElem?_reverse_take_eq_some_iff {α : Type} {l : List α} {q i : ℕ} {x : α}
    (hq : q ≤ l.length) :
    (l.take q).reverse[i]? = some x ↔ i < q ∧ l[q - 1 - i]? = some x := by
  have hlen : (l.take q).length = q := List.length_take_of_le hq
  rcases Nat.lt_or_ge i q with hi | hi
  · rw [List.getElem?_reverse (by omega), hlen, List.getElem?_take_of_lt (by omega),
      and_iff_right hi]
  · rw [List.getElem?_eq_none (by rw [List.length_reverse]; omega)]
    simp [Nat.not_lt.mpr hi]

/-- Read backwards, closing brackets raise the height and opening ones lower it. -/
lemma heightBefore_succ {q i : ℕ} {x : Char × Bool} (hq : q ≤ cells.length)
    (hx : (cells.take q).reverse[i]? = some x) :
    heightBefore k cells q (i + 1) = heightBefore k cells q i + swing k.closer k.opener x := by
  obtain ⟨hi, hx⟩ := (getElem?_reverse_take_eq_some_iff hq).mp hx
  have hrise := height_succ (k := k) hx
  -- backwards a bracket counts the other way around, and it is not both
  have hswing : swing k.closer k.opener x = -k.rise x := by
    have hne := opener_pair_ne_closer k
    rw [swing, Kind.rise]
    split_ifs with hc ho
    · exact absurd (ho.symm.trans hc) hne
    · rfl
    · rfl
    · rfl
  rw [show q - 1 - i + 1 = q - i from by omega] at hrise
  rw [heightBefore, heightBefore, hswing, show q - (i + 1) = q - 1 - i from by omega, hrise]
  ring

/-- Going right, the height comes down to that of an opening bracket where it pairs. -/
lemma meets_heightBehind_iff {p i : ℕ} (h : cells[p]? = some (k.opener, true)) :
    Meets k.closer (cells.drop (p + 1)) (heightBehind k cells p) i ↔
      IsPair k cells p (p + 1 + i) := by
  constructor
  · rintro ⟨hmate, hzero, habove⟩
    rw [List.getElem?_drop] at hmate
    refine ⟨h, hmate, by omega, sub_eq_zero.mp hzero, fun j hpj hj => ?_⟩
    have hlt := sub_pos.mp (habove (j - (p + 1)) (by omega))
    rwa [show p + 1 + (j - (p + 1)) = j from by omega] at hlt
  · rintro ⟨-, hcloser, -, hheight, habove⟩
    refine ⟨by rw [List.getElem?_drop, hcloser], sub_eq_zero.mpr hheight, fun j hj => ?_⟩
    exact sub_pos.mpr (habove (p + 1 + j) (by omega) (by omega))

/-- Going left, the height comes down to that of a closing bracket where it pairs. -/
lemma meets_heightBefore_iff {q i : ℕ} (h : cells[q]? = some (k.closer, true)) :
    Meets k.opener (cells.take q).reverse (heightBefore k cells q) i ↔
      i < q ∧ IsPair k cells (q - 1 - i) q := by
  have hq : q ≤ cells.length := (List.getElem?_eq_some_iff.mp h).1.le
  constructor
  · rintro ⟨hmate, hzero, habove⟩
    obtain ⟨hi, hopener⟩ := (getElem?_reverse_take_eq_some_iff hq).mp hmate
    have hheight := sub_eq_zero.mp hzero
    rw [show q - (i + 1) = q - 1 - i from by omega] at hheight
    refine ⟨hi, hopener, h, by omega, hheight.symm, fun j hpj hj => ?_⟩
    have hlt := sub_pos.mp (habove (q - j) (by omega))
    rwa [show q - (q - j) = j from by omega, ← hheight] at hlt
  · rintro ⟨hi, hopener, -, -, hheight, habove⟩
    refine ⟨(getElem?_reverse_take_eq_some_iff hq).mpr ⟨hi, hopener⟩, ?_, fun j hj => ?_⟩
    · rw [heightBefore, hheight, show q - (i + 1) = q - 1 - i from by omega, sub_self]
    · rw [heightBefore, hheight]
      exact sub_pos.mpr (habove (q - j) (by omega) (by omega))

/-- The partner of an opening bracket is the closing bracket it pairs with. -/
lemma partnerIn_opener_iff {p q : ℕ} (h : cells[p]? = some (k.opener, true)) :
    partnerIn cells p = some q ↔ IsPair k cells p q := by
  have hstart : heightBehind k cells p 0 = (0 : ℕ) + 1 := by
    rw [heightBehind, Nat.add_zero, height_succ_of_opener h]
    push_cast
    ring
  rw [partnerIn, h]
  simp only [Kind.ofChar?_opener, if_true, Option.map_eq_some_iff, meets_heightBehind_iff h,
    stepsToMate_eq_some_iff (Kind.opener_ne_closer k k).symm (fun _ _ => heightBehind_succ) hstart]
  constructor
  · rintro ⟨n, ⟨i, hi, rfl⟩, rfl⟩
    rwa [Nat.zero_add]
  · intro hpq
    have hlt := hpq.lt
    refine ⟨q - (p + 1), ⟨q - (p + 1), ?_, by omega⟩, by omega⟩
    rwa [show p + 1 + (q - (p + 1)) = q from by omega]

/-- The partner of a closing bracket is the opening bracket it pairs with. -/
lemma partnerIn_closer_iff {p q : ℕ} (h : cells[q]? = some (k.closer, true)) :
    partnerIn cells q = some p ↔ IsPair k cells p q := by
  have hq : q ≤ cells.length := (List.getElem?_eq_some_iff.mp h).1.le
  have hstart : heightBefore k cells q 0 = (0 : ℕ) + 1 := by
    rw [heightBefore, Nat.sub_zero, height_succ_of_closer h]
    push_cast
    ring
  rw [partnerIn, h]
  simp only [Kind.ofChar?_closer, if_neg (Kind.opener_ne_closer k k).symm, Option.map_eq_some_iff,
    stepsToMate_eq_some_iff (Kind.opener_ne_closer k k) (fun _ _ => heightBefore_succ hq) hstart,
    meets_heightBefore_iff h]
  constructor
  · rintro ⟨n, ⟨i, ⟨-, hi⟩, rfl⟩, rfl⟩
    rwa [Nat.zero_add]
  · intro hpq
    have hlt := hpq.lt
    refine ⟨q - 1 - p, ⟨q - 1 - p, ⟨by omega, ?_⟩, by omega⟩, by omega⟩
    rwa [show q - 1 - (q - 1 - p) = p from by omega]

/-- A bracket that closes a pair is closed by no other bracket than its partner. -/
lemma IsPair.left_unique {p p' q : ℕ} (h : IsPair k cells p q) (h' : IsPair k cells p' q) :
    p = p' :=
  Option.some_inj.mp (((partnerIn_closer_iff h.closer).mpr h).symm.trans
    ((partnerIn_closer_iff h.closer).mpr h'))

end RainbowBrackets
