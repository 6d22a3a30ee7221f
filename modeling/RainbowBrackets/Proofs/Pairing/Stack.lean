import RainbowBrackets.Proofs.Pairing.Height

/-!
Pairing with a stack.

One pass from left to right over the program text, with the opening brackets of one kind that
wait for their partner on a stack: an opening bracket goes on top, a closing one takes the top
off and pairs with it, and is left alone if nothing waits.

* `stackPairs`: the pairs that the pass finds, and `Document.pairs` those of a document;
* `Frontier`: what is known of the stack at a position: it holds the brackets that are open
  there, each one level above the one below it; `Frontier.push`, `Frontier.pop`,
  `Frontier.ignore`, `Frontier.skip` are the four steps of the pass;
* `mem_stackPairs_iff`: the pass finds exactly the pairs by height, hence
  `Document.mem_pairs_iff`, and each once (`stackPairs_nodup`).
-/

namespace RainbowBrackets

/-- The pairs of kind `k` found from position `p` on; the brackets that wait for their partner
are on the stack. -/
def stackPairs (k : Kind) : List ℕ → ℕ → List (Char × Bool) → List (ℕ × ℕ)
  | _, _, [] => []
  | waiting, p, x :: rest =>
      if x = (k.opener, true) then stackPairs k (p :: waiting) (p + 1) rest
      else if x = (k.closer, true) then
        match waiting with
        | [] => stackPairs k [] (p + 1) rest
        | a :: waiting => (a, p) :: stackPairs k waiting (p + 1) rest
      else stackPairs k waiting (p + 1) rest

/-- The pairs of kind `k` of a document. -/
def Document.pairs (d : Document) (k : Kind) : List (ℕ × ℕ) := stackPairs k [] 0 d.cells

/-- The opening bracket at `a` has no partner before `p`. -/
structure IsOpenAt (k : Kind) (cells : List (Char × Bool)) (p a : ℕ) : Prop where
  lt : a < p
  opener : cells[a]? = some (k.opener, true)
  above : ∀ i, a < i → i ≤ p → height k cells a < height k cells i

/-- The stack holds open brackets, each one level above the one below it. -/
inductive Tower (k : Kind) (cells : List (Char × Bool)) : List ℕ → ℕ → Prop
  | nil (p : ℕ) : Tower k cells [] p
  | cons {a p : ℕ} {waiting : List ℕ} (hopen : IsOpenAt k cells p a)
      (hlevel : height k cells p = height k cells a + 1) (hbelow : Tower k cells waiting a) :
      Tower k cells (a :: waiting) p

/-- The stack before position `p` holds exactly the brackets that are open there. -/
structure Frontier (k : Kind) (cells : List (Char × Bool)) (waiting : List ℕ) (p : ℕ) : Prop where
  tower : Tower k cells waiting p
  complete : ∀ a, IsOpenAt k cells p a → a ∈ waiting

variable {k : Kind} {cells : List (Char × Bool)} {waiting : List ℕ} {a b p : ℕ}

/-! ### The steps of the pass -/

section Step

variable {rest : List (Char × Bool)}

lemma stackPairs_cons_opener : stackPairs k waiting p ((k.opener, true) :: rest)
    = stackPairs k (p :: waiting) (p + 1) rest := by
  cases waiting <;> simp [stackPairs]

lemma stackPairs_nil_cons_closer :
    stackPairs k [] p ((k.closer, true) :: rest) = stackPairs k [] (p + 1) rest := by
  simp [stackPairs, (Kind.opener_ne_closer k k).symm]

lemma stackPairs_cons_cons_closer : stackPairs k (a :: waiting) p ((k.closer, true) :: rest)
    = (a, p) :: stackPairs k waiting (p + 1) rest := by
  simp [stackPairs, (Kind.opener_ne_closer k k).symm]

lemma stackPairs_cons_other {x : Char × Bool} (ho : x ≠ (k.opener, true))
    (hc : x ≠ (k.closer, true)) :
    stackPairs k waiting p (x :: rest) = stackPairs k waiting (p + 1) rest := by
  cases waiting <;> rw [stackPairs, if_neg ho, if_neg hc]

end Step

lemma frontier_zero (k : Kind) (cells : List (Char × Bool)) : Frontier k cells [] 0 :=
  ⟨.nil 0, fun _ h => absurd h.lt (by omega)⟩

/-- An open bracket stays open if the height does not come down to it. -/
lemma IsOpenAt.extend {q : ℕ} (h : IsOpenAt k cells p a) (hpq : p ≤ q)
    (habove : ∀ i, p < i → i ≤ q → height k cells a < height k cells i) :
    IsOpenAt k cells q a := by
  refine ⟨lt_of_lt_of_le h.lt hpq, h.opener, fun i hai hiq => ?_⟩
  rcases Nat.lt_or_ge p i with hpi | hip
  · exact habove i hpi hiq
  · exact h.above i hai hip

/-- A bracket that is open before a later position was open before. -/
lemma IsOpenAt.restrict {q : ℕ} (h : IsOpenAt k cells q a) (hap : a < p) (hpq : p ≤ q) :
    IsOpenAt k cells p a :=
  ⟨hap, h.opener, fun i hai hip => h.above i hai (hip.trans hpq)⟩

/-- A tower stands as long as the height does not fall below its top. -/
lemma Tower.extend {q : ℕ} (h : Tower k cells waiting p) (hpq : p ≤ q)
    (heq : height k cells q = height k cells p)
    (habove : ∀ i, p < i → i ≤ q → height k cells p ≤ height k cells i) :
    Tower k cells waiting q := by
  cases h with
  | nil => exact .nil q
  | cons hopen hlevel hbelow =>
      refine .cons (hopen.extend hpq fun i hpi hiq => ?_) (heq.trans hlevel) hbelow
      have := habove i hpi hiq
      omega

lemma Frontier.push (h : Frontier k cells waiting p) (hx : cells[p]? = some (k.opener, true)) :
    Frontier k cells (p :: waiting) (p + 1) := by
  have hrise := height_succ_of_opener hx
  refine ⟨.cons ⟨by omega, hx, fun i hpi hip => ?_⟩ hrise h.tower, fun a ha => ?_⟩
  · obtain rfl : i = p + 1 := by omega
    omega
  · -- what is open behind an opening bracket is that bracket itself or was open before it
    rcases Nat.eq_or_lt_of_le (Nat.lt_succ_iff.mp ha.lt) with rfl | hap
    · exact List.mem_cons_self
    · exact List.mem_cons_of_mem p (h.complete a (ha.restrict hap (by omega)))

lemma Frontier.skip (h : Frontier k cells waiting p) {x : Char × Bool} (hx : cells[p]? = some x)
    (ho : x ≠ (k.opener, true)) (hc : x ≠ (k.closer, true)) :
    Frontier k cells waiting (p + 1) := by
  have heq := height_succ_of_other hx ho hc
  refine ⟨h.tower.extend (by omega) heq fun i hpi hip => ?_, fun a ha => ?_⟩
  · obtain rfl : i = p + 1 := by omega
    omega
  · rcases Nat.eq_or_lt_of_le (Nat.lt_succ_iff.mp ha.lt) with rfl | hap
    · exact absurd (Option.some_inj.mp (hx.symm.trans ha.opener)) ho
    · exact h.complete a (ha.restrict hap (by omega))

/-- A closing bracket at `p` is not among the open ones, and closes those at its own level. -/
lemma IsOpenAt.before_closer (ha : IsOpenAt k cells (p + 1) a)
    (hx : cells[p]? = some (k.closer, true)) : IsOpenAt k cells p a := by
  refine ha.restrict (lt_of_le_of_ne (Nat.lt_succ_iff.mp ha.lt) ?_) (by omega)
  exact ne_of_opener_of_closer ha.opener hx

lemma Frontier.ignore (h : Frontier k cells [] p) (hx : cells[p]? = some (k.closer, true)) :
    Frontier k cells [] (p + 1) :=
  ⟨.nil (p + 1), fun a ha => h.complete a (ha.before_closer hx)⟩

/-- The bracket on top of the stack pairs with a closing bracket that comes next. -/
lemma Frontier.isPair_top (h : Frontier k cells (a :: waiting) p)
    (hx : cells[p]? = some (k.closer, true)) : IsPair k cells a p := by
  have hfall := height_succ_of_closer hx
  cases h.tower with
  | cons hopen hlevel hbelow =>
      exact ⟨hopen.opener, hx, hopen.lt, by omega, hopen.above⟩

lemma Frontier.pop (h : Frontier k cells (a :: waiting) p)
    (hx : cells[p]? = some (k.closer, true)) : Frontier k cells waiting (p + 1) := by
  have hpair := h.isPair_top hx
  cases h.tower with
  | cons hopen hlevel hbelow =>
      refine ⟨hbelow.extend (by have := hopen.lt; omega) hpair.height_eq fun i hai hip => ?_,
        fun b hb => ?_⟩
      · rcases Nat.eq_or_lt_of_le hip with rfl | hlt
        · exact hpair.height_eq.ge
        · exact (hopen.above i hai (by omega)).le
      · -- the bracket on top is closed: the height at `p + 1` is back to its own
        refine (List.mem_cons.mp (h.complete b (hb.before_closer hx))).resolve_left ?_
        rintro rfl
        have h1 := hb.above (p + 1) hb.lt le_rfl
        have h2 := hpair.height_eq
        omega

/-! ### What the pass finds -/

/-- The head of what is left of a list is where the rest begins. -/
lemma getElem?_of_drop_eq_cons {α : Type} {l rest : List α} {j : ℕ} {x : α}
    (h : l.drop j = x :: rest) : l[j]? = some x ∧ l.drop (j + 1) = rest := by
  constructor
  · rw [← Nat.add_zero j, ← List.getElem?_drop, h, List.getElem?_cons_zero]
  · rw [← List.drop_drop, h, List.drop_succ_cons, List.drop_zero]

/-- A pair that closes at `p` is open before it. -/
lemma IsPair.isOpenAt (h : IsPair k cells a p) : IsOpenAt k cells p a :=
  ⟨h.lt, h.opener, h.above⟩

/-- A bracket that does not pair at `p` pairs from there on if and only if it does later. -/
lemma succ_le_and_isPair_iff (h : ¬ IsPair k cells a p) :
    p + 1 ≤ b ∧ IsPair k cells a b ↔ p ≤ b ∧ IsPair k cells a b := by
  refine and_congr_left fun hab => ⟨Nat.le_of_succ_le, fun hpb => lt_of_le_of_ne hpb ?_⟩
  rintro rfl
  exact h hab

/-- A closing bracket at `p` has one partner only, and all other pairs from there on are later. -/
lemma IsPair.eq_or_succ_le_iff {w : ℕ} (hw : IsPair k cells w p) :
    (a = w ∧ b = p) ∨ p + 1 ≤ b ∧ IsPair k cells a b ↔ p ≤ b ∧ IsPair k cells a b := by
  constructor
  · rintro (⟨rfl, rfl⟩ | ⟨hpb, hab⟩)
    · exact ⟨le_rfl, hw⟩
    · exact ⟨Nat.le_of_succ_le hpb, hab⟩
  · rintro ⟨hpb, hab⟩
    rcases Nat.eq_or_lt_of_le hpb with rfl | hlt
    · exact .inl ⟨hab.left_unique hw, rfl⟩
    · exact .inr ⟨hlt, hab⟩

/-- **The pass finds the pairs by height**: from a position on, those that close there or
later. -/
lemma mem_stackPairs_iff {rest : List (Char × Bool)} (hrest : cells.drop p = rest)
    (h : Frontier k cells waiting p) :
    (a, b) ∈ stackPairs k waiting p rest ↔ p ≤ b ∧ IsPair k cells a b := by
  induction rest generalizing p waiting with
  | nil =>
      have hlen := List.drop_eq_nil_iff.mp hrest
      refine ⟨fun hmem => by simp [stackPairs] at hmem, ?_⟩
      rintro ⟨hpb, hab⟩
      have := (List.getElem?_eq_some_iff.mp hab.closer).1
      omega
  | cons x rest ih =>
      obtain ⟨hx, hdrop⟩ := getElem?_of_drop_eq_cons hrest
      by_cases ho : x = (k.opener, true)
      · rw [ho] at hx ⊢
        rw [stackPairs_cons_opener, ih hdrop (h.push hx)]
        exact succ_le_and_isPair_iff fun hap => ne_of_opener_of_closer hx hap.closer rfl
      by_cases hc : x = (k.closer, true)
      · rw [hc] at hx ⊢
        cases waiting with
        | nil =>
            rw [stackPairs_nil_cons_closer, ih hdrop (h.ignore hx)]
            exact succ_le_and_isPair_iff fun hap =>
              absurd (h.complete a hap.isOpenAt) List.not_mem_nil
        | cons w waiting =>
            rw [stackPairs_cons_cons_closer, List.mem_cons, ih hdrop (h.pop hx), Prod.mk.injEq]
            exact (h.isPair_top hx).eq_or_succ_le_iff
      · rw [stackPairs_cons_other ho hc, ih hdrop (h.skip hx ho hc)]
        exact succ_le_and_isPair_iff fun hap => hc (Option.some_inj.mp (hx.symm.trans hap.closer))

/-- The pass over a whole document finds the pairs by height. -/
lemma Document.mem_pairs_iff {d : Document} : (a, b) ∈ d.pairs k ↔ IsPair k d.cells a b := by
  rw [Document.pairs, mem_stackPairs_iff List.drop_zero (frontier_zero k d.cells)]
  exact ⟨fun h => h.2, fun h => ⟨Nat.zero_le b, h⟩⟩

/-- The pairs that are found from `p` on close there or later, and each is found once. -/
lemma stackPairs_nodup (k : Kind) (rest : List (Char × Bool)) (waiting : List ℕ) (p : ℕ) :
    (∀ x ∈ stackPairs k waiting p rest, p ≤ x.2) ∧ (stackPairs k waiting p rest).Nodup := by
  induction rest generalizing waiting p with
  | nil => simp [stackPairs]
  | cons x rest ih =>
      have later : ∀ waiting, (∀ x ∈ stackPairs k waiting (p + 1) rest, p ≤ x.2) ∧
          (stackPairs k waiting (p + 1) rest).Nodup := fun waiting =>
        ⟨fun y hy => by have := (ih waiting (p + 1)).1 y hy; omega, (ih waiting (p + 1)).2⟩
      by_cases ho : x = (k.opener, true)
      · rw [ho, stackPairs_cons_opener]
        exact later _
      by_cases hc : x = (k.closer, true)
      · rw [hc]
        cases waiting with
        | nil =>
            rw [stackPairs_nil_cons_closer]
            exact later _
        | cons a waiting =>
            rw [stackPairs_cons_cons_closer]
            refine ⟨fun y hy => ?_, List.nodup_cons.mpr ⟨fun hmem => ?_, (later _).2⟩⟩
            · rcases List.mem_cons.mp hy with rfl | hy
              · exact le_rfl
              · exact (later _).1 y hy
            · have := (ih waiting (p + 1)).1 _ hmem
              simp at this
      · rw [stackPairs_cons_other ho hc]
        exact later _

lemma Document.nodup_pairs (d : Document) (k : Kind) : (d.pairs k).Nodup :=
  (stackPairs_nodup k d.cells [] 0).2

end RainbowBrackets
