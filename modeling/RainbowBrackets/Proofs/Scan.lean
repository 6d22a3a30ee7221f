import RainbowBrackets.Proofs.Pairing.Stack
import RainbowBrackets.Proofs.Tracker.Cover

/-!
What a scan of a whole document computes.

* `Document.IsNesting`: an index is the nesting of a document: its entries are the opening
  brackets in program text, with the lengths that the pass with a stack gives, and the orders
  are the numbers of pairs around them;
* `Document.Records.isNesting`: this follows once the index records the truth, since pairs do
  not cross and the order pass counts the pairs around where they do not;
* `scan_isNesting` (**scanning**): it is what ticking until idle leaves in a new tracker.
-/

namespace RainbowBrackets

variable {d : Document} {t : Tracker} {k : Kind} {idx : Index} {p q : ℕ} {e : Entry}

/-- The index `idx` is the nesting of the brackets of kind `k`: it holds the opening brackets in
program text, each with the distance to the bracket that the pass with a stack pairs it with,
and, if there is one, with the number of pairs around it. -/
structure Document.IsNesting (d : Document) (k : Kind) (idx : Index) : Prop where
  contains_iff : ∀ p, idx.contains p = true ↔ d.text[p]? = some k.opener ∧ d.mask[p]? = some true
  length_eq_some_iff : ∀ p e, idx.get? p = some e →
    ∀ q, p < q ∧ e.length = some (q - p) ↔ (p, q) ∈ d.pairs k
  length_eq_none_iff : ∀ p e, idx.get? p = some e →
    (e.length = none ↔ ∀ q, (p, q) ∉ d.pairs k)
  order_eq : ∀ p e, idx.get? p = some e →
    e.order = e.length.map fun _ => (d.pairs k).countP fun x => x.1 < p && p < x.2

/-! ### Entries and pairs -/

/-- The index of kind `k` records the truth. -/
def Document.Records (d : Document) (k : Kind) (idx : Index) : Prop :=
  ∀ s, (idx.get? s).map (Entry.end? · s) = d.truth k s

namespace Document.Records

lemma opener (h : d.Records k idx) (he : idx.get? p = some e) :
    d.cells[p]? = some (k.opener, true) := by
  by_contra hcell
  have hp := h p
  rw [he, truth_of_ne hcell] at hp
  cases hp

/-- An entry ends where its bracket is paired. -/
lemma end?_eq (h : d.Records k idx) (he : idx.get? p = some e) : e.end? p = d.partner p := by
  have hp := h p
  rw [he, truth_of_opener (h.opener he)] at hp
  exact Option.some_inj.mp hp

lemma end?_eq_some_iff (h : d.Records k idx) (he : idx.get? p = some e) :
    e.end? p = some q ↔ IsPair k d.cells p q := by
  rw [h.end?_eq he, Document.partner, partnerIn_opener_iff (h.opener he)]

lemma contains_iff (h : d.Records k idx) (p : ℕ) :
    idx.contains p = true ↔ d.text[p]? = some k.opener ∧ d.mask[p]? = some true := by
  rw [← getElem?_cells_eq_some_iff, NatMap.contains_iff]
  refine ⟨fun ⟨e, he⟩ => h.opener he, fun hcell => ?_⟩
  have hp := h p
  rw [truth_of_opener hcell, Option.map_eq_some_iff] at hp
  obtain ⟨e, he, -⟩ := hp
  exact ⟨e, he⟩

lemma length_eq_some_iff (h : d.Records k idx) (he : idx.get? p = some e) (q : ℕ) :
    p < q ∧ e.length = some (q - p) ↔ (p, q) ∈ d.pairs k := by
  rw [mem_pairs_iff, ← h.end?_eq_some_iff he]
  exact Entry.lt_and_length_iff fun r hr => ((h.end?_eq_some_iff he).mp hr).lt

lemma length_eq_none_iff (h : d.Records k idx) (he : idx.get? p = some e) :
    e.length = none ↔ ∀ q, (p, q) ∉ d.pairs k := by
  constructor
  · intro hlen q hq
    have := ((h.length_eq_some_iff he q).mpr hq).2
    rw [hlen] at this
    cases this
  · intro hno
    rw [Option.eq_none_iff_forall_not_mem]
    intro n hn
    refine hno (p + n) ((mem_pairs_iff).mpr ((h.end?_eq_some_iff he).mp ?_))
    exact Entry.end?_eq_some_iff.mpr ⟨n, hn, rfl⟩

/-- Pairs do not cross. -/
lemma pairwise_laminar (h : d.Records k idx) : idx.entries.Pairwise Laminar := by
  refine (List.pairwise_map.mp idx.ascending).imp_of_mem fun {x y} hx hy hlt => ?_
  obtain ⟨a, ea⟩ := x
  obtain ⟨b, eb⟩ := y
  intro q r hq hr
  have hq := (h.end?_eq_some_iff (NatMap.mem_entries.mp hx)).mp hq
  have hr := (h.end?_eq_some_iff (NatMap.mem_entries.mp hy)).mp hr
  exact (hq.lt_or_nested hr hlt).imp_right le_of_lt

/-- An index that records the truth records each pair once. -/
lemma perm_pairs (h : d.Records k idx) : (idx.entries.filterMap pair?).Perm (d.pairs k) := by
  have hnodup : (idx.entries.filterMap pair?).Nodup := by
    refine List.pairwise_filterMap.mpr ((List.pairwise_map.mp idx.ascending).imp ?_)
    intro x y hlt a ha b hb hab
    obtain ⟨q, -, rfl⟩ := Option.map_eq_some_iff.mp ha
    obtain ⟨r, -, rfl⟩ := Option.map_eq_some_iff.mp hb
    exact hlt.ne (Prod.mk.inj hab).1
  refine (List.perm_ext_iff_of_nodup hnodup (d.nodup_pairs k)).mpr fun x => ?_
  obtain ⟨a, b⟩ := x
  rw [mem_pairs_iff, List.mem_filterMap]
  constructor
  · rintro ⟨⟨s, e⟩, hmem, hx⟩
    obtain ⟨q, hq, heq⟩ := Option.map_eq_some_iff.mp hx
    obtain ⟨rfl, rfl⟩ := Prod.mk.inj heq
    exact (h.end?_eq_some_iff (NatMap.mem_entries.mp hmem)).mp hq
  · intro hab
    obtain ⟨e, he⟩ := NatMap.contains_iff.mp
      ((h.contains_iff a).mpr (getElem?_cells_eq_some_iff.mp hab.opener))
    refine ⟨(a, e), NatMap.mem_entries.mpr he, ?_⟩
    rw [pair?, (h.end?_eq_some_iff he).mpr hab]
    rfl

/-- The entries around an opening bracket are as many as the pairs around it. -/
lemma countP_encloses (h : d.Records k idx) (hp : d.cells[p]? = some (k.opener, true)) :
    idx.entries.countP (encloses p)
      = (d.pairs k).countP fun x => x.1 < p && p < x.2 := by
  rw [← RainbowBrackets.countP_encloses, (h.perm_pairs.filter _).countP_eq, List.countP_filter]
  refine List.countP_congr fun x hx => ?_
  -- no pair ends at the position of an opening bracket
  have hpx : p ≠ x.2 := ne_of_opener_of_closer hp (mem_pairs_iff.mp hx).closer
  simp only [Bool.and_eq_true, decide_eq_true_eq]
  omega

/-- An index that records the truth, with orders that are up to date, is the nesting. -/
lemma isNesting (h : d.Records k idx) (hord : idx.Ordered) : d.IsNesting k idx where
  contains_iff := h.contains_iff
  length_eq_some_iff _ _ he := h.length_eq_some_iff he
  length_eq_none_iff _ _ he := h.length_eq_none_iff he
  order_eq p e he := by
    have he' : idx.reorder.1.get? p = some e := by rw [hord]; exact he
    calc e.order = e.length.map fun _ => idx.entries.countP (encloses p) :=
          Index.order_reorder h.pairwise_laminar he'
      _ = e.length.map fun _ => (d.pairs k).countP fun x => x.1 < p && p < x.2 := by
          rw [h.countP_encloses (h.opener he)]

end Document.Records

/-! ### The scan -/

/-- **Scanning.**  Ticking a new tracker until it is idle leaves the nesting of the document in
the index of every tracked kind, and nothing in the others. -/
theorem scan_isNesting (text : Text) (language : Language) (enabled : KindSet) (budget : ℕ)
    (k : Kind) :
    let d := Document.ofText text language
    let idx := ((Tracker.new enabled).settle d.host budget).1.indices.get k
    (enabled.get k = true → d.IsNesting k idx) ∧ (enabled.get k = false → idx = ∅) := by
  intro d idx
  have hd : d.Classified := Document.classified_ofText text language
  have hnew := Tracker.consistent_new d enabled
  refine ⟨fun hk => ?_, fun hk => ?_⟩
  · have hrec : d.Records k idx := Tracker.known_settle hd hnew budget hk
    exact hrec.isNesting (Tracker.ordered_settle d.host budget hnew.ordersFresh hk)
  · refine ((Tracker.stable_keyed hd).settle budget hnew.keyed).untracked k ?_
    rw [Tracker.enabled_settle]
    exact hk

end RainbowBrackets
